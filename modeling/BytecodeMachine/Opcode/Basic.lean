import BytecodeMachine.Floating.Operation
import BytecodeMachine.Integer.Operation

/-!
# Opcodes

The instruction set by families: most opcodes are an operation at a width or a
precision.  An opcode's byte is its place in the table `all`.  The main
statements: the table is in the order of the bytes, and reading the byte of an
opcode gives the opcode back.
-/

namespace BytecodeMachine

/-- A sign extension from a narrow to a wider width. -/
inductive Extension where
  | byteToWord
  | byteToLong
  | byteToQuad
  | wordToLong
  | wordToQuad
  | longToQuad
  deriving DecidableEq, Repr, Inhabited

namespace Extension

/-- The extensions in the order of their bytes. -/
def all : List Extension :=
  [byteToWord, byteToLong, byteToQuad, wordToLong, wordToQuad, longToQuad]

/-- The width read. -/
def source : Extension → Width
  | byteToWord | byteToLong | byteToQuad => .byte
  | wordToLong | wordToQuad => .word
  | longToQuad => .long

/-- The width written. -/
def target : Extension → Width
  | byteToWord => .word
  | byteToLong | wordToLong => .long
  | byteToQuad | wordToQuad | longToQuad => .quad

end Extension

/-- An operation of the instruction set. -/
inductive Opcode where
  | stop
  | host
  | bra
  | bsr
  | jmp
  | jsr
  | rts
  | bmc
  | bdc
  | dbnz
  | smc
  | sdc
  | move (w : Width)
  | fmove (p : Precision)
  | clr (w : Width)
  | exg
  | fexg
  | savem
  | loadm
  | link
  | unlk
  | lea
  | pea
  /-- Sign extension. -/
  | ext (e : Extension)
  /-- Conversion of a signed integer to a real. -/
  | realOfInteger (w : Width) (p : Precision)
  /-- Conversion of a real to a signed integer. -/
  | integerOfReal (p : Precision) (w : Width)
  /-- Conversion of a real to the other precision. -/
  | convert (source : Precision)
  | integerBinary (op : Integer.Binary) (w : Width)
  | integerUnary (op : Integer.Unary) (w : Width)
  | shift (op : Integer.Shift) (w : Width)
  | realBinary (op : Floating.Binary) (p : Precision)
  | realUnary (op : Floating.Unary) (p : Precision)
  deriving DecidableEq, Repr, Inhabited

namespace Opcode

/-- An opcode family at every width. -/
def atWidths (family : Width → Opcode) : List Opcode := Width.all.map family

/-- An opcode family at both precisions. -/
def atPrecisions (family : Precision → Opcode) : List Opcode := Precision.all.map family

/-- Transfers of control and conditions. -/
def transfers : List Opcode :=
  [stop, host, bra, bsr, jmp, jsr, rts, bmc, bdc, dbnz, smc, sdc]

/-- Moves of registers, blocks, frames and addresses. -/
def moves : List Opcode :=
  atWidths move ++ atPrecisions fmove ++ atWidths clr ++
    [exg, fexg, savem, loadm, link, unlk, lea, pea]

/-- Sign extensions and conversions. -/
def conversions : List Opcode :=
  Extension.all.map ext ++
    Width.all.flatMap (fun w => atPrecisions (realOfInteger w)) ++
    Precision.all.flatMap (fun p => atWidths (integerOfReal p)) ++
    atPrecisions convert

/-- Bitwise operations and shifts. -/
def bitwise : List Opcode :=
  [Integer.Binary.and, .or, .eor].flatMap (fun op => atWidths (integerBinary op)) ++
    atWidths (integerUnary .not) ++
    Integer.Shift.all.flatMap (fun op => atWidths (shift op))

/-- Integer arithmetic. -/
def arithmetic : List Opcode :=
  [Integer.Binary.add, .sub].flatMap (fun op => atWidths (integerBinary op)) ++
    atWidths (integerUnary .neg) ++
    [Integer.Binary.muls, .mulu, .divs, .divu, .mods, .modu].flatMap
      (fun op => atWidths (integerBinary op))

/-- Arithmetic and functions of reals. -/
def reals : List Opcode :=
  Floating.Binary.all.flatMap (fun op => atPrecisions (realBinary op)) ++
    Floating.Unary.all.flatMap (fun op => atPrecisions (realUnary op))

/-- Every opcode, in the order of the bytes. -/
def all : List Opcode := transfers ++ moves ++ conversions ++ bitwise ++ arithmetic ++ reals

/-- The opcodes under their bytes. -/
def table : Array Opcode := all.toArray

/-- The opcode of a byte. -/
def ofByte? (byte : UInt8) : Option Opcode := table[byte.toNat]?

/-- The place of an integer operation among the integer families. -/
def integerSlot : Integer.Binary → UInt8
  | .and => 0
  | .or => 1
  | .eor => 2
  | .add => 11
  | .sub => 12
  | .muls => 14
  | .mulu => 15
  | .divs => 16
  | .divu => 17
  | .mods => 18
  | .modu => 19

/-- The place of a one-operand operation among the integer families. -/
def integerUnarySlot : Integer.Unary → UInt8
  | .not => 3
  | .neg => 13

/-- The place of a shift among the integer families. -/
def shiftSlot : Integer.Shift → UInt8
  | .lsl => 4
  | .lsr => 5
  | .asr => 6
  | .rol => 7
  | .ror => 8
  | .bclr => 9
  | .bset => 10

/-- The place of an operation among the families of reals. -/
def realSlot : Floating.Binary → UInt8
  | .add => 0
  | .sub => 1
  | .mul => 2
  | .div => 3
  | .mod => 4

/-- The place of a function among the families of reals. -/
def realUnarySlot : Floating.Unary → UInt8
  | .abs => 5
  | .neg => 6
  | .sqrt => 7
  | .inv => 8
  | .acos => 9
  | .asin => 10
  | .atan => 11
  | .cos => 12
  | .sin => 13
  | .tan => 14
  | .cosh => 15
  | .sinh => 16
  | .tanh => 17
  | .etox => 18
  | .logn => 19
  | .log2 => 20
  | .log10 => 21
  | .twotox => 22

/-- The byte of an opcode. -/
def byte : Opcode → UInt8
  | stop => 0x00
  | host => 0x01
  | bra => 0x02
  | bsr => 0x03
  | jmp => 0x04
  | jsr => 0x05
  | rts => 0x06
  | bmc => 0x07
  | bdc => 0x08
  | dbnz => 0x09
  | smc => 0x0a
  | sdc => 0x0b
  | move w => 0x0c + w.code
  | fmove p => 0x10 + p.code
  | clr w => 0x12 + w.code
  | exg => 0x16
  | fexg => 0x17
  | savem => 0x18
  | loadm => 0x19
  | link => 0x1a
  | unlk => 0x1b
  | lea => 0x1c
  | pea => 0x1d
  | ext .byteToWord => 0x1e
  | ext .byteToLong => 0x1f
  | ext .byteToQuad => 0x20
  | ext .wordToLong => 0x21
  | ext .wordToQuad => 0x22
  | ext .longToQuad => 0x23
  | realOfInteger w p => 0x24 + 2 * w.code + p.code
  | integerOfReal p w => 0x2c + 4 * p.code + w.code
  | convert p => 0x34 + p.code
  | integerBinary op w => 0x36 + 4 * integerSlot op + w.code
  | integerUnary op w => 0x36 + 4 * integerUnarySlot op + w.code
  | shift op w => 0x36 + 4 * shiftSlot op + w.code
  | realBinary op p => 0x86 + 2 * realSlot op + p.code
  | realUnary op p => 0x86 + 2 * realUnarySlot op + p.code

theorem ofByte?_byte (op : Opcode) : ofByte? op.byte = some op := by
  have widths (w : Width) : w ∈ Width.all := by cases w <;> decide
  have precisions (p : Precision) : p ∈ Precision.all := by cases p <;> decide
  cases op
  case move w =>
    have agree : ∀ w ∈ Width.all, ofByte? (move w).byte = some (move w) := by decide +kernel
    exact agree w (widths w)
  case fmove p =>
    have agree : ∀ p ∈ Precision.all, ofByte? (fmove p).byte = some (fmove p) := by
      decide +kernel
    exact agree p (precisions p)
  case clr w =>
    have agree : ∀ w ∈ Width.all, ofByte? (clr w).byte = some (clr w) := by decide +kernel
    exact agree w (widths w)
  case ext e => cases e <;> decide +kernel
  case realOfInteger w p =>
    have agree : ∀ w ∈ Width.all, ∀ p ∈ Precision.all,
        ofByte? (realOfInteger w p).byte = some (realOfInteger w p) := by decide +kernel
    exact agree w (widths w) p (precisions p)
  case integerOfReal p w =>
    have agree : ∀ p ∈ Precision.all, ∀ w ∈ Width.all,
        ofByte? (integerOfReal p w).byte = some (integerOfReal p w) := by decide +kernel
    exact agree p (precisions p) w (widths w)
  case convert p =>
    have agree : ∀ p ∈ Precision.all, ofByte? (convert p).byte = some (convert p) := by
      decide +kernel
    exact agree p (precisions p)
  case integerBinary op w =>
    have agree : ∀ op ∈ Integer.Binary.all, ∀ w ∈ Width.all,
        ofByte? (integerBinary op w).byte = some (integerBinary op w) := by decide +kernel
    exact agree op (by cases op <;> decide) w (widths w)
  case integerUnary op w =>
    have agree : ∀ op ∈ Integer.Unary.all, ∀ w ∈ Width.all,
        ofByte? (integerUnary op w).byte = some (integerUnary op w) := by decide +kernel
    exact agree op (by cases op <;> decide) w (widths w)
  case shift op w =>
    have agree : ∀ op ∈ Integer.Shift.all, ∀ w ∈ Width.all,
        ofByte? (shift op w).byte = some (shift op w) := by decide +kernel
    exact agree op (by cases op <;> decide) w (widths w)
  case realBinary op p =>
    have agree : ∀ op ∈ Floating.Binary.all, ∀ p ∈ Precision.all,
        ofByte? (realBinary op p).byte = some (realBinary op p) := by decide +kernel
    exact agree op (by cases op <;> decide) p (precisions p)
  case realUnary op p =>
    have agree : ∀ op ∈ Floating.Unary.all, ∀ p ∈ Precision.all,
        ofByte? (realUnary op p).byte = some (realUnary op p) := by decide +kernel
    exact agree op (by cases op <;> decide) p (precisions p)
  all_goals decide +kernel

end Opcode

end BytecodeMachine
