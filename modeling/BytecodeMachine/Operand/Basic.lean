import BytecodeMachine.LittleEndian
import BytecodeMachine.Registers

/-!
# Operands

An operand starts with a mode byte: the addressing mode in the high nibble, a
register or a detail of the mode in the low nibble.  Some modes are followed by
an extension: a four-byte displacement, a descriptor byte that names a base and an
index register, an immediate of the operand's size or an eight-byte address.

`Operand.encode` writes an operand of a given size, `Operand.parse?` reads one
from the front of a byte list together with its length.
-/

namespace BytecodeMachine

/-- How an address register moves when an operand is used. -/
inductive Stepping where
  | postIncrement
  | postDecrement
  | preIncrement
  | preDecrement
  deriving DecidableEq, Repr, Inhabited

/-- The addressing mode of a mode byte.  A `far` indexed mode has a
displacement. -/
inductive Mode where
  | register (bank : Bank) (r : UInt8)
  | indirect (r : UInt8)
  | stepped (s : Stepping) (r : UInt8)
  | displaced (r : UInt8)
  | indexed (width : Width) (scale : UInt8) (far : Bool)
  | sameAsDestination
  | codeRelative
  | codeIndexed (detail : UInt8) (far : Bool)
  | immediate
  | absolute
  | reserved
  deriving DecidableEq, Repr, Inhabited

namespace Mode

/-- The mode of a byte. -/
def ofByte (byte : UInt8) : Mode :=
  let low := byte &&& 0xf
  match (byte >>> 4).toNat with
  | 0x0 => register .general low
  | 0x1 => indirect low
  | 0x2 => stepped .postIncrement low
  | 0x3 => stepped .postDecrement low
  | 0x4 => stepped .preIncrement low
  | 0x5 => stepped .preDecrement low
  | 0x6 => displaced low
  | 0x7 => indexed (.ofCode low) (low >>> 2) false
  | 0x8 => indexed (.ofCode low) (low >>> 2) true
  | 0x9 => register .float low
  | 0xa => sameAsDestination
  | 0xb => codeRelative
  | 0xc => codeIndexed low false
  | 0xd => codeIndexed low true
  | 0xf => if low = 0 then immediate else if low = 1 then absolute else reserved
  | _ => reserved

/-- The number of bytes after the mode byte, for an operand of `size` bytes. -/
def extensionLength (mode : Mode) (size : Nat) : Nat :=
  match mode with
  | displaced _ | codeRelative => 4
  | indexed _ _ far | codeIndexed _ far => if far then 5 else 1
  | immediate => size
  | absolute => 8
  | _ => 0

end Mode

/-- An operand in symbolic form. -/
inductive Operand where
  | register (bank : Bank) (r : UInt8)
  | indirect (r : UInt8)
  | stepped (s : Stepping) (r : UInt8)
  | displaced (r : UInt8) (d : Int32)
  /-- Base plus scaled index, with an optional displacement. -/
  | indexed (base index : UInt8) (width : Width) (scale : UInt8) (d : Option Int32)
  /-- The location of the destination operand. -/
  | sameAsDestination
  /-- An address relative to the end of the operand. -/
  | codeRelative (d : Int32)
  /-- The address of a label, encoded relative to the end of the operand. -/
  | codeLabel (label : String)
  /-- A mode without a location that still owns a descriptor. -/
  | codeIndexed (detail descriptor : UInt8) (d : Option Int32)
  | immediate (value : UInt64)
  | absolute (address : UInt64)
  /-- A mode byte without a meaning. -/
  | reserved (byte : UInt8)
  deriving DecidableEq, Repr, Inhabited

namespace Operand

/-- A byte from the low nibbles of two numbers. -/
def nibbles (high low : UInt8) : UInt8 := (high <<< 4) ||| (low &&& 0xf)

/-- The low two bits of a scale, in their place in the mode byte. -/
def scaleBits (scale : UInt8) : UInt8 := (scale &&& 0x3) <<< 2

/-- The mode byte of an indexed operand. -/
def indexedByte (high : UInt8) (width : Width) (scale : UInt8) : UInt8 :=
  nibbles high (width.code ||| scaleBits scale)

/-- The descriptor byte: base register in the low nibble, index in the high. -/
def descriptorByte (base index : UInt8) : UInt8 := nibbles index base

/-- The high nibble of a stepping mode. -/
def steppingNibble : Stepping → UInt8
  | .postIncrement => 0x2
  | .postDecrement => 0x3
  | .preIncrement => 0x4
  | .preDecrement => 0x5

/-- The bytes of an operand of `size` bytes. -/
def encode (o : Operand) (size : Nat) : List UInt8 :=
  match o with
  | register .general r => [nibbles 0x0 r]
  | register .float r => [nibbles 0x9 r]
  | indirect r => [nibbles 0x1 r]
  | stepped s r => [nibbles (steppingNibble s) r]
  | displaced r d => nibbles 0x6 r :: LittleEndian.ofDisplacement d
  | indexed base index width scale none =>
      [indexedByte 0x7 width scale, descriptorByte base index]
  | indexed base index width scale (some d) =>
      indexedByte 0x8 width scale :: descriptorByte base index ::
        LittleEndian.ofDisplacement d
  | sameAsDestination => [nibbles 0xa 0]
  | codeRelative d => nibbles 0xb 0 :: LittleEndian.ofDisplacement d
  | codeLabel _ => nibbles 0xb 0 :: LittleEndian.ofDisplacement 0
  | codeIndexed detail descriptor none => [nibbles 0xc detail, descriptor]
  | codeIndexed detail descriptor (some d) =>
      nibbles 0xd detail :: descriptor :: LittleEndian.ofDisplacement d
  | immediate value => nibbles 0xf 0 :: LittleEndian.encode size value.toNat
  | absolute address => nibbles 0xf 1 :: LittleEndian.encode 8 address.toNat
  | reserved byte => [byte]

/-- The operand of a mode byte and its complete extension. -/
def ofParts (byte : UInt8) (extension : List UInt8) : Operand :=
  let descriptor := extension.headD 0
  match Mode.ofByte byte with
  | .register bank r => register bank r
  | .indirect r => indirect r
  | .stepped s r => stepped s r
  | .displaced r => displaced r (LittleEndian.displacement extension)
  | .indexed width scale far =>
      indexed (descriptor &&& 0xf) (descriptor >>> 4) width scale
        (if far then some (LittleEndian.displacement extension.tail) else none)
  | .sameAsDestination => sameAsDestination
  | .codeRelative => codeRelative (LittleEndian.displacement extension)
  | .codeIndexed detail far =>
      codeIndexed detail descriptor
        (if far then some (LittleEndian.displacement extension.tail) else none)
  | .immediate => immediate (LittleEndian.word64 (extension.take 8))
  | .absolute => absolute (LittleEndian.word64 extension)
  | .reserved => reserved byte

/-- The operand of `size` bytes at the front of a byte list, with the number of
bytes it occupies; nothing if the list ends before the operand does. -/
def parse? (bytes : List UInt8) (size : Nat) : Option (Operand × Nat) :=
  match bytes with
  | [] => none
  | byte :: rest =>
      let length := (Mode.ofByte byte).extensionLength size
      let extension := rest.take length
      if extension.length < length then none
      else some (ofParts byte extension, 1 + length)

/-- A single-precision immediate. -/
def immediateSingle (bits : UInt32) : Operand := immediate bits.toUInt64

end Operand

end BytecodeMachine
