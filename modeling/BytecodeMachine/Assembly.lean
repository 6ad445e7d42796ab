import BytecodeMachine.Image
import BytecodeMachine.Instruction.Basic

/-!
# Assembly

A program is a sequence of statements: labels, raw bytes and instructions whose
branches and operands may name labels.  Statements are added to a draft one by
one.  A label reference is emitted as a four-byte field of zeros; finishing the
draft writes into each field the displacement from its end to the label.

Finishing reports the first error that occurred while statements were added,
and otherwise the first reference, in the order of emission, that cannot be
resolved.
-/

namespace BytecodeMachine

/-- Why a program cannot be assembled. -/
inductive AssemblyError where
  | duplicateLabel (label : String)
  | unknownLabel (label : String)
  | operandCount (opcode : Opcode) (expected got : Nat)
  /-- The opcode does not take operands alone. -/
  | wrongLayout (opcode : Opcode)
  | displacementOverflow (label : String)
  deriving DecidableEq, Repr

/-- The wording of an assembly error. -/
def AssemblyError.message : AssemblyError → String
  | duplicateLabel label => "duplicate label '" ++ label ++ "'"
  | unknownLabel label => "unknown label '" ++ label ++ "'"
  | operandCount opcode expected got =>
      opcode.mnemonic ++ " takes " ++ Text.decimal expected ++ " operands, got " ++
        Text.decimal got
  | wrongLayout opcode => opcode.mnemonic ++ " needs its dedicated builder method"
  | displacementOverflow label => "label '" ++ label ++ "' is out of displacement range"

/-- A statement of a program. -/
inductive Statement where
  | label (name : String)
  | bytes (raw : List UInt8)
  /-- An instruction that takes operands alone, destination first. -/
  | plain (opcode : Opcode) (operands : List Operand)
  | host (module : UInt8)
  | bra (label : String)
  | bsr (label : String)
  | bmc (condition : UInt8) (o : Operand) (label : String)
  | bdc (condition : UInt8) (a b : Operand) (label : String)
  | dbnz (counter : Operand) (label : String)
  | smc (condition : UInt8) (target o : Operand)
  | sdc (condition : UInt8) (target a b : Operand)
  | exchange (bank : Bank) (a b : UInt8)
  | savem (mask : RegisterMask) (o : Operand)
  | loadm (mask : RegisterMask) (o : Operand)
  | link (r : UInt8) (d : Int32)
  | unlk (r : UInt8)
  deriving DecidableEq, Repr, Inhabited

/-- A part of an emitted instruction. -/
inductive Piece where
  | bytes (raw : List UInt8)
  | operand (o : Operand) (size : Nat)
  /-- A displacement field to be resolved. -/
  | reference (label : String)
  deriving DecidableEq, Repr, Inhabited

/-- The operand sizes of a layout of operands alone. -/
def Layout.operandSizes? : Layout → Option (List Nat)
  | .unary size => some [size]
  | .binary destination source => some [destination, source]
  | .target => some [8]
  | .bare => some []
  | _ => none

namespace Statement

/-- An opcode byte with the bytes after it. -/
def start (opcode : Opcode) (more : List UInt8) : Piece := .bytes (opcode.byte :: more)

/-- The parts that a statement emits.  A label emits none. -/
def pieces : Statement → Except AssemblyError (List Piece)
  | label _ => .ok []
  | bytes raw => .ok [.bytes raw]
  | plain opcode operands =>
      match opcode.layout.operandSizes? with
      | none => .error (.wrongLayout opcode)
      | some sizes =>
          if sizes.length ≠ operands.length then
            .error (.operandCount opcode sizes.length operands.length)
          else .ok (start opcode [] :: List.zipWith Piece.operand operands sizes)
  | host module => .ok [start .host [module]]
  | bra target => .ok [start .bra [], .reference target]
  | bsr target => .ok [start .bsr [], .reference target]
  | bmc condition o target =>
      .ok [start .bmc [condition], .operand o (Condition.operandSize condition),
        .reference target]
  | bdc condition a b target =>
      let size := Condition.operandSize condition
      .ok [start .bdc [condition], .operand a size, .operand b size, .reference target]
  | dbnz counter target => .ok [start .dbnz [], .operand counter 4, .reference target]
  | smc condition destination o =>
      .ok [start .smc [condition], .operand destination 1,
        .operand o (Condition.operandSize condition)]
  | sdc condition destination a b =>
      let size := Condition.operandSize condition
      .ok [start .sdc [condition], .operand destination 1, .operand a size, .operand b size]
  | exchange .general a b => .ok [start .exg [Operand.nibbles a b]]
  | exchange .float a b => .ok [start .fexg [Operand.nibbles a b]]
  | savem mask o =>
      .ok [start .savem (LittleEndian.encode 4 mask.toNat), .operand o mask.blockSize]
  | loadm mask o =>
      .ok [start .loadm (LittleEndian.encode 4 mask.toNat), .operand o mask.blockSize]
  | link r d => .ok [start .link ((r &&& 0xf) :: LittleEndian.ofDisplacement d)]
  | unlk r => .ok [start .unlk [r &&& 0xf]]

end Statement

/-- A displacement field that waits for its label. -/
structure Reference where
  /-- The offset of the field. -/
  offset : Nat
  label : String
  deriving DecidableEq, Repr, Inhabited

/-- A program under construction. -/
structure Draft where
  code : List UInt8 := []
  labels : List (String × Nat) := []
  references : List Reference := []
  /-- The first error, if there was one. -/
  error : Option AssemblyError := none
  deriving Inhabited

namespace Draft

/-- The offset at which the next statement is emitted. -/
def position (d : Draft) : Nat := d.code.length

/-- The offset of a label. -/
def labelOffset? (d : Draft) (label : String) : Option Nat := d.labels.lookup label

/-- Keep an error unless there already is one. -/
def fail (d : Draft) (e : AssemblyError) : Draft :=
  match d.error with
  | none => { d with error := some e }
  | some _ => d

/-- Emit one part. -/
def emit (d : Draft) (piece : Piece) : Draft :=
  match piece with
  | .bytes raw => { d with code := d.code ++ raw }
  | .operand (.codeLabel label) size =>
      { d with
        code := d.code ++ (Operand.codeLabel label).encode size
        references := d.references ++ [{ offset := d.position + 1, label }] }
  | .operand o size => { d with code := d.code ++ o.encode size }
  | .reference label =>
      { d with
        code := d.code ++ LittleEndian.ofDisplacement 0
        references := d.references ++ [{ offset := d.position, label }] }

/-- Give a name to the present position. -/
def define (d : Draft) (name : String) : Draft :=
  match d.labelOffset? name with
  | some _ => d.fail (.duplicateLabel name)
  | none => { d with labels := d.labels ++ [(name, d.position)] }

/-- Add one statement. -/
def add (d : Draft) (s : Statement) : Draft :=
  match s with
  | .label name => d.define name
  | s =>
      match s.pieces with
      | .error e => d.fail e
      | .ok pieces => pieces.foldl emit d

/-- The draft of a whole program. -/
def ofStatements (statements : List Statement) : Draft := statements.foldl add {}

/-- The displacement that a reference must hold. -/
def displacement (d : Draft) (r : Reference) : Except AssemblyError Int32 :=
  match d.labelOffset? r.label with
  | none => .error (.unknownLabel r.label)
  | some target =>
      let distance : Int := (target : Int) - (r.offset + 4 : Nat)
      if Int32.minValue.toInt ≤ distance ∧ distance ≤ Int32.maxValue.toInt then
        .ok (Int32.ofInt distance)
      else .error (.displacementOverflow r.label)

/-- Replace the bytes from an offset on. -/
def patch (code : List UInt8) (offset : Nat) (bytes : List UInt8) : List UInt8 :=
  code.take offset ++ bytes ++ code.drop (offset + bytes.length)

/-- Resolve references one after the other. -/
def resolve (d : Draft) : List Reference → List UInt8 → Except AssemblyError (List UInt8)
  | [], code => .ok code
  | r :: rest, code =>
      match d.displacement r with
      | .error e => .error e
      | .ok distance =>
          d.resolve rest (patch code r.offset (LittleEndian.ofDisplacement distance))

/-- The finished code. -/
def finish (d : Draft) : Except AssemblyError (List UInt8) :=
  match d.error with
  | some e => .error e
  | none => d.resolve d.references d.code

end Draft

/-- The code of a program. -/
def assemble (statements : List Statement) : Except AssemblyError (List UInt8) :=
  (Draft.ofStatements statements).finish

/-- The code of a program in its stored form. -/
def assembleImage (statements : List Statement) : Except AssemblyError (List UInt8) :=
  (assemble statements).map fun code => (Image.ofCode code).toBytes

end BytecodeMachine
