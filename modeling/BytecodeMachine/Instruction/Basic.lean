import BytecodeMachine.Opcode.Layout
import BytecodeMachine.Opcode.Text
import BytecodeMachine.Operand.Basic
import BytecodeMachine.RegisterMask

/-!
# Instructions

An instruction in symbolic form is an opcode with the fields of its layout.
`Instruction.read?` reads the fields that follow an opcode byte, together with
their length; it looks at no byte past them.
-/

namespace BytecodeMachine

/-- A field with its value. -/
inductive Field where
  | hostModule (id : UInt8)
  | branch (d : Int32)
  | condition (arity : Arity) (byte : UInt8)
  | operand (o : Operand)
  | registerPair (bank : Bank) (byte : UInt8)
  | mask (m : RegisterMask)
  | frameRegister (byte : UInt8)
  | displacement (d : Int32)
  deriving DecidableEq, Repr, Inhabited

namespace Field

/-- The size that a field gives to the operands after it, if the size before it
was `size`. -/
def operandSize (f : Field) (size : Nat) : Nat :=
  match f with
  | condition _ byte => Condition.operandSize byte
  | mask m => m.blockSize
  | _ => size

end Field

namespace FieldKind

/-- The first `n` bytes of a list, if there are that many. -/
def take? (bytes : List UInt8) (n : Nat) : Option (List UInt8) :=
  let front := bytes.take n
  if front.length < n then none else some front

/-- One byte, as a field of length one. -/
def readByte? (bytes : List UInt8) (make : UInt8 → Field) : Option (Field × Nat) :=
  bytes.head?.map fun byte => (make byte, 1)

/-- Four bytes, as a field of length four. -/
def readLong? (bytes : List UInt8) (make : List UInt8 → Field) : Option (Field × Nat) :=
  (take? bytes 4).map fun front => (make front, 4)

/-- An operand, as a field of its own length. -/
def readOperand? (bytes : List UInt8) (size : Nat) : Option (Field × Nat) :=
  (Operand.parse? bytes size).map fun (o, length) => (.operand o, length)

/-- The field of a kind at the front of a byte list, with its length.  `size` is
the size given by earlier fields. -/
def read? (kind : FieldKind) (size : Nat) (bytes : List UInt8) : Option (Field × Nat) :=
  match kind with
  | hostModule => readByte? bytes .hostModule
  | branch => readLong? bytes (fun front => .branch (LittleEndian.displacement front))
  | condition arity => readByte? bytes (.condition arity)
  | operand fixed => readOperand? bytes fixed
  | sizedOperand => readOperand? bytes size
  | registerPair bank => readByte? bytes (.registerPair bank)
  | mask => readLong? bytes (fun front => .mask (LittleEndian.word32 front))
  | frameRegister => readByte? bytes .frameRegister
  | displacement =>
      readLong? bytes (fun front => .displacement (LittleEndian.displacement front))

/-- The fields of the given kinds at the front of a byte list, with the sum of
their lengths. -/
def readAll? : List FieldKind → Nat → List UInt8 → Option (List Field × Nat)
  | [], _, _ => some ([], 0)
  | kind :: kinds, size, bytes =>
      match kind.read? size bytes with
      | none => none
      | some (field, length) =>
          match readAll? kinds (field.operandSize size) (bytes.drop length) with
          | none => none
          | some (fields, more) => some (field :: fields, length + more)

end FieldKind

/-- An opcode with its fields. -/
structure Instruction where
  opcode : Opcode
  fields : List Field
  deriving DecidableEq, Repr, Inhabited

namespace Instruction

/-- The instruction of an opcode whose fields are at the front of a byte list,
with the length of the fields. -/
def read? (opcode : Opcode) (bytes : List UInt8) : Option (Instruction × Nat) :=
  (FieldKind.readAll? opcode.layout.fields 0 bytes).map fun (fields, length) =>
    ({ opcode, fields }, length)

end Instruction

end BytecodeMachine
