import BytecodeMachine.Instruction.Basic
import BytecodeMachine.Interface.Table
import BytecodeMachine.Operand.Text

/-!
# Instructions as text

The mnemonic, a blank, and the operands with commas between them.  A branch is
shown by the offset it leads to.
-/

namespace BytecodeMachine

namespace Condition

/-- The text of a condition byte of either arity; an invalid byte after a
question mark. -/
def text (arity : Arity) (byte : UInt8) : String :=
  let named : Option String :=
    match arity with
    | .monadic => (monadic? byte).map fun (type, test) => test.name ++ "." ++ type.letter
    | .dyadic =>
        (dyadic? byte).map fun (type, relation) => relation.name ++ "." ++ type.letter
  named.getD ("?" ++ Text.hex 2 byte.toNat)

end Condition

namespace Field

/-- The offset that a branch leads to from the offset after its instruction, as a
64-bit word. -/
def branchTarget (next : Nat) (d : Int32) : UInt64 :=
  UInt64.ofNat next + LittleEndian.extend d

/-- The letters in front of a register number. -/
def bankLetters : Bank → String
  | .general => "r"
  | .float => "fp"

/-- The text of a field; `next` is the offset after the instruction. -/
def text (next : Nat) : Field → String
  | hostModule id =>
      let name := (Interface.moduleById? id).elim "?" (·.name)
      "#" ++ Text.decimal id.toNat ++ " (" ++ name ++ ")"
  | branch d => Text.hex 4 (branchTarget next d).toNat
  | condition arity byte => Condition.text arity byte
  | operand o => o.text
  | registerPair bank byte =>
      bankLetters bank ++ Text.decimal (byte >>> 4).toNat ++ ", " ++
        bankLetters bank ++ Text.decimal (byte &&& 0xf).toNat
  | mask m => "#" ++ Text.hex 8 m.toNat
  | frameRegister byte => "r" ++ Text.decimal (byte &&& 0xf).toNat
  | displacement d => "#" ++ Text.signedDecimal d.toInt

end Field

/-- The text of an instruction; `next` is the offset after it. -/
def Instruction.text (i : Instruction) (next : Nat) : String :=
  match i.fields with
  | [] => i.opcode.mnemonic
  | fields => i.opcode.mnemonic ++ " " ++ String.intercalate ", " (fields.map (·.text next))

end BytecodeMachine
