import BytecodeMachine.Status
import BytecodeMachine.Text.Radix

/-!
# Faults

The causes for which an instruction stops the machine, the status each leads to
and its wording, and the record that names the instruction at fault.
-/

namespace BytecodeMachine

/-- Why an instruction could not be carried out. -/
inductive Fault where
  /-- The byte at the cursor is no opcode. -/
  | invalidOpcode (byte : UInt8)
  /-- An operand has no location; `mode` is its mode byte. -/
  | nullAddress (mode : UInt8)
  /-- The byte is no condition of the instruction's kind. -/
  | badCondition (byte : UInt8)
  /-- No vector is registered under this module and function. -/
  | unknownHostCall (module : UInt8) (function : UInt16)
  /-- An integer division by zero. -/
  | zeroDivide
  /-- The cursor would leave the code. -/
  | cursorOutOfRange (address : UInt64)
  /-- A push would move the stack pointer below the stack region. -/
  | stackOverflow (sp : UInt64)
  deriving DecidableEq, Repr

namespace Fault

/-- The status a machine takes after the fault. -/
def status : Fault → Status
  | invalidOpcode _ | nullAddress _ | badCondition _ => .unimplementedOpcode
  | unknownHostCall _ _ => .unknownHostCall
  | zeroDivide => .zeroDivide
  | cursorOutOfRange _ => .cursorOutOfRange
  | stackOverflow _ => .stackOverflow

/-- The wording of the fault. -/
def message : Fault → String
  | invalidOpcode byte => "invalid opcode " ++ Text.hex 2 byte.toNat
  | nullAddress mode => "effective address mode " ++ Text.hex 2 mode.toNat ++ " resolved to null"
  | badCondition byte => "invalid condition " ++ Text.hex 2 byte.toNat
  | unknownHostCall module function =>
      "unknown host call " ++ Text.decimal module.toNat ++ ":" ++ Text.decimal function.toNat
  | zeroDivide => "integer division by zero"
  | cursorOutOfRange address => "program cursor " ++ Text.hex 0 address.toNat ++ " outside code"
  | stackOverflow sp =>
      "push at stack pointer " ++ Text.hex 0 sp.toNat ++ " overruns the stack base"

end Fault

/-- A fault together with the instruction that raised it. -/
structure FaultRecord where
  fault : Fault
  /-- The code offset of the instruction's opcode byte. -/
  offset : Nat
  opcode : UInt8
  deriving DecidableEq, Repr

end BytecodeMachine
