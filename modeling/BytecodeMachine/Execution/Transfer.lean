import BytecodeMachine.Condition
import BytecodeMachine.Execution.Resolve
import BytecodeMachine.Execution.Stack
import BytecodeMachine.Floating.Operation
import BytecodeMachine.Host.Basic

/-!
# Transfers of control

Branches, calls, returns, conditions and host calls.  A transfer is checked
before anything else of it takes effect: a target outside the code leaves the
cursor behind the instruction.
-/

namespace BytecodeMachine

/-- What happens after an instruction. -/
inductive Flow where
  /-- The status has changed; look at it. -/
  | halt
  /-- Go straight to the next instruction. -/
  | next
  /-- Run a host function, then look at the status. -/
  | call (v : HostVector)

namespace Core

/-- A test holds of the operand at a location. -/
def passes (c : Core) (type : OperandType) (test : Test) (l : Location) : Bool :=
  match type with
  | .integer w => test.onInteger (w.signExtend (c.read l w))
  | .real p => test.onReal (Floating.toFloat p (c.read l p.width))

/-- A comparison holds between the operands at two locations. -/
def compares? (c : Core) (type : OperandType) (relation : Relation) (a b : Location) :
    Option Bool :=
  match type with
  | .integer w =>
      let x := c.read a w
      let y := c.read b w
      some (relation.onIntegers (w.signExtend x) (w.signExtend y) x y)
  | .real p =>
      relation.onReals? (Floating.toFloat p (c.read a p.width))
        (Floating.toFloat p (c.read b p.width))

end Core

namespace Exec

/-- Move the cursor to an offset. -/
def moveTo (offset : Nat) : Exec Unit := modify fun s => { s with cursor := offset }

/-- Change the status. -/
def finish (status : Status) : Exec Flow := do
  modify fun s => { s with status }
  return .halt

/-- Move the cursor by a displacement. -/
def branch (d : Int32) : Exec Unit := do
  let s ← get
  let target : Int := s.cursor + d.toInt
  if target < 0 ∨ s.code.length ≤ target then
    throw (.cursorOutOfRange (s.codeAddress s.cursor + LittleEndian.extend d))
  else moveTo target.toNat

/-- The code offset of an address to which control is to go. -/
def targetOf (address : UInt64) : Exec Nat := do
  let s ← get
  match s.codeOffset? address with
  | some offset => return offset
  | none => throw (.cursorOutOfRange address)

/-- Move the cursor to an address. -/
def jump (address : UInt64) : Exec Unit := do
  let offset ← targetOf address
  moveTo offset

/-- Push the address of the next instruction and move the cursor to an address. -/
def call (address : UInt64) : Exec Unit := do
  let offset ← targetOf address
  let s ← get
  push (s.codeAddress s.cursor)
  modify fun s => { s with callDepth := s.callDepth + 1 }
  moveTo offset

/-- Branch by a fetched displacement if a condition holds. -/
def branchIf (taken : Bool) : Exec Flow := do
  let d ← fetchDisplacement
  if taken then branch d
  return .next

/-- Fetch a condition byte that tests one operand. -/
def fetchTest : Exec (OperandType × Test) := do
  let byte ← fetchByte
  match Condition.monadic? byte with
  | some condition => return condition
  | none => throw (.badCondition byte)

/-- Fetch a condition byte that compares two operands, and return it as well. -/
def fetchRelation : Exec (UInt8 × OperandType × Relation) := do
  let byte ← fetchByte
  match Condition.dyadic? byte with
  | some condition => return (byte, condition)
  | none => throw (.badCondition byte)

/-- Compare the operands at two locations under a condition byte. -/
def compare (byte : UInt8) (type : OperandType) (relation : Relation) (a b : Location) :
    Exec Bool := do
  let s ← get
  match s.compares? type relation a b with
  | some holds => return holds
  | none => throw (.badCondition byte)

/-- Write a truth value as a byte. -/
def storeTruth (l : Location) (holds : Bool) : Exec Flow := do
  modify fun s => s.write l .byte (if holds then 1 else 0)
  return .next

/-- Complete the run. -/
def stop : Exec Flow := finish .completed

/-- The register that holds the number of a host function. -/
def functionRegister : RegisterIndex := .ofNat 0

/-- Look up the host function named by a module byte and register 0. -/
def host (table : HostTable) : Exec Flow := do
  let module ← fetchByte
  let s ← get
  let function := (s.general functionRegister).toUInt16
  match table.lookup? module function with
  | some v => return .call v
  | none => throw (.unknownHostCall module function)

/-- Branch. -/
def bra : Exec Flow := do
  let d ← fetchDisplacement
  branch d
  return .next

/-- Call relative to the next instruction. -/
def bsr : Exec Flow := do
  let d ← fetchDisplacement
  let s ← get
  call (s.codeAddress s.cursor + LittleEndian.extend d)
  return .next

/-- Jump to the address of an operand. -/
def jmp : Exec Flow := do
  let address ← resolveAddress 8
  jump address
  return .next

/-- Call the address of an operand. -/
def jsr : Exec Flow := do
  let address ← resolveAddress 8
  call address
  return .next

/-- Return from a call, or complete the run if it was entered without one. -/
def rts : Exec Flow := do
  modify fun s => { s with callDepth := s.callDepth - 1 }
  let s ← get
  if s.callDepth ≤ 0 then finish .completed
  else
    let address ← pop
    jump address
    return .next

/-- Branch if an operand passes a test. -/
def bmc : Exec Flow := do
  let (type, test) ← fetchTest
  let l ← resolveDestination type.size
  let s ← get
  branchIf (s.passes type test l)

/-- Branch if two operands compare. -/
def bdc : Exec Flow := do
  let (byte, type, relation) ← fetchRelation
  let a ← resolveDestination type.size
  let b ← resolveSource type.size
  let taken ← compare byte type relation a b
  branchIf taken

/-- Count down and branch until the counter is zero. -/
def dbnz : Exec Flow := do
  let counter ← resolveOnly 4
  let d ← fetchDisplacement
  let s ← get
  let count := (s.read counter .long).toUInt32 - 1
  modify fun s => s.write counter .long count.toUInt64
  if count ≠ 0 then branch d
  return .next

/-- Store whether an operand passes a test. -/
def smc : Exec Flow := do
  let (type, test) ← fetchTest
  let destination ← resolveDestination 1
  let l ← resolveSource type.size
  let s ← get
  storeTruth destination (s.passes type test l)

/-- Store whether two operands compare. -/
def sdc : Exec Flow := do
  let (byte, type, relation) ← fetchRelation
  let destination ← resolveDestination 1
  let a ← resolveSource type.size
  let b ← resolveSource type.size
  let holds ← compare byte type relation a b
  storeTruth destination holds

end Exec

end BytecodeMachine
