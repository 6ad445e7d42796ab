import BytecodeMachine.Execution.Transfer
import BytecodeMachine.RegisterMask

/-!
# Registers, blocks, frames and addresses

The instructions that move data without computing a value from operands.
-/

namespace BytecodeMachine

namespace RegisterFile

/-- Exchange two cells of a bank. -/
def exchange (f : RegisterFile) (bank : Bank) (a b : RegisterIndex) : RegisterFile :=
  (f.set bank a (f.get bank b)).set bank b (f.get bank a)

end RegisterFile

namespace Core

/-- Store registers one after the other from an address on. -/
def saveBlock (c : Core) (address : UInt64) : List (Bank × RegisterIndex) → Core
  | [] => c
  | (bank, r) :: rest =>
      saveBlock { c with memory := c.memory.write address .quad (c.registers.get bank r) }
        (address + 8) rest

/-- Load registers one after the other from an address on. -/
def loadBlock (c : Core) (address : UInt64) : List (Bank × RegisterIndex) → Core
  | [] => c
  | (bank, r) :: rest =>
      loadBlock { c with registers := c.registers.set bank r (c.memory.read address .quad) }
        (address + 8) rest

end Core

namespace Exec

/-- Clear an operand. -/
def clr (w : Width) : Exec Flow := do
  let l ← resolveOnly w.bytes
  modify fun s => s.write l w 0
  return .next

/-- Exchange two registers of a bank, named by the nibbles of a byte. -/
def exchange (bank : Bank) : Exec Flow := do
  let pair ← fetchByte
  modify fun s =>
    { s with
      registers := s.registers.exchange bank (.ofByte (pair >>> 4)) (.ofByte (pair &&& 0xf)) }
  return .next

/-- Store the registers of a mask. -/
def savem : Exec Flow := do
  let mask : RegisterMask ← fetchLong
  let address ← resolveAddress mask.blockSize
  modify fun s => { s with toCore := s.toCore.saveBlock address mask.registers }
  return .next

/-- Load the registers of a mask. -/
def loadm : Exec Flow := do
  let mask : RegisterMask ← fetchLong
  let address ← resolveAddress mask.blockSize
  modify fun s => { s with toCore := s.toCore.loadBlock address mask.registers }
  return .next

/-- Push the frame register, point it at the stack, and move the stack pointer by
a displacement. -/
def link : Exec Flow := do
  let byte ← fetchByte
  let d ← fetchDisplacement
  let r := RegisterIndex.ofByte (byte &&& 0xf)
  let s ← get
  push (s.general r)
  modify fun s => s.setGeneral r s.registers.sp
  modify fun s => s.setGeneral .stackPointer (s.registers.sp + LittleEndian.extend d)
  return .next

/-- Point the stack at the frame register and pop the frame register. -/
def unlk : Exec Flow := do
  let byte ← fetchByte
  let r := RegisterIndex.ofByte (byte &&& 0xf)
  modify fun s => s.setGeneral .stackPointer (s.general r)
  let saved ← pop
  modify fun s => s.setGeneral r saved
  return .next

/-- Store the address of an operand. -/
def lea : Exec Flow := do
  let destination ← resolveDestination 8
  let source ← resolveSource 8
  let address ← addressOf source
  modify fun s => s.write destination .quad address
  return .next

/-- Push the address of an operand. -/
def pea : Exec Flow := do
  let address ← resolveAddress 8
  push address
  return .next

end Exec

end BytecodeMachine
