import BytecodeMachine.Elements.Store
import BytecodeMachine.Fault
import BytecodeMachine.Registers

/-!
# Machine state

`Core` is what programs and host functions can observe: registers, memory, the
code and stack regions, the cursor, the call depth, the status and the last
fault.  `State` adds the latch, in which one instruction keeps what its parts
share while it is decoded.
-/

namespace BytecodeMachine

/-- Where an operand lives. -/
inductive Location where
  | register (bank : Bank) (r : RegisterIndex)
  | memory (address : UInt64)
  deriving DecidableEq, Repr, Inhabited

/-- The address of a location in memory. -/
def Location.address? : Location → Option UInt64
  | register _ _ => none
  | memory address => some address

/-- The observable state of a machine. -/
structure Core extends Store where
  registers : RegisterFile := .zero
  code : Region
  stack : Region
  /-- The code offset of the next byte to fetch. -/
  cursor : Nat := 0
  callDepth : Int := 0
  status : Status := .uninitialised
  fault : Option FaultRecord := none
  deriving Inhabited

namespace Core

/-- The value of the given width at a location, zero-extended. -/
def read (c : Core) (l : Location) (w : Width) : UInt64 :=
  match l with
  | .register bank r => c.registers.read bank r w
  | .memory address => c.memory.read address w

/-- Write the low bytes of a word at a location. -/
def write (c : Core) (l : Location) (w : Width) (value : UInt64) : Core :=
  match l with
  | .register bank r => { c with registers := c.registers.write bank r w value }
  | .memory address => { c with memory := c.memory.write address w value }

/-- The value of a general register. -/
def general (c : Core) (r : RegisterIndex) : UInt64 := c.registers.get .general r

/-- Replace a general register. -/
def setGeneral (c : Core) (r : RegisterIndex) (value : UInt64) : Core :=
  { c with registers := c.registers.set .general r value }

/-- The code as it is in memory now. -/
def codeBytes (c : Core) : List UInt8 := c.memory.bytes c.code.base c.code.length

/-- The address of a code offset. -/
def codeAddress (c : Core) (offset : Nat) : UInt64 := c.code.address offset

/-- The code offset of an address, if it lies in the code. -/
def codeOffset? (c : Core) (address : UInt64) : Option Nat := c.code.offsetOf? address 1

end Core

/-- What the parts of one instruction share. -/
structure Latch where
  opcode : UInt8 := 0
  /-- The code offset of the opcode byte. -/
  offset : Nat := 0
  /-- The last mode byte. -/
  mode : UInt8 := 0
  /-- The location of the destination operand. -/
  destination : Option Location := none
  deriving DecidableEq, Repr, Inhabited

/-- A machine in the course of an instruction. -/
structure State extends Core where
  latch : Latch := {}
  deriving Inhabited

namespace State

/-- Write the low bytes of a word at a location. -/
def write (s : State) (l : Location) (w : Width) (value : UInt64) : State :=
  { s with toCore := s.toCore.write l w value }

/-- Replace a general register. -/
def setGeneral (s : State) (r : RegisterIndex) (value : UInt64) : State :=
  { s with toCore := s.toCore.setGeneral r value }

/-- Stop with a fault, and record which instruction raised it. -/
def raise (s : State) (fault : Fault) : State :=
  { s with
    fault := some { fault, offset := s.latch.offset, opcode := s.latch.opcode }
    status := fault.status }

/-- A machine that holds the given code, with the stack pointer at the top of the
stack. -/
def load (code : List UInt8) (stack : Region) : State :=
  let region : Region := { base := AddressSpace.codeBase, length := code.length }
  { memory := Memory.zero.setBytes region.base code
    registers := RegisterFile.zero.setSp stack.top
    code := region
    stack }

end State

end BytecodeMachine
