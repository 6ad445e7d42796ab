import BytecodeMachine.Host.Basic
import BytecodeMachine.Interface.Table

/-!
# The module of element buffers

Five functions give programs access to element buffers.  Register 8 carries the
buffer, register 9 a slot, registers 1 and 2 numbers, and register 0 brings the
error code back.
-/

namespace BytecodeMachine.ElementModule

open Interface (ErrorCode)

/-- The register of error codes. -/
def errorRegister : RegisterIndex := .ofNat 0

/-- The register of the element count. -/
def countRegister : RegisterIndex := .ofNat 1

/-- The register of the element size. -/
def sizeRegister : RegisterIndex := .ofNat 2

/-- The register of the buffer. -/
def bufferRegister : RegisterIndex := .ofNat 8

/-- The register of the slot. -/
def slotRegister : RegisterIndex := .ofNat 9

/-- The code of a buffer error. -/
def errorCode : Elements.BufferError → ErrorCode
  | .invalidBuffer => .invalidHandle
  | .bufferFull => .bufferFull
  | .invalidSlot | .slotNotAllocated => .invalidSlot

/-- Report an error code. -/
def report (c : Core) (e : ErrorCode) : Core := c.setGeneral errorRegister e.number

/-- Apply an operation to the buffer of its register, unless that is null. -/
def withBuffer (c : Core) (operation : UInt64 → Core) : Core :=
  let buffer := c.general bufferRegister
  if buffer = 0 then report c .nullPointer else operation buffer

/-- Make a buffer of the requested count and size. -/
def allocate (c : Core) : Core :=
  let count := (c.general countRegister).toUInt16
  let size := (c.general sizeRegister).toUInt16
  match c.toStore.allocate? count size with
  | some (buffer, store) =>
      report ({ c with toStore := store }.setGeneral bufferRegister buffer) .none
  | none => report (c.setGeneral bufferRegister 0) .outOfMemory

/-- Release the buffer. -/
def free (c : Core) : Core :=
  withBuffer c fun buffer =>
    match c.toStore.free buffer with
    | .ok _ store => report ({ c with toStore := store }.setGeneral bufferRegister 0) .none
    | .error e store => report { c with toStore := store } (errorCode e)

/-- Take a slot of the buffer. -/
def allocateSlot (c : Core) : Core :=
  withBuffer c fun buffer =>
    match c.toStore.allocateSlot buffer with
    | .ok slot store => report ({ c with toStore := store }.setGeneral slotRegister slot) .none
    | .error e store =>
        report ({ c with toStore := store }.setGeneral slotRegister 0) (errorCode e)

/-- Give a slot back to the buffer. -/
def freeSlot (c : Core) : Core :=
  withBuffer c fun buffer =>
    match c.toStore.freeSlot buffer (c.general slotRegister) with
    | .ok _ store => report ({ c with toStore := store }.setGeneral slotRegister 0) .none
    | .error e store => report { c with toStore := store } (errorCode e)

/-- The count and the slot size of the buffer. -/
def info (c : Core) : Core :=
  withBuffer c fun buffer =>
    match c.toStore.layout buffer with
    | .ok layout =>
        let c := c.setGeneral countRegister (UInt64.ofNat layout.count)
        let c := c.setGeneral sizeRegister (UInt64.ofNat layout.slotSize)
        report c .none
    | .error e => report c (errorCode e)

/-- The module with its five functions. -/
def module : HostModule :=
  { id := Interface.elementModule
    name := "mem"
    vectors :=
      [ (0, HostVector.pure allocate),
        (1, HostVector.pure free),
        (2, HostVector.pure allocateSlot),
        (3, HostVector.pure freeSlot),
        (4, HostVector.pure info) ] }

end BytecodeMachine.ElementModule
