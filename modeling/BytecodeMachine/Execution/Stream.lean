import BytecodeMachine.State

/-!
# Fetching from the code

An instruction runs in a monad that carries the state along and may stop with a
fault; after a fault the state is what the instruction had made of it.  Fetches
take bytes at the cursor and fail, without moving it, where the code ends.
-/

namespace BytecodeMachine

/-- A part of an instruction. -/
abbrev Exec := EStateM Fault State

namespace Exec

/-- Move the cursor over `n` bytes and return the offset of the first. -/
def advance (n : Nat) : Exec Nat := fun s =>
  let stop := s.cursor + n
  if s.code.length < stop then .error (.cursorOutOfRange (s.codeAddress stop)) s
  else .ok s.cursor { s with cursor := stop }

/-- Fetch `n` bytes. -/
def fetch (n : Nat) : Exec (List UInt8) := do
  let offset ← advance n
  let s ← get
  return s.memory.bytes (s.codeAddress offset) n

/-- Fetch one byte. -/
def fetchByte : Exec UInt8 := do
  let bytes ← fetch 1
  return bytes.headD 0

/-- Fetch a 32-bit word. -/
def fetchLong : Exec UInt32 := do
  let bytes ← fetch 4
  return LittleEndian.word32 bytes

/-- Fetch a 64-bit word. -/
def fetchQuad : Exec UInt64 := do
  let bytes ← fetch 8
  return LittleEndian.word64 bytes

/-- Fetch a signed displacement. -/
def fetchDisplacement : Exec Int32 := do
  let bytes ← fetch 4
  return LittleEndian.displacement bytes

/-- Fetch an opcode byte and note where it stands. -/
def fetchOpcode : Exec UInt8 := do
  modify fun s => { s with latch := { s.latch with offset := s.cursor } }
  let byte ← fetchByte
  modify fun s => { s with latch := { s.latch with opcode := byte } }
  return byte

end Exec

end BytecodeMachine
