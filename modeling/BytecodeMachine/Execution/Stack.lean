import BytecodeMachine.Execution.Stream

/-!
# The stack

The stack grows downward from the top of its region in steps of eight bytes.  A
push from inside the region must stay inside; a stack pointer elsewhere is the
program's own affair.
-/

namespace BytecodeMachine.Exec

/-- The mode byte that a failing push reports: decrement before use of the stack
pointer. -/
def pushMode : UInt8 := 0x5f

/-- The mode byte that a failing pop reports: increment after use of the stack
pointer. -/
def popMode : UInt8 := 0x2f

/-- A push from this stack pointer would pass the base of the region. -/
def overflows (stack : Region) (sp : UInt64) : Bool :=
  match stack.offsetOf? sp 0 with
  | some offset => decide (offset < 8)
  | none => false

/-- Push a word. -/
def push (value : UInt64) : Exec Unit := fun s =>
  let sp := s.registers.sp
  if overflows s.stack sp then .error (.stackOverflow sp) s
  else if sp - 8 = 0 then .error (.nullAddress pushMode) s
  else
    .ok ()
      { s with
        registers := s.registers.setSp (sp - 8)
        memory := s.memory.write (sp - 8) .quad value }

/-- Pop a word. -/
def pop : Exec UInt64 := fun s =>
  let sp := s.registers.sp
  if sp = 0 then .error (.nullAddress popMode) s
  else .ok (s.memory.read sp .quad) { s with registers := s.registers.setSp (sp + 8) }

end BytecodeMachine.Exec
