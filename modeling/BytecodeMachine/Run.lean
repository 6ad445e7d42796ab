import BytecodeMachine.Execution.Dispatch

/-!
# Running programs

A run executes instructions while the status is `running`.  After most
instructions it goes straight to the next one; only after those that may change
the status does it look at the status again.

Programs need not end, so runs carry fuel: one unit for each instruction of the
run, where a nested run inside a host function has what is left.  Out of fuel is
an answer of its own, `none`.
-/

namespace BytecodeMachine

namespace State

/-- Run the program from `entry` in between: cursor, call depth and latch are as
before afterwards, and so is the status if the nested run completed.  `nested`
runs a machine whose status is `running`. -/
def invoke (nested : State → Option State) (entry : Nat) (s : State) :
    Option (Except MachineError Status × State) :=
  if s.code.length ≤ entry then some (.error (.entryOutOfRange entry s.code.length), s)
  else
    match nested { s with cursor := entry, callDepth := 1, status := .running } with
    | none => none
    | some t =>
        some (.ok t.status,
          { t with
            cursor := s.cursor
            callDepth := s.callDepth
            status := if t.status = .completed then s.status else t.status
            latch := s.latch })

end State

/-- Carry out the course of a host function. -/
def Routine.perform (nested : State → Option State) (latch : Latch) : Routine → Option Core
  | .finish c => some c
  | .invoke c entry resume =>
      match State.invoke nested entry { toCore := c, latch } with
      | none => none
      | some (outcome, s) => (resume outcome s.toCore).perform nested latch

namespace State

/-- Execute one instruction.  The answer says whether the next one may follow
without a look at the status. -/
def execute (host : HostTable) (nested : State → Option State) (s : State) :
    Option (Bool × State) :=
  match Exec.instruction host s with
  | .error fault t => some (false, t.raise fault)
  | .ok .next t => some (true, t)
  | .ok .halt t => some (false, t)
  | .ok (.call v) t =>
      ((v t.toCore).perform nested t.latch).map fun c => (false, { t with toCore := c })

/-- Execute instructions while the status is `running`.  With `straight` the first
one follows without a look at the status. -/
def loop (host : HostTable) : (fuel : Nat) → (straight : Bool) → State → Option State
  | 0, straight, s => if straight || s.status == .running then none else some s
  | fuel + 1, straight, s =>
      if straight || s.status == .running then
        match execute host (loop host fuel false) s with
        | none => none
        | some (straight, t) => loop host fuel straight t
      else some s

/-- Run until the program stops; nothing happens unless the machine is ready. -/
def run (host : HostTable) (fuel : Nat) (s : State) : Option State :=
  if s.status.isActive then loop host fuel false { s with status := .running } else some s

/-- Execute a single instruction; nothing happens unless the machine is ready. -/
def step (host : HostTable) (fuel : Nat) (s : State) : Option State :=
  if s.status.isActive then
    (execute host (loop host fuel false) { s with status := .running }).map (·.2)
  else some s

end State

end BytecodeMachine
