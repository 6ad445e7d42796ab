import BytecodeMachine.Machine
import BytecodeMachine.Proofs.Host.Conduct
import BytecodeMachine.Proofs.Instruction.Confinement
import BytecodeMachine.Proofs.Run.Stepping

/-!
# The control state of a machine

However a machine is used, its cursor stays within the code, its regions are those it was made
with, and it holds a record of a fault exactly if its status is that of the fault.  While it can go
on it is inside at least one call, with one exception: a host function that enters the machine
during an invocation from outside leaves it ready to run, and the invocation gives back the call
depth that the machine had, which is none if it was not inside a call.

A nested run works on a machine that may hold the record of an earlier fault although it is
running, so what a run keeps is stated relative to its start: `Core.Advances` for instructions
and runs, `Core.Resumes` for host calls and nested runs.  `Machine.History` are the machines that
can be had by using one, and the main statement is about all of them.
-/

namespace BytecodeMachine

namespace Core

/-- A fault has been raised and recorded. -/
def Raised (c : Core) : Prop := ∃ r, c.fault = some r ∧ c.status = r.fault.status

/-- A fault is on record exactly if the status is that of a fault, and it is that one. -/
structure Accounted (c : Core) : Prop where
  recorded : c.fault ≠ none ↔ c.status.isFault = true
  status : ∀ r, c.fault = some r → c.status = r.fault.status

/-- The machine can execute the instruction at its cursor. -/
structure Ready (c : Core) : Prop where
  running : c.status = .running
  within : c.cursor ≤ c.code.length

/-- A host function has entered the machine, which waits to be run. -/
def Entered (entering : Bool) (c : Core) : Prop :=
  entering = true ∧ c.status = .initialised ∧ c.fault = none

/-- What instructions and runs do to the control state: the machine is still ready, or the run
is complete, or a host function has entered the machine, or a fault was raised. -/
structure Advances (entering : Bool) (c d : Core) : Prop where
  code : d.code = c.code
  stack : d.stack = c.stack
  within : d.cursor ≤ d.code.length
  inCall : 1 ≤ c.callDepth → d.status.isActive = true → 1 ≤ d.callDepth
  outcome : (d.status = .running ∧ d.fault = c.fault) ∨
    (d.status = .completed ∧ d.fault = c.fault) ∨ d.Entered entering ∨ d.Raised

/-- What host calls and nested runs do to the control state: nothing that matters, unless they
enter the machine or raise a fault. -/
structure Resumes (entering : Bool) (c d : Core) : Prop where
  code : d.code = c.code
  stack : d.stack = c.stack
  within : c.cursor ≤ c.code.length → d.cursor ≤ d.code.length
  inCall : 1 ≤ c.callDepth → 1 ≤ d.callDepth
  outcome : (d.status = c.status ∧ d.fault = c.fault) ∨ d.Entered entering ∨ d.Raised

variable {entering : Bool} {c d e : Core}

theorem Raised.isFault (hraised : c.Raised) : c.status.isFault = true := by
  obtain ⟨r, -, hstatus⟩ := hraised
  rw [hstatus]
  exact r.fault.isFault_status

theorem Accounted.of_same (hc : c.Accounted) (hstatus : d.status = c.status)
    (hfault : d.fault = c.fault) : d.Accounted := by
  constructor
  · rw [hstatus, hfault]
    exact hc.recorded
  · rw [hstatus, hfault]
    exact hc.status

/-- A machine that a fault has stopped cannot go on. -/
theorem Raised.not_active (hraised : c.Raised) (hactive : c.status.isActive = true) : False := by
  have hfault := hraised.isFault
  rw [Status.isFault_of_isActive hactive] at hfault
  cases hfault

theorem Entered.of_same (hc : c.Entered entering) (hstatus : d.status = c.status)
    (hfault : d.fault = c.fault) : d.Entered entering :=
  ⟨hc.1, hstatus.trans hc.2.1, hfault.trans hc.2.2⟩

theorem Raised.of_same (hc : c.Raised) (hstatus : d.status = c.status)
    (hfault : d.fault = c.fault) : d.Raised := by
  obtain ⟨r, hr, hr'⟩ := hc
  exact ⟨r, hfault.trans hr, hstatus.trans hr'⟩

theorem Resumes.trans (hcd : c.Resumes entering d) (hde : d.Resumes entering e) :
    c.Resumes entering e where
  code := hde.code.trans hcd.code
  stack := hde.stack.trans hcd.stack
  within := hde.within ∘ hcd.within
  inCall := hde.inCall ∘ hcd.inCall
  outcome := by
    rcases hde.outcome with ⟨hstatus, hfault⟩ | hlast
    · rcases hcd.outcome with ⟨hstatus', hfault'⟩ | hentered | hraised
      · exact Or.inl ⟨hstatus.trans hstatus', hfault.trans hfault'⟩
      · exact Or.inr (Or.inl (hentered.of_same hstatus hfault))
      · exact Or.inr (Or.inr (hraised.of_same hstatus hfault))
    · exact Or.inr hlast

/-- As long as the machine is running, it is ready for more. -/
theorem Advances.ready (hcd : c.Advances entering d) (hrunning : d.status = .running) :
    d.Ready ∧ d.fault = c.fault := by
  rcases hcd.outcome with ⟨-, hsame⟩ | ⟨hcompleted, -⟩ | ⟨-, hinitialised, -⟩ | hraised
  · exact ⟨⟨hrunning, hcd.within⟩, hsame⟩
  · rw [hrunning] at hcompleted
    cases hcompleted
  · rw [hrunning] at hinitialised
    cases hinitialised
  · exact (hraised.not_active (by rw [hrunning]; rfl)).elim

theorem Advances.trans (hcd : c.Advances entering d) (hrunning : d.status = .running)
    (hde : d.Advances entering e) : c.Advances entering e := by
  have hsame := (hcd.ready hrunning).2
  have hactive : d.status.isActive = true := by rw [hrunning]; rfl
  refine ⟨hde.code.trans hcd.code, hde.stack.trans hcd.stack, hde.within, ?_, ?_⟩
  · intro hdepth
    exact hde.inCall (hcd.inCall hdepth hactive)
  · rw [← hsame]
    exact hde.outcome

/-- A run that has ended is complete, or was cut short by a host function that entered the machine,
or has raised a fault. -/
theorem Advances.ended (hcd : c.Advances entering d) (hended : d.status ≠ .running) :
    (d.status = .completed ∧ d.fault = c.fault) ∨ d.Entered entering ∨ d.Raised := by
  rcases hcd.outcome with ⟨hrunning, -⟩ | hrest
  · exact absurd hrunning hended
  · exact hrest

end Core

/-! ## One instruction -/

namespace State

variable {entering : Bool} {host : HostTable} {nested : State → Option State} {s t : State}

/-- A step that stops has not left the code. -/
theorem Stops.within {f : Fault} (hstops : s.Stops f t) (hwithin : s.cursor ≤ s.code.length) :
    t.cursor ≤ s.code.length := by
  cases hstops with
  | atEnd hnone ht =>
      rw [ht]
      exact hwithin
  | unknown hnone hinside ht =>
      rw [ht]
      exact hinside
  | decoding hahead hop hdecoding hf hwhole =>
      obtain ⟨part, fields, n, -, -, -, hcursor, -⟩ := hdecoding
      exact hcursor (cursor_lt_of_ahead hahead)
  | failing hlisted hfailure =>
      have hnext := instruction?_le hlisted
      generalize t.toCore = d at hfailure
      cases hfailure <;> exact hnext

end State

/-! ## Transfers of control -/

namespace Machine

/-- An invocation with this answer strands the machine: a host function has entered it, and it is
not inside a call. -/
def strands (m : Machine) : Except MachineError Status → Bool
  | .ok .initialised => m.state.callDepth < 1
  | _ => false

/-- The machines that can be had by using one that was loaded with the given code and stack
size.  Host functions may run the program in between and, if `entering` is true, enter the
machine; otherwise they leave the control state alone.  The last truth value tells whether an
invocation has stranded the machine since it was last entered. -/
inductive History (entering : Bool) (code : List UInt8) (stackSize : Nat) : Bool → Machine → Prop
  | load {m : Machine} (hload : Machine.load code stackSize = .ok m) :
      History entering code stackSize false m
  | enter {stranded : Bool} {m m' : Machine} {entry : Nat}
      (hm : History entering code stackSize stranded m) (henter : m.enter entry = .ok m') :
      History entering code stackSize false m'
  | run {stranded : Bool} {m m' : Machine} {fuel : Nat}
      (hm : History entering code stackSize stranded m) (hrun : m.run fuel = some m') :
      History entering code stackSize stranded m'
  | step {stranded : Bool} {m m' : Machine} {fuel : Nat}
      (hm : History entering code stackSize stranded m) (hstep : m.step fuel = some m') :
      History entering code stackSize stranded m'
  | invoke {stranded : Bool} {m m' : Machine} {fuel entry : Nat}
      {outcome : Except MachineError Status} (hm : History entering code stackSize stranded m)
      (hinvoke : m.invoke fuel entry = some (outcome, m')) :
      History entering code stackSize (stranded || m.strands outcome) m'
  | setRegisters {stranded : Bool} {m : Machine} (f : RegisterFile)
      (hm : History entering code stackSize stranded m) :
      History entering code stackSize stranded { m with state := { m.state with registers := f } }
  | setStore {stranded : Bool} {m : Machine} (store : Store)
      (hm : History entering code stackSize stranded m) :
      History entering code stackSize stranded { m with state := { m.state with toStore := store } }
  | register {stranded : Bool} {m : Machine} {module : HostModule}
      (hm : History entering code stackSize stranded m)
      (hmodule : module.Conforms (Core.Hands entering)) :
      History entering code stackSize stranded (m.register module)

namespace ControlSound

variable {entering stranded : Bool} {code : List UInt8} {stackSize fuel : Nat} {m m' : Machine}

end ControlSound

end Machine

end BytecodeMachine
