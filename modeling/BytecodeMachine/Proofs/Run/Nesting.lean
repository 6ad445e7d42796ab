import BytecodeMachine.Proofs.Instruction.Boundary
import BytecodeMachine.Proofs.Run.Stepping

/-!
# Runs inside of runs

A host function may run the program in between, and the program may call host functions again,
so runs stand inside of runs to any depth.  A nested run is a run of its own, after which the
machine goes on where it was; only a fault is not undone.

`HostVector.relay` are the host functions that run the program once and apart from that only
read and write registers.  `Nested` is a chain of runs, each of which has come to a host
instruction of such a function that started the next one.  A fault of the innermost program goes
out through all of them (`Nested.endsWith`), and a program that completes lets the run around it
go on behind the host instruction (`Enters.reaches`).
-/

namespace BytecodeMachine

/-! ## One nested run -/

namespace Machine

/-- The machine at the start of a nested run. -/
def nestedAt (m : Machine) (entry : Nat) : Machine :=
  { m with
    state := { m.state with cursor := entry, callDepth := 1, status := .running } }

/-- The machine after a nested run that ended as `n`: cursor, call depth and latch are as
before, and the status is so if the nested run completed. -/
def resumed (m n : Machine) : Machine :=
  { m with
    state :=
      { n.state with
        cursor := m.state.cursor
        callDepth := m.state.callDepth
        status := if n.status = .completed then m.status else n.status
        latch := m.state.latch } }

variable {m : Machine} {entry : Nat}

theorem invoke_of_outside (hentry : m.state.code.length ≤ entry) (fuel : Nat) :
    m.invoke fuel entry =
      some (.error (.entryOutOfRange entry m.state.code.length), m) := by
  unfold invoke State.invoke
  rw [if_pos hentry]
  rfl

/-- A nested run is a run of the machine at its start. -/
theorem invoke_of_inside (hentry : entry < m.state.code.length) (fuel : Nat) :
    m.invoke fuel entry =
      ((m.nestedAt entry).run fuel).map fun n => (.ok n.status, m.resumed n) := by
  have hrun : (m.nestedAt entry).state.run m.host fuel =
      State.loop m.host fuel false (m.nestedAt entry).state := State.run_of_active rfl fuel
  unfold invoke State.invoke run
  rw [if_neg (by omega)]
  show _ = Option.map _ (Option.map _ ((m.nestedAt entry).state.run m.host fuel))
  rw [hrun]
  -- Without fuel enough neither of them ends.
  unfold nestedAt
  cases State.loop m.host fuel false
      { m.state with cursor := entry, callDepth := 1, status := .running } with
  | none => rfl
  | some t => rfl

end Machine

theorem Fault.status_stops (f : Fault) : f.status ≠ .running ∧ f.status ≠ .completed := by
  cases f <;> simp [status]

/-! ## Host functions that run the program once -/

/-- A host function that runs the program once and apart from that only changes registers:
those that the program gets, and those that are left after it. -/
def HostVector.relay (entry : Core → Nat) (before : Core → RegisterFile)
    (after : Core → Except MachineError Status → Core → RegisterFile) : HostVector :=
  fun c =>
    .invoke { c with registers := before c } (entry c) fun outcome d =>
      .finish { d with registers := after c outcome d }

namespace State

variable {host : HostTable} {s t start call inner last : State} {k : Nat}

/-- A nested run that ends. -/
theorem invoke_of_nested {nested : State → Option State} {entry : Nat}
    (hentry : entry < s.code.length)
    (hnested : nested { s with cursor := entry, callDepth := 1, status := .running } = some t) :
    s.invoke nested entry =
      some (.ok t.status,
        { t with
          cursor := s.cursor
          callDepth := s.callDepth
          status := if t.status = .completed then s.status else t.status
          latch := s.latch }) := by
  unfold invoke
  rw [if_neg (by omega), hnested]

/-- The state in which a host function is called: its instruction has been fetched. -/
def behindHost (s : State) : State :=
  { s.behindOpcode Opcode.host.byte with cursor := s.cursor + 2 }

/-- A host instruction calls the function that the table holds for it. -/
theorem handled_host {module : UInt8} {rest : List UInt8} {v : HostVector}
    (hahead : s.ahead = Opcode.host.byte :: module :: rest)
    (hlookup : host.lookup? module (s.general Exec.functionRegister).toUInt16 = some v) :
    s.handled host = .ok (.call v) s.behindHost := by
  rw [handled_of_cons host hahead, Opcode.ofByte?_byte]
  show Exec.host host (s.behindOpcode Opcode.host.byte) = _
  unfold Exec.host
  rw [Exec.bind_of_ok (Exec.fetchByte_of_cons _ (ahead_behindOpcode hahead)), Exec.bind_get]
  have hfunction : host.lookup? module
      ((s.behindOpcode Opcode.host.byte).general Exec.functionRegister).toUInt16 = some v :=
    hlookup
  simp only [Core.general] at hfunction ⊢
  rw [hfunction]
  rfl

/-- The instruction at the cursor of `call` is a host instruction of a function that runs the
program once, and `inner` is the start of that run. -/
inductive Enters (host : HostTable) (call : State) : State → Prop
  | mk {module : UInt8} {rest : List UInt8} {entry : Core → Nat} {before : Core → RegisterFile}
      {after : Core → Except MachineError Status → Core → RegisterFile}
      (hahead : call.ahead = Opcode.host.byte :: module :: rest)
      (hlookup : host.lookup? module (call.general Exec.functionRegister).toUInt16 =
        some (.relay entry before after))
      (hentry : entry call.behindHost.toCore < call.code.length) :
      Enters host call
        { call.behindHost with
          registers := before call.behindHost.toCore
          cursor := entry call.behindHost.toCore
          callDepth := 1 }

theorem Enters.running (henters : Enters host call inner) : inner.status = .running := by
  cases henters
  rfl

/-- What the run inside has made of the state around it. -/
structure Regains (call t after : State) : Prop where
  cursor : after.cursor = call.cursor + 2
  callDepth : after.callDepth = call.callDepth
  status : after.status = if t.status = .completed then .running else t.status
  fault : after.fault = t.fault
  store : after.toStore = t.toStore

/-- One step of the run around is the whole run inside. -/
theorem Enters.step (henters : Enters host call inner) (hactive : call.status.isActive = true)
    {fuel : Nat} (hloop : loop host fuel false inner = some t) :
    ∃ after, call.step host fuel = some after ∧ Regains call t after := by
  cases henters with
  | @mk module rest entry before after hahead hlookup hentry =>
      have hinvoke : invoke (loop host fuel false) (entry call.behindHost.toCore)
          { toCore :=
              { call.behindHost.toCore with registers := before call.behindHost.toCore }
            latch := call.behindHost.latch } =
          some (.ok t.status,
            { t with
              cursor := call.cursor + 2
              callDepth := call.callDepth
              status := if t.status = .completed then .running else t.status
              latch := call.behindHost.latch }) :=
        invoke_of_nested hentry hloop
      rw [step_of_handled hactive (handled_host hahead hlookup)]
      simp only [HostVector.relay, Routine.perform, hinvoke, Option.map_some]
      exact ⟨_, rfl, rfl, rfl, rfl, rfl, rfl⟩

/-! ## The run around a host instruction -/

/-- `k` instructions of a run from `s` lead to `t`, and the machine is running after each. -/
inductive Reaches (host : HostTable) : Nat → State → State → Prop
  | start {s : State} (hactive : s.status.isActive = true) :
      Reaches host 0 s { s with status := .running }
  | more {k fuel : Nat} {s t u : State} (hbefore : Reaches host k s t)
      (hstep : t.step host fuel = some u) (hrunning : u.status = .running) :
      Reaches host (k + 1) s u

theorem Reaches.running (hreaches : Reaches host k s t) : t.status = .running := by
  cases hreaches with
  | start _ => rfl
  | more _ _ hrunning => exact hrunning

/-- The steps that a run has done come before those that are to come. -/
theorem Reaches.steps (hreaches : Reaches host k s t) {n : Nat} {u : State}
    (hsteps : Steps host n t u) : Steps host (k + n) s u := by
  -- The last of the steps that were done becomes the first of those to come.
  induction hreaches generalizing n with
  | start hactive =>
      rw [Nat.zero_add]
      exact hsteps.of_same_step fun fuel => (step_ready hactive fuel).symm
  | more _ hstep hrunning ih =>
      have hall := ih (.more hstep hrunning hsteps)
      rwa [Nat.add_comm n 1, ← Nat.add_assoc] at hall

theorem Reaches.active (hreaches : Reaches host k s t) : s.status.isActive = true := by
  induction hreaches with
  | start hactive => exact hactive
  | more _ _ _ ih => exact ih

/-- A run that ends after some steps ends so with all the fuel that it may be given. -/
theorem run_of_steps (hactive : s.status.isActive = true) (hsteps : Steps host k s t) :
    ∃ enough, ∀ fuel, enough ≤ fuel → s.run host fuel = some t := by
  obtain ⟨enough, hloop⟩ := loop_of_steps rfl (hsteps.of_same_step (step_ready hactive))
  refine ⟨enough, fun fuel hfuel => ?_⟩
  rw [run_of_active hactive]
  exact loop_extends host hfuel false _ _ (hloop false)

/-- Where the program inside has completed, the run around goes on behind its host
instruction. -/
theorem Enters.reaches (henters : Enters host call inner) (hreaches : Reaches host k start call)
    {n : Nat} (hinner : Steps host n inner t) (hcompleted : t.status = .completed) :
    ∃ after, Reaches host (k + 1) start after ∧ Regains call t after := by
  obtain ⟨fuel, hloop⟩ := loop_of_steps henters.running hinner
  obtain ⟨after, hstep, hregains⟩ :=
    henters.step (active_of_running hreaches.running) (hloop false)
  have hrunning : after.status = .running := by
    rw [hregains.status, if_pos hcompleted]
  exact ⟨after, hreaches.more hstep hrunning, hregains⟩

/-! ## Faults -/

/-- A run from the first state executes one instruction more than the number says, and returns
the fault of the record, however much fuel it has beyond some amount. -/
def EndsWith (host : HostTable) (record : FaultRecord) (level : State × Nat) : Prop :=
  ∃ final, Steps host (level.2 + 1) level.1 final ∧
    final.status = record.fault.status ∧ final.fault = some record ∧
    ∃ enough, ∀ fuel, enough ≤ fuel → level.1.run host fuel = some final

theorem Reaches.endsWith (hreaches : Reaches host k start last) {fuel : Nat} {record : FaultRecord}
    (hstep : last.step host fuel = some t) (hstatus : t.status = record.fault.status)
    (hrecord : t.fault = some record) : EndsWith host record (start, k) := by
  have hstopped : t.status ≠ .running := by
    rw [hstatus]
    exact record.fault.status_stops.1
  have hsteps := hreaches.steps (.last hstep hstopped)
  exact ⟨t, hsteps, hstatus, hrecord, run_of_steps hreaches.active hsteps⟩

/-- A chain of runs, from the outermost start to a state of the innermost run.  Each run is
listed with its start and the number of its instructions that are done. -/
inductive Nested (host : HostTable) : State → List (State × Nat) → State → Prop
  | innermost {k : Nat} {start last : State} (hreaches : Reaches host k start last) :
      Nested host start [(start, k)] last
  | inside {k : Nat} {start call inner last : State} {levels : List (State × Nat)}
      (hreaches : Reaches host k start call) (henters : Enters host call inner)
      (hrest : Nested host inner levels last) : Nested host start ((start, k) :: levels) last

theorem Nested.mem {levels : List (State × Nat)} (hnested : Nested host start levels last) :
    ∃ k, (start, k) ∈ levels := by
  cases hnested with
  | innermost _ => exact ⟨_, List.mem_singleton_self _⟩
  | inside _ _ _ => exact ⟨_, List.mem_cons_self⟩

theorem Nested.running {levels : List (State × Nat)} (hnested : Nested host start levels last) :
    last.status = .running := by
  induction hnested with
  | innermost hreaches => exact hreaches.running
  | inside _ _ _ ih => exact ih

/-- A fault of the innermost program ends every run of the chain. -/
theorem Nested.endsWith {levels : List (State × Nat)} (hnested : Nested host start levels last)
    {f : Fault} (hfault : last.handled host = .error f t) :
    ∀ level ∈ levels,
      EndsWith host { fault := f, offset := t.latch.offset, opcode := t.latch.opcode } level := by
  induction hnested with
  | @innermost k start last hreaches =>
      intro level hlevel
      rw [List.mem_singleton.mp hlevel]
      obtain ⟨t', ht', hstep⟩ := raises_of_handled (active_of_running hreaches.running) hfault
      rw [hfault] at ht'
      cases ht'
      exact hreaches.endsWith (hstep 0) rfl rfl
  | @inside k start call inner last levels hreaches henters hrest ih =>
      intro level hlevel
      rcases List.mem_cons.mp hlevel with rfl | hlevel
      · -- The run just inside has ended with the fault, so the host instruction does.
        obtain ⟨k', hmem⟩ := hrest.mem
        obtain ⟨final, hsteps, hstatus, hrecord, -⟩ := ih hfault _ hmem
        obtain ⟨fuel, hloop⟩ := loop_of_steps henters.running hsteps
        obtain ⟨after, hstep, hregains⟩ :=
          henters.step (active_of_running hreaches.running) (hloop false)
        have hstopped : final.status ≠ .completed := by
          rw [hstatus]
          exact f.status_stops.2
        refine hreaches.endsWith hstep ?_ (hregains.fault.trans hrecord)
        rw [hregains.status, if_neg hstopped]
        exact hstatus
      · exact ih hfault level hlevel

end State

/-- Running the program in between is a run of its own, and leaves no trace but its registers,
its memory and its faults.  A fault of the innermost of any number of runs inside of each other
ends all of them, without a further instruction; where one completes, the run around it goes on
behind its host instruction. -/
theorem nested_runs_are_transparent :
    (∀ (m : Machine) (fuel entry : Nat), m.state.code.length ≤ entry →
      m.invoke fuel entry =
        some (.error (.entryOutOfRange entry m.state.code.length), m)) ∧
    (∀ (m : Machine) (fuel entry : Nat), entry < m.state.code.length →
      m.invoke fuel entry =
        ((m.nestedAt entry).run fuel).map fun n => (.ok n.status, m.resumed n)) ∧
    (∀ (host : HostTable) (start last t : State) (levels : List (State × Nat)) (f : Fault),
      State.Nested host start levels last → last.handled host = .error f t →
      ∀ level ∈ levels, State.EndsWith host
        { fault := f, offset := t.latch.offset, opcode := t.latch.opcode } level) ∧
    ∀ (host : HostTable) (start call inner t : State) (k n : Nat),
      State.Reaches host k start call → State.Enters host call inner →
      State.Steps host n inner t → t.status = .completed →
      ∃ after, State.Reaches host (k + 1) start after ∧ State.Regains call t after := by
  refine ⟨?_, ?_, ?_, ?_⟩
  · intro m fuel entry hentry
    exact Machine.invoke_of_outside hentry fuel
  · intro m fuel entry hentry
    exact Machine.invoke_of_inside hentry fuel
  · intro host start last t levels f hnested hfault
    exact hnested.endsWith hfault
  · intro host start call inner t k n hreaches henters hinner hcompleted
    exact henters.reaches hreaches hinner hcompleted

/-- Two host functions that run the program from the second and the fourth byte on. -/
def twoRelays : HostTable :=
  { modules :=
      [{ id := 7
         name := "relay"
         vectors :=
          [(0, .relay (fun _ => 2)
              (fun c => c.registers.set .general Exec.functionRegister 1)
              (fun _ _ d => d.registers)),
            (1, .relay (fun _ => 4) (fun c => c.registers) (fun _ _ d => d.registers))] }] }

/-- An invalid opcode in a run inside of a run inside of a run. -/
theorem threefold_run_is_transparent :
    ∃ (start last t : State) (levels : List (State × Nat)), levels.length = 3 ∧
      State.Nested twoRelays start levels last ∧
      last.handled twoRelays = .error (.invalidOpcode 0xff) t ∧
      ∀ level ∈ levels, State.EndsWith twoRelays
        { fault := .invalidOpcode 0xff, offset := t.latch.offset, opcode := t.latch.opcode }
        level := by
  let outer : State :=
    { State.load [1, 7, 1, 7, 0xff] ⟨AddressSpace.stackBase, 64⟩ with
      callDepth := 1, status := .running }
  let middle : State :=
    { outer.behindHost with
      registers := outer.registers.set .general Exec.functionRegister 1, cursor := 2,
      callDepth := 1 }
  let inner : State := { middle.behindHost with cursor := 4, callDepth := 1 }
  have houter : State.Enters twoRelays outer middle := by
    have hahead : outer.ahead = Opcode.host.byte :: 7 :: [1, 7, 0xff] := by decide +kernel
    have hlookup : twoRelays.lookup? 7 (outer.general Exec.functionRegister).toUInt16 =
        some (.relay (fun _ => 2)
          (fun c => c.registers.set .general Exec.functionRegister 1)
          (fun _ _ d => d.registers)) := rfl
    have hentry : 2 < outer.code.length := by decide
    exact State.Enters.mk hahead hlookup hentry
  have hmiddle : State.Enters twoRelays middle inner := by
    have hahead : middle.ahead = Opcode.host.byte :: 7 :: [0xff] := by decide +kernel
    have hlookup : twoRelays.lookup? 7 (middle.general Exec.functionRegister).toUInt16 =
        some (.relay (fun _ => 4) (fun c => c.registers) (fun _ _ d => d.registers)) := rfl
    have hentry : 4 < middle.code.length := by decide
    exact State.Enters.mk hahead hlookup hentry
  have hnested : State.Nested twoRelays outer [(outer, 0), (middle, 0), (inner, 0)] inner :=
    .inside (.start rfl) houter (.inside (.start rfl) hmiddle (.innermost (.start rfl)))
  have hahead : inner.ahead = 0xff :: [] := by decide +kernel
  have hfault : inner.handled twoRelays =
      .error (.invalidOpcode 0xff) (inner.behindOpcode 0xff) := by
    have hop : Opcode.ofByte? 0xff = none := by decide +kernel
    rw [State.handled_of_cons twoRelays hahead, hop]
    rfl
  exact ⟨outer, inner, _, _, rfl, hnested, hfault,
    nested_runs_are_transparent.2.2.1 twoRelays outer inner _ _ _ hnested hfault⟩

end BytecodeMachine
