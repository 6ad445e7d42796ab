import BytecodeMachine.Proofs.Execution.Standing
import BytecodeMachine.Run

/-!
# Running is stepping

A run looks at the status only after some instructions, a sequence of steps after each one.
The two come to the same: after the instructions that a run passes without a look, the
status is still `running`.

Runs and steps carry fuel for the runs inside them.  More fuel never changes an answer, so
a run that ends and a sequence of steps that ends can be given fuel for each other.
-/

namespace BytecodeMachine

/-! ## More fuel gives the same answer -/

/-- Where the first way to run gives an answer, the second gives the same. -/
def Extends (nested wider : State → Option State) : Prop :=
  ∀ s t, nested s = some t → wider s = some t

namespace State

variable {host : HostTable} {nested wider : State → Option State}

theorem invoke_extends (hwider : Extends nested wider) {entry : Nat} {s : State}
    {answer : Except MachineError Status × State}
    (hinvoke : s.invoke nested entry = some answer) : s.invoke wider entry = some answer := by
  unfold invoke at hinvoke ⊢
  by_cases hentry : s.code.length ≤ entry
  · rw [if_pos hentry] at hinvoke ⊢
    exact hinvoke
  · rw [if_neg hentry] at hinvoke ⊢
    cases hnested : nested { s with cursor := entry, callDepth := 1, status := .running } with
    | none =>
        rw [hnested] at hinvoke
        cases hinvoke
    | some t =>
        rw [hnested] at hinvoke
        rw [hwider _ t hnested]
        exact hinvoke

end State

theorem Routine.perform_extends {nested wider : State → Option State}
    (hwider : Extends nested wider) {latch : Latch} {r : Routine} {c : Core}
    (hperform : r.perform nested latch = some c) : r.perform wider latch = some c := by
  induction r with
  | finish c' => exact hperform
  | invoke c' entry resume ih =>
      unfold Routine.perform at hperform ⊢
      cases hinvoke : State.invoke nested entry { toCore := c', latch } with
      | none =>
          rw [hinvoke] at hperform
          cases hperform
      | some answer =>
          obtain ⟨outcome, t⟩ := answer
          rw [hinvoke] at hperform
          rw [State.invoke_extends hwider hinvoke]
          exact ih outcome t.toCore hperform

namespace State

variable {host : HostTable} {nested wider : State → Option State} {s t u : State}

theorem execute_extends (hwider : Extends nested wider) {answer : Bool × State}
    (hexecute : s.execute host nested = some answer) :
    s.execute host wider = some answer := by
  unfold execute at hexecute ⊢
  cases hinstruction : Exec.instruction host s with
  | error f t =>
      rw [hinstruction] at hexecute
      exact hexecute
  | ok flow t =>
      rw [hinstruction] at hexecute
      cases flow with
      | halt => exact hexecute
      | next => exact hexecute
      | call v =>
          obtain ⟨c, hperform, hc⟩ := Option.map_eq_some_iff.mp hexecute
          exact Option.map_eq_some_iff.mpr ⟨c, Routine.perform_extends hwider hperform, hc⟩

/-- One more unit of fuel.  The induction is on the fuel; it covers the run itself and, through
the host functions, the runs nested in it. -/
theorem loop_extends_succ (host : HostTable) (fuel : Nat) (straight : Bool) :
    Extends (loop host fuel straight) (loop host (fuel + 1) straight) := by
  induction fuel generalizing straight with
  | zero =>
      intro s t hloop
      unfold loop at hloop ⊢
      by_cases hgoes : (straight || s.status == .running) = true
      · rw [if_pos hgoes] at hloop
        cases hloop
      · rw [if_neg hgoes] at hloop ⊢
        exact hloop
  | succ fuel ih =>
      intro s t hloop
      unfold loop at hloop ⊢
      by_cases hgoes : (straight || s.status == .running) = true
      · rw [if_pos hgoes] at hloop ⊢
        cases hexecute : s.execute host (loop host fuel false) with
        | none =>
            rw [hexecute] at hloop
            cases hloop
        | some answer =>
            obtain ⟨straight', u⟩ := answer
            rw [hexecute] at hloop
            rw [execute_extends (ih false) hexecute]
            exact ih straight' u t hloop
      · rw [if_neg hgoes] at hloop ⊢
        exact hloop

theorem loop_extends (host : HostTable) {fuel more : Nat} (hfuel : fuel ≤ more)
    (straight : Bool) : Extends (loop host fuel straight) (loop host more straight) := by
  induction hfuel with
  | refl => exact fun _ _ hloop => hloop
  | step _ ih => exact fun s t hloop => loop_extends_succ host _ straight s t (ih s t hloop)

/-! ## Single instructions of a run -/

/-- An instruction that is passed without a look at the status has not changed it. -/
theorem status_of_straight (hexecute : s.execute host nested = some (true, t)) :
    t.status = s.status := by
  have hsettles := Exec.settles_instruction host s
  unfold execute at hexecute
  cases hinstruction : Exec.instruction host s with
  | error f u =>
      rw [hinstruction] at hexecute
      cases hexecute
  | ok flow u =>
      rw [hinstruction] at hexecute hsettles
      cases flow with
      | halt => cases hexecute
      | next =>
          cases hexecute
          exact hsettles.status
      | call v =>
          obtain ⟨c, -, hc⟩ := Option.map_eq_some_iff.mp hexecute
          cases hc

/-- Where an instruction takes the machine out of the status `running`, the run looks at the
status before it goes on. -/
theorem looks_of_stopped {straight : Bool} (hrunning : s.status = .running)
    (hexecute : s.execute host nested = some (straight, t)) (hstopped : t.status ≠ .running) :
    straight = false := by
  cases straight with
  | false => rfl
  | true => exact absurd ((status_of_straight hexecute).trans hrunning) hstopped

theorem run_of_active (hactive : s.status.isActive = true) (fuel : Nat) :
    s.run host fuel = loop host fuel false { s with status := .running } := if_pos hactive

theorem step_of_active (hactive : s.status.isActive = true) (fuel : Nat) :
    s.step host fuel =
      (execute host (loop host fuel false) { s with status := .running }).map (·.2) :=
  if_pos hactive

/-- All that a run can be: a loop from the status `running`, or nothing. -/
theorem run_cases {fuel : Nat} (hrun : s.run host fuel = some t) :
    (s.status.isActive = true ∧ loop host fuel false { s with status := .running } = some t) ∨
      t = s := by
  unfold run at hrun
  split at hrun
  · rename_i hactive
    exact Or.inl ⟨hactive, hrun⟩
  · cases hrun
    exact Or.inr rfl

/-- All that a step can be: an instruction from the status `running`, or nothing. -/
theorem step_cases {fuel : Nat} (hstep : s.step host fuel = some t) :
    (s.status.isActive = true ∧ ∃ straight,
      execute host (loop host fuel false) { s with status := .running } = some (straight, t)) ∨
      t = s := by
  unfold step at hstep
  split at hstep
  · rename_i hactive
    obtain ⟨⟨straight, u⟩, hexecute, hu⟩ := Option.map_eq_some_iff.mp hstep
    cases hu
    exact Or.inl ⟨hactive, straight, hexecute⟩
  · cases hstep
    exact Or.inr rfl

theorem active_of_running (hrunning : s.status = .running) : s.status.isActive = true := by
  rw [hrunning]
  rfl

theorem step_of_running (hrunning : s.status = .running) (fuel : Nat) :
    s.step host fuel = (execute host (loop host fuel false) s).map (·.2) := by
  rw [step_of_active (active_of_running hrunning), ← hrunning]

theorem loop_of_running (hrunning : s.status = .running) (fuel : Nat) (straight : Bool) :
    loop host (fuel + 1) straight s =
      (execute host (loop host fuel false) s).bind
        (fun answer => loop host fuel answer.1 answer.2) := by
  rw [loop, if_pos (by simp [hrunning])]
  cases execute host (loop host fuel false) s <;> rfl

theorem loop_of_stopped (hstopped : s.status ≠ .running) (fuel : Nat) :
    loop host fuel false s = some s := by
  cases fuel <;> simp [loop, hstopped]

/-- What holds between the start and the end of a run.  The induction is on the fuel, so for an
instruction it may be used that the same holds of the runs nested in it. -/
theorem loop_induction {motive : State → State → Prop}
    (hexecute : ∀ fuel,
      (∀ s t, s.status = .running → loop host fuel false s = some t → motive s t) →
      ∀ s u straight, s.status = .running →
        execute host (loop host fuel false) s = some (straight, u) →
        (u.status ≠ .running → motive s u) ∧
          ∀ t, u.status = .running → motive u t → motive s t)
    {fuel : Nat} {straight : Bool} (hrunning : s.status = .running)
    (hloop : loop host fuel straight s = some t) : motive s t := by
  induction fuel generalizing straight s t with
  | zero => simp [loop, hrunning] at hloop
  | succ fuel ih =>
      rw [loop_of_running hrunning] at hloop
      obtain ⟨⟨straight', u⟩, hfirst, hrest⟩ := Option.bind_eq_some_iff.mp hloop
      obtain ⟨hlast, hmore⟩ :=
        hexecute fuel (fun _ _ hs hnested => ih hs hnested) s u straight' hrunning hfirst
      by_cases hgoes : u.status = .running
      · exact hmore t hgoes (ih hgoes hrest)
      · have hlook : straight' = false := looks_of_stopped hrunning hfirst hgoes
        subst hlook
        rw [loop_of_stopped hgoes] at hrest
        cases hrest
        exact hlast hgoes

/-! ## Steps -/

/-- `k` successive steps lead from `s` to `t`: all but the last leave the machine running, and
the last does not. -/
inductive Steps (host : HostTable) : Nat → State → State → Prop
  | last {s t : State} {fuel : Nat} (hstep : s.step host fuel = some t)
      (hstopped : t.status ≠ .running) : Steps host 1 s t
  | more {k : Nat} {s t u : State} {fuel : Nat} (hstep : s.step host fuel = some u)
      (hrunning : u.status = .running) (hrest : Steps host k u t) : Steps host (k + 1) s t

theorem Steps.pos {k : Nat} (hsteps : Steps host k s t) : 1 ≤ k := by
  cases hsteps with
  | last _ _ => exact Nat.le_refl 1
  | more _ _ _ => exact Nat.le_add_left 1 _

/-- A step sets the status to `running` first, so it makes no difference if it is already. -/
theorem step_ready (hactive : s.status.isActive = true) (fuel : Nat) :
    step host fuel { s with status := .running } = s.step host fuel := by
  rw [step_of_active hactive]
  rfl

/-- Only what the first step does with the state counts. -/
theorem Steps.of_same_step {k : Nat} (hsame : ∀ fuel, u.step host fuel = s.step host fuel)
    (hsteps : Steps host k s t) : Steps host k u t := by
  cases hsteps with
  | last hstep hstopped => exact .last ((hsame _).trans hstep) hstopped
  | more hstep hrunning hrest => exact .more ((hsame _).trans hstep) hrunning hrest

/-- A run from the status `running` is a sequence of steps, one for each instruction. -/
theorem steps_of_loop {fuel : Nat} {straight : Bool} (hrunning : s.status = .running)
    (hloop : loop host fuel straight s = some t) : ∃ k, Steps host k s t := by
  induction fuel generalizing straight s with
  | zero => simp [loop, hrunning] at hloop
  | succ fuel ih =>
      rw [loop_of_running hrunning] at hloop
      cases hexecute : execute host (loop host fuel false) s with
      | none =>
          rw [hexecute] at hloop
          cases hloop
      | some answer =>
          obtain ⟨straight', u⟩ := answer
          rw [hexecute] at hloop
          have hstep : s.step host fuel = some u := by
            rw [step_of_running hrunning, hexecute]
            rfl
          by_cases hgoes : u.status = .running
          · obtain ⟨k, hsteps⟩ := ih hgoes hloop
            exact ⟨k + 1, .more hstep hgoes hsteps⟩
          · have hlook : straight' = false := looks_of_stopped hrunning hexecute hgoes
            subst hlook
            simp only [Option.bind_some, loop_of_stopped hgoes] at hloop
            cases hloop
            exact ⟨1, .last hstep hgoes⟩

/-- A sequence of steps from the status `running` is a run, with fuel for the run and for
every nested one. -/
theorem loop_of_steps {k : Nat} (hrunning : s.status = .running) (hsteps : Steps host k s t) :
    ∃ fuel, ∀ straight, loop host fuel straight s = some t := by
  induction hsteps with
  | @last s t fuel hstep hstopped =>
      rw [step_of_running hrunning] at hstep
      obtain ⟨⟨straight', u⟩, hexecute, hu⟩ := Option.map_eq_some_iff.mp hstep
      cases hu
      have hlook : straight' = false := looks_of_stopped hrunning hexecute hstopped
      subst hlook
      refine ⟨fuel + 1, fun straight => ?_⟩
      rw [loop_of_running hrunning, hexecute]
      exact loop_of_stopped hstopped fuel
  | @more k s t u fuel hstep hgoes hrest ih =>
      rw [step_of_running hrunning] at hstep
      obtain ⟨⟨straight', u'⟩, hexecute, hu⟩ := Option.map_eq_some_iff.mp hstep
      cases hu
      obtain ⟨rest, hloop⟩ := ih hgoes
      -- The first step and the rest have fuel of their own; the larger of the two serves both.
      refine ⟨max fuel rest + 1, fun straight => ?_⟩
      have hwider := execute_extends
        (loop_extends host (Nat.le_max_left fuel rest) false) hexecute
      rw [loop_of_running hrunning, hwider]
      exact loop_extends host (Nat.le_max_right fuel rest) straight' _ _ (hloop straight')

/-- From a status that is ready to go on, a run ends in a state exactly if some number of
successive steps does, where all but the last leave the machine running and the last does not.
In particular, where a run goes on without a look at the status, the machine is running, so
that the look would have changed nothing. -/
theorem run_iff_steps (host : HostTable) (s t : State) (hactive : s.status.isActive = true) :
    ((∃ fuel, s.run host fuel = some t) ↔ ∃ k, 1 ≤ k ∧ Steps host k s t) ∧
      ∀ nested u v, u.status = .running → execute host nested u = some (true, v) →
        v.status = .running ∧ ∀ fuel, loop host fuel true v = loop host fuel false v := by
  refine ⟨⟨?_, ?_⟩, ?_⟩
  · rintro ⟨fuel, hrun⟩
    rw [run_of_active hactive] at hrun
    obtain ⟨k, hsteps⟩ := steps_of_loop rfl hrun
    exact ⟨k, hsteps.pos, hsteps.of_same_step fun fuel => (step_ready hactive fuel).symm⟩
  · rintro ⟨k, -, hsteps⟩
    obtain ⟨fuel, hloop⟩ := loop_of_steps rfl (hsteps.of_same_step (step_ready hactive))
    exact ⟨fuel, (run_of_active hactive fuel).trans (hloop false)⟩
  · intro nested u v hrunning hexecute
    have hgoes := (status_of_straight hexecute).trans hrunning
    refine ⟨hgoes, fun fuel => ?_⟩
    cases fuel with
    | zero => simp [loop, hgoes]
    | succ fuel => rw [loop_of_running hgoes, loop_of_running hgoes]

/-- A branch to the next instruction and a stop. -/
theorem run_iff_steps_stop :
    ∃ t : State, t.status = .completed ∧ ∃ k, 1 ≤ k ∧
      Steps {} k
        { State.load [2, 0, 0, 0, 0, 0] ⟨AddressSpace.stackBase, 64⟩ with status := .initialised }
        t := by
  have hrun : (run {} 2 { State.load [2, 0, 0, 0, 0, 0] ⟨AddressSpace.stackBase, 64⟩ with
      status := .initialised }).map (fun t => t.status) = some .completed := by decide +kernel
  obtain ⟨t, ht, hstatus⟩ := Option.map_eq_some_iff.mp hrun
  exact ⟨t, hstatus, (run_iff_steps {} _ t rfl).1.mp ⟨2, ht⟩⟩

end State

end BytecodeMachine
