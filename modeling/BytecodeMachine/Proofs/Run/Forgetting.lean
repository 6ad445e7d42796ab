import BytecodeMachine.Proofs.Execution.Latch
import BytecodeMachine.Proofs.Instruction.Places
import BytecodeMachine.Proofs.Run.Stepping

/-!
# What runs forget

Two machines that hold the same but for their latches behave the same.  The only trace that a
latch can leave is the opcode in the record of a fault that comes when there is no opcode byte to
fetch, and that is the last thing the machine does.

An instruction whose opcode byte is there notes the opcode and its offset, so from then on the
two latches name the same instruction.  `Uniform` says that a way to run gives the same from such
states; by induction on the fuel, runs inside of host functions are uniform at any depth.
-/

namespace BytecodeMachine

open Latch (SameOpcode)

/-- Answers that are related are both there or both missing. -/
theorem cases_of_rel {α : Type} {related : α → α → Prop} {x y : Option α}
    (hrel : Option.Rel related x y) :
    (x = none ∧ y = none) ∨ ∃ a b, x = some a ∧ y = some b ∧ related a b := by
  cases hrel with
  | none => exact .inl ⟨rfl, rfl⟩
  | some hab => exact .inr ⟨_, _, rfl, rfl, hab⟩

/-! ## Latches that name the same instruction -/

/-- From states that hold the same under latches that name the same instruction, this way to run
gives such states again. -/
def Uniform (nested : State → Option State) : Prop :=
  ∀ s t, State.Alike SameOpcode s t →
    Option.Rel (State.Alike SameOpcode) (nested s) (nested t)

variable {host : HostTable} {nested : State → Option State} {s t : State}

/-- A nested run does not show which latch it has put back. -/
theorem State.invoke_uniform (hnested : Uniform nested) (entry : Nat)
    (halike : State.Alike SameOpcode s t) :
    Option.Rel (fun a b => a.1 = b.1 ∧ a.2.toCore = b.2.toCore)
      (s.invoke nested entry) (t.invoke nested entry) := by
  obtain ⟨c, latch⟩ := s
  obtain ⟨c', latch'⟩ := t
  obtain ⟨rfl, hlatch⟩ := halike
  have hruns := hnested
    ⟨{ c with cursor := entry, callDepth := 1, status := .running }, latch⟩
    ⟨{ c with cursor := entry, callDepth := 1, status := .running }, latch'⟩ ⟨rfl, hlatch⟩
  unfold State.invoke
  by_cases hentry : c.code.length ≤ entry
  · simp only [hentry, if_true]
    exact .some ⟨rfl, rfl⟩
  · simp only [hentry, if_false]
    obtain ⟨hs, ht⟩ | ⟨u, v, hs, ht, hends⟩ := cases_of_rel hruns
    · simp only [hs, ht]
      exact .none
    · simp only [hs, ht]
      refine .some ⟨by rw [hends.core], ?_⟩
      simp only [hends.core]

/-- The course of a host function is the same under both latches. -/
theorem Routine.perform_uniform (hnested : Uniform nested) {a b : Latch}
    (hsame : SameOpcode a b) (r : Routine) : r.perform nested a = r.perform nested b := by
  induction r with
  | finish c => rfl
  | invoke c entry resume ih =>
      have hinvoke := State.invoke_uniform hnested entry
        (s := { toCore := c, latch := a }) (t := { toCore := c, latch := b }) ⟨rfl, hsame⟩
      unfold Routine.perform
      obtain ⟨hs, ht⟩ | ⟨⟨outcome, u⟩, ⟨outcome', v⟩, hs, ht, houtcome, hcore⟩ :=
        cases_of_rel hinvoke
      · simp only [hs, ht]
      · simp only [hs, ht] at houtcome hcore ⊢
        rw [houtcome, hcore]
        exact ih outcome' v.toCore

namespace State

/-- An instruction is executed in the same way, if its opcode byte is there or the latches name
the same instruction anyway. -/
theorem execute_uniform (host : HostTable) (hnested : Uniform nested) (hcore : s.toCore = t.toCore)
    (hopcode : s.ahead ≠ [] ∨ SameOpcode s.latch t.latch) :
    Option.Rel (fun a b => a.1 = b.1 ∧ Alike SameOpcode a.2 b.2)
      (s.execute host nested) (t.execute host nested) := by
  have hagrees := Exec.agrees_instruction host hcore hopcode
  unfold execute
  revert hagrees
  cases Exec.instruction host s with
  | error f u =>
      cases Exec.instruction host t with
      | ok flow v => exact False.elim
      | error g v =>
          rintro ⟨rfl, halike⟩
          refine .some ⟨rfl, ?_, halike.latch⟩
          simp only [raise, halike.core, halike.latch.1, halike.latch.2]
  | ok flow u =>
      cases Exec.instruction host t with
      | error g v => exact False.elim
      | ok flow' v =>
          rintro ⟨rfl, halike⟩
          cases flow with
          | halt => exact .some ⟨rfl, halike⟩
          | next => exact .some ⟨rfl, halike⟩
          | call vector =>
              simp only
              rw [halike.core, Routine.perform_uniform hnested halike.latch]
              cases (vector v.toCore).perform nested v.latch with
              | none => exact .none
              | some c => exact .some ⟨rfl, rfl, halike.latch⟩

/-- Runs are uniform.  The induction is on the fuel; it covers the run itself and, through the
host functions, the runs nested in it. -/
theorem loop_uniform (host : HostTable) (fuel : Nat) (straight : Bool) :
    Uniform (loop host fuel straight) := by
  induction fuel generalizing straight with
  | zero =>
      intro s t halike
      unfold loop
      rw [halike.core]
      split
      · exact .none
      · exact .some halike
  | succ fuel ih =>
      intro s t halike
      have hexecute := execute_uniform host (ih false) halike.core (.inr halike.latch)
      unfold loop
      rw [halike.core]
      split
      · obtain ⟨hs, ht⟩ | ⟨⟨straight', u⟩, ⟨_, v⟩, hs, ht, rfl, hends⟩ := cases_of_rel hexecute
        · simp only [hs, ht]
          exact .none
        · simp only [hs, ht]
          exact ih straight' u v hends
      · exact .some halike

/-- A step, if the opcode byte is there or the latches name the same instruction anyway. -/
theorem step_alike (host : HostTable) (hactive : s.status.isActive = true)
    (hcore : s.toCore = t.toCore)
    (hopcode : s.ahead ≠ [] ∨ SameOpcode s.latch t.latch) (fuel : Nat) :
    Option.Rel (Alike SameOpcode) (s.step host fuel) (t.step host fuel) := by
  have hactive' : t.status.isActive = true := hcore ▸ hactive
  have hexecute := execute_uniform host (loop_uniform host fuel false)
    (s := { s with status := .running }) (t := { t with status := .running })
    (by simp only [hcore]) hopcode
  rw [step_of_active hactive, step_of_active hactive']
  obtain ⟨hs, ht⟩ | ⟨a, b, hs, ht, -, hends⟩ := cases_of_rel hexecute
  · rw [hs, ht]
    exact .none
  · rw [hs, ht]
    exact .some hends

theorem step_of_stopped (hstopped : s.status.isActive = false) (fuel : Nat) :
    s.step host fuel = some s := by
  unfold step
  rw [hstopped]
  rfl

theorem step_uniform (host : HostTable) (fuel : Nat) : Uniform (step host fuel) := by
  intro s t halike
  cases hactive : s.status.isActive with
  | true => exact step_alike host hactive halike.core (.inr halike.latch) fuel
  | false =>
      rw [step_of_stopped hactive, step_of_stopped (halike.core ▸ hactive)]
      exact .some halike

/-! ## Any number of steps -/

/-- One step after the other, each with fuel for the runs nested in it. -/
def stepAll (host : HostTable) : List Nat → State → Option State
  | [], s => some s
  | fuel :: fuels, s => (s.step host fuel).bind (stepAll host fuels)

theorem stepAll_uniform (host : HostTable) (fuels : List Nat) :
    Uniform (stepAll host fuels) := by
  induction fuels with
  | nil => exact fun s t halike => .some halike
  | cons fuel fuels ih =>
      intro s t halike
      unfold stepAll
      obtain ⟨hs, ht⟩ | ⟨u, v, hs, ht, hends⟩ := cases_of_rel (step_uniform host fuel s t halike)
      · rw [hs, ht]
        exact .none
      · rw [hs, ht]
        exact ih u v hends

theorem stepAll_of_stopped (hstopped : s.status.isActive = false) (fuels : List Nat) :
    stepAll host fuels s = some s := by
  induction fuels with
  | nil => rfl
  | cons fuel fuels ih =>
      unfold stepAll
      rw [step_of_stopped hstopped]
      exact ih

/-- The machine has stopped because there was no opcode byte to fetch: the cursor is at the end
of the code, and this is what the record says. -/
structure FetchFailed (s : State) (r : FaultRecord) : Prop where
  atEnd : s.code.length ≤ s.cursor
  status : s.status = .cursorOutOfRange
  recorded : s.fault = some r
  fault : r.fault = .cursorOutOfRange (s.codeAddress (s.cursor + 1))
  offset : r.offset = s.cursor

/-- The states hold the same, but for the opcode in the record of an opcode byte that could not
be fetched. -/
def SameButOpcode (s t : State) : Prop :=
  s.toCore = t.toCore ∨
    ∃ r opcode, s.FetchFailed r ∧ t.toCore = { s.toCore with fault := some { r with opcode } }

/-- A step where there is no opcode byte. -/
theorem step_of_nil (hactive : s.status.isActive = true) (hahead : s.ahead = []) (fuel : Nat) :
    s.step host fuel =
      some (raise
        { s with status := .running, latch := { s.latch with offset := s.cursor } }
        (.cursorOutOfRange (s.codeAddress (s.cursor + 1)))) := by
  have hfault := Exec.instruction_of_nil host (s := { s with status := .running }) hahead
  rw [step_of_active hactive]
  unfold execute
  rw [hfault]
  rfl

/-- Whatever the latches of two machines hold that hold the same otherwise, they hold the same
after any number of steps. -/
theorem stepAll_sameButOpcode (hcore : s.toCore = t.toCore)
    (hactive : s.status.isActive = true) (fuels : List Nat) :
    Option.Rel SameButOpcode (stepAll host fuels s) (stepAll host fuels t) := by
  cases fuels with
  | nil => exact .some (.inl hcore)
  | cons fuel fuels =>
      unfold stepAll
      -- Latches that differ meet the first step alone.  It stops at the end of the code, and
      -- otherwise leaves latches that name the same instruction.
      by_cases hahead : s.ahead = []
      · have hactive' : t.status.isActive = true := hcore ▸ hactive
        have hahead' : t.ahead = [] := by
          simpa only [ahead, hcore] using hahead
        have hlength := s.length_ahead
        rw [hahead] at hlength
        simp only [List.length_nil] at hlength
        rw [step_of_nil hactive hahead, step_of_nil hactive' hahead']
        simp only [Option.bind_some]
        rw [stepAll_of_stopped rfl, stepAll_of_stopped rfl]
        refine .some (.inr ⟨_, t.latch.opcode, ⟨?_, rfl, rfl, rfl, rfl⟩, ?_⟩)
        · show s.code.length ≤ s.cursor
          omega
        · simp only [raise, hcore]
      · obtain ⟨hs, ht⟩ | ⟨u, v, hs, ht, hends⟩ :=
          cases_of_rel (step_alike host hactive hcore (.inl hahead) fuel)
        · rw [hs, ht]
          exact .none
        · rw [hs, ht]
          obtain ⟨hs, ht⟩ | ⟨u, v, hs, ht, hends⟩ :=
            cases_of_rel (stepAll_uniform host fuels u v hends)
          · simp only [Option.bind_some, hs, ht]
            exact .none
          · simp only [Option.bind_some, hs, ht]
            exact .some (.inl hends.core)

/-! ## References to the destination -/

/-- A step over the instruction with a destination at the cursor takes every reference to the
destination for the place of the first operand, as that was resolved in this instruction.  It
raises a null address where an operand has no place.  Otherwise it acts at the places, once every
other operand has stepped its register. -/
def StepsAtPlaces (host : HostTable) (s : State) (i : Instruction) (n : Nat) :
    Except Operand (List Location) → Prop
  | .error o =>
      ∃ mode extension, Operand.ofParts mode extension = o ∧ s.Raises host (.nullAddress mode)
  | .ok places =>
      (∀ (k size : Nat), i.operands[k]? = some (.sameAsDestination, size) →
        ∃ target, places[0]? = some target ∧ places[k]? = some target) ∧
      ∃ t answer,
        t.toCore =
          { s.toCore with
            status := .running
            cursor := s.cursor + n
            registers := s.registers.stepped
              (i.operands.filter fun entry => entry.1 ≠ Operand.sameAsDestination) } ∧
        i.Acts host t places answer ∧ ∀ fuel, s.step host fuel = some (settled answer)

theorem stepsAtPlaces (host : HostTable) (hactive : s.status.isActive = true) {i : Instruction}
    {n : Nat} (hlisted : s.instruction? = some (i, n))
    (hdestination : i.opcode.hasDestination = true)
    (hvalid : ∀ field ∈ i.fields, field.IsValid) :
    s.StepsAtPlaces host i n (i.places s.registers s.code.base (s.cursor + 1)) := by
  have hlocated := handled_located host hlisted hdestination hvalid
  cases hplaces : i.places s.registers s.code.base (s.cursor + 1) with
  | error o =>
      rw [hplaces] at hlocated
      obtain ⟨mode, extension, t, ho, hanswer⟩ := hlocated
      exact ⟨mode, extension, ho, raises_of_handled hactive hanswer⟩
  | ok places =>
      rw [hplaces] at hlocated
      obtain ⟨t, ht, hacts⟩ := hlocated
      refine ⟨fun k size hsame => Operand.place_of_same hplaces hsame, t, _, ?_, hacts,
        step_of_acts hactive hacts⟩
      rw [ht, RegisterFile.stepped_filter]
      rfl

/-- A reference to the destination that comes before or without a destination. -/
theorem raises_of_same_first (host : HostTable) (hactive : s.status.isActive = true)
    {byte mode : UInt8} {front rest : List UInt8} {op : Opcode}
    (hahead : s.ahead = byte :: (front ++ mode :: rest))
    (hop : Opcode.ofByte? byte = some op) (hfront : op.Leads front)
    (hmode : Mode.ofByte mode = .sameAsDestination) : s.Raises host (.nullAddress mode) := by
  obtain ⟨t, ht⟩ := Exec.faults_perform host op hfront (ahead_behindOpcode hahead) hmode
  refine raises_of_handled (t := t) hactive ?_
  rw [handled_of_cons host hahead, hop]
  exact ht

end State

/-- No decode state leaks from one instruction into another.

Whatever the latches of two ready machines hold that hold the same otherwise, after any number of
steps the machines hold the same, but for the opcode in the record of an opcode byte that could
not be fetched at the end of the code.

A step takes a reference to the destination for the place of the destination of its own
instruction, which is resolved once, and raises a null address for a reference that comes before
or without a destination. -/
theorem latch_does_not_leak (host : HostTable) (s : State)
    (hactive : s.status.isActive = true) :
    (∀ t : State, s.toCore = t.toCore → ∀ fuels,
      Option.Rel State.SameButOpcode (s.stepAll host fuels) (t.stepAll host fuels)) ∧
    (∀ i n, s.instruction? = some (i, n) → i.opcode.hasDestination = true →
      (∀ field ∈ i.fields, field.IsValid) →
      s.StepsAtPlaces host i n (i.places s.registers s.code.base (s.cursor + 1))) ∧
    ∀ byte op front mode rest, s.ahead = byte :: (front ++ mode :: rest) →
      Opcode.ofByte? byte = some op → op.Leads front →
      Mode.ofByte mode = .sameAsDestination → s.Raises host (.nullAddress mode) := by
  refine ⟨fun t hcore fuels => State.stepAll_sameButOpcode hcore hactive fuels, ?_, ?_⟩
  · intro i n hlisted hdestination hvalid
    exact State.stepsAtPlaces host hactive hlisted hdestination hvalid
  · intro byte op front mode rest hahead hop hfront hmode
    exact State.raises_of_same_first host hactive hahead hop hfront hmode

/-- A machine that doubles the number to which register 1 points, and moves the register on. -/
def State.doubles : State :=
  { State.load [(Opcode.integerBinary .add .quad).byte, 0x21, 0xa0]
      ⟨AddressSpace.stackBase, 64⟩ with
    registers := RegisterFile.zero.set .general (.ofNat 1) AddressSpace.stackBase
    status := .initialised }

/-- A machine that is to clear a destination that it does not have. -/
def State.clearsNothing : State :=
  { State.load [(Opcode.clr .quad).byte, 0xa0] ⟨AddressSpace.stackBase, 64⟩ with
    status := .initialised }

/-- Doubling reads and writes one place, moves the register once, and does the same whatever the
latch holds; where there is no destination, a reference to it is a null address. -/
theorem doubles_latch_does_not_leak :
    (∀ latch fuels, Option.Rel State.SameButOpcode (State.doubles.stepAll {} fuels)
      (State.stepAll {} fuels { State.doubles with latch })) ∧
    State.doubles.StepsAtPlaces {}
      ⟨.integerBinary .add .quad,
        [.operand (.stepped .postIncrement 1), .operand .sameAsDestination]⟩ 3
      (.ok [.memory AddressSpace.stackBase, .memory AddressSpace.stackBase]) ∧
    State.clearsNothing.Raises {} (.nullAddress 0xa0) := by
  have hlisted : State.doubles.instruction? =
      some (⟨.integerBinary .add .quad,
        [.operand (.stepped .postIncrement 1), .operand .sameAsDestination]⟩, 3) := by
    decide +kernel
  have hahead : State.clearsNothing.ahead = [(Opcode.clr .quad).byte, 0xa0] := by decide +kernel
  obtain ⟨hlatch, hplaces, -⟩ := latch_does_not_leak {} State.doubles rfl
  obtain ⟨-, -, hnull⟩ := latch_does_not_leak {} State.clearsNothing rfl
  refine ⟨fun latch fuels => hlatch { State.doubles with latch } rfl fuels, ?_, ?_⟩
  · refine hplaces _ 3 hlisted rfl fun field hfield => ?_
    simp only [List.mem_cons, List.not_mem_nil, or_false] at hfield
    obtain rfl | rfl := hfield <;> trivial
  · exact hnull _ _ [] 0xa0 [] hahead (Opcode.ofByte?_byte _) rfl rfl

end BytecodeMachine
