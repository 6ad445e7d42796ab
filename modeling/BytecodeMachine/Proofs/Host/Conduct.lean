import BytecodeMachine.Host.Elements
import BytecodeMachine.Machine

/-!
# What host functions do by themselves

A host function may change the state as it likes and run the program in between.
`Routine.Conforms` says that the function itself does no more than a relation between states
allows: at every point where it hands the machine on or back, the relation holds between what the
function last got and what it hands over.  What nested runs do is not the function's doing; of
them it may rely on what every nested run gives back, the cursor and the call depth.

For a view of the state, `Routine.Keeps` is the case that the function never changes the view.
`Routine.perform_related` carries a relation through a whole host call, given that it holds over
the nested runs.
-/

namespace BytecodeMachine

variable {α : Type}

/-- Whenever a function that got the machine in the state `c` hands it over, the relation holds
between what it last got and what it hands over. -/
def Routine.Conforms (allowed : Core → Core → Prop) (c : Core) : Routine → Prop
  | .finish d => allowed c d
  | .invoke d _ resume =>
      allowed c d ∧ ∀ outcome c', c'.cursor = d.cursor → c'.callDepth = d.callDepth →
        (resume outcome c').Conforms allowed c'

/-- All functions of the module conform. -/
def HostModule.Conforms (allowed : Core → Core → Prop) (m : HostModule) : Prop :=
  ∀ function v, m.vector? function = some v → ∀ c, (v c).Conforms allowed c

/-- All functions of the table conform. -/
def HostTable.Conforms (allowed : Core → Core → Prop) (table : HostTable) : Prop :=
  ∀ module function v, table.lookup? module function = some v →
    ∀ c, (v c).Conforms allowed c

/-- The view is the same in both states. -/
def Core.Same (view : Core → α) (c d : Core) : Prop := view d = view c

/-- A function that got the machine in the state `c` never changes the view itself. -/
abbrev Routine.Keeps (view : Core → α) (c : Core) (r : Routine) : Prop :=
  r.Conforms (Core.Same view) c

/-- No function of the module changes the view itself. -/
abbrev HostModule.Keeps (view : Core → α) (m : HostModule) : Prop := m.Conforms (Core.Same view)

/-- No function of the table changes the view itself. -/
abbrev HostTable.Keeps (view : Core → α) (table : HostTable) : Prop :=
  table.Conforms (Core.Same view)

/-- A function that conforms also conforms to a relation that allows more. -/
theorem Routine.Conforms.mono {allowed wider : Core → Core → Prop}
    (hwider : ∀ {c d}, allowed c d → wider c d) {r : Routine} {c : Core}
    (hr : r.Conforms allowed c) : r.Conforms wider c := by
  induction r generalizing c with
  | finish d => exact hwider hr
  | invoke d entry resume ih =>
      refine ⟨hwider hr.1, fun outcome c' hcursor hdepth => ?_⟩
      exact ih outcome c' (hr.2 outcome c' hcursor hdepth)

theorem HostTable.Conforms.mono {allowed wider : Core → Core → Prop}
    (hwider : ∀ {c d}, allowed c d → wider c d) {table : HostTable}
    (htable : table.Conforms allowed) : table.Conforms wider := by
  intro module function v hlookup c
  exact (htable module function v hlookup c).mono hwider

namespace HostTable

variable {allowed : Core → Core → Prop}

theorem conforms_empty : HostTable.Conforms allowed {} := by
  intro module function v hlookup
  cases hlookup

/-- A module found after an insertion is the inserted one or was found before. -/
theorem find?_insert {m found : HostModule} {id : UInt8} {modules : List HostModule}
    (hfound : (insert m modules).find? (fun other => other.id == id) = some found) :
    found = m ∨ modules.find? (fun other => other.id == id) = some found := by
  induction modules with
  | nil =>
      left
      have hmem := List.mem_of_find?_eq_some hfound
      simpa [insert] using hmem
  | cons other rest ih =>
      unfold insert at hfound
      by_cases hbefore : m.id < other.id
      · rw [if_pos hbefore, List.find?_cons] at hfound
        split at hfound
        · cases hfound
          exact Or.inl rfl
        · exact Or.inr hfound
      · rw [if_neg hbefore] at hfound
        by_cases hsame : m.id = other.id
        · -- The inserted module stands in the place of the one with its number.
          rw [if_pos hsame, List.find?_cons] at hfound
          split at hfound
          · cases hfound
            exact Or.inl rfl
          · rename_i hother
            rw [hsame] at hother
            refine Or.inr ?_
            rw [List.find?_cons, hother]
            exact hfound
        · rw [if_neg hsame, List.find?_cons] at hfound
          rw [List.find?_cons]
          cases hid : other.id == id with
          | true =>
              rw [hid] at hfound
              exact Or.inr hfound
          | false =>
              rw [hid] at hfound
              exact ih hfound

theorem conforms_register {table : HostTable} {m : HostModule} (htable : table.Conforms allowed)
    (hm : m.Conforms allowed) : (table.register m).Conforms allowed := by
  intro module function v hlookup
  obtain ⟨found, hfound, hv⟩ := Option.bind_eq_some_iff.mp hlookup
  obtain rfl | hbefore := find?_insert hfound
  · exact hm function v hv
  · exact htable module function v (Option.bind_eq_some_iff.mpr ⟨found, hbefore, hv⟩)

end HostTable

/-- A nested run gives the cursor and the call depth back. -/
theorem State.given_back_of_invoke {nested : State → Option State} {entry : Nat} {s t : State}
    {outcome : Except MachineError Status} (hinvoke : s.invoke nested entry = some (outcome, t)) :
    t.cursor = s.cursor ∧ t.callDepth = s.callDepth := by
  unfold State.invoke at hinvoke
  split at hinvoke
  · cases hinvoke
    exact ⟨rfl, rfl⟩
  · split at hinvoke
    · cases hinvoke
    · cases hinvoke
      exact ⟨rfl, rfl⟩

/-- A relation that holds wherever the function hands over as it is allowed to, and over every
nested run, holds over a whole host call. -/
theorem Routine.perform_related {allowed : Core → Core → Prop} (related : Core → Core → Prop)
    {nested : State → Option State} {latch : Latch}
    (htrans : ∀ {c d e}, related c d → related d e → related c e)
    (hallowed : ∀ {c d}, allowed c d → related c d)
    (hinvoke : ∀ {c : Core} {entry outcome t},
      State.invoke nested entry { toCore := c, latch } = some (outcome, t) → related c t.toCore)
    {r : Routine} {c d : Core} (hconforms : r.Conforms allowed c)
    (hperform : r.perform nested latch = some d) : related c d := by
  induction r generalizing c with
  | finish c' =>
      cases hperform
      exact hallowed hconforms
  | invoke c' entry resume ih =>
      obtain ⟨hhanded, hresume⟩ := hconforms
      unfold Routine.perform at hperform
      cases hnested : State.invoke nested entry { toCore := c', latch } with
      | none =>
          rw [hnested] at hperform
          cases hperform
      | some answer =>
          obtain ⟨outcome, t⟩ := answer
          rw [hnested] at hperform
          obtain ⟨hcursor, hdepth⟩ := State.given_back_of_invoke hnested
          have hrest := ih outcome t.toCore (hresume outcome t.toCore hcursor hdepth) hperform
          exact htrans (hallowed hhanded) (htrans (hinvoke hnested) hrest)

/-! ## The control state -/

/-- What decides where a machine goes on: its regions, cursor, call depth, status and fault. -/
structure Control where
  code : Region
  stack : Region
  cursor : Nat
  callDepth : Int
  status : Status
  fault : Option FaultRecord
  deriving DecidableEq

/-- The control part of the state. -/
def Core.control (c : Core) : Control :=
  { code := c.code, stack := c.stack, cursor := c.cursor, callDepth := c.callDepth,
    status := c.status, fault := c.fault }

theorem Core.enter_eq_ok_iff {c d : Core} {entry : Nat} :
    c.enter entry = .ok d ↔ entry < c.code.length ∧
      d = { c with cursor := entry, callDepth := 1, status := .initialised, fault := none } := by
  unfold Core.enter
  split
  · rename_i hentry
    simp [Nat.not_lt.mpr hentry]
  · rename_i hentry
    simp [Nat.lt_of_not_le hentry, eq_comm]

theorem Machine.enter_eq_ok_iff {m m' : Machine} {entry : Nat} :
    m.enter entry = .ok m' ↔ entry < m.state.code.length ∧
      m' =
        { m with
          state :=
            { m.state with
              cursor := entry, callDepth := 1, status := .initialised, fault := none } } := by
  unfold Machine.enter
  constructor
  · intro henter
    cases hcore : m.state.toCore.enter entry with
    | error e =>
        rw [hcore] at henter
        cases henter
    | ok c =>
        rw [hcore] at henter
        cases henter
        obtain ⟨hentry, rfl⟩ := Core.enter_eq_ok_iff.mp hcore
        exact ⟨hentry, rfl⟩
  · rintro ⟨hentry, rfl⟩
    rw [Core.enter_eq_ok_iff.mpr ⟨hentry, rfl⟩]
    rfl

/-- A function hands the machine over with the control state that it was given, or, if `entering`
is true, after entering it. -/
def Core.Hands (entering : Bool) (c d : Core) : Prop :=
  d.control = c.control ∨
    entering = true ∧ ∃ entry e, c.enter entry = .ok e ∧ d.control = e.control

namespace ElementModule

theorem control_withBuffer (c : Core) (operation : UInt64 → Core)
    (hoperation : ∀ buffer, (operation buffer).control = c.control) :
    (withBuffer c operation).control = c.control := by
  unfold withBuffer
  simp only
  split
  · rfl
  · exact hoperation _

/-- The functions of the module leave the control state alone. -/
theorem keeps_control : module.Keeps Core.control := by
  intro function v hv c
  obtain ⟨front, back, hvectors, -⟩ := List.lookup_eq_some_iff.mp hv
  have hmem : (function, v) ∈ module.vectors := by simp [hvectors]
  simp only [module, List.mem_cons, Prod.mk.injEq, List.not_mem_nil, or_false] at hmem
  obtain ⟨-, rfl⟩ | ⟨-, rfl⟩ | ⟨-, rfl⟩ | ⟨-, rfl⟩ | ⟨-, rfl⟩ := hmem
  · show (allocate c).control = c.control
    unfold allocate
    simp only
    split <;> rfl
  all_goals
    refine control_withBuffer c _ fun buffer => ?_
    split <;> rfl

end ElementModule

end BytecodeMachine
