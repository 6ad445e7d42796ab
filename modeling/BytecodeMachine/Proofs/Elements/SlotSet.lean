import BytecodeMachine.Host.Elements
import BytecodeMachine.Proofs.Elements.Fresh

/-!
# The slots of an element buffer as a set

A buffer hands out slots and takes them back.  Over every history, the set of slots that are
out determines every answer: the next slot is the lowest that is not out, a slot can be given
back exactly if it is out, and the free slots are the others.
-/

namespace BytecodeMachine

namespace Elements

/-! ## Histories of a buffer -/

/-- A store with the set of slots that are out, after a buffer was made by a request, slots were
taken and given back, and anything else has left its header and bitmap alone.  Calls that fail
and counts of the free slots make no difference. -/
inductive Reached (buffer : UInt64) (count size : UInt16) : Store → Finset UInt64 → Prop
  | made {s t : Store} (hallocate : s.allocate? count size = some (buffer, t)) :
      Reached buffer count size t ∅
  | taken {s t : Store} {out : Finset UInt64} {a : UInt64}
      (hreached : Reached buffer count size s out)
      (hallocate : s.allocateSlot buffer = .ok a t) :
      Reached buffer count size t (insert a out)
  | given {s t : Store} {out : Finset UInt64} {a : UInt64}
      (hreached : Reached buffer count size s out) (hfree : s.freeSlot buffer a = .ok () t) :
      Reached buffer count size t (out.erase a)
  | aside {s t : Store} {out : Finset UInt64} (hreached : Reached buffer count size s out)
      (haside : Aside buffer (BufferLayout.request count size) s t) :
      Reached buffer count size t out

theorem Held.of_allocateSlot {s t : Store} {buffer a : UInt64} {l : BufferLayout}
    {out : Finset UInt64} (hheld : Held s buffer l out)
    (hallocate : s.allocateSlot buffer = .ok a t) : Held t buffer l (insert a out) := by
  rcases hheld.allocateSlot_cases with ⟨-, herror⟩ | ⟨-, b, u, hok, htaken, -⟩
  · rw [herror] at hallocate
    cases hallocate
  · rw [hok] at hallocate
    cases hallocate
    exact htaken

theorem Held.of_freeSlot {s t : Store} {buffer a : UInt64} {l : BufferLayout}
    {out : Finset UInt64} (hheld : Held s buffer l out)
    (hfree : s.freeSlot buffer a = .ok () t) : Held t buffer l (out.erase a) := by
  rcases hheld.freeSlot_cases a with ⟨-, -, herror⟩ | ⟨-, -, herror⟩ | ⟨-, -, u, hok, hgiven⟩
  · rw [herror] at hfree
    cases hfree
  · rw [herror] at hfree
    cases hfree
  · rw [hok] at hfree
    cases hfree
    exact hgiven

theorem Reached.held {buffer : UInt64} {count size : UInt16} {s : Store}
    {out : Finset UInt64} (hreached : Reached buffer count size s out) :
    Held s buffer (BufferLayout.request count size) out := by
  induction hreached with
  | made hallocate => exact held_of_allocate? hallocate
  | taken _ hallocate ih => exact ih.of_allocateSlot hallocate
  | given _ hfree ih => exact ih.of_freeSlot hfree
  | aside _ haside ih => exact ih.aside haside

/-! ## The set determines the answers -/

/-- The buffer answers as the set of slots that are out says. -/
structure AnswersAsSet (s : Store) (buffer : UInt64) (l : BufferLayout)
    (out : Finset UInt64) : Prop where
  /-- A slot that is taken is the lowest that is not out. -/
  take_lowest : ∀ a t, s.allocateSlot buffer = .ok a t →
    IsSlot buffer l a ∧ a ∉ out ∧ ∀ b, IsSlot buffer l b → b ∉ out → a ≤ b
  /-- No other error is given when a slot is taken, and then nothing has changed. -/
  take_error : ∀ e t, s.allocateSlot buffer = .error e t → e = .bufferFull ∧ t = s
  take_full : (∃ t, s.allocateSlot buffer = .error .bufferFull t) ↔ out.card = l.count
  give_ok : ∀ a, (∃ t, s.freeSlot buffer a = .ok () t) ↔ a ∈ out
  give_free : ∀ a, (∃ t, s.freeSlot buffer a = .error .slotNotAllocated t) ↔
    IsSlot buffer l a ∧ a ∉ out
  give_foreign : ∀ a, (∃ t, s.freeSlot buffer a = .error .invalidSlot t) ↔ ¬IsSlot buffer l a
  /-- Nothing has changed when a slot is not given back. -/
  give_error : ∀ a e t, s.freeSlot buffer a = .error e t → t = s
  count_free : s.freeSlots buffer = .ok (l.count - out.card)
  /-- Slots that are out do not overlap. -/
  apart : ∀ a ∈ out, ∀ b ∈ out, a ≠ b →
    a.toNat + l.slotSize ≤ b.toNat ∨ b.toNat + l.slotSize ≤ a.toNat
  /-- Slots lie behind the header and the bitmap, and inside the buffer. -/
  inside : ∀ a ∈ out, buffer.toNat + l.headerSize ≤ a.toNat ∧
    a.toNat + l.slotSize ≤ buffer.toNat + l.totalSize
  /-- A program whose call fails finds its memory as it was. -/
  take_unchanged : ∀ (c : Core) e t, c.toStore = s →
    c.general ElementModule.bufferRegister = buffer → s.allocateSlot buffer = .error e t →
    (ElementModule.allocateSlot c).toStore = s
  give_unchanged : ∀ (c : Core) e t, c.toStore = s →
    c.general ElementModule.bufferRegister = buffer →
    s.freeSlot buffer (c.general ElementModule.slotRegister) = .error e t →
    (ElementModule.freeSlot c).toStore = s

theorem Held.error_of_allocateSlot {s t : Store} {buffer : UInt64} {l : BufferLayout}
    {out : Finset UInt64} {e : BufferError} (hheld : Held s buffer l out)
    (hallocate : s.allocateSlot buffer = .error e t) : e = .bufferFull ∧ t = s := by
  rcases hheld.allocateSlot_cases with ⟨-, herror⟩ | ⟨-, b, u, hok, -⟩
  · rw [herror] at hallocate
    cases hallocate
    exact ⟨rfl, rfl⟩
  · rw [hok] at hallocate
    cases hallocate

theorem Held.answersAsSet {s : Store} {buffer : UInt64} {l : BufferLayout}
    {out : Finset UInt64} (hheld : Held s buffer l out) : AnswersAsSet s buffer l out where
  take_lowest := by
    intro a t hallocate
    rcases hheld.allocateSlot_cases with ⟨-, herror⟩ | ⟨-, b, u, hok, -, hlowest⟩
    · rw [herror] at hallocate
      cases hallocate
    · rw [hok] at hallocate
      cases hallocate
      exact hlowest
  take_error := fun e t => hheld.error_of_allocateSlot
  take_full := by
    rcases hheld.allocateSlot_cases with ⟨hfull, herror⟩ | ⟨hroom, b, u, hok, -⟩
    · exact ⟨fun _ => hfull, fun _ => ⟨s, herror⟩⟩
    · rw [hok]
      simp [hroom]
  give_ok := by
    intro a
    rcases hheld.freeSlot_cases a with
      ⟨-, hout, hfree⟩ | ⟨-, hout, hfree⟩ | ⟨-, hout, t, hfree, -⟩
    all_goals
      rw [hfree]
      simp [hout]
  give_free := by
    intro a
    rcases hheld.freeSlot_cases a with
      ⟨hslot, hout, hfree⟩ | ⟨hslot, hout, hfree⟩ | ⟨hslot, hout, t, hfree, -⟩
    all_goals
      rw [hfree]
      simp [hslot, hout]
  give_foreign := by
    intro a
    rcases hheld.freeSlot_cases a with
      ⟨hslot, -, hfree⟩ | ⟨hslot, -, hfree⟩ | ⟨hslot, -, t, hfree, -⟩
    all_goals
      rw [hfree]
      simp [hslot]
  give_error := fun a e t => error_of_freeSlot
  count_free := hheld.freeSlots
  apart := fun a ha b hb hne =>
    hheld.placed.slots_apart (hheld.slots a ha) (hheld.slots b hb) hne
  inside := fun a ha => hheld.placed.slot_inside (hheld.slots a ha)
  take_unchanged := by
    intro c e t hstore hbuffer hallocate
    obtain ⟨-, rfl⟩ := hheld.error_of_allocateSlot hallocate
    unfold ElementModule.allocateSlot ElementModule.withBuffer
    simp only [hbuffer, hstore, hallocate]
    split
    · exact hstore
    · rfl
  give_unchanged := by
    intro c e t hstore hbuffer hfree
    obtain rfl := error_of_freeSlot hfree
    unfold ElementModule.freeSlot ElementModule.withBuffer
    simp only [hbuffer, hstore, hfree]
    split
    · exact hstore
    · rfl

/-- Over every history of a buffer, the slots behave as a set: whatever was requested, taken,
given back and written elsewhere, the answers are those of the set of slots that are out. -/
theorem slots_behave_as_set {buffer : UInt64} {count size : UInt16} {s : Store}
    {out : Finset UInt64} (hreached : Reached buffer count size s out) :
    AnswersAsSet s buffer (BufferLayout.request count size) out :=
  hreached.held.answersAsSet

/-- The first slot of a buffer for one element of one byte has been taken. -/
theorem slots_behave_as_set_one :
    ∃ (s t : Store) (a : UInt64),
      Store.allocate? {} 1 1 = some (AddressSpace.heapBase, s) ∧
      s.allocateSlot AddressSpace.heapBase = .ok a t ∧
      AnswersAsSet t AddressSpace.heapBase (BufferLayout.request 1 1) {a} := by
  have hbuffer : (Store.allocate? {} 1 1).map (fun made => made.1) =
      some AddressSpace.heapBase := by decide +kernel
  obtain ⟨⟨buffer, s⟩, hmade, hplace⟩ := Option.map_eq_some_iff.mp hbuffer
  cases hplace
  have hfirst := Reached.made hmade
  have hanswers := slots_behave_as_set hfirst
  cases htake : s.allocateSlot AddressSpace.heapBase with
  | error e t =>
      obtain ⟨rfl, -⟩ := hanswers.take_error e t htake
      exact absurd (hanswers.take_full.mp ⟨t, htake⟩) (by decide)
  | ok a t => exact ⟨s, t, a, hmade, htake, slots_behave_as_set (Reached.taken hfirst htake)⟩

end Elements

end BytecodeMachine
