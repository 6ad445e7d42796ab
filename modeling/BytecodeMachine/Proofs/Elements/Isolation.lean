import BytecodeMachine.Host.Elements
import BytecodeMachine.Proofs.Elements.Fresh
import Mathlib.Data.List.Nodup

/-!
# Many element buffers

Any number of buffers are made and freed, slots are taken and given back, and programs write
into the slots that they hold.  A ledger beside the store notes which buffers were made and not
freed since, and which of their slots are out.

* `Grants` is what the allocator of the system promises: a block that lies apart from the blocks
  of all buffers in the ledger.
* `Kept` ties the ledger to the store.  Every call either fails and changes nothing, or changes
  no byte outside of its own buffer and keeps the tie (`Kept.call_cases`).
* `buffers_are_isolated` reads off what follows for handles and slots after every history.
-/

namespace BytecodeMachine

namespace Elements

/-! ## Calls and the ledger -/

/-- A buffer in the ledger: its layout and the slots that are out. -/
structure Entry where
  layout : BufferLayout
  out : Finset UInt64

/-- The buffers that were made and not freed since, by their addresses. -/
abbrev Ledger := UInt64 → Option Entry

/-- An answer without its value. -/
def Answer.void {α : Type} : Answer α → Answer Unit
  | .ok _ t => .ok () t
  | .error e t => .error e t

/-- The answer to a question, which leaves the store as it is. -/
def Answer.ofExcept {α : Type} (s : Store) : Except BufferError α → Answer Unit
  | .ok _ => .ok () s
  | .error e => .error e s

@[simp]
theorem Answer.store_void {α : Type} (answer : Answer α) : answer.void.store = answer.store := by
  cases answer <;> rfl

@[simp]
theorem Answer.store_ofExcept {α : Type} (s : Store) (answer : Except BufferError α) :
    (Answer.ofExcept s answer).store = s := by
  cases answer <;> rfl

/-- A call on a handle. -/
inductive Call where
  | release (buffer : UInt64)
  | take (buffer : UInt64)
  | give (buffer slot : UInt64)
  | count (buffer : UInt64)
  | inspect (buffer : UInt64)
  deriving DecidableEq, Repr

namespace Call

/-- The handle of a call. -/
def buffer : Call → UInt64
  | release buffer | take buffer | give buffer _ | count buffer | inspect buffer => buffer

/-- What a call does to a store. -/
def run (s : Store) : Call → Answer Unit
  | release buffer => s.free buffer
  | take buffer => (s.allocateSlot buffer).void
  | give buffer slot => s.freeSlot buffer slot
  | count buffer => Answer.ofExcept s (s.freeSlots buffer)
  | inspect buffer => Answer.ofExcept s (s.layout buffer)

/-- The store after a call, whether it succeeds or not. -/
def after (s : Store) (call : Call) : Store := (call.run s).store

end Call

namespace Ledger

/-- Other slots of a buffer are out. -/
def amend (ledger : Ledger) (buffer : UInt64) (change : Finset UInt64 → Finset UInt64) :
    Ledger :=
  Function.update ledger buffer
    ((ledger buffer).map fun entry => { entry with out := change entry.out })

/-- The ledger after a call on a store. -/
def noted (ledger : Ledger) (s : Store) : Call → Ledger
  | .release buffer =>
      match s.free buffer with
      | .ok _ _ => Function.update ledger buffer none
      | .error _ _ => ledger
  | .take buffer =>
      match s.allocateSlot buffer with
      | .ok slot _ => ledger.amend buffer (insert slot)
      | .error _ _ => ledger
  | .give buffer slot =>
      match s.freeSlot buffer slot with
      | .ok _ _ => ledger.amend buffer (·.erase slot)
      | .error _ _ => ledger
  | .count _ | .inspect _ => ledger

end Ledger

/-! ## Allocators and histories -/

/-- Two buffers share no byte. -/
def Apart (buffer : UInt64) (l : BufferLayout) (buffer' : UInt64) (l' : BufferLayout) : Prop :=
  buffer.toNat + l.totalSize ≤ buffer'.toNat ∨ buffer'.toNat + l'.totalSize ≤ buffer.toNat

/-- The store in which a buffer has been made in a block of the system's. -/
def made (s : Store) (buffer : UInt64) (l : BufferLayout) (next : Nat) : Store :=
  { memory := formatted (s.memory.fill buffer l.totalSize 0) buffer (token s.heap buffer) l
    heap := { s.heap with next, live := buffer :: s.heap.live } }

/-- An allocator makes buffers of requested counts and sizes. -/
abbrev Allocator := Store → (count size : UInt16) → UInt64 → Store → Prop

/-- What is promised of a new buffer: its block lies in the address space and apart from the
blocks of all buffers in the ledger. -/
structure Grants (ledger : Ledger) (s : Store) (count size : UInt16) (buffer : UInt64)
    (t : Store) : Prop where
  fits : buffer.toNat + (BufferLayout.request count size).totalSize < UInt64.size
  apart : ∀ b e, ledger b = some e → Apart buffer (.request count size) b e.layout
  made : ∃ next, t = made s buffer (.request count size) next

/-- Something has been written, but into no buffer of the ledger outside of its slots that are
out. -/
structure Wrote (ledger : Ledger) (s t : Store) : Prop where
  heap : t.heap = s.heap
  bytes : ∀ b e a, ledger b = some e → b.toNat ≤ a.toNat →
    a.toNat < b.toNat + e.layout.totalSize →
    (∀ slot ∈ e.out, a.toNat < slot.toNat ∨ slot.toNat + e.layout.slotSize ≤ a.toNat) →
    t.memory.byte a = s.memory.byte a

/-- A store with its ledger, after buffers were made and calls were done on any handles, in any
order. -/
inductive History (allocates : Allocator) : Store → Ledger → Prop
  | start (memory : Memory) (salt : UInt64) :
      History allocates { memory, heap := { salt } } (fun _ => none)
  | made {s t : Store} {ledger : Ledger} {count size : UInt16} {buffer : UInt64}
      (hhistory : History allocates s ledger) (hmade : allocates s count size buffer t) :
      History allocates t
        (Function.update ledger buffer (some { layout := .request count size, out := ∅ }))
  | called {s : Store} {ledger : Ledger} (hhistory : History allocates s ledger)
      (call : Call) : History allocates (call.after s) (ledger.noted s call)
  | wrote {s t : Store} {ledger : Ledger} (hhistory : History allocates s ledger)
      (hwrote : Wrote ledger s t) : History allocates t ledger

/-- The allocator keeps its promise over every history. -/
def Sound (allocates : Allocator) : Prop :=
  ∀ s ledger count size buffer t, History allocates s ledger →
    allocates s count size buffer t → Grants ledger s count size buffer t

/-- The allocator that never uses an address again. -/
def bump : Allocator := fun s count size buffer t => s.allocate? count size = some (buffer, t)

/-! ## Changes inside of one buffer -/

/-- No byte outside of the buffer has changed. -/
def Inside (buffer : UInt64) (l : BufferLayout) (s t : Store) : Prop :=
  ∀ start stop, stop ≤ buffer.toNat ∨ buffer.toNat + l.totalSize ≤ start →
    t.memory.AgreeOn s.memory start stop

variable {s t : Store} {ledger : Ledger} {buffer : UInt64} {l : BufferLayout}
  {out : Finset UInt64}

theorem Inside.refl (buffer : UInt64) (l : BufferLayout) (s : Store) : Inside buffer l s s :=
  fun _ _ _ _ _ _ => rfl

theorem Inside.agreeOn (hinside : Inside buffer l s t) {b : UInt64} {l' : BufferLayout}
    (hapart : Apart buffer l b l') :
    t.memory.AgreeOn s.memory b.toNat (b.toNat + l'.totalSize) := by
  refine hinside _ _ ?_
  unfold Apart at hapart
  omega

theorem Apart.symm {b b' : UInt64} {l l' : BufferLayout} (hapart : Apart b l b' l') :
    Apart b' l' b l := Or.symm hapart

/-- A word of the header or the bitmap lies inside. -/
theorem inside_write (hplaced : Placed buffer l) {a value : UInt64} {heap : Heap}
    (hfrom : buffer.toNat ≤ a.toNat) (hto : a.toNat + 8 ≤ buffer.toNat + l.totalSize) :
    Inside buffer l s { memory := s.memory.write a .quad value, heap } := by
  intro start stop houtside
  have hfits := hplaced.fits
  have hquad : Width.quad.bytes = 8 := rfl
  exact Memory.AgreeOn.write s.memory value (by omega) (by omega)

theorem inside_made (hplaced : Placed buffer l) (next : Nat) :
    Inside buffer l s (made s buffer l next) := by
  intro start stop houtside
  have hfits := hplaced.fits
  obtain ⟨hcount, hsize, hbits⟩ := hplaced.header_places
  have htotal := l.totalSize_eq
  have hheader : l.headerSize = 16 + 8 * l.bitmapWords := rfl
  have hquad : Width.quad.bytes = 8 := rfl
  have hlong : Width.long.bytes = 4 := rfl
  have htag : Memory.AgreeOn
      ((s.memory.fill buffer l.totalSize 0).write buffer .quad (token s.heap buffer))
      (s.memory.fill buffer l.totalSize 0) start stop :=
    Memory.AgreeOn.write _ _ (by omega) (by omega)
  exact (Memory.AgreeOn.fill _ 0xff (by omega)).trans
    ((Memory.AgreeOn.write _ _ (by omega) (by omega)).trans
      ((Memory.AgreeOn.write _ _ (by omega) (by omega)).trans
        (htag.trans (Memory.AgreeOn.fill _ 0 (by omega)))))

theorem Held.inside_cell (hheld : Held s buffer l out) {i : Nat} (hi : i < l.count)
    (value : UInt64) :
    Inside buffer l s
      { s with memory := s.memory.write (bitmapWord buffer (i / 64)) .quad value } := by
  have hplaced := hheld.placed
  have hword := hplaced.word_lt hi
  have hcell := hplaced.toNat_cell hi
  have htotal := l.totalSize_eq
  have hheader : l.headerSize = 16 + 8 * l.bitmapWords := rfl
  exact inside_write hplaced (by omega) (by omega)

/-- Taking a slot changes one word of the bitmap. -/
theorem Held.inside_of_allocateSlot (hheld : Held s buffer l out) {a : UInt64}
    (htake : s.allocateSlot buffer = .ok a t) : Inside buffer l s t := by
  cases hfind : (List.range l.count).find? (freeBit s.memory buffer) with
  | none =>
      rw [hheld.allocateSlot_of_none hfind] at htake
      cases htake
  | some i =>
      rw [hheld.allocateSlot_of_some hfind] at htake
      cases htake
      exact hheld.inside_cell (hheld.lowest_of_find? hfind).1 _

/-- Giving a slot back changes one word of the bitmap. -/
theorem Held.inside_of_freeSlot (hheld : Held s buffer l out) {a : UInt64}
    (hgive : s.freeSlot buffer a = .ok () t) : Inside buffer l s t := by
  by_cases hslot : IsSlot buffer l a
  · obtain ⟨i, hi, rfl⟩ := hslot
    rw [hheld.freeSlot_of_slotAddress hi] at hgive
    split at hgive
    · cases hgive
    · cases hgive
      exact hheld.inside_cell hi _
  · rw [hheld.freeSlot_of_not_isSlot hslot] at hgive
    cases hgive

/-! ## New buffers -/

theorem BufferLayout.request_totalSize_le (count size : UInt16) :
    (request count size).totalSize ≤ largestAllocation := by
  have hcount := request_count_le count size
  have hslot := request_slotSize_bounds count size
  have hwords := request_words count size
  have htotal := (request count size).totalSize_eq
  have hheader : (request count size).headerSize = 16 + 8 * (request count size).bitmapWords :=
    rfl
  have hstorage : (request count size).storageSize ≤ 65536 * 65536 :=
    Nat.mul_le_mul hcount hslot.2
  unfold largestAllocation
  omega

namespace Grants

variable {count size : UInt16} (hgrants : Grants ledger s count size buffer t)

include hgrants

theorem placed : Placed buffer (.request count size) where
  words := BufferLayout.request_words count size
  nonempty := by
    have hslot := BufferLayout.request_slotSize_bounds count size
    omega
  fits := hgrants.fits

/-- The address is that of no buffer in the ledger. -/
theorem unused : ledger buffer = none := by
  -- A buffer has a header, so two at one address are not apart.
  by_contra hused
  obtain ⟨e, hentry⟩ := Option.ne_none_iff_exists'.mp hused
  have hapart := hgrants.apart buffer e hentry
  have htotal := e.layout.totalSize_eq
  have htotal' := (BufferLayout.request count size).totalSize_eq
  have hheader : e.layout.headerSize = 16 + 8 * e.layout.bitmapWords := rfl
  have hheader' : (BufferLayout.request count size).headerSize =
      16 + 8 * (BufferLayout.request count size).bitmapWords := rfl
  unfold Apart at hapart
  omega

end Grants

/-! ## The ledger and the store -/

/-- The live buffers are those of the ledger, each as the ledger says, and no two of them share
a byte. -/
structure Kept (s : Store) (ledger : Ledger) : Prop where
  live : ∀ b, b ∈ s.heap.live ↔ (ledger b).isSome
  nodup : s.heap.live.Nodup
  held : ∀ b e, ledger b = some e → Held s b e.layout e.out
  small : ∀ b e, ledger b = some e → e.layout.totalSize ≤ largestAllocation
  apart : ∀ b e b' e', ledger b = some e → ledger b' = some e' → b ≠ b' →
    Apart b e.layout b' e'.layout

theorem amend_eq_some {change : Finset UInt64 → Finset UInt64} {b : UInt64} {e : Entry}
    (hentry : ledger.amend buffer change b = some e) :
    ∃ e', ledger b = some e' ∧ e.layout = e'.layout ∧ (b ≠ buffer → e = e') ∧
      (b = buffer → e.out = change e'.out) := by
  unfold Ledger.amend at hentry
  by_cases hsame : b = buffer
  · subst hsame
    rw [Function.update_self] at hentry
    obtain ⟨e', he', rfl⟩ := Option.map_eq_some_iff.mp hentry
    exact ⟨e', he', rfl, fun hne => absurd rfl hne, fun _ => rfl⟩
  · rw [Function.update_of_ne hsame] at hentry
    exact ⟨e, hentry, rfl, fun _ => rfl, fun h => absurd h hsame⟩

namespace Kept

/-- A buffer whose bytes are left alone stays as the ledger says. -/
theorem held_of_agreeOn (hkept : Kept s ledger) {b : UInt64} {e : Entry}
    (hentry : ledger b = some e) (hlive : b ∈ t.heap.live) (hsalt : t.heap.salt = s.heap.salt)
    (hbytes : t.memory.AgreeOn s.memory b.toNat (b.toNat + e.layout.headerSize)) :
    Held t b e.layout e.out := by
  have hbefore : b ∈ s.heap.live := (hkept.live b).mpr (by rw [hentry]; rfl)
  refine (hkept.held b e hentry).aside ⟨?_, hsalt, hbytes⟩
  simp [hlive, hbefore]

theorem start (memory : Memory) (salt : UInt64) :
    Kept { memory, heap := { salt } } (fun _ => none) where
  live := by simp
  nodup := List.nodup_nil
  held := by simp
  small := by simp
  apart := by simp

/-- Slots of one buffer are taken or given back. -/
theorem amend (hkept : Kept s ledger) {e : Entry} (hentry : ledger buffer = some e)
    (hheap : t.heap = s.heap) (hinside : Inside buffer e.layout s t)
    {change : Finset UInt64 → Finset UInt64} (hheld : Held t buffer e.layout (change e.out)) :
    Kept t (ledger.amend buffer change) where
  live := by
    intro b
    rw [hheap, hkept.live b]
    by_cases hsame : b = buffer
    · subst hsame
      simp [Ledger.amend]
    · simp [Ledger.amend, Function.update_of_ne hsame]
  nodup := by
    rw [hheap]
    exact hkept.nodup
  held := by
    intro b e' hentry'
    obtain ⟨e₀, he₀, hlayout, hother, hown⟩ := amend_eq_some hentry'
    by_cases hsame : b = buffer
    · subst hsame
      rw [hentry] at he₀
      cases he₀
      rw [hlayout, hown rfl]
      exact hheld
    · cases hother hsame
      have hbytes := hinside.agreeOn
        (hkept.apart buffer e b e' hentry he₀ (fun h => hsame h.symm))
      have htotal := e'.layout.totalSize_eq
      refine hkept.held_of_agreeOn he₀ ?_ (by rw [hheap]) (hbytes.mono (by omega) (by omega))
      rw [hheap, hkept.live b, he₀]
      rfl
  small := by
    intro b e' hentry'
    obtain ⟨e₀, he₀, hlayout, -⟩ := amend_eq_some hentry'
    rw [hlayout]
    exact hkept.small b e₀ he₀
  apart := by
    intro b e₁ b' e₂ h₁ h₂ hne
    obtain ⟨e₁', he₁, hlayout₁, -⟩ := amend_eq_some h₁
    obtain ⟨e₂', he₂, hlayout₂, -⟩ := amend_eq_some h₂
    rw [hlayout₁, hlayout₂]
    exact hkept.apart b e₁' b' e₂' he₁ he₂ hne

/-- A buffer is freed. -/
theorem release (hkept : Kept s ledger) {e : Entry} (hentry : ledger buffer = some e) :
    Kept
      { memory := s.memory.write buffer .quad 0
        heap := { s.heap with live := s.heap.live.erase buffer } }
      (Function.update ledger buffer none) := by
  have hheld := hkept.held buffer e hentry
  have hrest : ∀ b e', Function.update ledger buffer none b = some e' →
      b ≠ buffer ∧ ledger b = some e' := by
    intro b e' hentry'
    by_cases hsame : b = buffer
    · subst hsame
      simp at hentry'
    · rw [Function.update_of_ne hsame] at hentry'
      exact ⟨hsame, hentry'⟩
  have hlive : ∀ b, b ∈ s.heap.live.erase buffer ↔
      (Function.update ledger buffer none b).isSome := by
    intro b
    rw [hkept.nodup.mem_erase_iff, hkept.live b]
    by_cases hsame : b = buffer
    · subst hsame
      simp
    · simp [hsame]
  refine ⟨hlive, hkept.nodup.erase buffer, ?_, ?_, ?_⟩
  · intro b e' hentry'
    obtain ⟨hne, he'⟩ := hrest b e' hentry'
    have htotal := e.layout.totalSize_eq
    have htotal' := e'.layout.totalSize_eq
    have hheader : e.layout.headerSize = 16 + 8 * e.layout.bitmapWords := rfl
    -- The tag that is wiped out lies in the buffer that is freed.
    have hinside : Inside buffer e.layout s
        { memory := s.memory.write buffer .quad 0
          heap := { s.heap with live := s.heap.live.erase buffer } } :=
      inside_write hheld.placed (by omega) (by omega)
    have hbytes := hinside.agreeOn
      (hkept.apart buffer e b e' hentry he' (fun h => hne h.symm))
    refine hkept.held_of_agreeOn he' ?_ rfl (hbytes.mono (by omega) (by omega))
    rw [hlive b, hentry']
    rfl
  · intro b e' hentry'
    exact hkept.small b e' (hrest b e' hentry').2
  · intro b e₁ b' e₂ h₁ h₂ hne
    exact hkept.apart b e₁ b' e₂ (hrest b e₁ h₁).2 (hrest b' e₂ h₂).2 hne

/-- A buffer is made. -/
theorem made (hkept : Kept s ledger) {count size : UInt16}
    (hgrants : Grants ledger s count size buffer t) :
    Kept t
      (Function.update ledger buffer (some { layout := .request count size, out := ∅ })) := by
  have hplaced := hgrants.placed
  obtain ⟨next, rfl⟩ := hgrants.made
  have hinside := inside_made (s := s) hplaced next
  have hcount := BufferLayout.request_count_le count size
  have hslot := BufferLayout.request_slotSize_bounds count size
  have hfresh : Held (Elements.made s buffer (.request count size) next) buffer
      (.request count size) ∅ :=
    held_of_formatted hplaced (by omega) (by omega) (by simp [Elements.made]) rfl
  have hcases : ∀ b e, Function.update ledger buffer
      (some { layout := .request count size, out := ∅ }) b = some e →
      (b = buffer ∧ e = { layout := .request count size, out := ∅ }) ∨
        (b ≠ buffer ∧ ledger b = some e) := by
    intro b e hentry
    by_cases hsame : b = buffer
    · subst hsame
      rw [Function.update_self] at hentry
      cases hentry
      exact Or.inl ⟨rfl, rfl⟩
    · rw [Function.update_of_ne hsame] at hentry
      exact Or.inr ⟨hsame, hentry⟩
  refine ⟨?_, ?_, ?_, ?_, ?_⟩
  · intro b
    have hbefore := hkept.live b
    by_cases hsame : b = buffer
    · subst hsame
      simp [Elements.made]
    · simpa [Elements.made, hsame] using hbefore
  · refine List.nodup_cons.mpr ⟨?_, hkept.nodup⟩
    rw [hkept.live buffer, hgrants.unused]
    simp
  · intro b e hentry
    rcases hcases b e hentry with ⟨rfl, rfl⟩ | ⟨hne, he⟩
    · exact hfresh
    · have hbytes := hinside.agreeOn (hgrants.apart b e he)
      have htotal := e.layout.totalSize_eq
      refine hkept.held_of_agreeOn he ?_ rfl (hbytes.mono (by omega) (by omega))
      exact List.mem_cons_of_mem _ ((hkept.live b).mpr (by rw [he]; rfl))
  · intro b e hentry
    rcases hcases b e hentry with ⟨rfl, rfl⟩ | ⟨-, he⟩
    · exact BufferLayout.request_totalSize_le count size
    · exact hkept.small b e he
  · intro b e₁ b' e₂ h₁ h₂ hne
    rcases hcases b e₁ h₁ with ⟨rfl, rfl⟩ | ⟨-, he₁⟩
    · rcases hcases b' e₂ h₂ with ⟨rfl, -⟩ | ⟨-, he₂⟩
      · exact absurd rfl hne
      · exact hgrants.apart b' e₂ he₂
    · rcases hcases b' e₂ h₂ with ⟨rfl, rfl⟩ | ⟨-, he₂⟩
      · exact (hgrants.apart b e₁ he₁).symm
      · exact hkept.apart b e₁ b' e₂ he₁ he₂ hne

/-- Slots that are out are written, or memory that belongs to no buffer. -/
theorem wrote (hkept : Kept s ledger) (hwrote : Wrote ledger s t) : Kept t ledger where
  live := by
    rw [hwrote.heap]
    exact hkept.live
  nodup := by
    rw [hwrote.heap]
    exact hkept.nodup
  held := by
    intro b e hentry
    have hheld := hkept.held b e hentry
    have hlive : b ∈ t.heap.live := by
      rw [hwrote.heap, hkept.live b, hentry]
      rfl
    refine hkept.held_of_agreeOn hentry hlive (by rw [hwrote.heap]) ?_
    -- All slots lie behind the header and the bitmap.
    intro a hfrom hto
    have htotal := e.layout.totalSize_eq
    refine hwrote.bytes b e a hentry hfrom (by omega) fun slot hslot => ?_
    have hinside := hheld.placed.slot_inside (hheld.slots slot hslot)
    omega
  small := hkept.small
  apart := hkept.apart

/-! ## What a call comes to -/

theorem layout_of_none (hkept : Kept s ledger) (hnone : ledger buffer = none) :
    s.layout buffer = .error .invalidBuffer := by
  have hdead : buffer ∉ s.heap.live := by
    rw [hkept.live buffer, hnone]
    simp
  unfold Store.layout
  simp [hdead]

end Kept

/-- A handle that is not valid is refused by every call. -/
theorem Call.run_of_layout {call : Call} {error : BufferError}
    (hlayout : s.layout call.buffer = .error error) : call.run s = .error error s := by
  cases call with
  | release b =>
      rw [Call.buffer] at hlayout
      simp only [Call.run, Store.free, hlayout]
  | take b =>
      rw [Call.buffer] at hlayout
      simp only [Call.run, Store.allocateSlot, hlayout, Answer.void]
  | give b slot =>
      rw [Call.buffer] at hlayout
      simp only [Call.run, Store.freeSlot, hlayout]
  | count b =>
      rw [Call.buffer] at hlayout
      simp only [Call.run, Store.freeSlots, hlayout, Except.map, Answer.ofExcept]
  | inspect b =>
      rw [Call.buffer] at hlayout
      simp only [Call.run, hlayout, Answer.ofExcept]

/-- A call that fails is not noted. -/
theorem Ledger.noted_of_error {call : Call} {error : BufferError}
    (hrun : call.run s = .error error t) : ledger.noted s call = ledger := by
  cases call with
  | release b =>
      rw [Call.run] at hrun
      simp only [Ledger.noted, hrun]
  | take b =>
      cases htake : s.allocateSlot b with
      | error e t => simp only [Ledger.noted, htake]
      | ok slot t => simp [Call.run, htake, Answer.void] at hrun
  | give b slot =>
      rw [Call.run] at hrun
      simp only [Ledger.noted, hrun]
  | count b => rfl
  | inspect b => rfl

/-- A call makes no buffer and changes no layout. -/
theorem Ledger.entry_of_noted {call : Call} {b : UInt64} {e : Entry}
    (hentry : ledger.noted s call b = some e) :
    ∃ e', ledger b = some e' ∧ e.layout = e'.layout := by
  have hsame : ledger b = some e → ∃ e', ledger b = some e' ∧ e.layout = e'.layout :=
    fun h => ⟨e, h, rfl⟩
  cases call with
  | release buffer =>
      cases hfree : s.free buffer with
      | error e t => exact hsame (by simpa only [Ledger.noted, hfree] using hentry)
      | ok value t =>
          simp only [Ledger.noted, hfree] at hentry
          by_cases hfreed : b = buffer
          · simp [hfreed] at hentry
          · exact hsame (by rwa [Function.update_of_ne hfreed] at hentry)
  | take buffer =>
      cases htake : s.allocateSlot buffer with
      | error e t => exact hsame (by simpa only [Ledger.noted, htake] using hentry)
      | ok slot t =>
          simp only [Ledger.noted, htake] at hentry
          obtain ⟨e', he', hlayout, -⟩ := amend_eq_some hentry
          exact ⟨e', he', hlayout⟩
  | give buffer slot =>
      cases hgive : s.freeSlot buffer slot with
      | error e t => exact hsame (by simpa only [Ledger.noted, hgive] using hentry)
      | ok value t =>
          simp only [Ledger.noted, hgive] at hentry
          obtain ⟨e', he', hlayout, -⟩ := amend_eq_some hentry
          exact ⟨e', he', hlayout⟩
  | count buffer => exact hsame hentry
  | inspect buffer => exact hsame hentry

/-- What a call comes to.  On a handle that is not in the ledger it is refused.  On any other it
fails for another reason, or it changes nothing outside of its own buffer.  A call that fails
changes nothing. -/
theorem Kept.call_cases (hkept : Kept s ledger) (call : Call) :
    (ledger call.buffer = none ∧ call.run s = .error .invalidBuffer s) ∨
    (∃ e, ledger call.buffer = some e ∧
      ((∃ error, call.run s = .error error s ∧ error ≠ .invalidBuffer) ∨
        ∃ t, call.run s = .ok () t ∧ Inside call.buffer e.layout s t ∧
          Kept t (ledger.noted s call))) := by
  cases hentry : ledger call.buffer with
  | none => exact Or.inl ⟨rfl, Call.run_of_layout (hkept.layout_of_none hentry)⟩
  | some e =>
      refine Or.inr ⟨e, rfl, ?_⟩
      have hheld := hkept.held _ e hentry
      cases call with
      | release b =>
          rw [Call.buffer] at hentry hheld
          have hsmall := hkept.small b e hentry
          have hfree : s.free b = .ok ()
              { memory := s.memory.write b .quad 0
                heap := { s.heap with live := s.heap.live.erase b } } := by
            -- No buffer was too large to be made, so none is too large to be freed.
            simp only [Store.free, hheld.layout]
            rw [if_neg (by omega)]
          have htotal := e.layout.totalSize_eq
          have hheader : e.layout.headerSize = 16 + 8 * e.layout.bitmapWords := rfl
          refine Or.inr ⟨_, hfree, inside_write hheld.placed (Nat.le_refl _) (by omega), ?_⟩
          simp only [Ledger.noted, hfree]
          exact hkept.release hentry
      | take b =>
          rw [Call.buffer] at hentry hheld
          rcases hheld.allocateSlot_cases with ⟨-, hfull⟩ | ⟨-, a, t, htake, hheld', -⟩
          · exact Or.inl ⟨.bufferFull, by simp only [Call.run, hfull, Answer.void], by simp⟩
          · have hinside := hheld.inside_of_allocateSlot htake
            have hheap := heap_allocateSlot s b
            rw [htake] at hheap
            refine Or.inr ⟨t, by simp only [Call.run, htake, Answer.void], hinside, ?_⟩
            simp only [Ledger.noted, htake]
            exact hkept.amend hentry hheap hinside hheld'
      | give b slot =>
          rw [Call.buffer] at hentry hheld
          rcases hheld.freeSlot_cases slot with
            ⟨-, -, hgive⟩ | ⟨-, -, hgive⟩ | ⟨-, -, t, hgive, hheld'⟩
          · exact Or.inl ⟨.invalidSlot, hgive, by simp⟩
          · exact Or.inl ⟨.slotNotAllocated, hgive, by simp⟩
          · have hinside := hheld.inside_of_freeSlot hgive
            have hheap := heap_freeSlot s b slot
            rw [hgive] at hheap
            refine Or.inr ⟨t, hgive, hinside, ?_⟩
            simp only [Ledger.noted, hgive]
            exact hkept.amend hentry hheap hinside hheld'
      | count b =>
          rw [Call.buffer] at hheld
          exact Or.inr ⟨s, by simp only [Call.run, hheld.freeSlots, Answer.ofExcept],
            Inside.refl _ _ s, hkept⟩
      | inspect b =>
          rw [Call.buffer] at hheld
          exact Or.inr ⟨s, by simp only [Call.run, hheld.layout, Answer.ofExcept],
            Inside.refl _ _ s, hkept⟩

theorem Kept.called (hkept : Kept s ledger) (call : Call) :
    Kept (call.after s) (ledger.noted s call) := by
  unfold Call.after
  rcases hkept.call_cases call with ⟨-, hrun⟩ | ⟨e, -, ⟨error, hrun, -⟩ | ⟨t, hrun, -, hnext⟩⟩
  · rw [Ledger.noted_of_error hrun, hrun]
    exact hkept
  · rw [Ledger.noted_of_error hrun, hrun]
    exact hkept
  · rw [hrun]
    exact hnext

/-- Over every history, the ledger says what the store holds. -/
theorem History.kept {allocates : Allocator} (hsound : Sound allocates)
    (hhistory : History allocates s ledger) : Kept s ledger := by
  induction hhistory with
  | start memory salt => exact .start memory salt
  | made hbefore hmade ih => exact ih.made (hsound _ _ _ _ _ _ hbefore hmade)
  | called _ call ih => exact ih.called call
  | wrote _ hwrote ih => exact ih.wrote hwrote

/-! ## The allocator that never uses an address again -/

theorem le_roundUp (n : Nat) : n ≤ roundUp 16 n := by
  unfold roundUp
  omega

/-- A new buffer lies behind all that the heap has used, and the heap has used it. -/
theorem allocate?_eq_made {count size : UInt16}
    (hmade : s.allocate? count size = some (buffer, t)) :
    s.heap.next ≤ buffer.toNat ∧
      buffer.toNat + (BufferLayout.request count size).totalSize ≤ AddressSpace.heapEnd.toNat ∧
      t = made s buffer (.request count size)
        (buffer.toNat + (BufferLayout.request count size).totalSize) := by
  unfold Store.allocate? at hmade
  simp only at hmade
  split at hmade
  · cases hmade
  · rename_i hroom
    cases hmade
    have hend : AddressSpace.heapEnd.toNat = 0x401000000 := by decide
    have hsize : UInt64.size = 0x10000000000000000 := rfl
    have hstart : (UInt64.ofNat (roundUp 16 s.heap.next)).toNat = roundUp 16 s.heap.next := by
      rw [UInt64.toNat_ofNat', Nat.mod_eq_of_lt (by omega)]
    have hnext := le_roundUp s.heap.next
    rw [hstart]
    exact ⟨hnext, by omega, rfl⟩

/-- No call uses addresses of the heap. -/
theorem Call.next_after (s : Store) (call : Call) :
    (call.after s).heap.next = s.heap.next := by
  unfold Call.after
  cases call with
  | release b =>
      show (s.free b).store.heap.next = s.heap.next
      unfold Store.free
      split
      · rfl
      · split <;> rfl
  | take b =>
      rw [Call.run, Answer.store_void]
      exact congrArg Heap.next (heap_allocateSlot s b)
  | give b slot => exact congrArg Heap.next (heap_freeSlot s b slot)
  | count b => rw [Call.run, Answer.store_ofExcept]
  | inspect b => rw [Call.run, Answer.store_ofExcept]

/-- All buffers lie below the addresses that are still unused. -/
theorem History.below_next (hhistory : History bump s ledger) :
    ∀ b e, ledger b = some e → b.toNat + e.layout.totalSize ≤ s.heap.next := by
  induction hhistory with
  | start memory salt => simp
  | @made s t ledger count size buffer _ hmade ih =>
      intro b e hentry
      obtain ⟨hnext, -, rfl⟩ := allocate?_eq_made hmade
      by_cases hsame : b = buffer
      · subst hsame
        rw [Function.update_self] at hentry
        cases hentry
        exact Nat.le_refl _
      · rw [Function.update_of_ne hsame] at hentry
        have hbefore := ih b e hentry
        simp only [Elements.made]
        omega
  | @called s ledger _ call ih =>
      intro b e hentry
      obtain ⟨e', hentry', hlayout⟩ := Ledger.entry_of_noted hentry
      rw [Call.next_after, hlayout]
      exact ih b e' hentry'
  | wrote _ hwrote ih =>
      rw [hwrote.heap]
      exact ih

theorem bump_sound : Sound bump := by
  intro s ledger count size buffer t hhistory hmade
  obtain ⟨hnext, hroom, rfl⟩ := allocate?_eq_made hmade
  have hend : AddressSpace.heapEnd.toNat < UInt64.size := AddressSpace.heapEnd.toNat_lt
  refine ⟨Nat.lt_of_le_of_lt hroom hend, fun b e hentry => ?_, _, rfl⟩
  have hbelow := hhistory.below_next b e hentry
  exact Or.inr (by omega)

/-! ## Handles and slots -/

/-- A program that passes a handle which is not valid finds memory and heap as they were, and
the code of an invalid handle. -/
theorem refused_of_layout (c : Core) (hnull : c.general ElementModule.bufferRegister ≠ 0)
    (hlayout : c.toStore.layout (c.general ElementModule.bufferRegister) =
      .error .invalidBuffer) :
    ∀ f ∈ [ElementModule.free, ElementModule.allocateSlot, ElementModule.freeSlot,
      ElementModule.info],
      (f c).toStore = c.toStore ∧
        (f c).general ElementModule.errorRegister =
          Interface.ErrorCode.invalidHandle.number := by
  have hreport : ∀ c : Core, (ElementModule.report c .invalidHandle).toStore = c.toStore ∧
      (ElementModule.report c .invalidHandle).general ElementModule.errorRegister =
        Interface.ErrorCode.invalidHandle.number := by
    intro c
    refine ⟨rfl, ?_⟩
    simp only [ElementModule.report, Core.setGeneral, Core.general, RegisterFile.get_set,
      and_self, if_true]
  intro f hf
  simp only [List.mem_cons, List.not_mem_nil, or_false] at hf
  rcases hf with rfl | rfl | rfl | rfl
  · simp only [ElementModule.free, ElementModule.withBuffer, if_neg hnull, Store.free, hlayout]
    exact hreport c
  · simp only [ElementModule.allocateSlot, ElementModule.withBuffer, if_neg hnull,
      Store.allocateSlot, hlayout]
    exact hreport _
  · simp only [ElementModule.freeSlot, ElementModule.withBuffer, if_neg hnull, Store.freeSlot,
      hlayout]
    exact hreport c
  · simp only [ElementModule.info, ElementModule.withBuffer, if_neg hnull, hlayout]
    exact hreport c

/-- What holds of all buffers at once. -/
structure Isolated (allocates : Allocator) (s : Store) (ledger : Ledger) : Prop where
  /-- A call passes the test of its handle exactly if the buffer was made and not freed since. -/
  passes : ∀ call : Call, (¬∃ t, call.run s = .error .invalidBuffer t) ↔
    (ledger call.buffer).isSome
  /-- Any other call leaves the store alone. -/
  refused : ∀ call : Call, ledger call.buffer = none →
    call.run s = .error .invalidBuffer s ∧ call.after s = s
  /-- So does every call that fails. -/
  failed : ∀ (call : Call) e t, call.run s = .error e t → t = s
  /-- So it does when a program makes it. -/
  refused_program : ∀ c : Core, c.toStore = s → c.general ElementModule.bufferRegister ≠ 0 →
    ledger (c.general ElementModule.bufferRegister) = none →
    ∀ f ∈ [ElementModule.free, ElementModule.allocateSlot, ElementModule.freeSlot,
      ElementModule.info],
      (f c).toStore = s ∧
        (f c).general ElementModule.errorRegister = Interface.ErrorCode.invalidHandle.number
  /-- A call on one buffer changes no byte of another. -/
  called : ∀ call : Call, ∀ b e, ledger b = some e → b ≠ call.buffer →
    (call.after s).memory.AgreeOn s.memory b.toNat (b.toNat + e.layout.totalSize)
  /-- Making a buffer changes no byte of another. -/
  made : ∀ count size buffer t, allocates s count size buffer t → ∀ b e, ledger b = some e →
    b ≠ buffer ∧ t.memory.AgreeOn s.memory b.toNat (b.toNat + e.layout.totalSize)
  /-- Slots of different buffers do not overlap. -/
  slots : ∀ b e b' e', ledger b = some e → ledger b' = some e' → b ≠ b' →
    ∀ a ∈ e.out, ∀ a' ∈ e'.out,
      a.toNat + e.layout.slotSize ≤ a'.toNat ∨ a'.toNat + e'.layout.slotSize ≤ a.toNat

theorem Kept.isolated {allocates : Allocator} (hkept : Kept s ledger)
    (hgrants : ∀ count size buffer t, allocates s count size buffer t →
      Grants ledger s count size buffer t) : Isolated allocates s ledger where
  passes := by
    intro call
    rcases hkept.call_cases call with
      ⟨hnone, hrun⟩ | ⟨e, hentry, ⟨error, hrun, hother⟩ | ⟨t, hrun, -⟩⟩
    · simp [hnone, hrun]
    · simp [hentry, hrun, hother]
    · simp [hentry, hrun]
  refused := by
    intro call hnone
    have hrun := Call.run_of_layout (hkept.layout_of_none hnone)
    exact ⟨hrun, by rw [Call.after, hrun]; rfl⟩
  failed := by
    intro call e t herror
    rcases hkept.call_cases call with ⟨-, hrun⟩ | ⟨-, -, ⟨error, hrun, -⟩ | ⟨u, hrun, -⟩⟩
    all_goals
      rw [hrun] at herror
      cases herror
    all_goals rfl
  refused_program := by
    intro c hstore hnull hnone f hf
    have hlayout := hkept.layout_of_none hnone
    rw [← hstore] at hlayout ⊢
    exact refused_of_layout c hnull hlayout f hf
  called := by
    intro call b e hentry hne
    unfold Call.after
    rcases hkept.call_cases call with
      ⟨-, hrun⟩ | ⟨e', hentry', ⟨error, hrun, -⟩ | ⟨t, hrun, hinside, -⟩⟩
    · rw [hrun]
      exact fun _ _ _ => rfl
    · rw [hrun]
      exact fun _ _ _ => rfl
    · rw [hrun]
      exact hinside.agreeOn (hkept.apart _ e' b e hentry' hentry (fun h => hne h.symm))
  made := by
    intro count size buffer t hmade b e hentry
    have hgranted := hgrants count size buffer t hmade
    have hinside : Inside buffer (.request count size) s t := by
      obtain ⟨next, rfl⟩ := hgranted.made
      exact inside_made hgranted.placed next
    refine ⟨?_, hinside.agreeOn (hgranted.apart b e hentry)⟩
    rintro rfl
    rw [hgranted.unused] at hentry
    cases hentry
  slots := by
    intro b e b' e' hentry hentry' hne a ha a' ha'
    have hheld := hkept.held b e hentry
    have hheld' := hkept.held b' e' hentry'
    have hinside := hheld.placed.slot_inside (hheld.slots a ha)
    have hinside' := hheld'.placed.slot_inside (hheld'.slots a' ha')
    have hapart := hkept.apart b e b' e' hentry hentry' hne
    unfold Apart at hapart
    omega

/-- Buffers are isolated from each other over every history, with every allocator that gives
out no block of a live buffer; the allocator that never uses an address again is one. -/
theorem buffers_are_isolated :
    Sound bump ∧ ∀ (allocates : Allocator) (s : Store) (ledger : Ledger),
      Sound allocates → History allocates s ledger → Isolated allocates s ledger := by
  refine ⟨bump_sound, fun allocates s ledger hsound hhistory => ?_⟩
  exact (hhistory.kept hsound).isolated fun count size buffer t hmade =>
    hsound s ledger count size buffer t hhistory hmade

/-- Of two buffers, the second has been freed twice. -/
theorem two_buffers_are_isolated :
    ∃ (s : Store) (ledger : Ledger), Sound bump ∧ History bump s ledger ∧
      (ledger AddressSpace.heapBase).isSome ∧ ledger 0x400000220 = none ∧
      Isolated bump s ledger := by
  have hrun : ((Store.allocate? {} 1 1).bind fun first =>
      (first.2.allocate? 1 1).map fun second =>
        (first.1, second.1, match second.2.free second.1 with
          | .ok _ _ => true
          | .error _ _ => false)) =
      some (AddressSpace.heapBase, 0x400000220, true) := by decide +kernel
  obtain ⟨⟨first, s⟩, hfirst, hrest⟩ := Option.bind_eq_some_iff.mp hrun
  obtain ⟨⟨second, t⟩, hsecond, hanswer⟩ := Option.map_eq_some_iff.mp hrest
  simp only [Prod.mk.injEq] at hanswer
  obtain ⟨rfl, rfl, hfreed⟩ := hanswer
  have hstart : History bump {} (fun _ => none) := .start .zero _
  have hmade := (hstart.made hfirst).made hsecond
  have hhistory := (hmade.called (.release 0x400000220)).called (.release 0x400000220)
  cases hfree : t.free 0x400000220 with
  | error e u =>
      rw [hfree] at hfreed
      cases hfreed
  | ok value u =>
      refine ⟨_, _, bump_sound, hhistory, ?_, ?_,
        buffers_are_isolated.2 bump _ _ bump_sound hhistory⟩
      all_goals
        simp only [Ledger.noted, Call.after, Call.run, hfree, Answer.store]
        cases u.free 0x400000220 <;> rfl

end Elements

end BytecodeMachine
