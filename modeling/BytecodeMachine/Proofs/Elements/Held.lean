import BytecodeMachine.Proofs.Elements.Placement
import Mathlib.Data.Finset.Card
import Mathlib.Data.Finset.Range

/-!
# The slots that are out

`Elements.Held` ties the header and the bitmap of a buffer to the set of slots that are out.
Each operation on a slot writes one bit and keeps the invariant, and every answer is read off
it: the bits that are set are the numbers of the slots that are not out.
-/

namespace BytecodeMachine

namespace Elements

/-- The store that an operation leaves. -/
def Answer.store {α : Type} : Answer α → Store
  | .ok _ t | .error _ t => t

/-- The buffer has the layout, and its bitmap marks exactly the slots that are not out. -/
structure Held (s : Store) (buffer : UInt64) (l : BufferLayout) (out : Finset UInt64) :
    Prop where
  placed : Placed buffer l
  layout : s.layout buffer = .ok l
  free : ∀ i, i < l.count →
    freeBit s.memory buffer i = decide (slotAddress buffer l i ∉ out)
  slots : ∀ a ∈ out, IsSlot buffer l a

/-- Something else has happened: the buffer is live as before, and no byte of its header and
bitmap has changed. -/
structure Aside (buffer : UInt64) (l : BufferLayout) (s t : Store) : Prop where
  live : t.heap.live.contains buffer = s.heap.live.contains buffer
  salt : t.heap.salt = s.heap.salt
  bytes : t.memory.AgreeOn s.memory buffer.toNat (buffer.toNat + l.headerSize)

/-! ## What the answers depend on -/

theorem layout_of_header {s t : Store} {buffer : UInt64}
    (hfits : buffer.toNat + 16 < UInt64.size)
    (hlive : t.heap.live.contains buffer = s.heap.live.contains buffer)
    (hsalt : t.heap.salt = s.heap.salt)
    (hbytes : t.memory.AgreeOn s.memory buffer.toNat (buffer.toNat + 16)) :
    t.layout buffer = s.layout buffer := by
  have hcount : (buffer + 8).toNat = buffer.toNat + 8 :=
    Memory.toNat_add_ofNat (n := 8) (by omega)
  have hsize : (buffer + 12).toNat = buffer.toNat + 12 :=
    Memory.toNat_add_ofNat (n := 12) (by omega)
  have hquad : Width.quad.bytes = 8 := rfl
  have hlong : Width.long.bytes = 4 := rfl
  unfold Store.layout token
  rw [hlive, hsalt, hbytes.read (a := buffer) (by omega) (by omega) (by omega),
    hbytes.read (a := buffer + 8) (by omega) (by omega) (by omega),
    hbytes.read (a := buffer + 12) (by omega) (by omega) (by omega)]

/-- A write into the bitmap leaves the header. -/
theorem layout_write {s : Store} {buffer : UInt64} {word : Nat} (value : UInt64)
    (hfits : buffer.toNat + 16 + 8 * word + 8 ≤ UInt64.size) :
    Store.layout { s with memory := s.memory.write (bitmapWord buffer word) .quad value } buffer =
      s.layout buffer := by
  have hcell : (bitmapWord buffer word).toNat = buffer.toNat + 16 + 8 * word :=
    toNat_bitmapWord (by omega)
  have hquad : Width.quad.bytes = 8 := rfl
  exact layout_of_header (by omega) rfl rfl
    (Memory.AgreeOn.write s.memory value (by omega) (by omega))

theorem freeBit_of_agree {m m' : Memory} {buffer : UInt64} {l : BufferLayout} {i : Nat}
    (hplaced : Placed buffer l) (hi : i < l.count)
    (hbytes : m'.AgreeOn m buffer.toNat (buffer.toNat + l.headerSize)) :
    freeBit m' buffer i = freeBit m buffer i := by
  have hend := hplaced.header_end
  have hheader : l.headerSize = 16 + 8 * l.bitmapWords := rfl
  have hquad : Width.quad.bytes = 8 := rfl
  have hword := hplaced.word_lt hi
  have hcell := hplaced.toNat_cell hi
  unfold freeBit
  rw [hbytes.read (by omega) (by omega) (by omega)]

/-! ## What the operations do to one slot -/

section

variable {s : Store} {buffer : UInt64} {l : BufferLayout}

/-- Taking a slot leaves the heap, whether it succeeds or not. -/
theorem heap_allocateSlot (s : Store) (buffer : UInt64) :
    (s.allocateSlot buffer).store.heap = s.heap := by
  unfold Store.allocateSlot
  split
  · rfl
  · split
    · rfl
    · dsimp only
      split <;> rfl

/-- Giving a slot back leaves the heap, whether it succeeds or not. -/
theorem heap_freeSlot (s : Store) (buffer slot : UInt64) :
    (s.freeSlot buffer slot).store.heap = s.heap := by
  unfold Store.freeSlot
  split
  · rfl
  · dsimp only
    split
    · rfl
    · split <;> rfl

/-- The lowest free slot of a buffer begins at the address zero, and its bit has been cleared. -/
def TakesNull (s : Store) (buffer : UInt64) (t : Store) : Prop :=
  ∃ l i, s.layout buffer = .ok l ∧
    (List.range (64 * l.bitmapWords)).find? (freeBit s.memory buffer) = some i ∧
    slotAddress buffer l i = 0 ∧ t = taken s buffer i

/-- The first set bit of the bitmap is cleared, and then the address of its slot is looked at. -/
theorem allocateSlot_of_find? (hlayout : s.layout buffer = .ok l) {i : Nat}
    (hfirst : (List.range (64 * l.bitmapWords)).find? (freeBit s.memory buffer) = some i) :
    s.allocateSlot buffer =
      if slotAddress buffer l i = 0 then .error .invalidSlot (taken s buffer i)
      else .ok (slotAddress buffer l i) (taken s buffer i) := by
  have hsearch : firstFree? s.memory buffer 0 l.bitmapWords = some (i / 64, i % 64) := by
    rw [firstFree?_eq_find?, Nat.mul_zero, ← List.range_eq_range', hfirst]
    rfl
  have hindex : 64 * (i / 64) + i % 64 = i := Nat.div_add_mod i 64
  simp only [Store.allocateSlot, hlayout, hsearch, hindex]
  rfl

theorem allocateSlot_of_find?_none (hlayout : s.layout buffer = .ok l)
    (hnone : (List.range (64 * l.bitmapWords)).find? (freeBit s.memory buffer) = none) :
    s.allocateSlot buffer = .error .bufferFull s := by
  have hsearch : firstFree? s.memory buffer 0 l.bitmapWords = none := by
    rw [firstFree?_eq_find?, Nat.mul_zero, ← List.range_eq_range', hnone]
    rfl
  simp only [Store.allocateSlot, hlayout, hsearch]

/-- A call that takes no slot changes nothing, unless the slot would begin at the address zero. -/
theorem error_of_allocateSlot {t : Store} {e : BufferError}
    (hallocate : s.allocateSlot buffer = .error e t) :
    t = s ∨ e = .invalidSlot ∧ TakesNull s buffer t := by
  cases hlayout : s.layout buffer with
  | error e' =>
      simp only [Store.allocateSlot, hlayout] at hallocate
      cases hallocate
      exact Or.inl rfl
  | ok l =>
      cases hfirst : (List.range (64 * l.bitmapWords)).find? (freeBit s.memory buffer) with
      | none =>
          rw [allocateSlot_of_find?_none hlayout hfirst] at hallocate
          cases hallocate
          exact Or.inl rfl
      | some i =>
          rw [allocateSlot_of_find? hlayout hfirst] at hallocate
          split at hallocate
          · rename_i hnull
            cases hallocate
            exact Or.inr ⟨rfl, l, i, hlayout, hfirst, hnull, rfl⟩
          · cases hallocate

/-- A call that gives no slot back changes nothing. -/
theorem error_of_freeSlot {slot : UInt64} {t : Store} {e : BufferError}
    (hfree : s.freeSlot buffer slot = .error e t) : t = s := by
  unfold Store.freeSlot at hfree
  split at hfree
  · cases hfree
    rfl
  · dsimp only at hfree
    split at hfree
    · cases hfree
      rfl
    · split at hfree
      · cases hfree
        rfl
      · cases hfree

/-- A call that releases no buffer changes nothing. -/
theorem error_of_free {t : Store} {e : BufferError} (hfree : s.free buffer = .error e t) :
    t = s := by
  unfold Store.free at hfree
  split at hfree
  · cases hfree
    rfl
  · split at hfree
    · cases hfree
      rfl
    · cases hfree

/-- The bit of a slot that begins inside the address space is set, unless it is already. -/
theorem freeSlot_of_lt (hlayout : s.layout buffer = .ok l) {i : Nat} (hi : i < l.count)
    (hpos : 0 < l.slotSize)
    (hfits : buffer.toNat + l.headerSize + i * l.slotSize < UInt64.size) :
    s.freeSlot buffer (slotAddress buffer l i) =
      if freeBit s.memory buffer i = true then .error .slotNotAllocated s
      else .ok () (given s buffer i) := by
  have hoffset := offset_slotAddress_of_lt hfits
  have hslot := toNat_slotAddress_of_lt hfits
  have hstorage : (buffer + UInt64.ofNat l.headerSize).toNat = buffer.toNat + l.headerSize :=
    Memory.toNat_add_ofNat (by omega)
  have hend := BufferLayout.slot_le hi
  have hfrom : ¬slotAddress buffer l i < buffer + UInt64.ofNat l.headerSize := by
    rw [UInt64.lt_iff_toNat_lt]
    omega
  -- The offset divides back to the number of the slot, so that it is not refused.
  have hindex : i * l.slotSize / l.slotSize = i := Nat.mul_div_cancel i hpos
  have hwhole : i * l.slotSize % l.slotSize = 0 := Nat.mul_mod_left i l.slotSize
  simp only [Store.freeSlot, hlayout, hoffset, hindex, hwhole]
  rw [if_neg (by simp only [hfrom, false_or, ne_eq, not_true_eq_false, or_false]; omega)]
  simp only [and_bitMask_ne_zero_iff _ (Nat.mod_lt i (by decide : 0 < 64))]
  rfl

/-- An address that is not refused is that of a slot. -/
theorem exists_slot_of_freeSlot (hlayout : s.layout buffer = .ok l)
    (hstart : buffer.toNat + l.headerSize < UInt64.size) {a : UInt64}
    (hfree : s.freeSlot buffer a ≠ .error .invalidSlot s) :
    ∃ i, i < l.count ∧ a = slotAddress buffer l i ∧
      buffer.toNat + l.headerSize + i * l.slotSize < UInt64.size := by
  simp only [Store.freeSlot, hlayout] at hfree
  split at hfree
  · exact absurd rfl hfree
  · rename_i hpasses
    simp only [not_or, Nat.not_le, ne_eq, not_not] at hpasses
    obtain ⟨hfrom, hto, hwhole⟩ := hpasses
    exact exists_slot_of_offset hstart hfrom hto hwhole

end

namespace Held

variable {s t : Store} {buffer : UInt64} {l : BufferLayout} {out : Finset UInt64}

/-! ## The invariant is kept -/

theorem aside (hheld : Held s buffer l out) (haside : Aside buffer l s t) :
    Held t buffer l out where
  placed := hheld.placed
  layout := by
    have hheader : l.headerSize = 16 + 8 * l.bitmapWords := rfl
    have hend := hheld.placed.header_end
    rw [layout_of_header (by omega) haside.live haside.salt
      (haside.bytes.mono (by omega) (by omega))]
    exact hheld.layout
  free := fun i hi => (freeBit_of_agree hheld.placed hi haside.bytes).trans (hheld.free i hi)
  slots := hheld.slots

/-- The word of the bitmap with the bit of a slot is written, and no other bit is changed.  The
new bit has to say whether the slot is in the new set. -/
theorem write (hheld : Held s buffer l out) {i : Nat} (hi : i < l.count) {value : UInt64}
    {out' : Finset UInt64}
    (hbit : value.toNat.testBit (i % 64) = decide (slotAddress buffer l i ∉ out'))
    (hrest : ∀ bit, bit < 64 → bit ≠ i % 64 →
      value.toNat.testBit bit =
        (s.memory.read (bitmapWord buffer (i / 64)) .quad).toNat.testBit bit)
    (hset : ∀ a, a ≠ slotAddress buffer l i → (a ∈ out' ↔ a ∈ out)) :
    Held { s with memory := s.memory.write (bitmapWord buffer (i / 64)) .quad value }
      buffer l out' := by
  have hplaced := hheld.placed
  have hend := hplaced.header_end
  have hword := hplaced.word_lt hi
  refine ⟨hplaced, ?_, ?_, ?_⟩
  · rw [layout_write value (by omega)]
    exact hheld.layout
  · -- The other bits of the word are kept by its new value, the other words by the write.
    intro j hj
    have hwords := hplaced.words
    rw [freeBit_write s.memory l.bitmapWords value (by omega) hword (by omega)]
    by_cases hsame : j = i
    · rw [hsame, if_pos rfl]
      exact hbit
    · have haddress : slotAddress buffer l j ≠ slotAddress buffer l i :=
        fun h => hsame (hplaced.slotAddress_inj hj hi h)
      have hfree : (if j / 64 = i / 64 then value.toNat.testBit (j % 64)
          else freeBit s.memory buffer j) = freeBit s.memory buffer j := by
        by_cases hword : j / 64 = i / 64
        · rw [if_pos hword, hrest _ (by omega) (by omega), ← hword]
          rfl
        · rw [if_neg hword]
      rw [hfree, hheld.free j hj]
      simp only [hset _ haddress]
  · intro a ha
    by_cases hsame : a = slotAddress buffer l i
    · exact ⟨i, hi, hsame⟩
    · exact hheld.slots a ((hset a hsame).mp ha)

/-- Clearing the bit of a slot adds the slot to the set. -/
theorem take (hheld : Held s buffer l out) {i : Nat} (hi : i < l.count) :
    Held (taken s buffer i) buffer l (insert (slotAddress buffer l i) out) := by
  have hlt : i % 64 < 64 := Nat.mod_lt i (by decide)
  refine hheld.write hi ?_ ?_ ?_
  · rw [testBit_clear _ hlt hlt]
    simp
  · intro bit hbit hne
    rw [testBit_clear _ hlt hbit]
    simp [Ne.symm hne]
  · intro a ha
    simp [ha]

/-- Setting the bit of a slot takes the slot out of the set. -/
theorem give (hheld : Held s buffer l out) {i : Nat} (hi : i < l.count) :
    Held (given s buffer i) buffer l (out.erase (slotAddress buffer l i)) := by
  have hlt : i % 64 < 64 := Nat.mod_lt i (by decide)
  refine hheld.write hi ?_ ?_ ?_
  · rw [testBit_set _ hlt]
    simp
  · intro bit _ hne
    rw [testBit_set _ hlt]
    simp [Ne.symm hne]
  · intro a ha
    simp [ha]

/-! ## The answers -/

theorem allocateSlot_of_none (hheld : Held s buffer l out)
    (hnone : (List.range l.count).find? (freeBit s.memory buffer) = none) :
    s.allocateSlot buffer = .error .bufferFull s := by
  rw [hheld.placed.words] at hnone
  exact allocateSlot_of_find?_none hheld.layout hnone

theorem allocateSlot_of_some (hheld : Held s buffer l out) {i : Nat}
    (hsome : (List.range l.count).find? (freeBit s.memory buffer) = some i) :
    s.allocateSlot buffer = .ok (slotAddress buffer l i) (taken s buffer i) := by
  have hi : i < l.count := List.mem_range.mp (List.mem_of_find?_eq_some hsome)
  rw [hheld.placed.words] at hsome
  rw [allocateSlot_of_find? hheld.layout hsome,
    if_neg (slotAddress_ne_zero (hheld.placed.slot_lt hi))]

/-- An address where no slot begins is refused. -/
theorem freeSlot_of_not_isSlot (hheld : Held s buffer l out) {a : UInt64}
    (ha : ¬IsSlot buffer l a) : s.freeSlot buffer a = .error .invalidSlot s := by
  by_contra hfree
  obtain ⟨i, hi, haddress, -⟩ :=
    exists_slot_of_freeSlot hheld.layout hheld.placed.storage_lt hfree
  exact ha ⟨i, hi, haddress⟩

/-- A slot is given back unless its bit is set. -/
theorem freeSlot_of_slotAddress (hheld : Held s buffer l out) {i : Nat} (hi : i < l.count) :
    s.freeSlot buffer (slotAddress buffer l i) =
      if freeBit s.memory buffer i = true then .error .slotNotAllocated s
      else .ok () (given s buffer i) :=
  freeSlot_of_lt hheld.layout hi hheld.placed.nonempty (hheld.placed.slot_lt hi)

/-- The numbers of the slots that are out, counted, are as many as the slots. -/
theorem card_out (hheld : Held s buffer l out) :
    ((Finset.range l.count).filter (fun i => slotAddress buffer l i ∈ out)).card = out.card := by
  have himage : ((Finset.range l.count).filter
      (fun i => slotAddress buffer l i ∈ out)).image (slotAddress buffer l) = out := by
    ext a
    simp only [Finset.mem_image, Finset.mem_filter, Finset.mem_range]
    constructor
    · rintro ⟨i, ⟨-, hmem⟩, rfl⟩
      exact hmem
    · intro ha
      obtain ⟨i, hi, rfl⟩ := hheld.slots a ha
      exact ⟨i, ⟨hi, ha⟩, rfl⟩
  rw [← congrArg Finset.card himage, Finset.card_image_of_injOn]
  intro i hi j hj hsame
  have hilt := Finset.mem_range.mp (Finset.mem_filter.mp (Finset.mem_coe.mp hi)).1
  have hjlt := Finset.mem_range.mp (Finset.mem_filter.mp (Finset.mem_coe.mp hj)).1
  exact hheld.placed.slotAddress_inj hilt hjlt hsame

/-- The set bits are those of the slots that are not out. -/
theorem length_free (hheld : Held s buffer l out) :
    ((List.range l.count).filter (freeBit s.memory buffer)).length + out.card = l.count := by
  have hfree : ((List.range l.count).filter (freeBit s.memory buffer)).length =
      ((Finset.range l.count).filter (fun i => slotAddress buffer l i ∉ out)).card := by
    rw [← List.toFinset_card_of_nodup (List.nodup_range.filter _)]
    congr 1
    ext i
    simp only [List.mem_toFinset, List.mem_filter, List.mem_range, Finset.mem_filter,
      Finset.mem_range]
    constructor
    · rintro ⟨hi, hbit⟩
      rw [hheld.free i hi] at hbit
      exact ⟨hi, of_decide_eq_true hbit⟩
    · rintro ⟨hi, hmem⟩
      rw [hheld.free i hi]
      exact ⟨hi, decide_eq_true hmem⟩
  -- Every number is that of a slot that is out or of one that is not.
  have hsplit := Finset.card_filter_add_card_filter_not (s := Finset.range l.count)
    (fun i => slotAddress buffer l i ∈ out)
  rw [hheld.card_out, Finset.card_range] at hsplit
  omega

theorem freeSlots (hheld : Held s buffer l out) :
    s.freeSlots buffer = .ok (l.count - out.card) := by
  have hcount := hheld.length_free
  have hsum := foldr_setBits_length s.memory buffer 0 l.bitmapWords
  rw [← List.range_eq_range', Nat.mul_zero, ← hheld.placed.words, ← List.range_eq_range'] at hsum
  unfold Store.freeSlots
  rw [hheld.layout]
  show Except.ok (List.foldr _ 0 (List.range l.bitmapWords)) = _
  rw [hsum]
  congr 1
  omega

/-- No slot is found exactly if all are out. -/
theorem find?_eq_none_iff (hheld : Held s buffer l out) :
    (List.range l.count).find? (freeBit s.memory buffer) = none ↔ out.card = l.count := by
  have hcount := hheld.length_free
  rw [← List.head?_filter, List.head?_eq_none_iff, ← List.length_eq_zero_iff]
  omega

/-- The slot that is found is the lowest that is not out. -/
theorem lowest_of_find? (hheld : Held s buffer l out) {i : Nat}
    (hsome : (List.range l.count).find? (freeBit s.memory buffer) = some i) :
    i < l.count ∧ slotAddress buffer l i ∉ out ∧
      ∀ a, IsSlot buffer l a → a ∉ out → slotAddress buffer l i ≤ a := by
  obtain ⟨hbit, hmem, hbelow⟩ := List.find?_range_eq_some.mp hsome
  have hi : i < l.count := List.mem_range.mp hmem
  rw [hheld.free i hi] at hbit
  refine ⟨hi, of_decide_eq_true hbit, ?_⟩
  rintro a ⟨j, hj, rfl⟩ hout
  refine hheld.placed.slotAddress_le ?_ hj
  by_contra hlt
  have hclear := hbelow j (by omega)
  rw [hheld.free j hj] at hclear
  simp [hout] at hclear

/-! ## What a call comes to -/

/-- All slots are out, or the lowest that is not is handed out and joins the set. -/
theorem allocateSlot_cases (hheld : Held s buffer l out) :
    (out.card = l.count ∧ s.allocateSlot buffer = .error .bufferFull s) ∨
    out.card ≠ l.count ∧ ∃ a t, s.allocateSlot buffer = .ok a t ∧
      Held t buffer l (insert a out) ∧ IsSlot buffer l a ∧ a ∉ out ∧
      ∀ b, IsSlot buffer l b → b ∉ out → a ≤ b := by
  cases hfind : (List.range l.count).find? (freeBit s.memory buffer) with
  | none =>
      exact Or.inl ⟨hheld.find?_eq_none_iff.mp hfind, hheld.allocateSlot_of_none hfind⟩
  | some i =>
      have hroom : out.card ≠ l.count := by
        intro hfull
        rw [hheld.find?_eq_none_iff.mpr hfull] at hfind
        cases hfind
      obtain ⟨hi, hout, hlowest⟩ := hheld.lowest_of_find? hfind
      exact Or.inr ⟨hroom, _, _, hheld.allocateSlot_of_some hfind, hheld.take hi,
        ⟨i, hi, rfl⟩, hout, hlowest⟩

/-- An address is that of no slot, of a slot that is not out, or of one that is out and
leaves the set. -/
theorem freeSlot_cases (hheld : Held s buffer l out) (a : UInt64) :
    (¬IsSlot buffer l a ∧ a ∉ out ∧ s.freeSlot buffer a = .error .invalidSlot s) ∨
    (IsSlot buffer l a ∧ a ∉ out ∧ s.freeSlot buffer a = .error .slotNotAllocated s) ∨
    (IsSlot buffer l a ∧ a ∈ out ∧
      ∃ t, s.freeSlot buffer a = .ok () t ∧ Held t buffer l (out.erase a)) := by
  by_cases hslot : IsSlot buffer l a
  · right
    obtain ⟨i, hi, rfl⟩ := hslot
    -- The bit of the slot is the test that the call makes.
    have hfree := hheld.freeSlot_of_slotAddress hi
    rw [hheld.free i hi] at hfree
    by_cases hout : slotAddress buffer l i ∈ out
    · rw [if_neg (by simp [hout])] at hfree
      exact Or.inr ⟨⟨i, hi, rfl⟩, hout, _, hfree, hheld.give hi⟩
    · rw [if_pos (by simp [hout])] at hfree
      exact Or.inl ⟨⟨i, hi, rfl⟩, hout, hfree⟩
  · have hout : a ∉ out := fun hmem => hslot (hheld.slots a hmem)
    exact Or.inl ⟨hslot, hout, hheld.freeSlot_of_not_isSlot hslot⟩

end Held

end Elements

end BytecodeMachine
