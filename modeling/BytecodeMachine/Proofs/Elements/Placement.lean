import BytecodeMachine.Proofs.Elements.Bitmap

/-!
# Where the slots of an element buffer lie

The slots follow the header and the bitmap one after the other.  Going from the number of a
slot to its address and from an address back to a number are inverse to each other, as long as
the buffer lies inside the address space.
-/

namespace BytecodeMachine

namespace Elements

/-! ## Where slots lie -/

/-- The address of the slot of a number. -/
def slotAddress (buffer : UInt64) (l : BufferLayout) (i : Nat) : UInt64 :=
  buffer + UInt64.ofNat (l.headerSize + i * l.slotSize)

/-- A slot of the buffer begins at the address. -/
def IsSlot (buffer : UInt64) (l : BufferLayout) (a : UInt64) : Prop :=
  ∃ i, i < l.count ∧ a = slotAddress buffer l i

/-- A buffer of the layout can stand at the address: its bitmap has whole words, its slots are
not empty, and it ends inside the address space. -/
structure Placed (buffer : UInt64) (l : BufferLayout) : Prop where
  words : l.count = 64 * l.bitmapWords
  nonempty : 0 < l.slotSize
  fits : buffer.toNat + l.totalSize < UInt64.size

theorem BufferLayout.totalSize_eq (l : BufferLayout) :
    l.totalSize = l.headerSize + l.storageSize := rfl

/-- A slot ends before the storage does. -/
theorem BufferLayout.slot_le {l : BufferLayout} {i : Nat} (hi : i < l.count) :
    i * l.slotSize + l.slotSize ≤ l.storageSize := by
  have hmul := Nat.mul_le_mul_right l.slotSize (Nat.succ_le_of_lt hi)
  rw [Nat.succ_mul] at hmul
  exact hmul

/-! ## Between numbers and addresses -/

section

variable {buffer : UInt64} {l : BufferLayout}

theorem toNat_slotAddress_of_lt {i : Nat}
    (hfits : buffer.toNat + l.headerSize + i * l.slotSize < UInt64.size) :
    (slotAddress buffer l i).toNat = buffer.toNat + l.headerSize + i * l.slotSize := by
  rw [slotAddress, Memory.toNat_add_ofNat (by omega)]
  omega

/-- A slot that begins inside the address space lies behind a header, and so not at zero. -/
theorem slotAddress_ne_zero {i : Nat}
    (hfits : buffer.toNat + l.headerSize + i * l.slotSize < UInt64.size) :
    slotAddress buffer l i ≠ 0 := by
  intro hzero
  have hslot := toNat_slotAddress_of_lt hfits
  have hheader : l.headerSize = 16 + 8 * l.bitmapWords := rfl
  rw [hzero] at hslot
  have hnull : (0 : UInt64).toNat = 0 := rfl
  omega

/-- The offset of a slot in the storage. -/
theorem offset_slotAddress_of_lt {i : Nat}
    (hfits : buffer.toNat + l.headerSize + i * l.slotSize < UInt64.size) :
    (slotAddress buffer l i - (buffer + UInt64.ofNat l.headerSize)).toNat = i * l.slotSize := by
  have hslot := toNat_slotAddress_of_lt hfits
  have hstorage : (buffer + UInt64.ofNat l.headerSize).toNat = buffer.toNat + l.headerSize :=
    Memory.toNat_add_ofNat (by omega)
  have hle : buffer + UInt64.ofNat l.headerSize ≤ slotAddress buffer l i := by
    rw [UInt64.le_iff_toNat_le]
    omega
  rw [UInt64.toNat_sub_of_le _ _ hle]
  omega

/-- An address that passes the three tests is that of a slot, which begins inside the address
space. -/
theorem exists_slot_of_offset {a : UInt64}
    (hstart : buffer.toNat + l.headerSize < UInt64.size)
    (hfrom : ¬a < buffer + UInt64.ofNat l.headerSize)
    (hto : (a - (buffer + UInt64.ofNat l.headerSize)).toNat < l.storageSize)
    (hwhole : (a - (buffer + UInt64.ofNat l.headerSize)).toNat % l.slotSize = 0) :
    ∃ i, i < l.count ∧ a = slotAddress buffer l i ∧
      buffer.toNat + l.headerSize + i * l.slotSize < UInt64.size := by
  have hle : buffer + UInt64.ofNat l.headerSize ≤ a := UInt64.not_lt.mp hfrom
  have hoffset := UInt64.toNat_sub_of_le _ _ hle
  have hstorage : (buffer + UInt64.ofNat l.headerSize).toNat = buffer.toNat + l.headerSize :=
    Memory.toNat_add_ofNat hstart
  have hlea := UInt64.le_iff_toNat_le.mp hle
  have hlta := a.toNat_lt_size
  generalize (a - (buffer + UInt64.ofNat l.headerSize)).toNat = offset at *
  have hindex : offset / l.slotSize < l.count := Nat.div_lt_of_lt_mul (by
    rw [Nat.mul_comm]
    exact hto)
  -- Nothing is lost in the division, since the offset is a whole number of slots.
  have hback : offset / l.slotSize * l.slotSize = offset := by
    have hparts := Nat.div_add_mod offset l.slotSize
    rw [hwhole, Nat.mul_comm] at hparts
    omega
  have hfits : buffer.toNat + l.headerSize + offset / l.slotSize * l.slotSize < UInt64.size := by
    omega
  refine ⟨offset / l.slotSize, hindex, UInt64.toNat_inj.mp ?_, hfits⟩
  rw [toNat_slotAddress_of_lt hfits, hback]
  omega

end

namespace Placed

variable {buffer : UInt64} {l : BufferLayout} (hplaced : Placed buffer l)

include hplaced

/-- The header and the bitmap end inside the address space. -/
theorem header_end : buffer.toNat + 16 + 8 * l.bitmapWords < UInt64.size := by
  have hfits := hplaced.fits
  have htotal := l.totalSize_eq
  have hheader : l.headerSize = 16 + 8 * l.bitmapWords := rfl
  omega

/-- Where the count, the slot size and the bitmap stand in the buffer. -/
theorem header_places :
    (buffer + 8).toNat = buffer.toNat + 8 ∧ (buffer + 12).toNat = buffer.toNat + 12 ∧
      (buffer + 16).toNat = buffer.toNat + 16 := by
  have hend := hplaced.header_end
  exact ⟨Memory.toNat_add_ofNat (n := 8) (by omega),
    Memory.toNat_add_ofNat (n := 12) (by omega), Memory.toNat_add_ofNat (n := 16) (by omega)⟩

/-- The bit of a slot stands in a word of the bitmap. -/
theorem word_lt {i : Nat} (hi : i < l.count) : i / 64 < l.bitmapWords := by
  have hwords := hplaced.words
  omega

theorem toNat_cell {i : Nat} (hi : i < l.count) :
    (bitmapWord buffer (i / 64)).toNat = buffer.toNat + 16 + 8 * (i / 64) := by
  have hend := hplaced.header_end
  have hword := hplaced.word_lt hi
  exact toNat_bitmapWord (by omega)

/-- A slot begins inside the address space. -/
theorem slot_lt {i : Nat} (hi : i < l.count) :
    buffer.toNat + l.headerSize + i * l.slotSize < UInt64.size := by
  have hslot := BufferLayout.slot_le hi
  have hfits := hplaced.fits
  have htotal := l.totalSize_eq
  omega

theorem toNat_slotAddress {i : Nat} (hi : i < l.count) :
    (slotAddress buffer l i).toNat = buffer.toNat + l.headerSize + i * l.slotSize :=
  toNat_slotAddress_of_lt (hplaced.slot_lt hi)

/-- Slots of higher numbers lie higher, by a slot's size at least. -/
theorem slotAddress_apart {i j : Nat} (hij : i < j) (hj : j < l.count) :
    (slotAddress buffer l i).toNat + l.slotSize ≤ (slotAddress buffer l j).toNat := by
  have hmul := Nat.mul_le_mul_right l.slotSize (Nat.succ_le_of_lt hij)
  rw [Nat.succ_mul] at hmul
  rw [hplaced.toNat_slotAddress (by omega), hplaced.toNat_slotAddress hj]
  omega

theorem slotAddress_inj {i j : Nat} (hi : i < l.count) (hj : j < l.count)
    (hsame : slotAddress buffer l i = slotAddress buffer l j) : i = j := by
  have hpos := hplaced.nonempty
  rcases Nat.lt_trichotomy i j with hlt | heq | hgt
  · have hapart := hplaced.slotAddress_apart hlt hj
    rw [hsame] at hapart
    omega
  · exact heq
  · have hapart := hplaced.slotAddress_apart hgt hi
    rw [hsame] at hapart
    omega

theorem slotAddress_le {i j : Nat} (hij : i ≤ j) (hj : j < l.count) :
    slotAddress buffer l i ≤ slotAddress buffer l j := by
  rw [UInt64.le_iff_toNat_le]
  rcases Nat.lt_or_eq_of_le hij with hlt | heq
  · have hapart := hplaced.slotAddress_apart hlt hj
    omega
  · subst heq
    exact Nat.le_refl _

/-- A slot lies behind the header and the bitmap, and inside the buffer. -/
theorem slot_inside {a : UInt64} (ha : IsSlot buffer l a) :
    buffer.toNat + l.headerSize ≤ a.toNat ∧
      a.toNat + l.slotSize ≤ buffer.toNat + l.totalSize := by
  obtain ⟨i, hi, rfl⟩ := ha
  have hslot := BufferLayout.slot_le hi
  have htotal := l.totalSize_eq
  rw [hplaced.toNat_slotAddress hi]
  omega

/-- Two slots do not overlap. -/
theorem slots_apart {a b : UInt64} (ha : IsSlot buffer l a) (hb : IsSlot buffer l b)
    (hne : a ≠ b) : a.toNat + l.slotSize ≤ b.toNat ∨ b.toNat + l.slotSize ≤ a.toNat := by
  obtain ⟨i, hi, rfl⟩ := ha
  obtain ⟨j, hj, rfl⟩ := hb
  rcases Nat.lt_trichotomy i j with hlt | heq | hgt
  · exact Or.inl (hplaced.slotAddress_apart hlt hj)
  · exact absurd (by rw [heq]) hne
  · exact Or.inr (hplaced.slotAddress_apart hgt hi)

theorem storage_lt : buffer.toNat + l.headerSize < UInt64.size := by
  have hfits := hplaced.fits
  have htotal := l.totalSize_eq
  omega

end Placed

/-! ## Layouts that are requested -/

namespace BufferLayout

theorem requested_bounds (n : UInt16) : 1 ≤ requested n ∧ requested n ≤ 65536 := by
  unfold requested maximum
  by_cases hzero : n = 0
  · rw [if_pos hzero]
    omega
  · rw [if_neg hzero]
    have hlt := n.toNat_lt
    have hpos : n.toNat ≠ 0 := fun h => hzero (UInt16.toNat_inj.mp h)
    omega

theorem request_words (count size : UInt16) :
    (request count size).count = 64 * (request count size).bitmapWords := by
  simp only [request, bitmapWords, roundUp]
  omega

theorem request_count_le (count size : UInt16) : (request count size).count ≤ 65536 := by
  have hbounds := requested_bounds count
  simp only [request, roundUp]
  omega

theorem request_slotSize_bounds (count size : UInt16) :
    8 ≤ (request count size).slotSize ∧ (request count size).slotSize ≤ 65536 := by
  have hbounds := requested_bounds size
  simp only [request, roundUp]
  omega

end BufferLayout

end Elements

end BytecodeMachine
