import BytecodeMachine.Proofs.Elements.Held

/-!
# New element buffers

Making a buffer writes its header and sets every bit of its bitmap.  The header reads as it
was written, since its parts and the bitmap do not overlap, and all slots are free.
-/

namespace BytecodeMachine

namespace Elements

/-- The memory in which the header of a buffer has been written and all bits are set. -/
def formatted (m : Memory) (buffer tag : UInt64) (l : BufferLayout) : Memory :=
  (((m.write buffer .quad tag).write (buffer + 8) .long (UInt64.ofNat l.count)).write
    (buffer + 12) .long (UInt64.ofNat l.slotSize)).fill (buffer + 16) (8 * l.bitmapWords) 0xff

section Formatted

variable (m : Memory) {buffer : UInt64} (tag : UInt64) {l : BufferLayout}
  (hplaced : Placed buffer l)

include hplaced

theorem read_formatted_tag : (formatted m buffer tag l).read buffer .quad = tag := by
  have hend := hplaced.header_end
  obtain ⟨hcount, hsize, hbits⟩ := hplaced.header_places
  have hquad : Width.quad.bytes = 8 := rfl
  have hlong : Width.long.bytes = 4 := rfl
  -- All that is written later lies above the tag.
  have hagree : (formatted m buffer tag l).AgreeOn (m.write buffer .quad tag)
      buffer.toNat (buffer.toNat + 8) :=
    (Memory.AgreeOn.fill _ 0xff (by omega)).trans
      ((Memory.AgreeOn.write _ _ (by omega) (by omega)).trans
        (Memory.AgreeOn.write _ _ (by omega) (by omega)))
  rw [hagree.read (by omega) (by omega) (by omega), Memory.read_write_quad]

theorem read_formatted_count (hsmall : l.count < 0x100000000) :
    ((formatted m buffer tag l).read (buffer + 8) .long).toNat = l.count := by
  have hend := hplaced.header_end
  obtain ⟨hcount, hsize, hbits⟩ := hplaced.header_places
  have hlong : Width.long.bytes = 4 := rfl
  have hagree : (formatted m buffer tag l).AgreeOn
      ((m.write buffer .quad tag).write (buffer + 8) .long (UInt64.ofNat l.count))
      (buffer.toNat + 8) (buffer.toNat + 12) :=
    (Memory.AgreeOn.fill _ 0xff (by omega)).trans
      (Memory.AgreeOn.write _ _ (by omega) (by omega))
  rw [hagree.read (by omega) (by omega) (by omega), Memory.read_write_long _ _ _ hsmall]

theorem read_formatted_slotSize (hsmall : l.slotSize < 0x100000000) :
    ((formatted m buffer tag l).read (buffer + 12) .long).toNat = l.slotSize := by
  have hend := hplaced.header_end
  obtain ⟨-, hsize, hbits⟩ := hplaced.header_places
  have hlong : Width.long.bytes = 4 := rfl
  have hagree : (formatted m buffer tag l).AgreeOn
      (((m.write buffer .quad tag).write (buffer + 8) .long (UInt64.ofNat l.count)).write
        (buffer + 12) .long (UInt64.ofNat l.slotSize))
      (buffer.toNat + 12) (buffer.toNat + 16) :=
    Memory.AgreeOn.fill _ 0xff (by omega)
  rw [hagree.read (by omega) (by omega) (by omega), Memory.read_write_long _ _ _ hsmall]

theorem freeBit_formatted {i : Nat} (hi : i < l.count) :
    freeBit (formatted m buffer tag l) buffer i = true := by
  have hend := hplaced.header_end
  obtain ⟨-, -, hbits⟩ := hplaced.header_places
  have hword := hplaced.word_lt hi
  have hcell := hplaced.toNat_cell hi
  have hbytes : (formatted m buffer tag l).bytes (bitmapWord buffer (i / 64)) 8 =
      List.replicate 8 0xff := by
    refine Memory.bytes_eq_replicate fun k hk => ?_
    have hplace : (bitmapWord buffer (i / 64) + UInt64.ofNat k).toNat =
        (bitmapWord buffer (i / 64)).toNat + k := Memory.toNat_add_ofNat (by omega)
    unfold formatted
    rw [Memory.byte_fill, if_pos (by omega)]
  have hones : ∀ bit, bit < 64 →
      (LittleEndian.word64 (List.replicate 8 0xff)).toNat.testBit bit = true := by decide
  unfold freeBit
  show (LittleEndian.word64 ((formatted m buffer tag l).bytes
    (bitmapWord buffer (i / 64)) 8)).toNat.testBit (i % 64) = true
  rw [hbytes]
  exact hones _ (Nat.mod_lt i (by decide))

end Formatted

/-- All slots of a buffer are free when it has been formatted. -/
theorem held_of_formatted {t : Store} {m : Memory} {buffer : UInt64} {l : BufferLayout}
    (hplaced : Placed buffer l) (hcount : l.count < 0x100000000)
    (hslot : l.slotSize < 0x100000000) (hlive : buffer ∈ t.heap.live)
    (hmemory : t.memory = formatted m buffer (token t.heap buffer) l) : Held t buffer l ∅ := by
  refine ⟨hplaced, ?_, ?_, ?_⟩
  · unfold Store.layout
    rw [hmemory, read_formatted_tag m _ hplaced, read_formatted_count m _ hplaced hcount,
      read_formatted_slotSize m _ hplaced hslot]
    simp [hlive]
  · intro i hi
    rw [hmemory, freeBit_formatted m _ hplaced hi]
    simp
  · intro a ha
    exact absurd ha (Finset.notMem_empty a)

/-- A buffer is made in the heap, and its address is live from then on. -/
theorem allocate?_eq_some {s t : Store} {count size : UInt16} {buffer : UInt64}
    (hallocate : s.allocate? count size = some (buffer, t)) :
    Placed buffer (BufferLayout.request count size) ∧
      t.heap.salt = s.heap.salt ∧ t.heap.live = buffer :: s.heap.live ∧
      ∃ m, t.memory =
        formatted m buffer (token s.heap buffer) (BufferLayout.request count size) := by
  unfold Store.allocate? at hallocate
  simp only at hallocate
  split at hallocate
  · cases hallocate
  · rename_i hroom
    cases hallocate
    have hslot := BufferLayout.request_slotSize_bounds count size
    have hend : AddressSpace.heapEnd.toNat = 0x401000000 := by decide
    have hsize : UInt64.size = 0x10000000000000000 := rfl
    refine ⟨⟨BufferLayout.request_words count size, by omega, ?_⟩, rfl, rfl, _, rfl⟩
    rw [UInt64.toNat_ofNat', Nat.mod_eq_of_lt (by omega)]
    omega

/-- All slots of a new buffer are free. -/
theorem held_of_allocate? {s t : Store} {count size : UInt16} {buffer : UInt64}
    (hallocate : s.allocate? count size = some (buffer, t)) :
    Held t buffer (BufferLayout.request count size) ∅ := by
  obtain ⟨hplaced, hsalt, hlive, m, hmemory⟩ := allocate?_eq_some hallocate
  have hcount := BufferLayout.request_count_le count size
  have hslot := BufferLayout.request_slotSize_bounds count size
  have htag : token t.heap buffer = token s.heap buffer := by
    unfold token
    rw [hsalt]
  refine held_of_formatted (m := m) hplaced (by omega) (by omega) ?_ ?_
  · simp [hlive]
  · rw [hmemory, htag]

end Elements

end BytecodeMachine
