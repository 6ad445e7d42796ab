import BytecodeMachine.Elements.Store
import BytecodeMachine.Proofs.Memory.Window

/-!
# The bitmap of an element buffer

A bitmap is kept in words of 64 bits; the slots are numbered through all words.  Here it is
read as one sequence of bits, `freeBit`: the search for a free slot finds the first set bit,
the count of free slots counts the set bits, and a write of one word changes its own bits
only.
-/

namespace BytecodeMachine.Elements

/-! ## Words with one set bit -/

theorem testBit_bitMask {bit : Nat} (hbit : bit < 64) (j : Nat) :
    (bitMask bit).toNat.testBit j = decide (bit = j) := by
  have hpower : (bitMask bit).toNat = 2 ^ bit := by
    have hlt : 2 ^ bit < 2 ^ 64 := Nat.pow_lt_pow_right (by decide) hbit
    have hcount : (UInt64.ofNat bit).toNat = bit := by
      rw [UInt64.toNat_ofNat']
      omega
    rw [bitMask, UInt64.toNat_shiftLeft, hcount, Nat.mod_eq_of_lt hbit]
    show 1 <<< bit % 2 ^ 64 = 2 ^ bit
    rw [Nat.shiftLeft_eq, Nat.one_mul, Nat.mod_eq_of_lt hlt]
  rw [hpower, Nat.testBit_two_pow]

/-- Clearing a bit leaves the others. -/
theorem testBit_clear (bits : UInt64) {bit j : Nat} (hbit : bit < 64) (hj : j < 64) :
    (bits &&& ~~~(bitMask bit)).toNat.testBit j =
      (bits.toNat.testBit j && decide (bit ≠ j)) := by
  show (bits &&& ~~~(bitMask bit)).toBitVec.getLsbD j = _
  rw [UInt64.toBitVec_and, UInt64.toBitVec_not, BitVec.getLsbD_and, BitVec.getLsbD_not]
  have hmask : (bitMask bit).toBitVec.getLsbD j = decide (bit = j) := testBit_bitMask hbit j
  rw [hmask]
  show (bits.toNat.testBit j && (decide (j < 64) && !decide (bit = j))) = _
  simp [hj]

/-- Setting a bit leaves the others. -/
theorem testBit_set (bits : UInt64) {bit : Nat} (hbit : bit < 64) (j : Nat) :
    (bits ||| bitMask bit).toNat.testBit j = (bits.toNat.testBit j || decide (bit = j)) := by
  rw [UInt64.toNat_or, Nat.testBit_or, testBit_bitMask hbit]

theorem and_bitMask_ne_zero_iff (bits : UInt64) {bit : Nat} (hbit : bit < 64) :
    bits &&& bitMask bit ≠ 0 ↔ bits.toNat.testBit bit = true := by
  have hbits : ∀ j, (bits &&& bitMask bit).toNat.testBit j =
      (bits.toNat.testBit j && decide (bit = j)) := by
    intro j
    rw [UInt64.toNat_and, Nat.testBit_and, testBit_bitMask hbit]
  constructor
  · intro hne
    cases hclear : bits.toNat.testBit bit with
    | true => rfl
    | false =>
        -- Every bit of the conjunction is clear, the masked one by assumption.
        refine absurd (UInt64.toNat_inj.mp (Nat.eq_of_testBit_eq fun j => ?_)) hne
        show (bits &&& bitMask bit).toNat.testBit j = Nat.testBit 0 j
        rw [hbits, Nat.zero_testBit]
        by_cases hj : bit = j
        · rw [← hj, hclear]
          rfl
        · simp [hj]
  · intro hset hzero
    have hbit' := hbits bit
    rw [hzero, hset] at hbit'
    simp at hbit'

/-! ## The bitmap as one sequence of bits -/

/-- The slot of a number is free. -/
def freeBit (m : Memory) (buffer : UInt64) (i : Nat) : Bool :=
  (m.read (bitmapWord buffer (i / 64)) .quad).toNat.testBit (i % 64)

/-- The store in which the bit of a slot has been cleared. -/
def taken (s : Store) (buffer : UInt64) (i : Nat) : Store :=
  { s with
    memory := s.memory.write (bitmapWord buffer (i / 64)) .quad
      (s.memory.read (bitmapWord buffer (i / 64)) .quad &&& ~~~(bitMask (i % 64))) }

/-- The store in which the bit of a slot has been set. -/
def given (s : Store) (buffer : UInt64) (i : Nat) : Store :=
  { s with
    memory := s.memory.write (bitmapWord buffer (i / 64)) .quad
      (s.memory.read (bitmapWord buffer (i / 64)) .quad ||| bitMask (i % 64)) }

/-- The set bits of one word, as numbers of slots. -/
theorem filter_freeBit_word (m : Memory) (buffer : UInt64) (word : Nat) :
    (List.range' (64 * word) 64).filter (freeBit m buffer) =
      (setBits (m.read (bitmapWord buffer word) .quad)).map (64 * word + ·) := by
  have hbits : (List.range 64).filter (freeBit m buffer ∘ (64 * word + ·)) =
      setBits (m.read (bitmapWord buffer word) .quad) := by
    refine List.filter_congr fun bit hbit => ?_
    have hlt : bit < 64 := List.mem_range.mp hbit
    have hword : (64 * word + bit) / 64 = word := by omega
    have hplace : (64 * word + bit) % 64 = bit := by omega
    simp only [Function.comp_apply, freeBit, hword, hplace]
  rw [List.range'_eq_map_range, List.filter_map, hbits]

theorem range'_words (word count : Nat) :
    List.range' (64 * word) (64 * (count + 1)) =
      List.range' (64 * word) 64 ++ List.range' (64 * (word + 1)) (64 * count) := by
  have hfirst : 64 * (word + 1) = 64 * word + 64 := by omega
  have hlength : 64 * (count + 1) = 64 + 64 * count := by omega
  rw [hfirst, hlength, List.range'_append_1]

/-- The search through the words finds the first set bit of the sequence. -/
theorem firstFree?_eq_find? (m : Memory) (buffer : UInt64) (word count : Nat) :
    firstFree? m buffer word count =
      ((List.range' (64 * word) (64 * count)).find? (freeBit m buffer)).map
        (fun i => (i / 64, i % 64)) := by
  induction count generalizing word with
  | zero => rfl
  | succ count ih =>
      rw [firstFree?, range'_words, List.find?_append, ← List.head?_filter,
        filter_freeBit_word]
      -- The search goes on exactly if the first word has no set bit.
      cases hbits : setBits (m.read (bitmapWord buffer word) .quad) with
      | nil =>
          simp only [List.map_nil, List.head?_nil, Option.none_or]
          exact ih (word + 1)
      | cons bit rest =>
          have hmem : bit ∈ setBits (m.read (bitmapWord buffer word) .quad) := by
            rw [hbits]
            exact List.mem_cons_self
          have hlt : bit < 64 := List.mem_range.mp (List.mem_filter.mp hmem).1
          have hword : (64 * word + bit) / 64 = word := by omega
          have hplace : (64 * word + bit) % 64 = bit := by omega
          simp only [List.map_cons, List.head?_cons, Option.some_or, Option.map_some, hword,
            hplace]

/-- The counts of the words add up to the count of the sequence. -/
theorem foldr_setBits_length (m : Memory) (buffer : UInt64) (word count : Nat) :
    (List.range' word count).foldr
        (fun word total =>
          (setBits (m.read (bitmapWord buffer word) .quad)).length + total) 0 =
      ((List.range' (64 * word) (64 * count)).filter (freeBit m buffer)).length := by
  induction count generalizing word with
  | zero => rfl
  | succ count ih =>
      rw [List.range'_succ, List.foldr_cons, ih, range'_words, List.filter_append,
        List.length_append, filter_freeBit_word, List.length_map]

/-! ## Writing one word -/

theorem toNat_bitmapWord {buffer : UInt64} {word : Nat}
    (hfits : buffer.toNat + 16 + 8 * word < UInt64.size) :
    (bitmapWord buffer word).toNat = buffer.toNat + 16 + 8 * word := by
  have hheader : (buffer + UInt64.ofNat 16).toNat = buffer.toNat + 16 :=
    Memory.toNat_add_ofNat (by omega)
  show (buffer + UInt64.ofNat 16 + UInt64.ofNat (8 * word)).toNat = _
  rw [Memory.toNat_add_ofNat (by omega), hheader]

theorem freeBit_write (m : Memory) {buffer : UInt64} (words : Nat) {word i : Nat}
    (value : UInt64)
    (hfits : buffer.toNat + 16 + 8 * words ≤ UInt64.size) (hword : word < words)
    (hi : i < 64 * words) :
    freeBit (m.write (bitmapWord buffer word) .quad value) buffer i =
      if i / 64 = word then value.toNat.testBit (i % 64) else freeBit m buffer i := by
  have hcell : (bitmapWord buffer word).toNat = buffer.toNat + 16 + 8 * word :=
    toNat_bitmapWord (by omega)
  have hother : (bitmapWord buffer (i / 64)).toNat = buffer.toNat + 16 + 8 * (i / 64) :=
    toNat_bitmapWord (by omega)
  have hquad : Width.quad.bytes = 8 := rfl
  unfold freeBit
  by_cases hsame : i / 64 = word
  · rw [if_pos hsame, hsame, Memory.read_write_quad]
  · rw [if_neg hsame]
    have hagree : (m.write (bitmapWord buffer word) .quad value).AgreeOn m
        (buffer.toNat + 16 + 8 * (i / 64)) (buffer.toNat + 16 + 8 * (i / 64) + 8) :=
      Memory.AgreeOn.write m value (by omega) (by omega)
    rw [hagree.read (by omega) (by omega) (by omega)]

end BytecodeMachine.Elements
