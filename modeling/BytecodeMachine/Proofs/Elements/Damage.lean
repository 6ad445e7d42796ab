import BytecodeMachine.Proofs.Elements.Held
import BytecodeMachine.Proofs.Memory.Bits

/-!
# Element buffers with damaged headers

The header and the bitmap of a buffer are ordinary memory, so a program can write anything into
them.  Only the token tells whether a handle is believed; behind an intact token the two fields of
the header can be any 32-bit numbers and the bitmap can have any bits.

* `Checked` repeats the operations with every sum, product, quotient, remainder and shift checked:
  it gives nothing where a number leaves the 64-bit range or a divisor is zero.  In the range of the
  heap this never happens, and the checked operations agree with the operations.
* `SlotsAreSafe` collects what still holds of the slots: one bit of the bitmap is changed at a time,
  and a slot that is taken can be given back.
-/

namespace BytecodeMachine

namespace Elements

/-! ## Arithmetic that does not go unnoticed -/

namespace Checked

/-- A number, if it is a 64-bit word. -/
def fit? (n : Nat) : Option Nat := if n < UInt64.size then some n else none

def sum? (a b : Nat) : Option Nat := fit? (a + b)

def product? (a b : Nat) : Option Nat := fit? (a * b)

def quotient? (a b : Nat) : Option Nat := if b = 0 then none else some (a / b)

def remainder? (a b : Nat) : Option Nat := if b = 0 then none else some (a % b)

/-- The word with one set bit, if there is such a bit. -/
def mask? (bit : Nat) : Option UInt64 := if bit < 64 then some (bitMask bit) else none

@[simp]
theorem sum?_of_lt {a b : Nat} (hfits : a + b < UInt64.size) : sum? a b = some (a + b) :=
  if_pos hfits

@[simp]
theorem product?_of_lt {a b : Nat} (hfits : a * b < UInt64.size) : product? a b = some (a * b) :=
  if_pos hfits

@[simp]
theorem quotient?_of_ne {a b : Nat} (hb : b ≠ 0) : quotient? a b = some (a / b) := if_neg hb

@[simp]
theorem remainder?_of_ne {a b : Nat} (hb : b ≠ 0) : remainder? a b = some (a % b) := if_neg hb

@[simp]
theorem mask?_of_lt {bit : Nat} (hbit : bit < 64) : mask? bit = some (bitMask bit) := if_pos hbit

/-! ## The operations, step by step -/

/-- The number of bitmap words, the offset of the first slot and the size of the buffer. -/
def sizes? (l : BufferLayout) : Option (Nat × Nat × Nat) := do
  let words ← quotient? l.count 64
  let bitmap ← product? words 8
  let header ← sum? 16 bitmap
  let storage ← product? l.count l.slotSize
  let total ← sum? header storage
  return (words, header, total)

/-- The address of a bitmap word. -/
def cell? (buffer : UInt64) (word : Nat) : Option UInt64 := do
  let bitmap ← sum? buffer.toNat 16
  let offset ← product? 8 word
  let cell ← sum? bitmap offset
  return UInt64.ofNat cell

def layout? (s : Store) (buffer : UInt64) : Option (Except BufferError BufferLayout) :=
  match s.layout buffer with
  | .error e => some (.error e)
  | .ok l => do
      let _ ← sizes? l
      return .ok l

def firstFree? (m : Memory) (buffer : UInt64) (word : Nat) : Nat → Option (Option (Nat × Nat))
  | 0 => some none
  | count + 1 => do
      let cell ← cell? buffer word
      match setBits (m.read cell .quad) with
      | [] => firstFree? m buffer (word + 1) count
      | bit :: _ => return some (word, bit)

/-- The address of the slot is tested for zero after its bit has been cleared. -/
def allocateSlot? (s : Store) (buffer : UInt64) : Option (Answer UInt64) :=
  match s.layout buffer with
  | .error e => some (.error e s)
  | .ok l => do
      let (words, header, _) ← sizes? l
      match ← firstFree? s.memory buffer 0 words with
      | none => return .error .bufferFull s
      | some (word, bit) =>
          let cell ← cell? buffer word
          let mask ← mask? bit
          let bits := s.memory.read cell .quad
          let taken := { s with memory := s.memory.write cell .quad (bits &&& ~~~mask) }
          let first ← product? 64 word
          let index ← sum? first bit
          let skipped ← product? index l.slotSize
          let offset ← sum? header skipped
          let slot ← sum? buffer.toNat offset
          if slot = 0 then return .error .invalidSlot taken
          else return .ok (UInt64.ofNat slot) taken

/-- The remainder is taken only where the offset lies in the storage. -/
def freeSlot? (s : Store) (buffer slot : UInt64) : Option (Answer Unit) :=
  match s.layout buffer with
  | .error e => some (.error e s)
  | .ok l => do
      let (_, header, _) ← sizes? l
      let start ← sum? buffer.toNat header
      if slot.toNat < start then return .error .invalidSlot s
      else
        let offset := slot.toNat - start
        let storage ← product? l.count l.slotSize
        if storage ≤ offset then return .error .invalidSlot s
        else
          let rest ← remainder? offset l.slotSize
          if rest ≠ 0 then return .error .invalidSlot s
          else
            let index ← quotient? offset l.slotSize
            let cell ← cell? buffer (index / 64)
            let mask ← mask? (index % 64)
            let bits := s.memory.read cell .quad
            if bits &&& mask ≠ 0 then return .error .slotNotAllocated s
            else return .ok () { s with memory := s.memory.write cell .quad (bits ||| mask) }

/-- Add the number of set bits of one word. -/
def addFree? (m : Memory) (buffer : UInt64) (total word : Nat) : Option Nat := do
  let cell ← cell? buffer word
  sum? total (setBits (m.read cell .quad)).length

def freeSlots? (s : Store) (buffer : UInt64) : Option (Except BufferError Nat) :=
  match s.layout buffer with
  | .error e => some (.error e)
  | .ok l => do
      let (words, _, _) ← sizes? l
      let total ← (List.range words).foldlM (addFree? s.memory buffer) 0
      return .ok total

end Checked

/-! ## Buffers in the heap -/

/-- The fields of a header, whatever they are. -/
def headerFields (m : Memory) (buffer : UInt64) : BufferLayout where
  count := (m.read (buffer + 8) .long).toNat
  slotSize := (m.read (buffer + 12) .long).toNat

/-- A live buffer in the heap with an intact token. -/
structure Recognized (s : Store) (buffer : UInt64) : Prop where
  live : buffer ∈ s.heap.live
  token : s.memory.read buffer .quad = token s.heap buffer
  from_base : AddressSpace.heapBase ≤ buffer
  below_end : buffer < AddressSpace.heapEnd

/-- A buffer in the heap with 32-bit fields. -/
structure InRange (buffer : UInt64) (l : BufferLayout) : Prop where
  positive : 0 < buffer.toNat
  below_end : buffer.toNat < 0x401000000
  count : l.count < 0x100000000
  slotSize : l.slotSize < 0x100000000

namespace InRange

variable {buffer : UInt64} {l : BufferLayout} (hrange : InRange buffer l)

include hrange

theorem words_le : l.bitmapWords ≤ 0x3ffffff := by
  have hcount := hrange.count
  unfold BufferLayout.bitmapWords
  omega

/-- The header and the bitmap end inside the address space. -/
theorem header_lt : buffer.toNat + l.headerSize < UInt64.size := by
  have hend := hrange.below_end
  have hwords := hrange.words_le
  have hsize : UInt64.size = 0x10000000000000000 := rfl
  unfold BufferLayout.headerSize
  omega

/-- The product of the two fields is the square of a 32-bit number at most. -/
theorem storageSize_le : l.storageSize ≤ 0xffffffff * 0xffffffff := by
  have hcount := hrange.count
  have hslot := hrange.slotSize
  exact Nat.mul_le_mul (by omega) (by omega)

theorem storageSize_lt : l.storageSize < UInt64.size := by
  have hstorage := hrange.storageSize_le
  have hsize : UInt64.size = 0x10000000000000000 := rfl
  omega

/-- A slot with a bit in the bitmap begins inside the address space: the last word of the bitmap
leaves as much room above the product as a buffer in the heap needs below. -/
theorem slot_lt {i : Nat} (hi : i < 64 * l.bitmapWords) :
    buffer.toNat + l.headerSize + i * l.slotSize < UInt64.size := by
  have hend := hrange.below_end
  have hwords := hrange.words_le
  have hslot := hrange.slotSize
  have hproduct : i * l.slotSize ≤ 0xffffffbf * 0xffffffff :=
    Nat.mul_le_mul (by omega) (by omega)
  have hsize : UInt64.size = 0x10000000000000000 := rfl
  unfold BufferLayout.headerSize
  omega

/-- The word of a slot ends inside the address space. -/
theorem cell_le {i : Nat} (hi : i < l.count) :
    buffer.toNat + 16 + 8 * (i / 64) + 8 ≤ UInt64.size := by
  have hend := hrange.below_end
  have hcount := hrange.count
  have hsize : UInt64.size = 0x10000000000000000 := rfl
  omega

/-! ## No step leaves the range -/

theorem sizes? : Checked.sizes? l = some (l.bitmapWords, l.headerSize, l.totalSize) := by
  have hwords := hrange.words_le
  have hstorage := hrange.storageSize_le
  have hsize : UInt64.size = 0x10000000000000000 := rfl
  have hbitmap : l.bitmapWords * 8 < UInt64.size := by omega
  have hheader : 16 + l.bitmapWords * 8 < UInt64.size := by omega
  have hheader' : l.headerSize = 16 + l.bitmapWords * 8 := by
    rw [BufferLayout.headerSize, Nat.mul_comm]
  have hproduct : l.count * l.slotSize < UInt64.size := hrange.storageSize_lt
  have htotal : 16 + l.bitmapWords * 8 + l.count * l.slotSize < UInt64.size := by
    unfold BufferLayout.storageSize at hstorage
    omega
  have hquotient : Checked.quotient? l.count 64 = some l.bitmapWords :=
    Checked.quotient?_of_ne (by decide)
  simp only [Checked.sizes?, hquotient, Option.bind_eq_bind, Option.bind_some,
    Checked.product?_of_lt hbitmap, Checked.sum?_of_lt hheader, Checked.product?_of_lt hproduct,
    Checked.sum?_of_lt htotal, hheader', BufferLayout.totalSize, BufferLayout.storageSize]
  rfl

theorem cell? {word : Nat} (hword : word ≤ 0x3ffffff) :
    Checked.cell? buffer word = some (bitmapWord buffer word) := by
  have hend := hrange.below_end
  have hsize : UInt64.size = 0x10000000000000000 := rfl
  have hbitmap : buffer.toNat + 16 < UInt64.size := by omega
  have hoffset : 8 * word < UInt64.size := by omega
  have hcell : buffer.toNat + 16 + 8 * word < UInt64.size := by omega
  simp only [Checked.cell?, Checked.sum?_of_lt hbitmap, Checked.product?_of_lt hoffset,
    Checked.sum?_of_lt hcell, Option.bind_eq_bind, Option.bind_some]
  rw [← toNat_bitmapWord hcell, UInt64.ofNat_toNat]
  rfl

theorem firstFree? (m : Memory) (word count : Nat) (hwords : word + count ≤ l.bitmapWords) :
    Checked.firstFree? m buffer word count = some (Elements.firstFree? m buffer word count) := by
  induction count generalizing word with
  | zero => rfl
  | succ count ih =>
      have hle := hrange.words_le
      simp only [Checked.firstFree?, Elements.firstFree?, hrange.cell? (by omega : word ≤ _),
        Option.bind_eq_bind, Option.bind_some]
      cases setBits (m.read (bitmapWord buffer word) .quad) with
      | nil => exact ih (word + 1) (by omega)
      | cons bit rest => rfl

/-- A bitmap word adds 64 at most to the count of free slots. -/
theorem foldlM_addFree? (m : Memory) (words : List Nat) (hwords : ∀ word ∈ words, word ≤ 0x3ffffff)
    (total : Nat) (hfits : total + 64 * words.length < UInt64.size) :
    words.foldlM (Checked.addFree? m buffer) total =
      some (total + words.foldr
        (fun word total =>
          (setBits (m.read (bitmapWord buffer word) .quad)).length + total) 0) := by
  induction words generalizing total with
  | nil => rfl
  | cons word rest ih =>
      have hbits : (setBits (m.read (bitmapWord buffer word) .quad)).length ≤ 64 := by
        refine Nat.le_trans (List.length_filter_le _ _) ?_
        rw [List.length_range]
      rw [List.length_cons] at hfits
      rw [List.foldlM_cons, Checked.addFree?, hrange.cell? (hwords word List.mem_cons_self)]
      simp only [Option.bind_eq_bind, Option.bind_some]
      rw [Checked.sum?_of_lt (by omega), Option.bind_some]
      refine (ih (fun w hw => hwords w (List.mem_cons_of_mem _ hw)) _ (by omega)).trans ?_
      rw [List.foldr_cons, Nat.add_assoc]

/-! The operations on a buffer whose header has these fields. -/

variable {s : Store} (hlayout : s.layout buffer = .ok l)

include hlayout

theorem layout? : Checked.layout? s buffer = some (s.layout buffer) := by
  simp only [Checked.layout?, hlayout, hrange.sizes?, Option.bind_eq_bind, Option.bind_some]
  rfl

theorem allocateSlot? : Checked.allocateSlot? s buffer = some (s.allocateSlot buffer) := by
  have hsearch := hrange.firstFree? s.memory 0 l.bitmapWords (by omega)
  simp only [Checked.allocateSlot?, hlayout, hrange.sizes?, Option.bind_eq_bind, Option.bind_some,
    hsearch]
  cases hfirst : (List.range (64 * l.bitmapWords)).find? (freeBit s.memory buffer) with
  | none =>
      rw [firstFree?_eq_find?, Nat.mul_zero, ← List.range_eq_range', hfirst,
        allocateSlot_of_find?_none hlayout hfirst]
      rfl
  | some i =>
      have hi : i < 64 * l.bitmapWords := List.mem_range.mp (List.mem_of_find?_eq_some hfirst)
      have hfits := hrange.slot_lt hi
      have hwords := hrange.words_le
      have hpositive := hrange.positive
      have hindex : 64 * (i / 64) + i % 64 = i := Nat.div_add_mod i 64
      have hsize : UInt64.size = 0x10000000000000000 := rfl
      have hskipped : i * l.slotSize < UInt64.size := by omega
      have hoffset : l.headerSize + i * l.slotSize < UInt64.size := by omega
      have hslot : buffer.toNat + (l.headerSize + i * l.slotSize) < UInt64.size := by omega
      have haddress : UInt64.ofNat (buffer.toNat + (l.headerSize + i * l.slotSize)) =
          slotAddress buffer l i := by
        rw [← Nat.add_assoc, ← toNat_slotAddress_of_lt hfits, UInt64.ofNat_toNat]
      rw [firstFree?_eq_find?, Nat.mul_zero, ← List.range_eq_range', hfirst,
        allocateSlot_of_find? hlayout hfirst]
      simp only [Option.map_some, hrange.cell? (by omega : i / 64 ≤ _),
        Checked.mask?_of_lt (Nat.mod_lt i (by decide : 0 < 64)),
        Checked.product?_of_lt (by omega : 64 * (i / 64) < UInt64.size), Option.bind_some,
        Checked.sum?_of_lt (by omega : 64 * (i / 64) + i % 64 < UInt64.size), hindex,
        Checked.product?_of_lt hskipped, Checked.sum?_of_lt hoffset, Checked.sum?_of_lt hslot,
        haddress]
      rw [if_neg (by omega), if_neg (slotAddress_ne_zero hfits)]
      rfl

theorem freeSlot? (slot : UInt64) :
    Checked.freeSlot? s buffer slot = some (s.freeSlot buffer slot) := by
  have hheader := hrange.header_lt
  have hproduct : l.count * l.slotSize < UInt64.size := hrange.storageSize_lt
  have hstart : (buffer + UInt64.ofNat l.headerSize).toNat = buffer.toNat + l.headerSize :=
    Memory.toNat_add_ofNat hheader
  simp only [Checked.freeSlot?, Store.freeSlot, hlayout, hrange.sizes?, Option.bind_eq_bind,
    Option.bind_some, Checked.sum?_of_lt hheader, Checked.product?_of_lt hproduct]
  by_cases hbelow : slot.toNat < buffer.toNat + l.headerSize
  · have hlt : slot < buffer + UInt64.ofNat l.headerSize := by
      rw [UInt64.lt_iff_toNat_lt, hstart]
      exact hbelow
    rw [if_pos hbelow, if_pos (Or.inl hlt)]
    rfl
  · have hle : buffer + UInt64.ofNat l.headerSize ≤ slot := by
      rw [UInt64.le_iff_toNat_le, hstart]
      omega
    have hoffset : (slot - (buffer + UInt64.ofNat l.headerSize)).toNat =
        slot.toNat - (buffer.toNat + l.headerSize) := by
      rw [UInt64.toNat_sub_of_le _ _ hle, hstart]
    rw [if_neg hbelow, hoffset]
    generalize slot.toNat - (buffer.toNat + l.headerSize) = offset
    by_cases hpast : l.count * l.slotSize ≤ offset
    · have hpast' : l.storageSize ≤ offset := hpast
      rw [if_pos hpast, if_pos (Or.inr (Or.inl hpast'))]
      rfl
    · -- The offset lies in the storage, so the storage is not empty and neither is a slot.
      have hpos : l.slotSize ≠ 0 := by
        intro hzero
        rw [hzero] at hpast
        omega
      have hcount := hrange.count
      have hindex : offset / l.slotSize < l.count := Nat.div_lt_of_lt_mul (by
        rw [Nat.mul_comm]
        omega)
      rw [if_neg hpast]
      simp only [Checked.remainder?_of_ne hpos, Option.bind_some, Checked.quotient?_of_ne hpos,
        hrange.cell? (by omega : offset / l.slotSize / 64 ≤ _),
        Checked.mask?_of_lt (Nat.mod_lt (offset / l.slotSize) (by decide : 0 < 64))]
      by_cases hrest : offset % l.slotSize ≠ 0
      · rw [if_pos hrest, if_pos (Or.inr (Or.inr hrest))]
        rfl
      · have hpasses : ¬(slot < buffer + UInt64.ofNat l.headerSize ∨
            l.storageSize ≤ offset ∨ offset % l.slotSize ≠ 0) :=
          not_or.mpr ⟨UInt64.not_lt.mpr hle, not_or.mpr ⟨hpast, hrest⟩⟩
        rw [if_neg hrest, if_neg hpasses]
        split <;> rfl

theorem freeSlots? : Checked.freeSlots? s buffer = some (s.freeSlots buffer) := by
  have hwords := hrange.words_le
  have hsize : UInt64.size = 0x10000000000000000 := rfl
  have htotal := hrange.foldlM_addFree? s.memory (List.range l.bitmapWords)
    (fun word hword => by have hlt := List.mem_range.mp hword; omega) 0
    (by rw [List.length_range]; omega)
  simp only [Checked.freeSlots?, Store.freeSlots, hlayout, hrange.sizes?, Option.bind_eq_bind,
    Option.bind_some]
  rw [htotal, Nat.zero_add]
  rfl

end InRange

/-! ## One bit of the bitmap -/

/-- The address of the byte with the bit of a slot. -/
def bitByte (buffer : UInt64) (i : Nat) : UInt64 := buffer + 16 + UInt64.ofNat (i / 8)

theorem bitmapWord_add (buffer : UInt64) (i : Nat) :
    bitmapWord buffer (i / 64) + UInt64.ofNat (i % 64 / 8) = bitByte buffer i := by
  have hplace : i / 8 = 8 * (i / 64) + i % 64 / 8 := by omega
  rw [bitByte, bitmapWord, hplace, UInt64.ofNat_add, UInt64.add_assoc]

/-- The bit of a slot is cleared, and no other bit of memory is changed. -/
theorem flips_clear {m : Memory} {buffer : UInt64} {i : Nat}
    (hset : freeBit m buffer i = true) :
    m.Flips
      (m.write (bitmapWord buffer (i / 64)) .quad
        (m.read (bitmapWord buffer (i / 64)) .quad &&& ~~~(bitMask (i % 64))))
      (bitByte buffer i) (i % 8) false := by
  have hlt : i % 64 < 64 := Nat.mod_lt i (by decide)
  have hplace : i % 64 % 8 = i % 8 := by omega
  rw [← bitmapWord_add, ← hplace]
  refine Memory.flips_write hlt hset ?_ ?_
  · rw [testBit_clear _ hlt hlt]
    simp
  · intro j hj hne
    rw [testBit_clear _ hlt hj]
    simp [Ne.symm hne]

/-- The bit of a slot is set, and no other bit of memory is changed. -/
theorem flips_set {m : Memory} {buffer : UInt64} {i : Nat}
    (hclear : freeBit m buffer i = false) :
    m.Flips
      (m.write (bitmapWord buffer (i / 64)) .quad
        (m.read (bitmapWord buffer (i / 64)) .quad ||| bitMask (i % 64)))
      (bitByte buffer i) (i % 8) true := by
  have hlt : i % 64 < 64 := Nat.mod_lt i (by decide)
  have hplace : i % 64 % 8 = i % 8 := by omega
  rw [← bitmapWord_add, ← hplace]
  refine Memory.flips_write hlt hclear ?_ ?_
  · rw [testBit_set _ hlt]
    simp
  · intro j _ hne
    rw [testBit_set _ hlt]
    simp [Ne.symm hne]

theorem InRange.toNat_bitByte {buffer : UInt64} {l : BufferLayout} (hrange : InRange buffer l)
    {i : Nat} (hi : i < 64 * l.bitmapWords) :
    (bitByte buffer i).toNat = buffer.toNat + 16 + i / 8 ∧
      (bitByte buffer i).toNat < buffer.toNat + l.headerSize := by
  have hheader := hrange.header_lt
  have hsize : l.headerSize = 16 + 8 * l.bitmapWords := rfl
  have hbitmap : (buffer + 16).toNat = buffer.toNat + 16 :=
    Memory.toNat_add_ofNat (n := 16) (by omega)
  have hbyte : (bitByte buffer i).toNat = buffer.toNat + 16 + i / 8 := by
    rw [bitByte, Memory.toNat_add_ofNat (by omega), hbitmap]
  omega

/-! ## What holds behind an intact token -/

/-- The lowest set bit of the bitmap has been cleared and nothing else has changed, and the address
of its slot is the answer. -/
structure TakesLowest (s : Store) (buffer : UInt64) (l : BufferLayout) (slot : UInt64) (t : Store) :
    Prop where
  heap : t.heap = s.heap
  bit : ∃ i, i < 64 * l.bitmapWords ∧ freeBit s.memory buffer i = true ∧
    (∀ j, j < i → freeBit s.memory buffer j = false) ∧ slot = slotAddress buffer l i ∧
    (bitByte buffer i).toNat = buffer.toNat + 16 + i / 8 ∧
    (bitByte buffer i).toNat < buffer.toNat + l.headerSize ∧
    s.memory.Flips t.memory (bitByte buffer i) (i % 8) false

/-- What holds of the slots of a buffer, whatever its header and its bitmap are. -/
structure SlotsAreSafe (s : Store) (buffer : UInt64) (l : BufferLayout) : Prop where
  layout : s.layout buffer = .ok l
  /-- No operation overflows or divides by zero. -/
  exact_layout : Checked.layout? s buffer = some (s.layout buffer)
  exact_take : Checked.allocateSlot? s buffer = some (s.allocateSlot buffer)
  exact_give : ∀ slot, Checked.freeSlot? s buffer slot = some (s.freeSlot buffer slot)
  exact_count : Checked.freeSlots? s buffer = some (s.freeSlots buffer)
  /-- A slot is taken unless no bit is set. -/
  full : (∃ slot t, s.allocateSlot buffer = .ok slot t) ∨
    s.allocateSlot buffer = .error .bufferFull s ∧
      ∀ i, i < 64 * l.bitmapWords → freeBit s.memory buffer i = false
  take : ∀ slot t, s.allocateSlot buffer = .ok slot t → TakesLowest s buffer l slot t
  /-- A slot that is taken can be given back, and memory is then as it was. -/
  undo : l.slotSize ≠ 0 → ∀ slot t, s.allocateSlot buffer = .ok slot t →
    ∃ u, t.freeSlot buffer slot = .ok () u ∧ u.heap = s.heap ∧
      ∀ a, u.memory.byte a = s.memory.byte a
  /-- Empty slots cannot be given back. -/
  empty : l.slotSize = 0 → ∀ slot, s.freeSlot buffer slot = .error .invalidSlot s
  give : 64 ∣ l.count → ∀ slot t, s.freeSlot buffer slot = .ok () t →
    t.heap = s.heap ∧ ∃ i, i < l.count ∧ slot = slotAddress buffer l i ∧
      (bitByte buffer i).toNat = buffer.toNat + 16 + i / 8 ∧
      (bitByte buffer i).toNat < buffer.toNat + l.headerSize ∧
      s.memory.Flips t.memory (bitByte buffer i) (i % 8) true

namespace Recognized

variable {s : Store} {buffer : UInt64} (hrecognized : Recognized s buffer)

include hrecognized

theorem layout : s.layout buffer = .ok (headerFields s.memory buffer) := by
  have hlive : s.heap.live.contains buffer = true := List.contains_iff_mem.mpr hrecognized.live
  unfold Store.layout
  rw [hlive, hrecognized.token, Bool.true_and, if_pos (beq_self_eq_true _)]
  rfl

theorem inRange : InRange buffer (headerFields s.memory buffer) where
  positive := by
    have hbase := UInt64.le_iff_toNat_le.mp hrecognized.from_base
    have hvalue : AddressSpace.heapBase.toNat = 0x400000000 := rfl
    omega
  below_end := UInt64.lt_iff_toNat_lt.mp hrecognized.below_end
  count := s.memory.toNat_read_lt (buffer + 8) .long
  slotSize := s.memory.toNat_read_lt (buffer + 12) .long

end Recognized

/-- The heap hands out no address below its base, and all live buffers lie in it. -/
structure InHeap (s : Store) : Prop where
  next : AddressSpace.heapBase.toNat ≤ s.heap.next
  live : ∀ buffer ∈ s.heap.live, AddressSpace.heapBase ≤ buffer ∧ buffer < AddressSpace.heapEnd

namespace InHeap

variable {s : Store} {buffer : UInt64} {l : BufferLayout} (hs : InHeap s)

include hs

theorem of_heap {t : Store} (hheap : t.heap = s.heap) : InHeap t := by
  constructor
  · rw [hheap]
    exact hs.next
  · rw [hheap]
    exact hs.live

/-- A buffer that is believed is a live one in the heap. -/
theorem recognized (hlayout : s.layout buffer = .ok l) : Recognized s buffer := by
  unfold Store.layout at hlayout
  split at hlayout
  · rename_i hvalid
    rw [Bool.and_eq_true, List.contains_iff_mem, beq_iff_eq] at hvalid
    obtain ⟨hbase, hend⟩ := hs.live buffer hvalid.1
    exact ⟨hvalid.1, hvalid.2, hbase, hend⟩
  · cases hlayout

/-- No buffer in the heap has a slot at the address zero, whatever its header is. -/
theorem not_takesNull {t : Store} : ¬TakesNull s buffer t := by
  rintro ⟨l, i, hlayout, hfirst, hnull, -⟩
  have hrecognized := hs.recognized hlayout
  rw [hrecognized.layout] at hlayout
  cases hlayout
  have hi := List.mem_range.mp (List.mem_of_find?_eq_some hfirst)
  exact slotAddress_ne_zero (hrecognized.inRange.slot_lt hi) hnull

end InHeap

/-! ## Taking and giving back, for any layout in range -/

section

variable {s t : Store} {buffer slot : UInt64} {l : BufferLayout}

/-- What a successful call has found and done. -/
theorem exists_of_allocateSlot (hlayout : s.layout buffer = .ok l)
    (htake : s.allocateSlot buffer = .ok slot t) :
    ∃ i, i < 64 * l.bitmapWords ∧ freeBit s.memory buffer i = true ∧
      (∀ j, j < i → freeBit s.memory buffer j = false) ∧ slot = slotAddress buffer l i ∧
      t = taken s buffer i := by
  cases hfirst : (List.range (64 * l.bitmapWords)).find? (freeBit s.memory buffer) with
  | none =>
      rw [allocateSlot_of_find?_none hlayout hfirst] at htake
      cases htake
  | some i =>
      obtain ⟨hset, hmem, hbelow⟩ := List.find?_range_eq_some.mp hfirst
      rw [allocateSlot_of_find? hlayout hfirst] at htake
      split at htake
      · cases htake
      · cases htake
        exact ⟨i, List.mem_range.mp hmem, hset, fun j hj => by simpa using hbelow j hj, rfl, rfl⟩

theorem InRange.takesLowest (hrange : InRange buffer l) (hlayout : s.layout buffer = .ok l)
    (htake : s.allocateSlot buffer = .ok slot t) : TakesLowest s buffer l slot t := by
  obtain ⟨i, hi, hset, hlowest, hslot, rfl⟩ := exists_of_allocateSlot hlayout htake
  obtain ⟨hplace, hinside⟩ := hrange.toNat_bitByte hi
  exact ⟨rfl, i, hi, hset, hlowest, hslot, hplace, hinside, flips_clear hset⟩

/-- The address that a slot was taken at leads back to its bit, which is the only one that has
changed. -/
theorem InRange.freeSlot_of_taken (hrange : InRange buffer l) (hlayout : s.layout buffer = .ok l)
    (hpos : l.slotSize ≠ 0) (htake : s.allocateSlot buffer = .ok slot t) :
    ∃ u, t.freeSlot buffer slot = .ok () u ∧ u.heap = s.heap ∧
      ∀ a, u.memory.byte a = s.memory.byte a := by
  obtain ⟨i, hi, hset, -, rfl, ht⟩ := exists_of_allocateSlot hlayout htake
  have hcount : i < l.count := by
    unfold BufferLayout.bitmapWords at hi
    omega
  have hlayout' : t.layout buffer = .ok l := by
    rw [ht, taken, layout_write _ (hrange.cell_le hcount), hlayout]
  have hclear : freeBit t.memory buffer i = false := by
    have hlt : i % 64 < 64 := Nat.mod_lt i (by decide)
    rw [ht, taken, freeBit, Memory.read_write_quad, testBit_clear _ hlt hlt]
    simp
  have hthere : s.memory.Flips t.memory (bitByte buffer i) (i % 8) false := by
    rw [ht]
    exact flips_clear hset
  have hgive := freeSlot_of_lt hlayout' hcount (Nat.pos_of_ne_zero hpos) (hrange.slot_lt hi)
  rw [hclear, if_neg (by decide)] at hgive
  have hheap : t.heap = s.heap := by rw [ht, taken]
  exact ⟨_, hgive, hheap, hthere.undo (flips_set hclear)⟩

theorem freeSlot_of_empty (hlayout : s.layout buffer = .ok l) (hempty : l.slotSize = 0) :
    s.freeSlot buffer slot = .error .invalidSlot s := by
  have hstorage : l.storageSize = 0 := by rw [BufferLayout.storageSize, hempty, Nat.mul_zero]
  simp only [Store.freeSlot, hlayout, hstorage]
  rw [if_pos (Or.inr (Or.inl (Nat.zero_le _)))]

/-- An address that is given back is that of a slot, and the bit of the slot is set. -/
theorem InRange.exists_of_freeSlot (hrange : InRange buffer l) (hlayout : s.layout buffer = .ok l)
    (hgive : s.freeSlot buffer slot = .ok () t) :
    ∃ i, i < l.count ∧ slot = slotAddress buffer l i ∧ t.heap = s.heap ∧
      s.memory.Flips t.memory (bitByte buffer i) (i % 8) true := by
  have hpos : l.slotSize ≠ 0 := by
    intro hempty
    rw [freeSlot_of_empty hlayout hempty] at hgive
    cases hgive
  have haccepted : s.freeSlot buffer slot ≠ .error .invalidSlot s := by
    rw [hgive]
    nofun
  obtain ⟨i, hi, rfl, hfits⟩ := exists_slot_of_freeSlot hlayout hrange.header_lt haccepted
  rw [freeSlot_of_lt hlayout hi (Nat.pos_of_ne_zero hpos) hfits] at hgive
  cases hfree : freeBit s.memory buffer i with
  | true =>
      rw [hfree, if_pos rfl] at hgive
      cases hgive
  | false =>
      rw [hfree, if_neg (by decide)] at hgive
      cases hgive
      exact ⟨i, hi, rfl, rfl, flips_set hfree⟩

end

/-- Behind an intact token the slots are safe: no 32-bit fields in the header and no bits in the
bitmap lead to a wrong address or to a write outside of the bitmap. -/
theorem damaged_headers_are_safe {s : Store} {buffer : UInt64}
    (hrecognized : Recognized s buffer) :
    SlotsAreSafe s buffer (headerFields s.memory buffer) := by
  have hlayout := hrecognized.layout
  have hrange := hrecognized.inRange
  generalize headerFields s.memory buffer = l at hlayout hrange
  constructor
  case layout => exact hlayout
  case exact_layout => exact hrange.layout? hlayout
  case exact_take => exact hrange.allocateSlot? hlayout
  case exact_give => exact hrange.freeSlot? hlayout
  case exact_count => exact hrange.freeSlots? hlayout
  case full =>
    cases hfirst : (List.range (64 * l.bitmapWords)).find? (freeBit s.memory buffer) with
    | none =>
        refine Or.inr ⟨allocateSlot_of_find?_none hlayout hfirst, fun i hi => ?_⟩
        simpa using List.find?_eq_none.mp hfirst i (List.mem_range.mpr hi)
    | some i =>
        have hi : i < 64 * l.bitmapWords := List.mem_range.mp (List.mem_of_find?_eq_some hfirst)
        have htake := allocateSlot_of_find? hlayout hfirst
        rw [if_neg (slotAddress_ne_zero (hrange.slot_lt hi))] at htake
        exact Or.inl ⟨_, _, htake⟩
  case take => exact fun slot t htake => hrange.takesLowest hlayout htake
  case undo => exact fun hpos slot t htake => hrange.freeSlot_of_taken hlayout hpos htake
  case empty => exact fun hempty slot => freeSlot_of_empty hlayout hempty
  case give =>
    intro hwhole slot t hgive
    obtain ⟨i, hi, hslot, hheap, hflips⟩ := hrange.exists_of_freeSlot hlayout hgive
    have hword : i < 64 * l.bitmapWords := by
      rw [BufferLayout.bitmapWords, Nat.mul_div_cancel' hwhole]
      exact hi
    obtain ⟨hplace, hinside⟩ := hrange.toNat_bitByte hword
    exact ⟨hheap, i, hi, hslot, hplace, hinside, hflips⟩

/-- A buffer whose fields are the greatest numbers, and in whose bitmap only the last bit is set. -/
def overgrown : Store :=
  let heap : Heap := { live := [AddressSpace.heapBase] }
  let memory := Memory.zero.write AddressSpace.heapBase .quad (token heap AddressSpace.heapBase)
  let memory := memory.write (AddressSpace.heapBase + 8) .long 0xffffffff
  let memory := memory.write (AddressSpace.heapBase + 12) .long 0xffffffff
  let last := bitmapWord AddressSpace.heapBase 0x3fffffe
  { memory := memory.write last .quad 0x8000000000000000, heap }

/-- The last slot of such a buffer is taken and given back. -/
theorem overgrown_is_safe :
    Recognized overgrown AddressSpace.heapBase ∧
      headerFields overgrown.memory AddressSpace.heapBase =
        { count := 0xffffffff, slotSize := 0xffffffff } ∧
      SlotsAreSafe overgrown AddressSpace.heapBase
        (headerFields overgrown.memory AddressSpace.heapBase) ∧
      ∃ slot t u, overgrown.allocateSlot AddressSpace.heapBase = .ok slot t ∧
        t.freeSlot AddressSpace.heapBase slot = .ok () u := by
  have hrecognized : Recognized overgrown AddressSpace.heapBase :=
    ⟨by decide, by decide +kernel, by decide, by decide⟩
  have hfields : headerFields overgrown.memory AddressSpace.heapBase =
      { count := 0xffffffff, slotSize := 0xffffffff } := by decide +kernel
  have hlast : freeBit overgrown.memory AddressSpace.heapBase 0xffffffbf = true := by
    decide +kernel
  have hsafe := damaged_headers_are_safe hrecognized
  rcases hsafe.full with ⟨slot, t, htake⟩ | ⟨-, hclear⟩
  · have hpos : (headerFields overgrown.memory AddressSpace.heapBase).slotSize ≠ 0 := by
      rw [hfields]
      decide
    obtain ⟨u, hgive, -⟩ := hsafe.undo hpos slot t htake
    exact ⟨hrecognized, hfields, hsafe, slot, t, u, htake, hgive⟩
  · have hinside : 0xffffffbf <
        64 * (headerFields overgrown.memory AddressSpace.heapBase).bitmapWords := by
      rw [hfields]
      decide
    rw [hclear _ hinside] at hlast
    cases hlast

end Elements

end BytecodeMachine
