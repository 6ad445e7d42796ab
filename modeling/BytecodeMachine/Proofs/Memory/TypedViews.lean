import BytecodeMachine.Proofs.Integer.Stored
import BytecodeMachine.Proofs.Memory.Bits

/-!
# Typed views

Registers and memory are read and written through integer types of 8 to 64 bits, with and without
a sign.  Each such view is a window of bytes, the low bytes of a register or the bytes from an
address on, and the value is written there least significant byte first.

* `Place` is a single byte of the registers or of memory, `Location.window` the bytes of a view;
* `Scalar` is an integer type, `Scalar.toBytes` and `Scalar.ofBytes` are its little-endian form;
* `Core.writeAs` and `Core.readAs` are the views;
* `Core.Replaces` says that exactly one window of bytes changes, and `Core.replaces_write` that a
  write does this;
* `Core.typed_views_are_byte_windows` adds that a typed read gives the value of the bytes that are
  there, wherever the two windows overlap.
-/

namespace BytecodeMachine

/-! ## Bytes of numbers -/

namespace LittleEndian

/-- The bytes of a number, each taken from its place. -/
theorem encode_eq_map (n value : Nat) :
    encode n value = (List.range n).map fun i => UInt8.ofNat (value >>> (8 * i)) := by
  induction n generalizing value with
  | zero => rfl
  | succ n ih =>
      rw [encode, ih, List.range_succ_eq_map, List.map_cons, List.map_map]
      congr 1
      refine List.map_congr_left fun i _ => ?_
      have hnext : 8 * (i + 1) = 8 + 8 * i := by omega
      show UInt8.ofNat ((value / 256) >>> (8 * i)) = UInt8.ofNat (value >>> (8 * (i + 1)))
      rw [hnext, Nat.shiftRight_add, Nat.shiftRight_eq_div_pow value 8]

theorem getElem?_encode {n i : Nat} (value : Nat) (hi : i < n) :
    (encode n value)[i]? = some (UInt8.ofNat (value >>> (8 * i))) := by
  rw [encode_eq_map, List.getElem?_map, List.getElem?_range hi]
  rfl

end LittleEndian

namespace Word

theorem toNat_ofInt_emod (x : Int) : (UInt64.ofInt x).toNat = (x % UInt64.size).toNat := by
  show (UInt64.ofInt x).toBitVec.toNat = _
  rw [toBitVec_ofInt, BitVec.toNat_ofInt]

theorem toNat_byte_ofInt (x : Int) : (UInt8.ofInt x).toNat = (x % UInt8.size).toNat := by
  show (UInt8.ofNat (x % 2 ^ 8).toNat).toNat = _
  rw [UInt8.toNat_ofNat']
  simp only [UInt8.size]
  omega

/-- The bytes of a number are those of its word. -/
theorem byte_ofInt_shiftRight (x : Int) {i : Nat} (hi : i < 8) :
    UInt8.ofInt (x >>> (8 * i : Nat)) = UInt8.ofNat ((UInt64.ofInt x).toNat >>> (8 * i)) := by
  apply UInt8.toNat_inj.mp
  rw [toNat_byte_ofInt, toNat_ofInt_emod, UInt8.toNat_ofNat', Int.shiftRight_eq_div_pow,
    Nat.shiftRight_eq_div_pow]
  simp only [UInt8.size, UInt64.size]
  -- With the shift a numeral, both sides are remainders of quotients by numerals.
  obtain rfl | rfl | rfl | rfl | rfl | rfl | rfl | rfl :
      i = 0 ∨ i = 1 ∨ i = 2 ∨ i = 3 ∨ i = 4 ∨ i = 5 ∨ i = 6 ∨ i = 7 := by omega
  all_goals omega

end Word

namespace Width

theorem bytes_le (w : Width) : w.bytes ≤ 8 := by cases w <;> decide

theorem modulus_eq_pow (w : Width) : w.modulus = Nat.pow 2 w.bits := by cases w <;> rfl

theorem getLsbD_mask (w : Width) (i : Nat) : w.mask.toBitVec.getLsbD i = decide (i < w.bits) := by
  have hmask : w.mask = w.extend (BitVec.allOnes w.bits) := by cases w <;> rfl
  rw [hmask, getLsbD_extend, BitVec.getLsbD_allOnes]

/-- A word whose low bytes are replaced has the new bits there and the old ones above. -/
theorem testBit_splice (w : Width) (x v : UInt64) (i : Nat) :
    (w.splice x v).toNat.testBit i =
      if i < w.bits then v.toNat.testBit i else x.toNat.testBit i := by
  show ((x.toBitVec &&& ~~~w.mask.toBitVec) ||| (v.toBitVec &&& w.mask.toBitVec)).toNat.testBit i =
    if i < w.bits then v.toBitVec.toNat.testBit i else x.toBitVec.toNat.testBit i
  rw [BitVec.testBit_toNat, BitVec.testBit_toNat, BitVec.testBit_toNat, BitVec.getLsbD_or,
    BitVec.getLsbD_and, BitVec.getLsbD_and, BitVec.getLsbD_not, getLsbD_mask]
  by_cases hi : i < w.bits
  · simp [hi]
  · by_cases hword : i < 64
    · simp [hi, hword]
    · simp [hi, hword, BitVec.getLsbD_of_ge x.toBitVec i (by omega)]

/-- Replacing the low bytes of a word replaces its remainder. -/
theorem toNat_splice (w : Width) (x v : UInt64) :
    (w.splice x v).toNat = x.toNat / w.modulus * w.modulus + v.toNat % w.modulus := by
  have hlow : v.toNat % Nat.pow 2 w.bits < Nat.pow 2 w.bits := Nat.mod_lt _ (Nat.two_pow_pos _)
  refine Nat.eq_of_testBit_eq fun i => ?_
  rw [modulus_eq_pow, Nat.mul_comm, testBit_splice]
  refine Eq.trans ?_ (Nat.testBit_two_pow_mul_add _ hlow i).symm
  by_cases hi : i < w.bits
  · rw [if_pos hi, if_pos hi]
    refine Eq.trans ?_ (Nat.testBit_mod_two_pow _ _ _).symm
    rw [decide_eq_true hi, Bool.true_and]
  · have hplace : i - w.bits + w.bits = i := by omega
    rw [if_neg hi, if_neg hi]
    refine Eq.trans ?_ (Nat.testBit_div_two_pow _ _).symm
    rw [hplace]

/-- The bytes above the replaced ones stay. -/
theorem splice_shiftRight (w : Width) (x v : UInt64) {i : Nat} (hi : w.bytes ≤ i) :
    (w.splice x v).toNat >>> (8 * i) = x.toNat >>> (8 * i) := by
  refine Nat.eq_of_testBit_eq fun j => ?_
  rw [Nat.testBit_shiftRight, Nat.testBit_shiftRight, testBit_splice,
    if_neg (by unfold bits; omega)]

/-- The low bytes of a word that was made from a number are the number's remainder. -/
theorem toNat_ofInt_mod (w : Width) (x : Int) :
    (((UInt64.ofInt x).toNat % w.modulus : Nat) : Int) = x % w.modulus := by
  rw [Word.toNat_ofInt_emod]
  cases w <;> simp only [modulus, UInt64.size] <;> omega

end Width

/-! ## Windows -/

/-- A single byte: one of the eight of a register, least significant first, or one of memory. -/
inductive Place where
  | cell (bank : Bank) (r : RegisterIndex) (i : Fin 8)
  | memory (address : UInt64)
  deriving DecidableEq, Repr

namespace Location

/-- The byte of a location with the given number. -/
def place (l : Location) (i : Fin 8) : Place :=
  match l with
  | register bank r => .cell bank r i
  | memory address => .memory (address + UInt64.ofNat i.val)

/-- The bytes of a location that a value of the given width takes. -/
def window (l : Location) (w : Width) : List Place :=
  ((List.finRange 8).take w.bytes).map l.place

variable {l : Location} {w : Width}

theorem distance_place (address : UInt64) (i : Fin 8) :
    (address + UInt64.ofNat i.val - address).toNat = i.val := by
  have hi := i.isLt
  rw [UInt64.add_comm, UInt64.add_sub_cancel, UInt64.toNat_ofNat']
  omega

theorem place_injective (l : Location) : Function.Injective l.place := by
  intro i j hplace
  cases l with
  | register bank r => exact (Place.cell.inj hplace).2.2
  | memory address =>
      apply Fin.ext
      rw [← distance_place address i, ← distance_place address j, Place.memory.inj hplace]

theorem nodup_window (l : Location) (w : Width) : (l.window w).Nodup :=
  List.Pairwise.map l.place (fun _ _ hne hplace => hne (l.place_injective hplace))
    ((List.nodup_finRange 8).sublist (List.take_sublist _ _))

theorem length_window (l : Location) (w : Width) : (l.window w).length = w.bytes := by
  rw [window, List.length_map, List.length_take, List.length_finRange]
  exact Nat.min_eq_left w.bytes_le

theorem getElem?_window {i : Fin 8} (hi : i.val < w.bytes) :
    (l.window w)[i.val]? = some (l.place i) := by
  rw [window, List.getElem?_map, List.getElem?_take_of_lt hi]
  simp

theorem place_mem_window {i : Fin 8} (hi : i.val < w.bytes) : l.place i ∈ l.window w :=
  List.mem_of_getElem? (getElem?_window hi)

/-- The bytes of a window are found one by one. -/
theorem map_window_eq {f : Place → UInt8} {bytes : List UInt8} (hlength : bytes.length = w.bytes)
    (hbytes : ∀ i : Fin 8, i.val < w.bytes → bytes[i.val]? = some (f (l.place i))) :
    (l.window w).map f = bytes := by
  refine List.ext_getElem? fun k => ?_
  by_cases hk : k < w.bytes
  · have hword : k < 8 := Nat.lt_of_lt_of_le hk w.bytes_le
    rw [List.getElem?_map, getElem?_window (i := ⟨k, hword⟩) hk]
    exact (hbytes ⟨k, hword⟩ hk).symm
  · rw [List.getElem?_eq_none (by rw [List.length_map, length_window]; omega),
      List.getElem?_eq_none (by omega)]

end Location

namespace Core

variable (c : Core) (l : Location) (w : Width)

/-- The byte at a place. -/
def byteAt : Place → UInt8
  | .cell bank r i => UInt8.ofNat ((c.registers.get bank r).toNat >>> (8 * i.val))
  | .memory address => c.memory.byte address

/-- From `c` to `c'` the bytes at the given places become the given ones, and nothing else
changes. -/
structure Replaces (c c' : Core) (places : List Place) (bytes : List UInt8) : Prop where
  distinct : places.Nodup
  replaced : places.map c'.byteAt = bytes
  others : ∀ p, p ∉ places → c'.byteAt p = c.byteAt p
  rest : c' = { c with registers := c'.registers, memory := c'.memory }

theorem map_byteAt_register (bank : Bank) (r : RegisterIndex) :
    ((Location.register bank r).window w).map c.byteAt =
      LittleEndian.encode w.bytes (c.registers.get bank r).toNat :=
  Location.map_window_eq (LittleEndian.length_encode _ _) fun _ hi =>
    LittleEndian.getElem?_encode _ hi

theorem map_byteAt_memory (address : UInt64) :
    ((Location.memory address).window w).map c.byteAt = c.memory.bytes address w.bytes :=
  Location.map_window_eq (Memory.length_bytes _ _ _) fun _ hi => Memory.getElem?_bytes _ _ hi

/-- A value that is read is the number of the bytes in its window. -/
theorem toNat_read : (c.read l w).toNat = LittleEndian.decode ((l.window w).map c.byteAt) := by
  cases l with
  | register bank r =>
      rw [map_byteAt_register, LittleEndian.decode_encode, w.capacity_bytes, ← w.toNat_truncate]
      rfl
  | memory address =>
      rw [map_byteAt_memory, ← Memory.toNat_read]
      rfl

theorem map_byteAt_write (x : UInt64) :
    (l.window w).map (c.write l w x).byteAt = LittleEndian.encode w.bytes x.toNat := by
  cases l with
  | register bank r =>
      have hcell : (c.write (.register bank r) w x).registers.get bank r =
          w.splice (c.registers.get bank r) x := by
        simp only [write, RegisterFile.write, RegisterFile.get_set, and_self, if_true]
      -- The window shows the word modulo its capacity, and there the old word contributes nothing.
      rw [map_byteAt_register, hcell, w.toNat_splice, ← LittleEndian.encode_mod_capacity,
        w.capacity_bytes, Nat.mul_add_mod_self_right, Nat.mod_mod, ← w.capacity_bytes,
        LittleEndian.encode_mod_capacity]
  | memory address =>
      have hwindow := c.memory.bytes_setBytes_same address (LittleEndian.encode w.bytes x.toNat)
        (by rw [LittleEndian.length_encode]; cases w <;> decide)
      rw [LittleEndian.length_encode] at hwindow
      rw [map_byteAt_memory]
      exact hwindow

theorem byteAt_write_of_not_mem (x : UInt64) {p : Place} (hp : p ∉ l.window w) :
    (c.write l w x).byteAt p = c.byteAt p := by
  cases l with
  | register bank r =>
      cases p with
      | memory address => rfl
      | cell bank' r' i =>
          simp only [byteAt, write, RegisterFile.write, RegisterFile.get_set]
          by_cases hcell : bank = bank' ∧ r = r'
          · -- A byte of the cell that is not in the window lies above the replaced ones.
            obtain ⟨rfl, rfl⟩ := hcell
            have hpast : w.bytes ≤ i.val :=
              Nat.le_of_not_lt fun hi => hp (Location.place_mem_window hi)
            rw [if_pos ⟨rfl, rfl⟩, w.splice_shiftRight _ _ hpast]
          · rw [if_neg hcell]
  | memory address =>
      cases p with
      | cell bank r i => rfl
      | memory address' =>
          -- A byte that is nearer than the width would be a place of the window.
          refine c.memory.byte_write_of_le x (Nat.le_of_not_lt fun hinside => hp ?_)
          have hword := Nat.lt_of_lt_of_le hinside w.bytes_le
          have hplace := Location.place_mem_window (l := .memory address)
            (i := ⟨(address' - address).toNat, hword⟩) hinside
          rwa [Location.place, UInt64.ofNat_toNat, UInt64.add_comm, UInt64.sub_add_cancel]
            at hplace

theorem replaces_write (x : UInt64) :
    c.Replaces (c.write l w x) (l.window w) (LittleEndian.encode w.bytes x.toNat) where
  distinct := l.nodup_window w
  replaced := c.map_byteAt_write l w x
  others _ hp := c.byteAt_write_of_not_mem l w x hp
  rest := by cases l <;> rfl

end Core

/-! ## Cells by number -/

namespace RegisterFile

/-- The cells of a bank. -/
def cells (f : RegisterFile) : Bank → Vector UInt64 16
  | .general => f.general
  | .float => f.float

theorem cells_set (f : RegisterFile) (bank : Bank) (n : Nat) (bits : UInt64) :
    (f.set bank (.ofNat n) bits).cells bank = (f.cells bank).set (n % 16) bits := by
  cases bank <;> rfl

theorem get_ofNat (f : RegisterFile) (bank : Bank) (n : Nat) :
    f.get bank (.ofNat n) = (f.cells bank)[n % 16] := by
  cases bank <;> rfl

end RegisterFile

/-! ## Integer types -/

/-- An integer type: its width, and whether its values have a sign. -/
structure Scalar where
  width : Width
  signed : Bool
  deriving DecidableEq, Repr

namespace Scalar

variable (t : Scalar)

/-- The least value of a type. -/
def least : Int := if t.signed then -(t.width.modulus / 2) else 0

/-- A value of a type, one of as many as its bytes can tell apart. -/
structure Value where
  val : Int
  least_le : t.least ≤ val
  lt_least_add : val < t.least + t.width.modulus

/-- The bytes of a number in two's complement, least significant first. -/
def toBytes (v : Int) : List UInt8 :=
  (List.range t.width.bytes).map fun i : Nat => UInt8.ofInt (v >>> (8 * i : Nat))

/-- The value that bytes stand for, least significant first. -/
def ofBytes (bytes : List UInt8) : Int :=
  if t.signed then Int.bmod (LittleEndian.decode bytes) t.width.modulus
  else LittleEndian.decode bytes

/-- The value of a word that was read at the width of the type. -/
def ofWord (x : UInt64) : Int :=
  if t.signed then (t.width.signExtend x).toInt else x.toNat

theorem toBytes_eq_encode (v : Int) :
    t.toBytes v = LittleEndian.encode t.width.bytes (UInt64.ofInt v).toNat := by
  rw [toBytes, LittleEndian.encode_eq_map]
  refine List.map_congr_left fun i hi => ?_
  exact Word.byte_ofInt_shiftRight v
    (Nat.lt_of_lt_of_le (List.mem_range.mp hi) t.width.bytes_le)

theorem length_toBytes (v : Int) : (t.toBytes v).length = t.width.bytes := by
  rw [toBytes, List.length_map, List.length_range]

/-- The value of a type is the one that its bytes stand for. -/
theorem ofBytes_toBytes (v : t.Value) : t.ofBytes (t.toBytes v.val) = v.val := by
  obtain ⟨v, hleast, hgreatest⟩ := v
  have hdecode : (LittleEndian.decode (t.toBytes v) : Int) = v % t.width.modulus := by
    rw [toBytes_eq_encode, LittleEndian.decode_encode, t.width.capacity_bytes,
      t.width.toNat_ofInt_mod]
  obtain ⟨w, signed⟩ := t
  cases signed with
  | true =>
      simp only [ofBytes, hdecode, if_true, Int.emod_bmod]
      simp only [least, if_true] at hleast hgreatest
      -- A modulus is even, so the values reach as far below zero as above.
      apply Int.bmod_eq_of_le hleast
      cases w <;> simp only [Width.modulus] at hgreatest ⊢ <;> omega
  | false =>
      simp only [ofBytes, hdecode, Bool.false_eq_true, if_false]
      simp only [least, Bool.false_eq_true, if_false, Int.zero_add] at hleast hgreatest
      exact Int.emod_eq_of_lt hleast hgreatest

end Scalar

/-! ## Typed reads and writes -/

namespace Core

/-- Write a value of a type at a location. -/
def writeAs (c : Core) (l : Location) (t : Scalar) (v : t.Value) : Core :=
  c.write l t.width (UInt64.ofInt v.val)

/-- The value of a type at a location. -/
def readAs (c : Core) (l : Location) (t : Scalar) : Int := t.ofWord (c.read l t.width)

/-- A typed read gives the value of the bytes in its window. -/
theorem readAs_eq (c : Core) (l : Location) (t : Scalar) :
    c.readAs l t = t.ofBytes ((l.window t.width).map c.byteAt) := by
  unfold readAs Scalar.ofWord Scalar.ofBytes
  rw [t.width.toInt_signExtend, Width.signed, c.toNat_read]

/-- A typed write puts the bytes of the value into its window. -/
theorem replaces_writeAs (c : Core) (l : Location) (t : Scalar) (v : t.Value) :
    c.Replaces (c.writeAs l t v) (l.window t.width) (t.toBytes v.val) := by
  rw [t.toBytes_eq_encode]
  exact c.replaces_write l t.width _

/-- A value that is written is read back. -/
theorem readAs_writeAs (c : Core) (l : Location) (t : Scalar) (v : t.Value) :
    (c.writeAs l t v).readAs l t = v.val := by
  rw [readAs_eq, (c.replaces_writeAs l t v).replaced, t.ofBytes_toBytes]

/-- Through two windows of memory a written byte is seen at its distance from the first. -/
theorem readAs_writeAs_memory (c : Core) (address address' : UInt64) (t u : Scalar)
    (v : t.Value) :
    (c.writeAs (.memory address) t v).readAs (.memory address') u =
      u.ofBytes ((List.range u.width.bytes).map fun i =>
        (t.toBytes v.val).getD (address' + UInt64.ofNat i - address).toNat
          (c.memory.byte (address' + UInt64.ofNat i))) := by
  have hlength : (t.toBytes v.val).length ≤ UInt64.size := by
    rw [t.length_toBytes]
    exact Nat.le_trans t.width.bytes_le (by decide)
  rw [readAs_eq]
  congr 1
  refine Location.map_window_eq (by rw [List.length_map, List.length_range]) fun i hi => ?_
  rw [List.getElem?_map, List.getElem?_range hi, Option.map_some,
    ← Memory.byte_setBytes _ _ _ _ hlength, t.toBytes_eq_encode]
  rfl

/-- Typed views are little-endian windows of bytes.  A typed write at any location replaces the
bytes of its window by those of the value and changes nothing else.  A typed read at any location
gives the value of the bytes that are then in its window; at the same location and type this is
the value that was written, and in memory a byte of the second window that lies at some distance
from the start of the first is the byte of the value with that number.  Under the number `n` a
register write reaches the cell `n % 16` and replaces the low bits of its word. -/
theorem typed_views_are_byte_windows (c : Core) (t : Scalar) (v : t.Value) :
    (∀ l, c.Replaces (c.writeAs l t v) (l.window t.width) (t.toBytes v.val)) ∧
    (∀ l l' u, (c.writeAs l t v).readAs l' u =
      u.ofBytes ((l'.window u.width).map (c.writeAs l t v).byteAt)) ∧
    (∀ l, (c.writeAs l t v).readAs l t = v.val) ∧
    (∀ address address' u, (c.writeAs (.memory address) t v).readAs (.memory address') u =
      u.ofBytes ((List.range u.width.bytes).map fun i =>
        (t.toBytes v.val).getD (address' + UInt64.ofNat i - address).toNat
          (c.memory.byte (address' + UInt64.ofNat i)))) ∧
    ∀ bank n, ∃ bits : UInt64,
      (c.writeAs (.register bank (.ofNat n)) t v).registers.cells bank =
        (c.registers.cells bank).set (n % 16) bits ∧
      (bits.toNat : Int) =
        ((c.registers.cells bank)[n % 16].toNat / t.width.modulus * t.width.modulus : Nat) +
          v.val % t.width.modulus := by
  refine ⟨fun l => c.replaces_writeAs l t v, fun l l' u => readAs_eq _ l' u,
    fun l => c.readAs_writeAs l t v,
    fun address address' u => c.readAs_writeAs_memory address address' t u v, fun bank n => ?_⟩
  refine ⟨t.width.splice (c.registers.get bank (.ofNat n)) (UInt64.ofInt v.val),
    RegisterFile.cells_set _ _ _ _, ?_⟩
  rw [t.width.toNat_splice, Int.natCast_add, t.width.toNat_ofInt_mod, RegisterFile.get_ofNat]

/-- Two bytes at an odd address, seen through four bytes that start two places before. -/
theorem overlapping_views_share_bytes :
    (writeAs { code := default, stack := default } (.memory 0x1003) ⟨.word, true⟩
      ⟨-2, by decide, by decide⟩).readAs (.memory 0x1001) ⟨.long, false⟩ = 0xfffe0000 :=
  ((typed_views_are_byte_windows _ _ _).2.2.2.1 0x1003 0x1001 _).trans (by decide)

end Core

end BytecodeMachine
