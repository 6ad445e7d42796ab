import BytecodeMachine.Proofs.Memory.Window
import Mathlib.Data.Nat.Bitwise

/-!
# Bits of memory

A word is written whole, but a bitmap is about single bits.  Here every bit of memory has a place of
its own, the address of a byte and a number below eight, and `Flips` says that exactly one of them
changes.  A word that is written back with one bit changed flips that bit and nothing else, and a
bit that is flipped there and back leaves every byte as it was.
-/

namespace BytecodeMachine

/-! ## Bits of encoded numbers -/

namespace LittleEndian

/-- The bits of a number are those of its bytes. -/
theorem testBit_decode (bytes : List UInt8) (k : Nat) :
    (decode bytes).testBit k = (bytes.getD (k / 8) 0).toNat.testBit (k % 8) := by
  induction bytes generalizing k with
  | nil => simp [decode]
  | cons byte rest ih =>
      have hsum : decode (byte :: rest) = 2 ^ 8 * decode rest + byte.toNat := by
        rw [decode]
        omega
      rw [hsum, Nat.testBit_two_pow_mul_add _ byte.toNat_lt]
      by_cases hk : k < 8
      · have hplace : k / 8 = 0 ∧ k % 8 = k := by omega
        rw [if_pos hk, hplace.1, hplace.2]
        rfl
      · have hplace : k / 8 = (k - 8) / 8 + 1 ∧ k % 8 = (k - 8) % 8 := by omega
        rw [if_neg hk, ih, hplace.1, hplace.2, List.getD_cons_succ]

/-- The bytes of a number have its bits. -/
theorem testBit_encode {n i j : Nat} (value : Nat) (other : UInt8) (hi : i < n) (hj : j < 8) :
    ((encode n value).getD i other).toNat.testBit j = value.testBit (8 * i + j) := by
  induction n generalizing value i with
  | zero => omega
  | succ n ih =>
      cases i with
      | zero =>
          have hbyte : (UInt8.ofNat value).toNat = value % 2 ^ 8 := UInt8.toNat_ofNat'
          rw [encode, List.getD_cons_zero, hbyte, Nat.testBit_mod_two_pow, decide_eq_true hj,
            Bool.true_and]
          congr 1
          omega
      | succ i =>
          have hplace : 8 * (i + 1) + j = 8 * i + j + 8 := by omega
          rw [encode, List.getD_cons_succ, ih _ (by omega), hplace]
          exact Nat.testBit_div_two_pow (n := 8) value (8 * i + j)

end LittleEndian

/-! ## Bits of words in memory -/

namespace Memory

/-- The bit `k` of the byte at an address. -/
def bit (m : Memory) (a : UInt64) (k : Nat) : Bool := (m.byte a).toNat.testBit k

/-- A value that is read is the number of its bytes. -/
theorem toNat_read (m : Memory) (a : UInt64) (w : Width) :
    (m.read a w).toNat = LittleEndian.decode (m.bytes a w.bytes) := by
  have hlt := LittleEndian.decode_lt (m.bytes a w.bytes)
  have hcapacity : LittleEndian.capacity w.bytes ≤ UInt64.size := by cases w <;> decide
  rw [length_bytes] at hlt
  rw [read, LittleEndian.word64, UInt64.toNat_ofNat']
  exact Nat.mod_eq_of_lt (Nat.lt_of_lt_of_le hlt hcapacity)

theorem toNat_read_lt (m : Memory) (a : UInt64) (w : Width) :
    (m.read a w).toNat < LittleEndian.capacity w.bytes := by
  have hlt := LittleEndian.decode_lt (m.bytes a w.bytes)
  rwa [length_bytes, ← toNat_read] at hlt

theorem testBit_read_quad (m : Memory) (a : UInt64) {k : Nat} (hk : k < 64) :
    (m.read a .quad).toNat.testBit k = m.bit (a + UInt64.ofNat (k / 8)) (k % 8) := by
  have hplace : k / 8 < Width.quad.bytes := by
    have hquad : Width.quad.bytes = 8 := rfl
    omega
  rw [toNat_read, LittleEndian.testBit_decode, List.getD, getElem?_bytes m a hplace]
  rfl

/-- A byte of a written word has the bits of the word. -/
theorem bit_write_quad (m : Memory) {a b : UInt64} (value : UInt64) {j : Nat} (hj : j < 8)
    (hinside : (b - a).toNat < 8) :
    (m.write a .quad value).bit b j = value.toNat.testBit (8 * (b - a).toNat + j) := by
  unfold bit write
  rw [byte_setBytes _ _ _ _ (by rw [LittleEndian.length_encode]; decide)]
  exact LittleEndian.testBit_encode value.toNat (m.byte b) hinside hj

/-! ## Flipping one bit -/

/-- From `m` to `m'` exactly one bit of memory changes, and it becomes `value`: the bit `k` of the
byte at `a`. -/
structure Flips (m m' : Memory) (a : UInt64) (k : Nat) (value : Bool) : Prop where
  place : k < 8
  before : m.bit a k = !value
  after : m'.bit a k = value
  others : ∀ b j, j < 8 → ¬(b = a ∧ j = k) → m'.bit b j = m.bit b j

/-- A word is written back with one bit changed. -/
theorem flips_write {m : Memory} {a word : UInt64} {k : Nat} {value : Bool} (hk : k < 64)
    (hbefore : (m.read a .quad).toNat.testBit k = !value) (hafter : word.toNat.testBit k = value)
    (hrest : ∀ j, j < 64 → j ≠ k → word.toNat.testBit j = (m.read a .quad).toNat.testBit j) :
    m.Flips (m.write a .quad word) (a + UInt64.ofNat (k / 8)) (k % 8) value := by
  have hdistance : (a + UInt64.ofNat (k / 8) - a).toNat = k / 8 := by
    rw [UInt64.add_comm, UInt64.add_sub_cancel, UInt64.toNat_ofNat']
    omega
  refine ⟨Nat.mod_lt k (by decide), ?_, ?_, ?_⟩
  · rw [← testBit_read_quad m a hk, hbefore]
  · rw [bit_write_quad m word (Nat.mod_lt k (by decide)) (by omega), hdistance,
      Nat.div_add_mod, hafter]
  · intro b j hj hother
    by_cases hinside : (b - a).toNat < 8
    · -- The byte lies in the word, so its bit is one of the word's, and another one.
      have hb : a + UInt64.ofNat (b - a).toNat = b := by
        rw [UInt64.ofNat_toNat, UInt64.add_comm, UInt64.sub_add_cancel]
      have hplace : (8 * (b - a).toNat + j) / 8 = (b - a).toNat ∧
          (8 * (b - a).toNat + j) % 8 = j := by omega
      have hne : 8 * (b - a).toNat + j ≠ k := by
        rintro rfl
        rw [hplace.1, hplace.2, hb] at hother
        exact hother ⟨rfl, rfl⟩
      rw [bit_write_quad m word hj hinside, hrest _ (by omega) hne,
        testBit_read_quad m a (by omega), hplace.1, hplace.2, hb]
    · unfold bit
      rw [byte_write_of_le (w := .quad) m word (show 8 ≤ (b - a).toNat by omega)]

/-- Bytes with the same bits are the same. -/
theorem byte_ext {m m' : Memory} {a : UInt64} (hbits : ∀ j, j < 8 → m'.bit a j = m.bit a j) :
    m'.byte a = m.byte a := by
  refine UInt8.toNat_inj.mp (Nat.eq_of_testBit_eq fun j => ?_)
  by_cases hj : j < 8
  · exact hbits j hj
  · have hlarge : ∀ x : UInt8, x.toNat.testBit j = false := by
      intro x
      refine Nat.testBit_lt_two_pow ?_
      exact Nat.lt_of_lt_of_le x.toNat_lt (Nat.pow_le_pow_right (by decide) (by omega))
    rw [hlarge, hlarge]

/-- A bit that is flipped there and back leaves memory as it was. -/
theorem Flips.undo {m m' m'' : Memory} {a : UInt64} {k : Nat} {value : Bool}
    (hthere : m.Flips m' a k value) (hback : m'.Flips m'' a k (!value)) (b : UInt64) :
    m''.byte b = m.byte b := by
  refine byte_ext fun j hj => ?_
  by_cases hsame : b = a ∧ j = k
  · rw [hsame.1, hsame.2, hback.after, hthere.before]
  · rw [hback.others b j hj hsame, hthere.others b j hj hsame]

end Memory

end BytecodeMachine
