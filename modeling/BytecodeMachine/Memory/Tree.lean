/-!
# Trees of bytes

A tree of depth `d` holds one byte for each of `size d` keys.  A leaf stands for
a whole range of equal bytes, so an untouched memory is one leaf and clearing a
range drops the branches below it.  Keys are followed from their highest bit.

The main statements: a write is seen by its own key and by no other, and a
filled range reads as the filling byte while every other key reads as before.
-/

namespace BytecodeMachine

/-- Bytes under keys of a fixed number of bits. -/
inductive ByteTree where
  /-- Every key of this range holds the byte. -/
  | fill (value : UInt8)
  /-- The keys with a clear and with a set top bit. -/
  | fork (low high : ByteTree)
  deriving Repr, Inhabited

namespace ByteTree

/-- The number of keys of `d` bits. -/
def size : Nat → Nat
  | 0 => 1
  | d + 1 => size d * 2

/-- The byte under a key. -/
def get : Nat → ByteTree → Nat → UInt8
  | _, fill value, _ => value
  | 0, fork _ _, _ => 0
  | d + 1, fork low high, key => if key.testBit d then high.get d key else low.get d key

/-- The half of a tree with a clear top bit. -/
def low : ByteTree → ByteTree
  | fill value => fill value
  | fork low _ => low

/-- The half of a tree with a set top bit. -/
def high : ByteTree → ByteTree
  | fill value => fill value
  | fork _ high => high

/-- Replace the byte under a key. -/
def set : Nat → ByteTree → Nat → UInt8 → ByteTree
  | 0, _, _, value => fill value
  | d + 1, t, key, value =>
      if key.testBit d then fork t.low (t.high.set d key value)
      else fork (t.low.set d key value) t.high

/-- Replace every byte whose key lies in `[start, stop)`, where the tree's own
keys begin at `base`. -/
def fillRange : Nat → ByteTree → (base start stop : Nat) → UInt8 → ByteTree
  | 0, t, base, start, stop, value => if start ≤ base ∧ base < stop then fill value else t
  | d + 1, t, base, start, stop, value =>
      if stop ≤ base ∨ base + size (d + 1) ≤ start then t
      else if start ≤ base ∧ base + size (d + 1) ≤ stop then fill value
      else
        fork (t.low.fillRange d base start stop value)
          (t.high.fillRange d (base + size d) start stop value)

theorem get_succ (d : Nat) (t : ByteTree) (key : Nat) :
    t.get (d + 1) key = if key.testBit d then t.high.get d key else t.low.get d key := by
  cases t with
  | fill value => cases d <;> simp [get, low, high]
  | fork l h => rfl

theorem size_pos (d : Nat) : 0 < size d := by
  induction d with
  | zero => decide
  | succ d ih => simp only [size]; omega

/-- A bit of a key is the parity of what is left above it. -/
theorem testBit_eq (n d : Nat) : n.testBit d = decide (n / size d % 2 = 1) := by
  have power : size d = 2 ^ d := by
    induction d with
    | zero => rfl
    | succ d ih => rw [size, ih, Nat.pow_succ]
  rw [power, Nat.testBit_eq_decide_div_mod_eq]

/-- A key of one bit more has its top bit above the others. -/
theorem mod_size_succ (n d : Nat) :
    n % size (d + 1) = n % size d + size d * (n.testBit d).toNat := by
  rw [testBit_eq, size, Nat.mod_mul]
  have parity : n / size d % 2 = 0 ∨ n / size d % 2 = 1 := by omega
  rcases parity with h | h <;> simp [h]

/-- A write is seen exactly by the keys that agree on the low `d` bits. -/
theorem get_set (d : Nat) (t : ByteTree) (key key' : Nat) (value : UInt8) :
    (t.set d key value).get d key' =
      if key % size d = key' % size d then value else t.get d key' := by
  induction d generalizing t with
  | zero => simp [set, get, size, Nat.mod_one]
  | succ d ih =>
      have below (n : Nat) : n % size d < size d := Nat.mod_lt _ (size_pos d)
      have l := below key
      have r := below key'
      rw [get_succ, get_succ]
      cases hk : key.testBit d <;> cases hk' : key'.testBit d <;>
        simp [set, hk, hk', low, high, ih, mod_size_succ]
      all_goals intro h; omega

/-- A filled range reads as the filling byte, and every other key as before. -/
theorem get_fillRange (d : Nat) (t : ByteTree) (base start stop key : Nat) (value : UInt8) :
    (t.fillRange d base start stop value).get d key =
      if start ≤ base + key % size d ∧ base + key % size d < stop then value
      else t.get d key := by
  induction d generalizing t base with
  | zero =>
      simp only [fillRange, size, Nat.mod_one, Nat.add_zero]
      split <;> simp [get]
  | succ d ih =>
      have inside : key % size (d + 1) < size (d + 1) := Nat.mod_lt _ (size_pos (d + 1))
      rw [fillRange]
      split
      · rename_i outside
        rw [if_neg]
        omega
      · split
        · rename_i covered
          rw [if_pos (by omega), get]
        · rw [get_succ, get_succ d t]
          have parts := mod_size_succ key d
          cases top : key.testBit d
          · simp only [top, Bool.toNat_false, Nat.mul_zero, Nat.add_zero] at parts
            simp [low, ih, parts]
          · simp only [top, Bool.toNat_true, Nat.mul_one] at parts
            simp [high, ih, parts, Nat.add_assoc, Nat.add_comm (size d)]

end ByteTree

end BytecodeMachine
