import BytecodeMachine.Integer.Operation
import BytecodeMachine.Proofs.Operand.Denotation

/-!
# Exact values of integer operations

An integer operation combines words of 64 bits and keeps the low bits of the result.  Here the
results are described at their own width, as bit vectors of `w.bits` bits and without a word in
between: arithmetic on integers that is reduced once, true rotations, and division of two's
complement numbers towards zero.

* `Width.pattern` and `Width.extend` go from words to bit vectors and back;
* `Binary.result?`, `Unary.result` and `Shift.result` are the values of the operations;
* `Binary.pattern_eval?`, `Unary.pattern_eval` and `Shift.pattern_eval` say that these are the
  bits that are kept;
* `Binary.checked?` and `Shift.checked?` carry out the same operations with shifts and divisions
  that fail where a shift count is 64 or more or a divisor is zero; they never fail.
-/

namespace BytecodeMachine

/-! ## Words and bit vectors -/

namespace Width

/-- The low bits of a word. -/
def pattern (w : Width) (x : UInt64) : BitVec w.bits := x.toBitVec.setWidth w.bits

/-- The word with the given low bits, the others zero. -/
def extend (w : Width) (a : BitVec w.bits) : UInt64 := UInt64.ofBitVec (a.setWidth 64)

theorem bits_pos (w : Width) : 0 < w.bits := by cases w <;> decide

theorem bits_le (w : Width) : w.bits ≤ 64 := by cases w <;> decide

theorem getLsbD_pattern (w : Width) (x : UInt64) (i : Nat) :
    (w.pattern x).getLsbD i = (decide (i < w.bits) && x.toBitVec.getLsbD i) :=
  BitVec.getLsbD_setWidth ..

theorem getLsbD_extend (w : Width) (a : BitVec w.bits) (i : Nat) :
    (w.extend a).toBitVec.getLsbD i = a.getLsbD i := by
  show (a.setWidth 64).getLsbD i = a.getLsbD i
  rw [BitVec.getLsbD_setWidth]
  by_cases hi : i < 64
  · simp [hi]
  · have hbits := w.bits_le
    rw [BitVec.getLsbD_of_ge a i (by omega), Bool.and_false]

theorem toNat_extend (w : Width) (a : BitVec w.bits) : (w.extend a).toNat = a.toNat := by
  show (a.setWidth 64).toNat = a.toNat
  exact BitVec.toNat_setWidth_of_le w.bits_le

@[simp]
theorem pattern_extend (w : Width) (a : BitVec w.bits) : w.pattern (w.extend a) = a := by
  apply BitVec.eq_of_getLsbD_eq
  intro i hi
  rw [getLsbD_pattern, getLsbD_extend, decide_eq_true hi, Bool.true_and]

theorem toNat_truncate (w : Width) (x : UInt64) :
    (w.truncate x).toNat = x.toNat % w.modulus := by
  rw [truncate, UInt64.toNat_and]
  cases w with
  | byte => exact Nat.and_two_pow_sub_one_eq_mod _ 8
  | word => exact Nat.and_two_pow_sub_one_eq_mod _ 16
  | long => exact Nat.and_two_pow_sub_one_eq_mod _ 32
  | quad => exact Nat.and_two_pow_sub_one_eq_mod _ 64

/-- Cutting a word to a width keeps its low bits and clears the others. -/
theorem extend_pattern (w : Width) (x : UInt64) : w.extend (w.pattern x) = w.truncate x := by
  apply UInt64.toNat_inj.mp
  rw [toNat_extend, toNat_truncate]
  cases w <;> exact BitVec.toNat_setWidth _ x.toBitVec

@[simp]
theorem pattern_truncate (w : Width) (x : UInt64) : w.pattern (w.truncate x) = w.pattern x := by
  rw [← extend_pattern, pattern_extend]

theorem pattern_and (w : Width) (x y : UInt64) :
    w.pattern (x &&& y) = w.pattern x &&& w.pattern y :=
  BitVec.setWidth_and

theorem pattern_or (w : Width) (x y : UInt64) :
    w.pattern (x ||| y) = w.pattern x ||| w.pattern y :=
  BitVec.setWidth_or

theorem pattern_xor (w : Width) (x y : UInt64) :
    w.pattern (x ^^^ y) = w.pattern x ^^^ w.pattern y :=
  BitVec.setWidth_xor

theorem pattern_not (w : Width) (x : UInt64) : w.pattern (~~~x) = ~~~w.pattern x :=
  BitVec.setWidth_not w.bits_le

/-- The low bits of a number are the number modulo what the width can hold. -/
theorem pattern_ofInt (w : Width) (x : Int) :
    w.pattern (UInt64.ofInt x) = BitVec.ofInt w.bits x := by
  apply BitVec.eq_of_toNat_eq
  rw [pattern, Word.toBitVec_ofInt, BitVec.toNat_setWidth, BitVec.toNat_ofInt,
    BitVec.toNat_ofInt]
  cases w with
  | byte =>
      show (x % 18446744073709551616).toNat % 256 = (x % 256).toNat
      omega
  | word =>
      show (x % 18446744073709551616).toNat % 65536 = (x % 65536).toNat
      omega
  | long =>
      show (x % 18446744073709551616).toNat % 4294967296 = (x % 4294967296).toNat
      omega
  | quad =>
      show (x % 18446744073709551616).toNat % 18446744073709551616 =
        (x % 18446744073709551616).toNat
      omega

/-- Reading a word as a two's complement number at a width only looks at its low bits. -/
theorem toBitVec_signExtend (w : Width) (x : UInt64) :
    (w.signExtend x).toBitVec = (w.pattern x).signExtend 64 := by
  cases w with
  | byte => rfl
  | word => rfl
  | long => rfl
  | quad =>
      show x.toBitVec = (x.toBitVec.setWidth 64).signExtend 64
      rw [BitVec.setWidth_eq, BitVec.signExtend_eq]

theorem extend_eq_zero_iff (w : Width) (a : BitVec w.bits) : w.extend a = 0 ↔ a = 0#w.bits := by
  rw [← UInt64.toNat_inj, ← BitVec.toNat_inj, toNat_extend, BitVec.toNat_zero]
  rfl

theorem toInt_signExtend_extend (w : Width) (a : BitVec w.bits) :
    (w.signExtend (w.extend a)).toInt = a.toInt := by
  show (w.signExtend (w.extend a)).toBitVec.toInt = a.toInt
  rw [toBitVec_signExtend, pattern_extend]
  exact BitVec.toInt_signExtend_of_le w.bits_le

theorem signExtend_extend_eq_zero_iff (w : Width) (a : BitVec w.bits) :
    w.signExtend (w.extend a) = 0 ↔ a = 0#w.bits := by
  rw [← Int64.toInt_inj, ← BitVec.toInt_inj, toInt_signExtend_extend, BitVec.toInt_zero]
  rfl

theorem pattern_toUInt64 (w : Width) (x : Int64) :
    w.pattern x.toUInt64 = BitVec.ofInt w.bits x.toInt := by
  rw [← Word.ofInt_toInt, pattern_ofInt]

/-- Signed operations wrap at 64 bits, which no width can tell from not wrapping at all. -/
theorem pattern_of_toInt {w : Width} {x : Int64} {y : Int}
    (hx : x.toInt = y.bmod UInt64.size) : w.pattern x.toUInt64 = BitVec.ofInt w.bits y := by
  have hword : x.toBitVec = BitVec.ofInt 64 y := by
    apply BitVec.eq_of_toInt_eq
    rw [BitVec.toInt_ofInt]
    exact hx
  rw [← pattern_ofInt, pattern, pattern, Word.toBitVec_ofInt, ← hword]
  rfl

end Width

namespace Word

theorem toBitVec_shiftLeft_of_lt (x : UInt64) {n : UInt64} (hn : n.toNat < 64) :
    (x <<< n).toBitVec = x.toBitVec <<< n.toNat := by
  have hcount : (n.toBitVec % 64).toNat = n.toNat := by
    show n.toNat % 64 = n.toNat
    omega
  rw [UInt64.toBitVec_shiftLeft, BitVec.shiftLeft_eq', hcount]

theorem toBitVec_shiftRight_of_lt (x : UInt64) {n : UInt64} (hn : n.toNat < 64) :
    (x >>> n).toBitVec = x.toBitVec >>> n.toNat := by
  have hcount : (n.toBitVec % 64).toNat = n.toNat := by
    show n.toNat % 64 = n.toNat
    omega
  rw [UInt64.toBitVec_shiftRight, BitVec.ushiftRight_eq', hcount]

theorem toBitVec_sshiftRight_of_lt (x : Int64) {n : UInt64} (hn : n.toNat < 64) :
    (x >>> n.toInt64).toBitVec = x.toBitVec.sshiftRight n.toNat := by
  have hcount : (n.toInt64.toBitVec.smod 64).toNat = n.toNat := by
    have hpositive : n.toBitVec.msb = false := by
      rw [BitVec.msb_eq_false_iff_two_mul_lt]
      show 2 * n.toNat < 2 ^ 64
      omega
    show (n.toBitVec.smod 64).toNat = n.toNat
    have hsixtyFour : (64 : BitVec 64).msb = false := by decide
    rw [BitVec.smod_eq, hpositive, hsixtyFour]
    show n.toNat % 64 = n.toNat
    omega
  rw [Int64.toBitVec_shiftRight, BitVec.sshiftRight_eq', hcount]

end Word

namespace Integer

/-! ## Operations on two operands -/

namespace Binary

/-- The value of an operation on operands of `n` bits; nothing for a division by zero. -/
def result? {n : Nat} (op : Binary) (a b : BitVec n) : Option (BitVec n) :=
  match op with
  | and => some (a &&& b)
  | or => some (a ||| b)
  | eor => some (a ^^^ b)
  | add => some (BitVec.ofInt n (a.toNat + b.toNat))
  | sub => some (BitVec.ofInt n (a.toNat - b.toNat))
  | muls => some (BitVec.ofInt n (a.toInt * b.toInt))
  | mulu => some (BitVec.ofInt n (a.toNat * b.toNat))
  | divs => if b = 0#n then none else some (BitVec.ofInt n (a.toInt.tdiv b.toInt))
  | divu => if b = 0#n then none else some (BitVec.ofInt n (a.toNat / b.toNat))
  | mods => if b = 0#n then none else some (BitVec.ofInt n (a.toInt.tmod b.toInt))
  | modu => if b = 0#n then none else some (BitVec.ofInt n (a.toNat % b.toNat))

/-- The operation divides. -/
def Divides (op : Binary) : Prop := op = divs ∨ op = divu ∨ op = mods ∨ op = modu

/-- Divisions by zero, and nothing else, have no value. -/
theorem result?_eq_none_iff {n : Nat} (op : Binary) (a b : BitVec n) :
    op.result? a b = none ↔ op.Divides ∧ b = 0#n := by
  cases op <;> simp [result?, Divides]

/-- The product does not depend on the signs that the operands are read with. -/
theorem result?_muls_eq_mulu {n : Nat} (a b : BitVec n) :
    muls.result? a b = mulu.result? a b := by
  have hsigned : BitVec.ofInt n (a.toInt * b.toInt) = a * b := by
    rw [BitVec.ofInt_mul, BitVec.ofInt_toInt, BitVec.ofInt_toInt]
  have hunsigned : BitVec.ofInt n (a.toNat * b.toNat) = a * b := by
    rw [BitVec.ofInt_mul, BitVec.ofInt_natCast, BitVec.ofInt_natCast, BitVec.ofNat_toNat,
      BitVec.ofNat_toNat, BitVec.setWidth_eq, BitVec.setWidth_eq]
  rw [result?, result?, hsigned, hunsigned]

/-- The one quotient that does not fit wraps to the dividend, and leaves no remainder. -/
theorem result?_intMin_neg_one (w : Width) :
    divs.result? (BitVec.intMin w.bits) (BitVec.ofInt w.bits (-1)) =
        some (BitVec.intMin w.bits) ∧
      mods.result? (BitVec.intMin w.bits) (BitVec.ofInt w.bits (-1)) = some 0#w.bits := by
  cases w <;> decide

/-- A division at 64 bits and one at a width fail alike and keep the same bits. -/
theorem map_pattern_division {w : Width} {x : UInt64} {y : BitVec w.bits} {fails fails' : Prop}
    [Decidable fails] [Decidable fails'] (hfails : fails ↔ fails') (hvalue : w.pattern x = y) :
    (if fails then none else some x).map w.pattern = if fails' then none else some y := by
  by_cases hzero : fails
  · rw [if_pos hzero, if_pos (hfails.mp hzero)]
    rfl
  · rw [if_neg hzero, if_neg (fun h => hzero (hfails.mpr h)), ← hvalue]
    rfl

/-- The bits that are kept of a combined value are those of the exact value. -/
theorem pattern_eval? (op : Binary) (w : Width) (a b : BitVec w.bits) :
    (op.eval? w (w.extend a) (w.extend b)).map w.pattern = op.result? a b := by
  -- A word operation on the operands is the reduction of an operation on integers.
  have hunsigned : ∀ {x : UInt64} {y : Int}, x = UInt64.ofInt y →
      w.pattern x = BitVec.ofInt w.bits y := by
    intro x y hx
    rw [hx, Width.pattern_ofInt]
  have hnat : ∀ c : BitVec w.bits, UInt64.ofInt c.toNat = w.extend c := by
    intro c
    rw [← w.toNat_extend c, Word.ofInt_toNat]
  have hint : ∀ c : BitVec w.bits, (w.signExtend (w.extend c)).toInt = c.toInt :=
    w.toInt_signExtend_extend
  cases op with
  | and =>
      show some (w.pattern (w.extend a &&& w.extend b)) = some (a &&& b)
      rw [Width.pattern_and, Width.pattern_extend, Width.pattern_extend]
  | or =>
      show some (w.pattern (w.extend a ||| w.extend b)) = some (a ||| b)
      rw [Width.pattern_or, Width.pattern_extend, Width.pattern_extend]
  | eor =>
      show some (w.pattern (w.extend a ^^^ w.extend b)) = some (a ^^^ b)
      rw [Width.pattern_xor, Width.pattern_extend, Width.pattern_extend]
  | add =>
      apply congrArg some
      apply hunsigned
      rw [UInt64.ofInt_add, hnat, hnat]
  | sub =>
      apply congrArg some
      apply hunsigned
      rw [Word.ofInt_sub, hnat, hnat]
  | mulu =>
      apply congrArg some
      apply hunsigned
      rw [UInt64.ofInt_mul, hnat, hnat]
  | muls =>
      apply congrArg some
      apply Width.pattern_of_toInt
      rw [Int64.toInt_mul, hint, hint]
  | divs =>
      apply map_pattern_division (w.signExtend_extend_eq_zero_iff b)
      apply Width.pattern_of_toInt
      rw [Int64.toInt_div, hint, hint]
  | mods =>
      apply map_pattern_division (w.signExtend_extend_eq_zero_iff b)
      rw [Width.pattern_toUInt64, Int64.toInt_mod, hint, hint]
  | divu =>
      apply map_pattern_division (w.extend_eq_zero_iff b)
      apply hunsigned
      rw [← Word.ofInt_toNat (w.extend a / w.extend b), UInt64.toNat_div, w.toNat_extend,
        w.toNat_extend]
      rfl
  | modu =>
      apply map_pattern_division (w.extend_eq_zero_iff b)
      apply hunsigned
      rw [← Word.ofInt_toNat (w.extend a % w.extend b), UInt64.toNat_mod, w.toNat_extend,
        w.toNat_extend]
      rfl

end Binary

/-! ## Operations on one operand -/

namespace Unary

/-- The value of an operation on an operand of `n` bits. -/
def result {n : Nat} (op : Unary) (a : BitVec n) : BitVec n :=
  match op with
  | not => ~~~a
  | neg => BitVec.ofInt n (-a.toNat)

theorem pattern_eval (op : Unary) (w : Width) (a : BitVec w.bits) :
    w.pattern (op.eval (w.extend a)) = op.result a := by
  cases op with
  | not =>
      show w.pattern (~~~w.extend a) = ~~~a
      rw [Width.pattern_not, Width.pattern_extend]
  | neg =>
      show w.pattern (-w.extend a) = BitVec.ofInt w.bits (-a.toNat)
      rw [← w.toNat_extend a, ← Width.pattern_ofInt, UInt64.ofInt_neg, Word.ofInt_toNat]

end Unary

/-! ## Shifts and rotations -/

/-- A rotation at 64 bits, put together from two shifts, is a rotation at its width. -/
theorem pattern_rotateLeft (w : Width) (a : BitVec w.bits) {count : UInt64}
    (hcount : count.toNat < w.bits) :
    w.pattern (rotateLeft w (w.extend a) count) = a.rotateLeft count.toNat := by
  have hbits := w.bits_le
  have htruncate : w.truncate (w.extend a) = w.extend a := by
    rw [← Width.extend_pattern, Width.pattern_extend]
  unfold rotateLeft
  rw [htruncate]
  by_cases hzero : count = 0
  · rw [if_pos hzero, Width.pattern_extend, hzero]
    apply BitVec.eq_of_getLsbD_eq
    intro i hi
    simp [hi]
  · have hpositive : count.toNat ≠ 0 := fun h => hzero (UInt64.toNat_inj.mp h)
    have hback : (UInt64.ofNat w.bits - count).toNat = w.bits - count.toNat := by
      have hwidth : (UInt64.ofNat w.bits).toNat = w.bits := by cases w <;> rfl
      rw [UInt64.toNat_sub_of_le _ _ (UInt64.le_iff_toNat_le.mpr (by omega)), hwidth]
    rw [if_neg hzero, Width.pattern_truncate]
    apply BitVec.eq_of_getLsbD_eq
    intro i hi
    rw [Width.getLsbD_pattern, UInt64.toBitVec_or, BitVec.getLsbD_or,
      Word.toBitVec_shiftLeft_of_lt _ (by omega), Word.toBitVec_shiftRight_of_lt _ (by omega),
      hback, BitVec.getLsbD_shiftLeft, BitVec.getLsbD_ushiftRight, Width.getLsbD_extend,
      Width.getLsbD_extend, BitVec.getLsbD_rotateLeft, Nat.mod_eq_of_lt hcount]
    -- Below the count the bits come from the top, and from the count on from below.
    by_cases hlow : i < count.toNat
    · simp [hi, hlow]
    · have hbeyond : a.getLsbD (w.bits - count.toNat + i) = false :=
        BitVec.getLsbD_of_ge a _ (by omega)
      simp [hi, hlow, hbeyond]
      omega

/-- Rotating left by what is left of the width is rotating right. -/
theorem rotateLeft_sub_mod {n : Nat} (a : BitVec n) {k : Nat} (hk : k < n) :
    a.rotateLeft ((n - k) % n) = a.rotateRight k := by
  apply BitVec.eq_of_getLsbD_eq
  intro i hi
  rw [BitVec.getLsbD_rotateLeft, BitVec.getLsbD_rotateRight, Nat.mod_mod, Nat.mod_eq_of_lt hk]
  by_cases hzero : k = 0
  · simp [hzero, hi]
  · rw [Nat.mod_eq_of_lt (by omega : n - k < n)]
    by_cases hlow : i < n - k
    · simp only [hlow, decide_true, cond_true]
      congr 1
      omega
    · simp [hlow]

namespace Shift

/-- The value of an operation on an operand of `n` bits and a count below `n`. -/
def result {n : Nat} (op : Shift) (a : BitVec n) (k : Nat) : BitVec n :=
  match op with
  | lsl => a <<< k
  | lsr => a >>> k
  | asr => a.sshiftRight k
  | rol => a.rotateLeft k
  | ror => a.rotateRight k
  | bclr => a &&& ~~~BitVec.twoPow n k
  | bset => a ||| BitVec.twoPow n k

theorem toNat_count (w : Width) (count : UInt64) :
    (count % UInt64.ofNat w.bits).toNat = count.toNat % w.bits := by
  rw [UInt64.toNat_mod]
  cases w <;> rfl

/-- The single bit that is set or cleared. -/
theorem pattern_one_shiftLeft (w : Width) {n : UInt64} (hn : n.toNat < w.bits) :
    w.pattern ((1 : UInt64) <<< n) = BitVec.twoPow w.bits n.toNat := by
  have hbits := w.bits_le
  apply BitVec.eq_of_getLsbD_eq
  intro i hi
  rw [Width.getLsbD_pattern, Word.toBitVec_shiftLeft_of_lt _ (by omega),
    BitVec.getLsbD_shiftLeft, BitVec.getLsbD_twoPow]
  show (decide (i < w.bits) && (decide (i < 64) && !decide (i < n.toNat) &&
    (1#64).getLsbD (i - n.toNat))) = _
  rw [BitVec.getLsbD_one]
  have hbound : i < 64 := by omega
  simp only [hi, hn, hbound, decide_true, Bool.true_and]
  by_cases hsame : n.toNat = i
  · simp [hsame]
  · simp [hsame]
    omega

/-- The bits that are kept of a shifted value are those of the exact value. -/
theorem pattern_eval (op : Shift) (w : Width) (a : BitVec w.bits) (count : UInt64) :
    w.pattern (op.eval w (w.extend a) count) = op.result a (count.toNat % w.bits) := by
  have hbits := w.bits_le
  have hlt : count.toNat % w.bits < w.bits := Nat.mod_lt _ w.bits_pos
  have hcount := toNat_count w count
  have hn : (count % UInt64.ofNat w.bits).toNat < w.bits := by omega
  have hn64 : (count % UInt64.ofNat w.bits).toNat < 64 := by omega
  unfold eval result
  rw [← hcount]
  cases op with
  | lsl =>
      apply BitVec.eq_of_getLsbD_eq
      intro i hi
      have hbound : i < 64 := by omega
      simp only [Width.getLsbD_pattern, Word.toBitVec_shiftLeft_of_lt _ hn64,
        BitVec.getLsbD_shiftLeft, Width.getLsbD_extend, hi, hbound, decide_true, Bool.true_and]
  | lsr =>
      apply BitVec.eq_of_getLsbD_eq
      intro i hi
      simp only [Width.getLsbD_pattern, Word.toBitVec_shiftRight_of_lt _ hn64,
        BitVec.getLsbD_ushiftRight, Width.getLsbD_extend, hi, decide_true, Bool.true_and]
  | asr =>
      apply BitVec.eq_of_getLsbD_eq
      intro i hi
      rw [Width.getLsbD_pattern]
      show (decide (i < w.bits) && (w.signExtend (w.extend a) >>>
        (count % UInt64.ofNat w.bits).toInt64).toBitVec.getLsbD i) = _
      rw [Word.toBitVec_sshiftRight_of_lt _ hn64, Width.toBitVec_signExtend,
        Width.pattern_extend, BitVec.getLsbD_sshiftRight, BitVec.getLsbD_sshiftRight,
        BitVec.getLsbD_signExtend, BitVec.msb_signExtend]
      grind
  | rol => exact pattern_rotateLeft w a hn
  | ror =>
      have hback : ((UInt64.ofNat w.bits - count % UInt64.ofNat w.bits) %
          UInt64.ofNat w.bits).toNat = (w.bits - (count % UInt64.ofNat w.bits).toNat) % w.bits := by
        have hwidth : (UInt64.ofNat w.bits).toNat = w.bits := by cases w <;> rfl
        rw [toNat_count,
          UInt64.toNat_sub_of_le _ _ (UInt64.le_iff_toNat_le.mpr (by omega)), hwidth]
      simp only
      rw [pattern_rotateLeft w a (by rw [hback]; exact Nat.mod_lt _ w.bits_pos), hback,
        rotateLeft_sub_mod a hn]
  | bclr =>
      simp only
      rw [Width.pattern_and, Width.pattern_not, pattern_one_shiftLeft w hn,
        Width.pattern_extend]
  | bset =>
      simp only
      rw [Width.pattern_or, pattern_one_shiftLeft w hn, Width.pattern_extend]

end Shift

/-! ## Sign extension -/

/-- The bits that are kept of a sign-extended operand. -/
theorem pattern_signExtend (d w : Width) (a : BitVec w.bits) :
    d.pattern (w.signExtend (w.extend a)).toUInt64 = a.signExtend d.bits := by
  have hbits := d.bits_le
  apply BitVec.eq_of_getLsbD_eq
  intro i hi
  have hbound : i < 64 := by omega
  rw [Width.getLsbD_pattern]
  show (decide (i < d.bits) && (w.signExtend (w.extend a)).toBitVec.getLsbD i) = _
  rw [Width.toBitVec_signExtend, Width.pattern_extend, BitVec.getLsbD_signExtend,
    BitVec.getLsbD_signExtend]
  simp only [hi, hbound, decide_true, Bool.true_and]

/-! ## Shifts and divisions that can fail

The word operations take any shift count and any divisor, but only counts below 64 and divisors
other than zero have a meaning that all machines share.  The operations are carried out here with
word operations that fail otherwise. -/

/-- A shift to the left by fewer than 64 bits. -/
def shiftLeft? (x n : UInt64) : Option UInt64 := if n < 64 then some (x <<< n) else none

/-- A shift to the right by fewer than 64 bits. -/
def shiftRight? (x n : UInt64) : Option UInt64 := if n < 64 then some (x >>> n) else none

/-- A shift to the right by fewer than 64 bits that fills with the sign. -/
def signedShiftRight? (x : Int64) (n : UInt64) : Option Int64 :=
  if n < 64 then some (x >>> n.toInt64) else none

/-- A quotient by a divisor other than zero. -/
def quotient? (x y : UInt64) : Option UInt64 := if y = 0 then none else some (x / y)

/-- A remainder by a divisor other than zero. -/
def remainder? (x y : UInt64) : Option UInt64 := if y = 0 then none else some (x % y)

/-- A signed quotient by a divisor other than zero. -/
def signedQuotient? (x y : Int64) : Option Int64 := if y = 0 then none else some (x / y)

/-- A signed remainder by a divisor other than zero. -/
def signedRemainder? (x y : Int64) : Option Int64 := if y = 0 then none else some (x % y)

/-- The mask of a width, from a word of ones. -/
def mask? (w : Width) : Option UInt64 := shiftRight? Width.quad.mask (64 - UInt64.ofNat w.bits)

/-- Rotation to the left, with the mask computed twice as the rotation goes. -/
def rotateLeft? (w : Width) (value count : UInt64) : Option UInt64 := do
  let low ← mask? w
  if count = 0 then return value &&& low
  let up ← shiftLeft? (value &&& low) count
  let down ← shiftRight? (value &&& low) (UInt64.ofNat w.bits - count)
  let mask ← mask? w
  return (up ||| down) &&& mask

/-- A shift or rotation with word operations that can fail. -/
def Shift.checked? (op : Shift) (w : Width) (a count : UInt64) : Option UInt64 := do
  let n ← remainder? count (UInt64.ofNat w.bits)
  match op with
  | lsl => shiftLeft? a n
  | lsr => shiftRight? a n
  | asr => return (← signedShiftRight? (w.signExtend a) n).toUInt64
  | rol => rotateLeft? w a n
  | ror => rotateLeft? w a (← remainder? (UInt64.ofNat w.bits - n) (UInt64.ofNat w.bits))
  | bclr => return a &&& ~~~(← shiftLeft? 1 n)
  | bset => return a ||| (← shiftLeft? 1 n)

/-- An operation on two operands with word operations that can fail.  A division by zero is
found before it is tried. -/
def Binary.checked? (op : Binary) (w : Width) (a b : UInt64) : Option (Option UInt64) :=
  match op with
  | divs =>
      if w.signExtend b = 0 then some none
      else (signedQuotient? (w.signExtend a) (w.signExtend b)).map (some ·.toUInt64)
  | mods =>
      if w.signExtend b = 0 then some none
      else (signedRemainder? (w.signExtend a) (w.signExtend b)).map (some ·.toUInt64)
  | divu => if b = 0 then some none else (quotient? a b).map some
  | modu => if b = 0 then some none else (remainder? a b).map some
  | _ => some (op.eval? w a b)

theorem mask?_eq (w : Width) : mask? w = some w.mask := by
  cases w <;> decide

theorem rotateLeft?_eq (w : Width) (value : UInt64) {count : UInt64}
    (hcount : count.toNat < w.bits) :
    rotateLeft? w value count = some (rotateLeft w value count) := by
  have hbits := w.bits_le
  unfold rotateLeft? rotateLeft
  simp only [mask?_eq, Option.bind_eq_bind, Option.bind_some, Option.pure_def]
  by_cases hzero : count = 0
  · rw [if_pos hzero, if_pos hzero]
    rfl
  · have hpositive : count.toNat ≠ 0 := fun h => hzero (UInt64.toNat_inj.mp h)
    have hup : count < 64 := by
      rw [UInt64.lt_iff_toNat_lt]
      show count.toNat < 64
      omega
    have hdown : UInt64.ofNat w.bits - count < 64 := by
      have hwidth : (UInt64.ofNat w.bits).toNat = w.bits := by cases w <;> rfl
      rw [UInt64.lt_iff_toNat_lt,
        UInt64.toNat_sub_of_le _ _ (UInt64.le_iff_toNat_le.mpr (by omega)), hwidth]
      show w.bits - count.toNat < 64
      omega
    rw [if_neg hzero, if_neg hzero, shiftLeft?, if_pos hup, shiftRight?, if_pos hdown]
    rfl

/-- No shift or rotation comes to a count of 64 or more. -/
theorem Shift.checked?_eq (op : Shift) (w : Width) (a count : UInt64) :
    op.checked? w a count = some (op.eval w a count) := by
  have hbits := w.bits_le
  have hwidth : UInt64.ofNat w.bits ≠ 0 := by cases w <;> decide
  have hlt : ∀ x : UInt64, (x % UInt64.ofNat w.bits).toNat < w.bits := by
    intro x
    rw [toNat_count]
    exact Nat.mod_lt _ w.bits_pos
  have hn : count % UInt64.ofNat w.bits < 64 := by
    have hcount := hlt count
    rw [UInt64.lt_iff_toNat_lt]
    show (count % UInt64.ofNat w.bits).toNat < 64
    omega
  unfold checked? eval remainder?
  simp only [if_neg hwidth, Option.bind_eq_bind, Option.bind_some, Option.pure_def]
  cases op with
  | lsl => exact if_pos hn
  | lsr => exact if_pos hn
  | asr => simp [signedShiftRight?, hn]
  | rol => exact rotateLeft?_eq w a (hlt count)
  | ror => exact rotateLeft?_eq w a (hlt _)
  | bclr => simp [shiftLeft?, hn]
  | bset => simp [shiftLeft?, hn]

/-- No division comes to a divisor of zero. -/
theorem Binary.checked?_eq (op : Binary) (w : Width) (a b : UInt64) :
    op.checked? w a b = some (op.eval? w a b) := by
  cases op with
  | divs =>
      by_cases hzero : w.signExtend b = 0
      · simp [checked?, eval?, hzero]
      · simp [checked?, eval?, signedQuotient?, hzero]
  | divu =>
      by_cases hzero : b = 0
      · simp [checked?, eval?, hzero]
      · simp [checked?, eval?, quotient?, hzero]
  | mods =>
      by_cases hzero : w.signExtend b = 0
      · simp [checked?, eval?, hzero]
      · simp [checked?, eval?, signedRemainder?, hzero]
  | modu =>
      by_cases hzero : b = 0
      · simp [checked?, eval?, hzero]
      · simp [checked?, eval?, remainder?, hzero]
  | _ => rfl

end Integer

end BytecodeMachine
