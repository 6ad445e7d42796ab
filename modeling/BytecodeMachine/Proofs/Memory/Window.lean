import BytecodeMachine.Memory.Basic

/-!
# Windows of memory

A word is written into and read from the bytes of a window, and a write is seen through
another window only where the two overlap.  Writes are described byte by byte, with the
distance from the start of the window taken modulo the size of the address space; two memories
that agree on a range of addresses give the same words inside it.
-/

namespace BytecodeMachine

namespace Memory

/-! ## Addresses -/

theorem toNat_add_ofNat {a : UInt64} {n : Nat} (hfits : a.toNat + n < UInt64.size) :
    (a + UInt64.ofNat n).toNat = a.toNat + n := by
  rw [UInt64.toNat_add, UInt64.toNat_ofNat']
  simp only [UInt64.size] at hfits
  omega

theorem add_ofNat_succ (a : UInt64) (n : Nat) :
    a + UInt64.ofNat (n + 1) = a + 1 + UInt64.ofNat n := by
  rw [Nat.add_comm n 1, UInt64.ofNat_add, ← UInt64.add_assoc]
  rfl

/-- The distance to an address from one place further is one less, unless it wraps around. -/
theorem toNat_sub_succ {a b : UInt64} (hne : a ≠ b) :
    (b - a).toNat = (b - (a + 1)).toNat + 1 := by
  have hsum : (a + 1).toNat = (a.toNat + 1) % 2 ^ 64 := UInt64.toNat_add a 1
  have hvalues : a.toNat ≠ b.toNat := fun h => hne (UInt64.toNat_inj.mp h)
  have ha := a.toNat_lt
  have hb := b.toNat_lt
  rw [UInt64.toNat_sub, UInt64.toNat_sub, hsum]
  omega

theorem toNat_sub_self_succ (a : UInt64) : (a - (a + 1)).toNat = UInt64.size - 1 := by
  have hsum : (a + 1).toNat = (a.toNat + 1) % 2 ^ 64 := UInt64.toNat_add a 1
  have ha := a.toNat_lt
  rw [UInt64.toNat_sub, hsum]
  simp only [UInt64.size]
  omega

/-! ## Bytes -/

/-- Written bytes are seen at their distance from the first, and everything else as before. -/
theorem byte_setBytes (m : Memory) (a b : UInt64) (values : List UInt8)
    (hlength : values.length ≤ UInt64.size) :
    (m.setBytes a values).byte b = values.getD (b - a).toNat (m.byte b) := by
  induction values generalizing m a with
  | nil => rfl
  | cons value rest ih =>
      simp only [List.length_cons] at hlength
      rw [setBytes, ih _ _ (by omega), byte_setByte]
      by_cases hsame : a = b
      · subst hsame
        have hpast : rest[UInt64.size - 1]? = none := List.getElem?_eq_none (by omega)
        rw [toNat_sub_self_succ, List.getD, hpast, UInt64.sub_self]
        simp
      · rw [if_neg hsame, toNat_sub_succ hsame, List.getD_cons_succ]

/-- A word written elsewhere leaves a byte as it was. -/
theorem byte_write_of_le (m : Memory) {a b : UInt64} {w : Width} (value : UInt64)
    (hbeyond : w.bytes ≤ (b - a).toNat) : (m.write a w value).byte b = m.byte b := by
  have hbytes : w.bytes ≤ 8 := by cases w <;> decide
  have hsmall : 8 ≤ UInt64.size := by decide
  unfold write
  rw [byte_setBytes _ _ _ _ (by rw [LittleEndian.length_encode]; omega), List.getD,
    List.getElem?_eq_none (by rw [LittleEndian.length_encode]; exact hbeyond)]
  rfl

theorem bytes_congr {m m' : Memory} {a : UInt64} {n : Nat}
    (hsame : ∀ i, i < n → m.byte (a + UInt64.ofNat i) = m'.byte (a + UInt64.ofNat i)) :
    m.bytes a n = m'.bytes a n := by
  induction n generalizing a with
  | zero => rfl
  | succ n ih =>
      have hfirst := hsame 0 (by omega)
      have hstart : a + UInt64.ofNat 0 = a := UInt64.add_zero a
      rw [hstart] at hfirst
      rw [bytes, bytes, hfirst]
      congr 1
      refine ih fun i hi => ?_
      have hrest := hsame (i + 1) (by omega)
      rwa [add_ofNat_succ] at hrest

theorem getElem?_bytes (m : Memory) (a : UInt64) {n i : Nat} (hi : i < n) :
    (m.bytes a n)[i]? = some (m.byte (a + UInt64.ofNat i)) := by
  induction n generalizing a i with
  | zero => omega
  | succ n ih =>
      cases i with
      | zero => simp [bytes]
      | succ i => rw [bytes, List.getElem?_cons_succ, ih _ (by omega), ← add_ofNat_succ]

theorem bytes_eq_replicate {m : Memory} {a : UInt64} {n : Nat} {value : UInt8}
    (hsame : ∀ i, i < n → m.byte (a + UInt64.ofNat i) = value) :
    m.bytes a n = List.replicate n value := by
  refine List.ext_getElem? fun i => ?_
  by_cases hi : i < n
  · rw [getElem?_bytes _ _ hi, hsame i hi, List.getElem?_replicate, if_pos hi]
  · rw [List.getElem?_eq_none (by rw [length_bytes]; omega),
      List.getElem?_eq_none (by rw [List.length_replicate]; omega)]

theorem bytes_setBytes_same (m : Memory) (a : UInt64) (values : List UInt8)
    (hlength : values.length < UInt64.size) :
    (m.setBytes a values).bytes a values.length = values := by
  refine List.ext_getElem? fun i => ?_
  by_cases hi : i < values.length
  · have hdistance : (a + UInt64.ofNat i - a).toNat = i := by
      rw [UInt64.add_comm, UInt64.add_sub_cancel, UInt64.toNat_ofNat']
      simp only [UInt64.size] at hlength
      omega
    rw [getElem?_bytes _ _ hi, byte_setBytes _ _ _ _ (by omega), hdistance, List.getD,
      List.getElem?_eq_getElem hi]
    rfl
  · rw [List.getElem?_eq_none (l := values) (by omega),
      List.getElem?_eq_none (by rw [length_bytes]; omega)]

/-! ## Words -/

theorem read_write_quad (m : Memory) (a value : UInt64) :
    (m.write a .quad value).read a .quad = value := by
  have hwindow := bytes_setBytes_same m a (LittleEndian.encode 8 value.toNat)
    (by rw [LittleEndian.length_encode]; decide)
  rw [LittleEndian.length_encode] at hwindow
  show LittleEndian.word64 ((m.setBytes a (LittleEndian.encode 8 value.toNat)).bytes a 8) = value
  rw [hwindow, LittleEndian.word64, LittleEndian.decode_encode]
  have hcapacity : LittleEndian.capacity 8 = UInt64.size := by decide
  rw [hcapacity, Nat.mod_eq_of_lt value.toNat_lt_size, UInt64.ofNat_toNat]

theorem read_write_long (m : Memory) (a : UInt64) (n : Nat) (hn : n < 0x100000000) :
    ((m.write a .long (UInt64.ofNat n)).read a .long).toNat = n := by
  have hsmall : n < UInt64.size := by
    simp only [UInt64.size]
    omega
  have hvalue : (UInt64.ofNat n).toNat = n := by
    rw [UInt64.toNat_ofNat', Nat.mod_eq_of_lt hsmall]
  have hwindow := bytes_setBytes_same m a (LittleEndian.encode 4 n)
    (by rw [LittleEndian.length_encode]; decide)
  rw [LittleEndian.length_encode] at hwindow
  show (LittleEndian.word64 ((m.setBytes a
    (LittleEndian.encode 4 (UInt64.ofNat n).toNat)).bytes a 4)).toNat = n
  rw [hvalue, hwindow, LittleEndian.word64, LittleEndian.decode_encode]
  have hcapacity : LittleEndian.capacity 4 = 0x100000000 := by decide
  rw [hcapacity, Nat.mod_eq_of_lt hn, hvalue]

/-! ## Agreement on a range -/

/-- The two memories hold the same bytes at the addresses from `start` to `stop`. -/
def AgreeOn (m m' : Memory) (start stop : Nat) : Prop :=
  ∀ a : UInt64, start ≤ a.toNat → a.toNat < stop → m.byte a = m'.byte a

namespace AgreeOn

variable {m m' m'' : Memory} {start stop : Nat}

theorem trans (h : m.AgreeOn m' start stop) (h' : m'.AgreeOn m'' start stop) :
    m.AgreeOn m'' start stop :=
  fun a hstart hstop => (h a hstart hstop).trans (h' a hstart hstop)

theorem mono (h : m.AgreeOn m' start stop) {start' stop' : Nat} (hstart : start ≤ start')
    (hstop : stop' ≤ stop) : m.AgreeOn m' start' stop' :=
  fun a ha ha' => h a (by omega) (by omega)

/-- A word whose bytes lie in the range is the same in both. -/
theorem read (h : m.AgreeOn m' start stop) {a : UInt64} {w : Width}
    (hstart : start ≤ a.toNat) (hstop : a.toNat + w.bytes ≤ stop) (hfits : stop ≤ UInt64.size) :
    m.read a w = m'.read a w := by
  unfold Memory.read
  rw [bytes_congr]
  intro i hi
  have hplace := toNat_add_ofNat (a := a) (n := i) (by omega)
  exact h _ (by omega) (by omega)

/-- A word written beside the range leaves it alone. -/
theorem write (m : Memory) {a : UInt64} {w : Width} (value : UInt64)
    (hfits : a.toNat + w.bytes ≤ UInt64.size)
    (hbeside : a.toNat + w.bytes ≤ start ∨ stop ≤ a.toNat) :
    (m.write a w value).AgreeOn m start stop := by
  intro b hstart hstop
  apply byte_write_of_le
  have ha := a.toNat_lt
  have hb := b.toNat_lt
  rw [UInt64.toNat_sub]
  simp only [UInt64.size] at hfits
  omega

/-- A range filled beside leaves it alone. -/
theorem fill (m : Memory) {a : UInt64} {length : Nat} (value : UInt8)
    (hbeside : a.toNat + length ≤ start ∨ stop ≤ a.toNat) :
    (m.fill a length value).AgreeOn m start stop := by
  intro b hstart hstop
  rw [byte_fill, if_neg (by omega)]

end AgreeOn

/-! ## Words in a row -/

/-- The `n` 64-bit words from an address on. -/
def words (m : Memory) (a : UInt64) : Nat → List UInt64
  | 0 => []
  | n + 1 => m.read a .quad :: m.words (a + 8) n

/-- Words whose bytes lie in a range are the same in memories that agree there. -/
theorem AgreeOn.words {m m' : Memory} {start stop : Nat} (h : m.AgreeOn m' start stop)
    {a : UInt64} {n : Nat} (hstart : start ≤ a.toNat) (hstop : a.toNat + 8 * n ≤ stop)
    (hfits : stop < UInt64.size) : m.words a n = m'.words a n := by
  induction n generalizing a with
  | zero => rfl
  | succ n ih =>
      have hnext : (a + 8).toNat = a.toNat + 8 := toNat_add_ofNat (n := 8) (by omega)
      have hfirst : m.read a .quad = m'.read a .quad :=
        h.read hstart (show a.toNat + 8 ≤ stop by omega) (by omega)
      rw [Memory.words, Memory.words, hfirst, ih (by omega) (by omega)]

end Memory

end BytecodeMachine
