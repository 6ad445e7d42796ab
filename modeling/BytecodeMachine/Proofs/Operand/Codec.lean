import BytecodeMachine.Proofs.Operand.Denotation

/-!
# Operands as bytes

Writing an operand and reading it back gives the operand in normal form: register numbers and
details modulo sixteen, scales modulo four, an immediate cut to the size of the operand.  A
label stands for a displacement that is not known when the operand is written, and a reserved
mode byte is read back as one only if it is reserved indeed; both are left out here.

The main statement, `Operand.parse?_encode`, allows any bytes behind the operand, so that it
serves for the operands of an instruction one after the other.
-/

namespace BytecodeMachine

/-! ## Numbers in little-endian form -/

namespace LittleEndian

theorem word64_encode (value : UInt64) : word64 (encode 8 value.toNat) = value := by
  have hcapacity : capacity 8 = UInt64.size := by decide
  rw [word64, decode_encode, hcapacity, Nat.mod_eq_of_lt value.toNat_lt_size,
    UInt64.ofNat_toNat]

theorem word32_encode (value : UInt32) : word32 (encode 4 value.toNat) = value := by
  have hcapacity : capacity 4 = UInt32.size := by decide
  rw [word32, decode_encode, hcapacity, Nat.mod_eq_of_lt value.toNat_lt_size,
    UInt32.ofNat_toNat]

theorem displacement_ofDisplacement (d : Int32) : displacement (ofDisplacement d) = d := by
  rw [displacement, ofDisplacement, word32_encode]
  rfl

@[simp]
theorem length_ofDisplacement (d : Int32) : (ofDisplacement d).length = 4 :=
  length_encode 4 _

/-- The first bytes of a number are its low bytes. -/
theorem take_encode (k n value : Nat) : (encode n value).take k = encode (min n k) value := by
  induction n generalizing k value with
  | zero => simp [encode]
  | succ n ih =>
      cases k with
      | zero => simp [encode]
      | succ k => rw [encode, List.take_succ_cons, ih, Nat.succ_min_succ, encode]

end LittleEndian

namespace Operand

/-! ## Two numbers in one byte -/

theorem and_low_eq_mod (x : UInt8) : x &&& 0xf = x % 16 := by
  apply UInt8.toNat_inj.mp
  rw [UInt8.toNat_and, UInt8.toNat_mod]
  exact Nat.and_two_pow_sub_one_eq_mod _ 4

theorem toNat_nibbles (high low : UInt8) :
    (nibbles high low).toNat = high.toNat % 16 * 16 + low.toNat % 16 := by
  have hshift : (high <<< 4).toNat = 2 ^ 4 * (high.toNat % 16) := by
    rw [UInt8.toNat_shiftLeft, Nat.shiftLeft_eq]
    show high.toNat * 16 % 256 = _
    omega
  have hlow : low.toNat % 16 < 2 ^ 4 := Nat.mod_lt _ (by decide)
  rw [nibbles, UInt8.toNat_or, and_low_eq_mod, UInt8.toNat_mod, hshift]
  show 2 ^ 4 * (high.toNat % 16) ||| low.toNat % 16 = _
  rw [← Nat.two_pow_add_eq_or_of_lt hlow]
  omega

theorem nibbles_shiftRight (high low : UInt8) : nibbles high low >>> 4 = high % 16 := by
  apply UInt8.toNat_inj.mp
  rw [UInt8.toNat_shiftRight, toNat_nibbles, UInt8.toNat_mod, Nat.shiftRight_eq_div_pow]
  show (high.toNat % 16 * 16 + low.toNat % 16) / 16 = high.toNat % 16
  omega

theorem nibbles_and (high low : UInt8) : nibbles high low &&& 0xf = low % 16 := by
  apply UInt8.toNat_inj.mp
  rw [and_low_eq_mod, UInt8.toNat_mod, toNat_nibbles, UInt8.toNat_mod]
  show (high.toNat % 16 * 16 + low.toNat % 16) % 16 = low.toNat % 16
  omega

/-- The width and the scale of an indexed operand share the low half of its mode byte. -/
theorem toNat_widthAndScale (width : Width) (scale : UInt8) :
    (width.code ||| scaleBits scale).toNat = 4 * (scale.toNat % 4) + width.code.toNat := by
  have hscale : (scaleBits scale).toNat = 2 ^ 2 * (scale.toNat % 4) := by
    have hlow : (scale &&& 0x3).toNat = scale.toNat % 4 := by
      rw [UInt8.toNat_and]
      exact Nat.and_two_pow_sub_one_eq_mod _ 2
    rw [scaleBits, UInt8.toNat_shiftLeft, hlow, Nat.shiftLeft_eq]
    show scale.toNat % 4 * 4 % 256 = _
    omega
  have hwidth : width.code.toNat < 2 ^ 2 := by cases width <;> decide
  rw [UInt8.toNat_or, hscale, Nat.or_comm, ← Nat.two_pow_add_eq_or_of_lt hwidth]

theorem widthAndScale_shiftRight (width : Width) (scale : UInt8) :
    ((width.code ||| scaleBits scale) % 16) >>> 2 = scale % 4 := by
  have hwidth : width.code.toNat < 4 := by cases width <;> decide
  apply UInt8.toNat_inj.mp
  rw [UInt8.toNat_shiftRight, UInt8.toNat_mod, toNat_widthAndScale, UInt8.toNat_mod,
    Nat.shiftRight_eq_div_pow]
  show (4 * (scale.toNat % 4) + width.code.toNat) % 16 / 4 = scale.toNat % 4
  omega

theorem ofCode_widthAndScale (width : Width) (scale : UInt8) :
    Width.ofCode ((width.code ||| scaleBits scale) % 16) = width := by
  have hwidth : width.code.toNat < 4 := by cases width <;> decide
  have hselector : ((width.code ||| scaleBits scale) % 16 &&& 0x3).toNat = width.code.toNat := by
    rw [UInt8.toNat_and, UInt8.toNat_mod, toNat_widthAndScale]
    show ((4 * (scale.toNat % 4) + width.code.toNat) % 16) &&& (2 ^ 2 - 1) = _
    rw [Nat.and_two_pow_sub_one_eq_mod]
    omega
  unfold Width.ofCode
  rw [hselector]
  cases width <;> rfl

/-! ## Normal forms -/

/-- What the encoding of an operand of `size` bytes keeps of it. -/
def normal (size : Nat) : Operand → Operand
  | register bank r => register bank (r % 16)
  | indirect r => indirect (r % 16)
  | stepped how r => stepped how (r % 16)
  | displaced r d => displaced (r % 16) d
  | indexed base index width scale d => indexed (base % 16) (index % 16) width (scale % 4) d
  | codeIndexed detail descriptor d => codeIndexed (detail % 16) descriptor d
  | immediate value =>
      immediate (UInt64.ofNat (value.toNat % LittleEndian.capacity (min size 8)))
  | sameAsDestination => sameAsDestination
  | codeRelative d => codeRelative d
  | codeLabel label => codeLabel label
  | absolute address => absolute address
  | reserved byte => reserved byte

/-- A reserved operand has a mode byte that is reserved. -/
def Sound : Operand → Prop
  | reserved byte => 0xe0 ≤ byte ∧ byte ≠ 0xf0 ∧ byte ≠ 0xf1
  | _ => True

instance : DecidablePred Sound
  | reserved byte => inferInstanceAs (Decidable (0xe0 ≤ byte ∧ byte ≠ 0xf0 ∧ byte ≠ 0xf1))
  | register .. | indirect .. | stepped .. | displaced .. | indexed .. | codeIndexed ..
  | immediate .. | sameAsDestination | codeRelative .. | codeLabel .. | absolute .. =>
      .isTrue trivial

/-! ## Writing, then reading -/

theorem length_encode (o : Operand) (size : Nat) : (o.encode size).length = o.extent size := by
  cases o with
  | register bank r => cases bank <;> rfl
  | indexed base index width scale d => cases d <;> rfl
  | codeIndexed detail descriptor d => cases d <;> rfl
  | immediate value =>
      simp [encode, extent]
      omega
  | _ => simp [encode, extent]

theorem extent_normal (o : Operand) (size : Nat) : (o.normal size).extent size = o.extent size := by
  cases o with
  | indexed base index width scale d => cases d <;> rfl
  | codeIndexed detail descriptor d => cases d <;> rfl
  | _ => rfl

/-- A mode byte with its whole extension is read as the operand of the two, whatever comes
behind. -/
theorem parse?_of_mode {byte : UInt8} {m : Mode} {extension : List UInt8} {o : Operand}
    {size : Nat} (hmode : Mode.ofByte byte = m)
    (hlength : extension.length = m.extensionLength size) (ho : ofParts byte extension = o)
    (rest : List UInt8) :
    parse? (byte :: extension ++ rest) size = some (o, o.extent size) := by
  rw [List.cons_append, parse?_cons, hmode, ← hlength, if_neg (by simp), List.take_left, ho,
    ← ho, extent_ofParts, hmode, hlength]

/-- The mode bytes that are reserved. -/
theorem ofByte_reserved {byte : UInt8} (hsound : (reserved byte).Sound) :
    Mode.ofByte byte = .reserved := by
  have hall : ∀ n, n < 256 → 0xe0 ≤ n → n ≠ 0xf0 → n ≠ 0xf1 →
      Mode.ofByte (UInt8.ofNat n) = .reserved := by decide +kernel
  obtain ⟨hfrom, himmediate, habsolute⟩ := hsound
  have hbyte := hall byte.toNat byte.toNat_lt (UInt8.le_iff_toNat_le.mp hfrom)
    (fun h => himmediate (UInt8.toNat_inj.mp h)) (fun h => habsolute (UInt8.toNat_inj.mp h))
  rwa [UInt8.ofNat_toNat] at hbyte

/-- An operand that was written is read back in normal form, whatever comes behind it. -/
theorem parse?_encode {o : Operand} (hsound : o.Sound) (hlabel : ∀ label, o ≠ .codeLabel label)
    (size : Nat) (rest : List UInt8) :
    parse? (o.encode size ++ rest) size = some (o.normal size, (o.normal size).extent size) := by
  cases o with
  | register bank r =>
      cases bank with
      | general =>
          have hmode : Mode.ofByte (nibbles 0x0 r) = .register .general (r % 16) := by
            rw [Mode.ofByte, nibbles_shiftRight, nibbles_and]
            rfl
          refine parse?_of_mode hmode rfl ?_ rest
          rw [ofParts, hmode, normal]
      | float =>
          have hmode : Mode.ofByte (nibbles 0x9 r) = .register .float (r % 16) := by
            rw [Mode.ofByte, nibbles_shiftRight, nibbles_and]
            rfl
          refine parse?_of_mode hmode rfl ?_ rest
          rw [ofParts, hmode, normal]
  | indirect r =>
      have hmode : Mode.ofByte (nibbles 0x1 r) = .indirect (r % 16) := by
        rw [Mode.ofByte, nibbles_shiftRight, nibbles_and]
        rfl
      refine parse?_of_mode hmode rfl ?_ rest
      rw [ofParts, hmode, normal]
  | stepped how r =>
      have hmode : Mode.ofByte (nibbles (steppingNibble how) r) = .stepped how (r % 16) := by
        rw [Mode.ofByte, nibbles_shiftRight, nibbles_and]
        cases how <;> rfl
      refine parse?_of_mode hmode rfl ?_ rest
      rw [ofParts, hmode, normal]
  | displaced r d =>
      have hmode : Mode.ofByte (nibbles 0x6 r) = .displaced (r % 16) := by
        rw [Mode.ofByte, nibbles_shiftRight, nibbles_and]
        rfl
      refine parse?_of_mode hmode (LittleEndian.length_ofDisplacement d) ?_ rest
      rw [ofParts, hmode, normal]
      simp only [LittleEndian.displacement_ofDisplacement]
  | indexed base index width scale d =>
      -- The two forms differ in the upper nibble alone; width and scale share the lower one.
      have hmode : ∀ (high : UInt8) (far : Bool), (high = 0x7 ∧ far = false) ∨
          (high = 0x8 ∧ far = true) →
          Mode.ofByte (indexedByte high width scale) = .indexed width (scale % 4) far := by
        rintro high far (⟨rfl, rfl⟩ | ⟨rfl, rfl⟩)
        all_goals
          rw [indexedByte, Mode.ofByte, nibbles_shiftRight, nibbles_and]
          show Mode.indexed (Width.ofCode ((width.code ||| scaleBits scale) % 16))
            (((width.code ||| scaleBits scale) % 16) >>> 2) _ = _
          rw [ofCode_widthAndScale, widthAndScale_shiftRight]
      cases d with
      | none =>
          refine parse?_of_mode (hmode 0x7 false (by simp)) rfl ?_ rest
          rw [ofParts, hmode 0x7 false (by simp), normal]
          simp only [List.headD_cons, descriptorByte, nibbles_and, nibbles_shiftRight]
          rfl
      | some d =>
          refine parse?_of_mode (hmode 0x8 true (by simp)) ?_ ?_ rest
          · rw [List.length_cons, LittleEndian.length_ofDisplacement, Mode.extensionLength_indexed,
              if_pos rfl]
          · rw [ofParts, hmode 0x8 true (by simp), normal]
            simp only [List.headD_cons, descriptorByte, nibbles_and, nibbles_shiftRight,
              List.tail_cons, LittleEndian.displacement_ofDisplacement]
            rfl
  | sameAsDestination =>
      have hmode : Mode.ofByte (nibbles 0xa 0) = .sameAsDestination := by decide
      refine parse?_of_mode hmode rfl ?_ rest
      rw [ofParts, hmode, normal]
  | codeRelative d =>
      have hmode : Mode.ofByte (nibbles 0xb 0) = .codeRelative := by decide
      refine parse?_of_mode hmode (LittleEndian.length_ofDisplacement d) ?_ rest
      rw [ofParts, hmode, normal]
      simp only [LittleEndian.displacement_ofDisplacement]
  | codeLabel label => exact absurd rfl (hlabel label)
  | codeIndexed detail descriptor d =>
      cases d with
      | none =>
          have hmode : Mode.ofByte (nibbles 0xc detail) = .codeIndexed (detail % 16) false := by
            rw [Mode.ofByte, nibbles_shiftRight, nibbles_and]
            rfl
          refine parse?_of_mode hmode rfl ?_ rest
          rw [ofParts, hmode, normal]
          rfl
      | some d =>
          have hmode : Mode.ofByte (nibbles 0xd detail) = .codeIndexed (detail % 16) true := by
            rw [Mode.ofByte, nibbles_shiftRight, nibbles_and]
            rfl
          refine parse?_of_mode hmode ?_ ?_ rest
          · rw [List.length_cons, LittleEndian.length_ofDisplacement,
              Mode.extensionLength_codeIndexed, if_pos rfl]
          · rw [ofParts, hmode, normal]
            simp only [List.headD_cons, List.tail_cons,
              LittleEndian.displacement_ofDisplacement]
            rfl
  | immediate value =>
      have hmode : Mode.ofByte (nibbles 0xf 0) = .immediate := by decide
      refine parse?_of_mode hmode (LittleEndian.length_encode size _) ?_ rest
      rw [ofParts, hmode, normal]
      simp only [LittleEndian.take_encode, LittleEndian.word64, LittleEndian.decode_encode]
  | absolute address =>
      have hmode : Mode.ofByte (nibbles 0xf 1) = .absolute := by decide
      refine parse?_of_mode hmode (LittleEndian.length_encode 8 _) ?_ rest
      rw [ofParts, hmode, normal]
      simp only [LittleEndian.word64_encode]
  | reserved byte =>
      have hmode := ofByte_reserved hsound
      refine parse?_of_mode hmode rfl ?_ rest
      rw [ofParts, hmode, normal]

end Operand

end BytecodeMachine
