import BytecodeMachine.Proofs.Operand.Codec

/-!
# The operand codec in both directions

Reading an operand and writing it again gives back the bytes that were read, up to the bits
that no operand looks at: the low nibble of the modes `0xa_` and `0xb_`, and the bytes of an
immediate behind its eighth.

* `Operand.canonical` clears those bits in the bytes of an operand;
* `Operand.InRange` describes the operands that writing keeps as they are;
* `Operand.encode_of_parse?` is the direction from bytes to operands and back;
* `Operand.parse?_take_of_lt` says that a part of an operand is no operand;
* `Operand.encode_and_parse?_inverse` puts the two directions together.
-/

namespace BytecodeMachine

/-! ## Numbers from their bytes -/

namespace LittleEndian

theorem encode_zero (n : Nat) : encode n 0 = List.replicate n 0 := by
  induction n with
  | zero => rfl
  | succ n ih =>
      rw [encode, Nat.zero_div, ih]
      rfl

/-- A number is followed by zero bytes in a field that is longer than the number. -/
theorem encode_decode (bytes : List UInt8) (n : Nat) (hlength : bytes.length ≤ n) :
    encode n (decode bytes) = bytes ++ List.replicate (n - bytes.length) 0 := by
  induction bytes generalizing n with
  | nil => exact encode_zero n
  | cons byte rest ih =>
      cases n with
      | zero => simp at hlength
      | succ n =>
          have hbyte : byte.toNat < 256 := byte.toNat_lt
          have hhead : UInt8.ofNat (byte.toNat + 256 * decode rest) = byte := by
            apply UInt8.toNat_inj.mp
            rw [UInt8.toNat_ofNat']
            show (byte.toNat + 256 * decode rest) % 256 = byte.toNat
            omega
          have htail : (byte.toNat + 256 * decode rest) / 256 = decode rest := by omega
          have hrest : rest.length ≤ n := Nat.le_of_succ_le_succ hlength
          rw [decode, encode, hhead, htail, ih n hrest, List.length_cons, Nat.succ_sub_succ]
          rfl

/-- How many numbers some bytes can hold, as a power of two. -/
theorem capacity_eq_pow (n : Nat) : capacity n = Nat.pow 2 (8 * n) := by
  induction n with
  | zero => rfl
  | succ n ih =>
      have hpow : Nat.pow 2 (8 * (n + 1)) = Nat.pow 2 (8 * n) * 256 := Nat.pow_add 2 (8 * n) 8
      rw [capacity, ih, hpow, Nat.mul_comm]

theorem capacity_mono {m n : Nat} (hle : m ≤ n) : capacity m ≤ capacity n := by
  rw [capacity_eq_pow, capacity_eq_pow]
  exact Nat.pow_le_pow_right (by decide) (by omega)

theorem toNat_word64 (bytes : List UInt8) (hlength : bytes.length ≤ 8) :
    (word64 bytes).toNat = decode bytes := by
  have hcapacity : capacity 8 = UInt64.size := by decide
  rw [word64, UInt64.toNat_ofNat']
  apply Nat.mod_eq_of_lt
  calc decode bytes < capacity bytes.length := decode_lt bytes
    _ ≤ capacity 8 := capacity_mono hlength
    _ = UInt64.size := hcapacity

theorem ofDisplacement_displacement (bytes : List UInt8) (hlength : bytes.length = 4) :
    ofDisplacement (displacement bytes) = bytes := by
  have hcapacity : capacity 4 = UInt32.size := by decide
  have hlt : decode bytes < UInt32.size := by
    have hdecode := decode_lt bytes
    rwa [hlength, hcapacity] at hdecode
  have hword : (displacement bytes).toUInt32.toNat = decode bytes := by
    show (UInt32.ofNat (decode bytes)).toNat = _
    rw [UInt32.toNat_ofNat']
    exact Nat.mod_eq_of_lt hlt
  rw [ofDisplacement, hword, encode_decode bytes 4 (Nat.le_of_eq hlength), hlength]
  exact List.append_nil bytes

end LittleEndian

/-! ## Mode bytes and descriptors -/

namespace Mode

/-- The mode byte that an operand of the mode is written with.  A reserved mode is written
with the byte that it was read from. -/
def byte (mode : Mode) (original : UInt8) : UInt8 :=
  match mode with
  | register .general r => Operand.nibbles 0x0 r
  | register .float r => Operand.nibbles 0x9 r
  | indirect r => Operand.nibbles 0x1 r
  | stepped how r => Operand.nibbles (Operand.steppingNibble how) r
  | displaced r => Operand.nibbles 0x6 r
  | indexed width scale far => Operand.indexedByte (if far then 0x8 else 0x7) width scale
  | sameAsDestination => Operand.nibbles 0xa 0
  | codeRelative => Operand.nibbles 0xb 0
  | codeIndexed detail far => Operand.nibbles (if far then 0xd else 0xc) detail
  | immediate => Operand.nibbles 0xf 0
  | absolute => Operand.nibbles 0xf 1
  | reserved => original

end Mode

namespace Operand

/-- A mode byte without the bits that its mode does not look at. -/
def modeBits (byte : UInt8) : UInt8 :=
  if byte >>> 4 = 0xa ∨ byte >>> 4 = 0xb then byte &&& 0xf0 else byte

/-- The bytes of an operand, with the bits cleared that reading it does not look at: the low
nibble of the modes `0xa_` and `0xb_`, and the bytes of an immediate behind its eighth. -/
def canonical : List UInt8 → List UInt8
  | [] => []
  | byte :: extension =>
      modeBits byte ::
        (if byte = 0xf0 then extension.take 8 ++ List.replicate (extension.length - 8) 0
         else extension)

/-- Every mode is written with the byte that it is read from. -/
theorem byte_ofByte (byte : UInt8) : (Mode.ofByte byte).byte byte = modeBits byte := by
  have hall : ∀ n, n < 256 →
      (Mode.ofByte (UInt8.ofNat n)).byte (UInt8.ofNat n) = modeBits (UInt8.ofNat n) := by
    decide +kernel
  have hbyte := hall byte.toNat byte.toNat_lt
  rwa [UInt8.ofNat_toNat] at hbyte

theorem ofByte_eq_immediate_iff (byte : UInt8) : Mode.ofByte byte = .immediate ↔ byte = 0xf0 := by
  have hall : ∀ n, n < 256 →
      (Mode.ofByte (UInt8.ofNat n) = .immediate ↔ UInt8.ofNat n = 0xf0) := by
    decide +kernel
  have hbyte := hall byte.toNat byte.toNat_lt
  rwa [UInt8.ofNat_toNat] at hbyte

/-- The two registers of a descriptor give the descriptor back. -/
theorem descriptorByte_parts (descriptor : UInt8) :
    descriptorByte (descriptor &&& 0xf) (descriptor >>> 4) = descriptor := by
  have hlt : descriptor.toNat < 256 := descriptor.toNat_lt
  apply UInt8.toNat_inj.mp
  rw [descriptorByte, toNat_nibbles, and_low_eq_mod, UInt8.toNat_mod, UInt8.toNat_shiftRight,
    Nat.shiftRight_eq_div_pow]
  show descriptor.toNat / 16 % 16 * 16 + descriptor.toNat % 16 % 16 = descriptor.toNat
  omega

/-! ## Reading, then writing -/

/-- Only an immediate has an extension with bytes that are not kept. -/
theorem canonical_cons {byte : UInt8} (extension : List UInt8)
    (hmode : Mode.ofByte byte ≠ .immediate) :
    canonical (byte :: extension) = (Mode.ofByte byte).byte byte :: extension := by
  have hbyte : byte ≠ 0xf0 := fun h => hmode ((ofByte_eq_immediate_iff byte).mpr h)
  rw [canonical, if_neg hbyte, byte_ofByte]

/-- A mode byte and its whole extension are written again as they were read. -/
theorem encode_ofParts {byte : UInt8} {extension : List UInt8} {size : Nat}
    (hlength : extension.length = (Mode.ofByte byte).extensionLength size) :
    (ofParts byte extension).encode size = canonical (byte :: extension) := by
  by_cases himmediate : Mode.ofByte byte = .immediate
  · have hbyte : byte = 0xf0 := (ofByte_eq_immediate_iff byte).mp himmediate
    rw [himmediate, Mode.extensionLength_immediate] at hlength
    have htake : (extension.take 8).length ≤ 8 := by
      rw [List.length_take]
      omega
    have hfits : (extension.take 8).length ≤ size := by
      rw [List.length_take]
      omega
    have hrest : size - (extension.take 8).length = extension.length - 8 := by
      rw [List.length_take]
      omega
    rw [ofParts, himmediate, canonical, if_pos hbyte, hbyte]
    show nibbles 0xf 0 :: LittleEndian.encode size (LittleEndian.word64 _).toNat = _
    rw [LittleEndian.toNat_word64 _ htake, LittleEndian.encode_decode _ size hfits, hrest]
    rfl
  · rw [canonical_cons extension himmediate, ofParts]
    -- The mode byte is the one of the mode by definition; what is left is the extension.
    cases hmode : Mode.ofByte byte with
    | immediate => exact absurd hmode himmediate
    | register bank r =>
        rw [hmode] at hlength
        rw [List.eq_nil_of_length_eq_zero hlength]
        cases bank <;> rfl
    | displaced r =>
        rw [hmode] at hlength
        show nibbles 0x6 r :: LittleEndian.ofDisplacement _ = _
        rw [LittleEndian.ofDisplacement_displacement _ hlength]
        rfl
    | codeRelative =>
        rw [hmode] at hlength
        show nibbles 0xb 0 :: LittleEndian.ofDisplacement _ = _
        rw [LittleEndian.ofDisplacement_displacement _ hlength]
        rfl
    | absolute =>
        rw [hmode, Mode.extensionLength_absolute] at hlength
        show nibbles 0xf 1 :: LittleEndian.encode 8 (LittleEndian.word64 _).toNat = _
        rw [LittleEndian.toNat_word64 _ (Nat.le_of_eq hlength),
          LittleEndian.encode_decode _ 8 (Nat.le_of_eq hlength), hlength]
        exact congrArg _ (List.append_nil extension)
    | indexed width scale far =>
        rw [hmode, Mode.extensionLength_indexed] at hlength
        cases extension with
        | nil => cases far <;> simp at hlength
        | cons descriptor rest =>
            rw [List.length_cons] at hlength
            cases far with
            | false =>
                have hrest : rest = [] := List.eq_nil_of_length_eq_zero (by simpa using hlength)
                show [_, descriptorByte (descriptor &&& 0xf) (descriptor >>> 4)] = _
                rw [descriptorByte_parts, hrest]
                rfl
            | true =>
                have hrest : rest.length = 4 := by simpa using hlength
                show _ :: descriptorByte (descriptor &&& 0xf) (descriptor >>> 4) ::
                  LittleEndian.ofDisplacement (LittleEndian.displacement rest) = _
                rw [descriptorByte_parts, LittleEndian.ofDisplacement_displacement rest hrest]
                rfl
    | codeIndexed detail far =>
        rw [hmode, Mode.extensionLength_codeIndexed] at hlength
        cases extension with
        | nil => cases far <;> simp at hlength
        | cons descriptor rest =>
            rw [List.length_cons] at hlength
            cases far with
            | false =>
                have hrest : rest = [] := List.eq_nil_of_length_eq_zero (by simpa using hlength)
                rw [hrest]
                rfl
            | true =>
                have hrest : rest.length = 4 := by simpa using hlength
                show _ :: descriptor ::
                  LittleEndian.ofDisplacement (LittleEndian.displacement rest) = _
                rw [LittleEndian.ofDisplacement_displacement rest hrest]
                rfl
    | _ =>
        -- The modes that are left have no extension.
        rw [hmode] at hlength
        rw [List.eq_nil_of_length_eq_zero hlength]
        rfl

/-- An operand that was read is written again as the bytes it was read from, up to the bits
that reading does not look at. -/
theorem encode_of_parse? {bytes : List UInt8} {size n : Nat} {o : Operand}
    (hparse : parse? bytes size = some (o, n)) :
    o.encode size = canonical (bytes.take n) := by
  obtain ⟨byte, rest, hbytes, hlong, ho, hn⟩ := exists_of_parse?_some hparse
  have htake : bytes.take n =
      byte :: rest.take ((Mode.ofByte byte).extensionLength size) := by
    rw [hbytes, hn, Nat.add_comm 1, List.take_succ_cons]
  rw [ho, htake]
  apply encode_ofParts
  rw [List.length_take]
  omega

/-- An operand that was read lies within the bytes. -/
theorem le_length_of_parse? {bytes : List UInt8} {size n : Nat} {o : Operand}
    (hparse : parse? bytes size = some (o, n)) : n ≤ bytes.length := by
  obtain ⟨byte, rest, hbytes, hlong, -, hn⟩ := exists_of_parse?_some hparse
  rw [hbytes, hn, List.length_cons]
  omega

/-- A part of an operand is no operand. -/
theorem parse?_take_of_lt {bytes : List UInt8} {size n k : Nat} {o : Operand}
    (hparse : parse? bytes size = some (o, n)) (hk : k < n) :
    parse? (bytes.take k) size = none := by
  obtain ⟨byte, rest, hbytes, -, -, hn⟩ := exists_of_parse?_some hparse
  cases k with
  | zero => rfl
  | succ k =>
      have hshort : (rest.take k).length < (Mode.ofByte byte).extensionLength size := by
        rw [List.length_take]
        omega
      rw [hbytes, List.take_succ_cons, parse?_cons, if_pos hshort]

/-! ## Operands in range -/

/-- The operands of `size` bytes whose numbers fit their fields. -/
def InRange (size : Nat) : Operand → Prop
  | register _ r | indirect r | stepped _ r | displaced r _ => r < 16
  | indexed base index _ scale _ => base < 16 ∧ index < 16 ∧ scale < 4
  | codeIndexed detail _ _ => detail < 16
  | immediate value => value.toNat < LittleEndian.capacity (min size 8)
  | sameAsDestination | codeRelative _ | codeLabel _ | absolute _ | reserved _ => True

theorem mod_eq_self_iff {a b : UInt8} (hb : 0 < b) : a % b = a ↔ a < b := by
  constructor
  · intro hmod
    rw [← hmod]
    exact UInt8.mod_lt a hb
  · intro hlt
    apply UInt8.toNat_inj.mp
    rw [UInt8.toNat_mod]
    exact Nat.mod_eq_of_lt (UInt8.lt_iff_toNat_lt.mp hlt)

theorem immediate_mod_eq_self_iff (value : UInt64) (n : Nat) :
    UInt64.ofNat (value.toNat % LittleEndian.capacity n) = value ↔
      value.toNat < LittleEndian.capacity n := by
  have hpositive : 0 < LittleEndian.capacity n := by
    rw [LittleEndian.capacity_eq_pow]
    exact Nat.pow_pos (by decide)
  have hsmall : value.toNat % LittleEndian.capacity n < UInt64.size :=
    Nat.lt_of_le_of_lt (Nat.mod_le _ _) value.toNat_lt_size
  constructor
  · intro hvalue
    have htoNat := congrArg UInt64.toNat hvalue
    rw [UInt64.toNat_ofNat_of_lt' hsmall] at htoNat
    rw [← htoNat]
    exact Nat.mod_lt _ hpositive
  · intro hlt
    rw [Nat.mod_eq_of_lt hlt, UInt64.ofNat_toNat]

/-- Exactly the operands in range are in normal form. -/
theorem normal_eq_self_iff (o : Operand) (size : Nat) : o.normal size = o ↔ o.InRange size := by
  have hregister : ∀ r : UInt8, r % 16 = r ↔ r < 16 := fun r => mod_eq_self_iff (by decide)
  have hscale : ∀ r : UInt8, r % 4 = r ↔ r < 4 := fun r => mod_eq_self_iff (by decide)
  cases o with
  | immediate value => simp [normal, InRange, immediate_mod_eq_self_iff]
  | _ => simp [normal, InRange, hregister, hscale]

/-! ## Both directions -/

/-- An operand as it is written: a mode byte, and the extension that the mode byte asks for. -/
theorem exists_of_encode {o : Operand} (hsound : o.Sound) (hlabel : ∀ label, o ≠ .codeLabel label)
    (size : Nat) :
    ∃ byte extension, o.encode size = byte :: extension ∧
      extension.length = (Mode.ofByte byte).extensionLength size := by
  have hparse := parse?_encode hsound hlabel size []
  rw [List.append_nil] at hparse
  obtain ⟨byte, extension, hencode, -, -, hn⟩ := exists_of_parse?_some hparse
  refine ⟨byte, extension, hencode, ?_⟩
  have hlength := length_encode o size
  rw [hencode, List.length_cons, ← extent_normal, hn] at hlength
  omega

/-- The codec of operands of any size.  Written operands carry the extension that their mode
byte asks for and are read back in normal form, whatever stands behind them; operands that
were read are written as the bytes they were read from, up to the bits that reading does not
look at, and no shorter part of these bytes is an operand. -/
theorem encode_and_parse?_inverse (size : Nat) :
    (∀ o : Operand, o.Sound → (∀ label, o ≠ .codeLabel label) →
      (∃ byte extension, o.encode size = byte :: extension ∧
        extension.length = (Mode.ofByte byte).extensionLength size) ∧
      (∀ rest, parse? (o.encode size ++ rest) size =
        some (o.normal size, (o.encode size).length)) ∧
      (o.normal size = o ↔ o.InRange size)) ∧
    (∀ (bytes : List UInt8) (o : Operand) (n : Nat), parse? bytes size = some (o, n) →
      n ≤ bytes.length ∧ (o.encode size).length = n ∧
      o.encode size = canonical (bytes.take n) ∧
      ∀ k, k < n → parse? (bytes.take k) size = none) := by
  constructor
  · intro o hsound hlabel
    refine ⟨exists_of_encode hsound hlabel size, ?_, normal_eq_self_iff o size⟩
    intro rest
    rw [parse?_encode hsound hlabel, extent_normal, length_encode]
  · intro bytes o n hparse
    refine ⟨le_length_of_parse? hparse, ?_, encode_of_parse? hparse, ?_⟩
    · rw [length_encode, length_of_parse? hparse]
    · intro k hk
      exact parse?_take_of_lt hparse hk

/-- A scaled index with numbers out of range, and a relative operand whose mode byte has bits
that reading does not look at. -/
theorem encode_and_parse?_inverse_example :
    parse? ((indexed 0x12 0x3f .long 6 none).encode 4 ++ [0xff]) 4 =
        some (indexed 0x2 0xf .long 2 none, 2) ∧
      (codeRelative 5).encode 1 = canonical [0xb7, 5, 0, 0, 0] ∧
      canonical [0xb7, 5, 0, 0, 0] = [0xb0, 5, 0, 0, 0] ∧
      parse? [0xb7, 5, 0, 0] 1 = none := by
  have hwritten := ((encode_and_parse?_inverse 4).1 (indexed 0x12 0x3f .long 6 none) trivial
    (fun _ => Operand.noConfusion)).2.1 [0xff]
  have hread := (encode_and_parse?_inverse 1).2 [0xb7, 5, 0, 0, 0, 9] (codeRelative 5) 5
    (by decide)
  exact ⟨hwritten, hread.2.2.1, by decide, hread.2.2.2 4 (by decide)⟩

end Operand

end BytecodeMachine
