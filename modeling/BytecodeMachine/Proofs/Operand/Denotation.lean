import BytecodeMachine.Execution.Resolve
import BytecodeMachine.Proofs.Execution.Fetch

/-!
# What an operand denotes

An operand in symbolic form denotes a register, the place of the destination, an address,
or nothing.  The denotation is written in integers that are reduced to 64 bits once, so it
does not follow the word arithmetic of the executor.  `Operand.address?` gives the address,
`Operand.location?` the location, `Operand.moved` the registers afterwards.

The main statement is that resolving the operand at the cursor and parsing it from the
bytes ahead agree: the same truncations, the same length, and the denoted location.
-/

namespace BytecodeMachine

/-! ## Words as integers modulo their size -/

namespace Word

theorem toBitVec_ofInt (x : Int) : (UInt64.ofInt x).toBitVec = BitVec.ofInt 64 x := by
  apply BitVec.eq_of_toNat_eq
  rw [BitVec.toNat_ofInt]
  show (UInt64.ofNat (x % 2 ^ 64).toNat).toNat = _
  rw [UInt64.toNat_ofNat']
  omega

theorem ofInt_natCast (n : Nat) : UInt64.ofInt n = UInt64.ofNat n := by
  rw [← UInt64.toBitVec_inj, toBitVec_ofInt, BitVec.ofInt_natCast]
  rfl

theorem ofInt_toNat (a : UInt64) : UInt64.ofInt a.toNat = a := by
  rw [ofInt_natCast, UInt64.ofNat_toNat]

theorem ofInt_toInt (i : Int64) : UInt64.ofInt i.toInt = i.toUInt64 := by
  rw [← UInt64.toBitVec_inj, toBitVec_ofInt]
  exact BitVec.ofInt_toInt

theorem ofInt_sub (x y : Int) : UInt64.ofInt (x - y) = UInt64.ofInt x - UInt64.ofInt y := by
  rw [Int.sub_eq_add_neg, UInt64.ofInt_add, UInt64.ofInt_neg, UInt64.sub_eq_add_neg]

theorem toNat_ofInt {x : Int} (hstart : 0 ≤ x) (hstop : x < UInt64.size) :
    ((UInt64.ofInt x).toNat : Int) = x := by
  obtain ⟨n, rfl⟩ := Int.eq_ofNat_of_zero_le hstart
  rw [ofInt_natCast, UInt64.toNat_ofNat_of_lt' (by omega)]

theorem ofInt_ne_zero {x : Int} (hstart : 0 < x) (hstop : x < UInt64.size) :
    UInt64.ofInt x ≠ 0 := by
  intro hzero
  have hvalue := toNat_ofInt (by omega) hstop
  rw [hzero] at hvalue
  have hnull : (0 : UInt64).toNat = 0 := rfl
  omega

theorem ofInt_shiftLeft (x : Int) (k : UInt8) (hk : k.toNat < 64) :
    UInt64.ofInt (x <<< k.toNat) = UInt64.ofInt x <<< k.toUInt64 := by
  have hcount : (k.toUInt64.toBitVec % 64).toNat = k.toNat := by
    show k.toUInt64.toNat % 64 = k.toNat
    rw [UInt8.toNat_toUInt64]
    omega
  rw [← UInt64.toBitVec_inj, UInt64.toBitVec_shiftLeft, toBitVec_ofInt, toBitVec_ofInt]
  rw [BitVec.shiftLeft_eq', hcount, BitVec.shiftLeft_eq_mul_twoPow, Int.shiftLeft_eq',
    BitVec.ofInt_mul, BitVec.ofInt_natCast]
  congr 1
  apply BitVec.eq_of_toNat_eq
  rw [BitVec.toNat_ofNat, BitVec.toNat_twoPow]

end Word

theorem LittleEndian.extend_eq_ofInt (d : Int32) :
    LittleEndian.extend d = UInt64.ofInt d.toInt := by
  rw [LittleEndian.extend, ← Word.ofInt_toInt, Int32.toInt_toInt64]

theorem Core.codeAddress_eq_ofInt (c : Core) (offset : Nat) :
    c.codeAddress offset = UInt64.ofInt (c.code.base.toNat + offset) := by
  rw [UInt64.ofInt_add, Word.ofInt_toNat, Word.ofInt_natCast]
  rfl

namespace Width

/-- How many numbers a width can hold. -/
def modulus : Width → Nat
  | byte => 0x100
  | word => 0x10000
  | long => 0x100000000
  | quad => 0x10000000000000000

/-- The low bytes of a word as a two's complement number. -/
def signed (w : Width) (x : UInt64) : Int := Int.bmod x.toNat w.modulus

theorem toInt_signExtend (w : Width) (x : UInt64) : (w.signExtend x).toInt = w.signed x := by
  cases w with
  | byte =>
      show x.toUInt8.toInt8.toInt64.toInt = _
      rw [Int8.toInt_toInt64]
      show (x.toBitVec.setWidth 8).toInt = _
      rw [BitVec.toInt_setWidth]
      rfl
  | word =>
      show x.toUInt16.toInt16.toInt64.toInt = _
      rw [Int16.toInt_toInt64]
      show (x.toBitVec.setWidth 16).toInt = _
      rw [BitVec.toInt_setWidth]
      rfl
  | long =>
      show x.toUInt32.toInt32.toInt64.toInt = _
      rw [Int32.toInt_toInt64]
      show (x.toBitVec.setWidth 32).toInt = _
      rw [BitVec.toInt_setWidth]
      rfl
  | quad =>
      show x.toBitVec.toInt = _
      rw [BitVec.toInt_eq_toNat_bmod]
      rfl

theorem ofInt_signed (w : Width) (x : UInt64) :
    UInt64.ofInt (w.signed x) = (w.signExtend x).toUInt64 := by
  rw [← toInt_signExtend, Word.ofInt_toInt]

end Width

/-! ## The denotation -/

namespace Stepping

/-- The address register after a step over `size` bytes. -/
def moved (how : Stepping) (size : Nat) (x : UInt64) : UInt64 :=
  match how with
  | postIncrement | preIncrement => UInt64.ofInt (x.toNat + size)
  | postDecrement | preDecrement => UInt64.ofInt (x.toNat - size)

/-- The address that a stepping operand uses: the register before the step if the step
comes after, and after it otherwise. -/
def used (how : Stepping) (size : Nat) (x : UInt64) : UInt64 :=
  match how with
  | postIncrement | postDecrement => x
  | preIncrement | preDecrement => how.moved size x

end Stepping

namespace Operand

/-- The number of bytes of an operand of `size` bytes, mode byte included. -/
def extent (o : Operand) (size : Nat) : Nat :=
  match o with
  | displaced _ _ | codeRelative _ | codeLabel _ => 5
  | indexed _ _ _ _ none | codeIndexed _ _ none => 2
  | indexed _ _ _ _ (some _) | codeIndexed _ _ (some _) => 6
  | immediate _ => 1 + size
  | absolute _ => 9
  | _ => 1

/-- The address of an operand that stands at the code offsets from `start` to `next`, where
the code begins at `code`; nothing for an operand that has none. -/
def address? (o : Operand) (size : Nat) (f : RegisterFile) (code : UInt64)
    (start next : Nat) : Option UInt64 :=
  let word := fun (r : UInt8) => f.get .general (.ofByte r)
  match o with
  | indirect r => some (word r)
  | stepped how r => some (how.used size (word r))
  | displaced r d => some (UInt64.ofInt ((word r).toNat + d.toInt))
  | indexed base index width scale d =>
      let scaled := width.signed (word index) <<< scale.toNat
      some (UInt64.ofInt ((word base).toNat + scaled + d.elim 0 Int32.toInt))
  | codeRelative d => some (UInt64.ofInt (code.toNat + next + d.toInt))
  | immediate _ => some (UInt64.ofInt (code.toNat + start + 1))
  | absolute a => some a
  | register _ _ | sameAsDestination | codeLabel _ | codeIndexed _ _ _ | reserved _ => none

/-- The location of an operand.  Address zero is no location, and a reference to the
destination has the location of the destination, if there is one. -/
def location? (o : Operand) (size : Nat) (f : RegisterFile) (code : UInt64)
    (start next : Nat) (destination : Option Location) : Option Location :=
  match o with
  | register bank r => some (.register bank (.ofByte r))
  | sameAsDestination => destination
  | _ =>
      match o.address? size f code start next with
      | some a => if a = 0 then none else some (.memory a)
      | none => none

/-- The registers after an operand has been resolved: only a stepping operand moves one. -/
def moved (o : Operand) (size : Nat) (f : RegisterFile) : RegisterFile :=
  match o with
  | stepped how r =>
      f.set .general (.ofByte r) (how.moved size (f.get .general (.ofByte r)))
  | _ => f

/-- An operand in memory is where its address is. -/
theorem location?_of_address? {o : Operand} {size start next : Nat} {f : RegisterFile}
    {code a : UInt64} (haddress : o.address? size f code start next = some a)
    (destination : Option Location) :
    o.location? size f code start next destination =
      if a = 0 then none else some (.memory a) := by
  cases o <;> cases haddress <;> rfl

/-- Without a destination to refer to, a location in memory is the operand's address. -/
theorem address?_of_location? {o : Operand} {size start next : Nat} {f : RegisterFile}
    {code a : UInt64} (hlocation : o.location? size f code start next none = some (.memory a)) :
    o.address? size f code start next = some a := by
  cases haddress : o.address? size f code start next with
  | some b =>
      rw [location?_of_address? haddress] at hlocation
      split at hlocation
      · cases hlocation
      · injection hlocation with hmemory
        injection hmemory with hb
        rw [hb]
  | none => cases o <;> simp_all [address?, location?]

/-- The operands without a location.  A label is written by the assembler only. -/
theorem location?_eq_none_iff (o : Operand) (size : Nat) (f : RegisterFile) (code : UInt64)
    (start next : Nat) (destination : Option Location)
    (hlabel : ∀ label, o ≠ .codeLabel label) :
    o.location? size f code start next destination = none ↔
      (∃ detail descriptor d, o = .codeIndexed detail descriptor d) ∨
      (∃ byte, o = .reserved byte) ∨
      (o = .sameAsDestination ∧ destination = none) ∨
      o.address? size f code start next = some 0 := by
  cases haddress : o.address? size f code start next with
  | some a =>
      rw [location?_of_address? haddress]
      cases o <;> simp_all [address?]
  | none =>
      cases o with
      | codeLabel label => exact absurd rfl (hlabel label)
      | _ => simp_all [address?, location?]

end Operand

/-- The state after an operand of `n` bytes has been resolved. -/
def State.past (s : State) (o : Operand) (size n : Nat) (mode : UInt8) : State :=
  { s with
    cursor := s.cursor + n
    registers := o.moved size s.registers
    latch := { s.latch with mode } }

/-! ## Parsing by the mode byte -/

namespace Mode

theorem extensionLength_displaced (r : UInt8) (size : Nat) :
    (displaced r).extensionLength size = 4 := rfl

theorem extensionLength_codeRelative (size : Nat) : codeRelative.extensionLength size = 4 := rfl

theorem extensionLength_indexed (width : Width) (scale : UInt8) (far : Bool) (size : Nat) :
    (indexed width scale far).extensionLength size = if far then 5 else 1 := rfl

theorem extensionLength_codeIndexed (detail : UInt8) (far : Bool) (size : Nat) :
    (codeIndexed detail far).extensionLength size = if far then 5 else 1 := rfl

theorem extensionLength_immediate (size : Nat) : immediate.extensionLength size = size := rfl

theorem extensionLength_absolute (size : Nat) : absolute.extensionLength size = 8 := rfl

theorem scale_of_ofByte {byte : UInt8} {width : Width} {scale : UInt8} {far : Bool}
    (hmode : ofByte byte = .indexed width scale far) : scale = (byte &&& 0xf) >>> 2 := by
  unfold ofByte at hmode
  grind

theorem scale_lt_of_ofByte {byte : UInt8} {width : Width} {scale : UInt8} {far : Bool}
    (hmode : ofByte byte = .indexed width scale far) : scale.toNat < 64 := by
  have hlow := (byte &&& 0xf).toNat_lt
  rw [scale_of_ofByte hmode, UInt8.toNat_shiftRight, Nat.shiftRight_eq_div_pow]
  show (byte &&& 0xf).toNat / 4 < 64
  omega

end Mode

namespace Operand

theorem parse?_cons (byte : UInt8) (rest : List UInt8) (size : Nat) :
    parse? (byte :: rest) size =
      if rest.length < (Mode.ofByte byte).extensionLength size then none
      else
        some (ofParts byte (rest.take ((Mode.ofByte byte).extensionLength size)),
          1 + (Mode.ofByte byte).extensionLength size) := by
  simp only [parse?, List.length_take]
  by_cases hshort : rest.length < (Mode.ofByte byte).extensionLength size
  · rw [if_pos hshort, if_pos (by omega)]
  · rw [if_neg hshort, if_neg (by omega)]

theorem extent_ofParts (byte : UInt8) (extension : List UInt8) (size : Nat) :
    (ofParts byte extension).extent size = 1 + (Mode.ofByte byte).extensionLength size := by
  unfold ofParts
  cases Mode.ofByte byte with
  | indexed width scale far => cases far <;> rfl
  | codeIndexed detail far => cases far <;> rfl
  | _ => rfl

/-- What a successful parse says: the mode byte and its whole extension are there. -/
theorem exists_of_parse?_some {bytes : List UInt8} {size n : Nat} {o : Operand}
    (hparse : parse? bytes size = some (o, n)) :
    ∃ byte rest, bytes = byte :: rest ∧
      (Mode.ofByte byte).extensionLength size ≤ rest.length ∧
      o = ofParts byte (rest.take ((Mode.ofByte byte).extensionLength size)) ∧
      n = 1 + (Mode.ofByte byte).extensionLength size := by
  cases bytes with
  | nil => cases hparse
  | cons byte rest =>
      rw [parse?_cons] at hparse
      split at hparse
      · cases hparse
      · rename_i hlong
        injection hparse with hpair
        injection hpair with ho hn
        exact ⟨byte, rest, rfl, by omega, ho.symm, hn.symm⟩

/-- A parsed operand occupies as many bytes as its form takes. -/
theorem length_of_parse? {bytes : List UInt8} {size n : Nat} {o : Operand}
    (hparse : parse? bytes size = some (o, n)) : n = o.extent size := by
  obtain ⟨byte, rest, -, -, ho, hn⟩ := exists_of_parse?_some hparse
  rw [ho, hn, extent_ofParts]

theorem ne_codeLabel_of_parse? {bytes : List UInt8} {size n : Nat} {o : Operand}
    (hparse : parse? bytes size = some (o, n)) (label : String) : o ≠ .codeLabel label := by
  obtain ⟨byte, rest, -, -, ho, -⟩ := exists_of_parse?_some hparse
  rw [ho]
  unfold ofParts
  cases Mode.ofByte byte <;> exact Operand.noConfusion

end Operand

/-! ## Resolving by the mode byte -/

namespace Exec

/-- How resolving ends: at the location, or with the fault of an operand that has none. -/
def outcome (mode : UInt8) (location? : Option Location) (t : State) :
    EStateM.Result Fault State Location :=
  match location? with
  | some l => .ok l t
  | none => .error (.nullAddress mode) t

theorem locate_apply (mode : UInt8) (address : UInt64) (s : State) :
    locate mode address s =
      outcome mode (if address = 0 then none else some (.memory address)) s := by
  unfold locate
  by_cases hzero : address = 0
  · rw [if_pos hzero, if_pos hzero]
    rfl
  · rw [if_neg hzero, if_neg hzero]
    rfl

/-- The address of an operand in memory leads to its location. -/
theorem locate_address? {o : Operand} {size start next : Nat} {f : RegisterFile}
    {code a : UInt64} (haddress : o.address? size f code start next = some a) (mode : UInt8)
    (destination : Option Location) (s : State) :
    locate mode a s = outcome mode (o.location? size f code start next destination) s := by
  rw [locate_apply, Operand.location?_of_address? haddress]

theorem step_apply (how : Stepping) (r : RegisterIndex) (size : Nat) (s : State) :
    step how r size s =
      .ok (how.used size (s.general r)) (s.setGeneral r (how.moved size (s.general r))) := by
  have hplus : UInt64.ofInt ((s.general r).toNat + size) = s.general r + UInt64.ofNat size := by
    rw [UInt64.ofInt_add, Word.ofInt_toNat, Word.ofInt_natCast]
  have hminus : UInt64.ofInt ((s.general r).toNat - size) = s.general r - UInt64.ofNat size := by
    rw [Word.ofInt_sub, Word.ofInt_toNat, Word.ofInt_natCast]
  cases how <;> simp only [step, Stepping.used, Stepping.moved, hplus, hminus]

theorem indexedAddress_eq (c : Core) (descriptor : UInt8) (width : Width) (scale : UInt8)
    (hscale : scale.toNat < 64) :
    indexedAddress c descriptor width scale =
      UInt64.ofInt ((c.general (.ofByte (descriptor &&& 0xf))).toNat +
        width.signed (c.general (.ofByte (descriptor >>> 4))) <<< scale.toNat) := by
  rw [UInt64.ofInt_add, Word.ofInt_toNat, Word.ofInt_shiftLeft _ _ hscale,
    Width.ofInt_signed]
  rfl

/-- Where the extension is cut off, resolving faults on the fetch.  It may have passed a
descriptor byte by then, and has changed nothing else. -/
theorem resolveMode_of_short (s : State) (size : Nat) (destination : Option Location)
    (byte : UInt8) (hcursor : s.cursor ≤ s.code.length)
    (hshort : s.ahead.length < (Mode.ofByte byte).extensionLength size) :
    ∃ address t, resolveMode size destination byte s = .error (.cursorOutOfRange address) t ∧
      t = { s with cursor := t.cursor } := by
  rw [State.length_ahead] at hshort
  unfold resolveMode
  cases hmode : Mode.ofByte byte with
  | displaced r =>
      simp only [hmode, Mode.extensionLength_displaced] at hshort ⊢
      rw [bind_of_error (fetchDisplacement_of_lt s (by omega))]
      exact ⟨_, s, rfl, rfl⟩
  | codeRelative =>
      simp only [hmode, Mode.extensionLength_codeRelative] at hshort ⊢
      rw [bind_of_error (fetchDisplacement_of_lt s (by omega))]
      exact ⟨_, s, rfl, rfl⟩
  | indexed width scale far =>
      simp only [hmode, Mode.extensionLength_indexed] at hshort ⊢
      cases hrest : s.ahead with
      | nil =>
          cases far <;> exact ⟨_, s, bind_of_error (fetchByte_of_nil s hrest), rfl⟩
      | cons descriptor rest =>
          have hlength := s.length_ahead
          rw [hrest, List.length_cons] at hlength
          cases far with
          | false => simp at hshort; omega
          | true =>
              simp only [if_true] at hshort
              simp only
              rw [bind_of_ok (fetchByte_of_cons s hrest)]
              rw [bind_of_error (fetchDisplacement_of_lt _ (by simp only; omega))]
              exact ⟨_, _, rfl, rfl⟩
  | codeIndexed detail far =>
      simp only [hmode, Mode.extensionLength_codeIndexed] at hshort ⊢
      rw [bind_of_error (advance_of_lt s _ (by omega))]
      exact ⟨_, s, rfl, rfl⟩
  | immediate =>
      simp only [hmode, Mode.extensionLength_immediate] at hshort ⊢
      rw [bind_of_error (advance_of_lt s _ (by omega))]
      exact ⟨_, s, rfl, rfl⟩
  | absolute =>
      simp only [hmode, Mode.extensionLength_absolute] at hshort ⊢
      rw [bind_of_error (fetchQuad_of_lt s (by omega))]
      exact ⟨_, s, rfl, rfl⟩
  | _ =>
      -- The other modes have no extension that could be cut off.
      rw [hmode] at hshort
      exact absurd hshort (Nat.not_lt_zero _)

/-- With its extension complete, resolving ends at the denoted location behind the
operand.  The mode byte stood at `start`. -/
theorem resolveMode_of_complete (s : State) (size : Nat) (destination : Option Location)
    (byte : UInt8) (start : Nat) (hstart : s.cursor = start + 1)
    (hcursor : s.cursor ≤ s.code.length)
    (hlong : (Mode.ofByte byte).extensionLength size ≤ s.ahead.length) :
    let length := (Mode.ofByte byte).extensionLength size
    let o := Operand.ofParts byte (s.ahead.take length)
    resolveMode size destination byte s =
      outcome byte
        (o.location? size s.registers s.code.base start (s.cursor + length) destination)
        { s with cursor := s.cursor + length, registers := o.moved size s.registers } := by
  rw [State.length_ahead] at hlong
  unfold resolveMode Operand.ofParts
  cases hmode : Mode.ofByte byte with
  | register bank r => rfl
  | indirect r => exact locate_address? rfl byte destination s
  | stepped how r =>
      simp only
      rw [bind_of_ok (step_apply how _ size s)]
      exact locate_address? rfl byte destination _
  | displaced r =>
      simp only [hmode, Mode.extensionLength_displaced] at hlong ⊢
      rw [bind_of_ok (fetchDisplacement_of_le s (by omega)), bind_get]
      refine locate_address? ?_ byte destination _
      rw [LittleEndian.extend_eq_ofInt]
      simp only [Operand.address?, UInt64.ofInt_add, Word.ofInt_toNat]
      rfl
  | indexed width scale far =>
      have hscale := Mode.scale_lt_of_ofByte hmode
      simp only [hmode, Mode.extensionLength_indexed] at hlong ⊢
      cases hrest : s.ahead with
      | nil =>
          have hlength := s.length_ahead
          rw [hrest, List.length_nil] at hlength
          cases far <;> simp at hlong <;> omega
      | cons descriptor rest =>
          have hbyte := fetchByte_of_cons s hrest
          cases far with
          | false =>
              -- The operand counts a displacement that is not there as zero.
              simp only
              rw [bind_of_ok hbyte, bind_get, indexedAddress_eq _ _ _ _ hscale]
              refine locate_address? ?_ byte destination _
              exact congrArg (fun x => some (UInt64.ofInt x)) (Int.add_zero _)
          | true =>
              simp only [if_true] at hlong
              have hlong' : s.cursor + 1 + 4 ≤ s.code.length := by omega
              -- The displacement is fetched from behind the descriptor byte.
              have htail : State.ahead { s with cursor := s.cursor + 1 } = rest := by
                rw [State.ahead_skip s 1 s.registers s.latch, hrest]
                rfl
              simp only
              rw [bind_of_ok hbyte, bind_of_ok (fetchDisplacement_of_le _ hlong'), bind_get,
                indexedAddress_eq _ _ _ _ hscale, htail, LittleEndian.extend_eq_ofInt,
                ← UInt64.ofInt_add]
              exact locate_address? rfl byte destination _
  | sameAsDestination => cases destination <;> rfl
  | codeRelative =>
      simp only [hmode, Mode.extensionLength_codeRelative] at hlong ⊢
      rw [bind_of_ok (fetchDisplacement_of_le s (by omega)), bind_get,
        LittleEndian.extend_eq_ofInt, Core.codeAddress_eq_ofInt, ← UInt64.ofInt_add]
      exact locate_address? rfl byte destination _
  | codeIndexed detail far =>
      simp only [hmode, Mode.extensionLength_codeIndexed] at hlong ⊢
      rw [bind_of_ok (advance_of_le s _ (by omega))]
      rfl
  | immediate =>
      simp only [hmode, Mode.extensionLength_immediate] at hlong ⊢
      rw [bind_of_ok (advance_of_le s _ (by omega)), bind_get, Core.codeAddress_eq_ofInt]
      refine locate_address? ?_ byte destination _
      rw [hstart, Int.natCast_add, ← Int.add_assoc]
      rfl
  | absolute =>
      simp only [hmode, Mode.extensionLength_absolute] at hlong ⊢
      rw [bind_of_ok (fetchQuad_of_le s (by omega))]
      exact locate_address? rfl byte destination _
  | reserved => rfl

/-- Resolving faults on a fetch where parsing finds the operand cut off. -/
theorem resolve_of_parse?_none (s : State) (size : Nat) (destination : Option Location)
    (hparse : Operand.parse? s.ahead size = none) :
    ∃ address t, resolve size destination s = .error (.cursorOutOfRange address) t ∧
      t = { s with cursor := t.cursor, latch := { s.latch with mode := t.latch.mode } } := by
  cases hahead : s.ahead with
  | nil => exact ⟨_, s, bind_of_error (fetchByte_of_nil s hahead), rfl⟩
  | cons byte rest =>
      rw [hahead, Operand.parse?_cons] at hparse
      have hlength := s.length_ahead
      rw [hahead, List.length_cons] at hlength
      have hshort : rest.length < (Mode.ofByte byte).extensionLength size := by
        split at hparse
        · assumption
        · cases hparse
      obtain ⟨address, t, hresolve, ht⟩ :=
        resolveMode_of_short
          { s with cursor := s.cursor + 1, latch := { s.latch with mode := byte } } size
          destination byte (by simp only; omega) (by rw [State.length_ahead]; simp only; omega)
      refine ⟨address, t, ?_, ?_⟩
      · rw [resolve, bind_of_ok (fetchByte_of_cons s hahead), bind_modify]
        exact hresolve
      · rw [ht]

/-- Resolving ends where the parsed operand denotes. -/
theorem resolve_of_parse?_some (s : State) (size : Nat) (destination : Option Location)
    {o : Operand} {n : Nat} (hparse : Operand.parse? s.ahead size = some (o, n)) :
    ∃ mode, s.ahead.head? = some mode ∧
      resolve size destination s =
        outcome mode
          (o.location? size s.registers s.code.base s.cursor (s.cursor + n) destination)
          (s.past o size n mode) := by
  obtain ⟨byte, rest, hahead, hlong, ho, hn⟩ := Operand.exists_of_parse?_some hparse
  subst ho hn
  have hlength := s.length_ahead
  rw [hahead, List.length_cons] at hlength
  let t : State := { s with cursor := s.cursor + 1, latch := { s.latch with mode := byte } }
  have htail : t.ahead = rest := by
    rw [State.ahead_skip s 1 s.registers, hahead]
    rfl
  have hcomplete := resolveMode_of_complete t size destination byte s.cursor rfl
    (by show s.cursor + 1 ≤ s.code.length; omega) (by rw [htail]; exact hlong)
  simp only [htail] at hcomplete
  refine ⟨byte, by rw [hahead]; rfl, ?_⟩
  rw [resolve, bind_of_ok (fetchByte_of_cons s hahead), bind_modify, State.past,
    ← Nat.add_assoc]
  exact hcomplete

end Exec

/-! ## The executor's operands are the parser's -/

/-- The run-time decoder is the denotation of the symbolic parser.  It faults on a fetch
exactly where the parser finds the operand cut off, and then no register has moved.
Otherwise it leaves the cursor behind the operand and the registers as the operand moves
them, and ends at the denoted location.  There is none, and the fault is a null address
under the mode byte, exactly for a mode without a location, a missing destination and
address zero. -/
theorem resolve_denotes_parsed_operand (s : State) (size : Nat)
    (destination : Option Location) :
    ((∃ address t,
        Exec.resolve size destination s = .error (.cursorOutOfRange address) t) ↔
      Operand.parse? (s.codeBytes.drop s.cursor) size = none) ∧
    (∀ address t, Exec.resolve size destination s = .error (.cursorOutOfRange address) t →
      t = { s with cursor := t.cursor, latch := { s.latch with mode := t.latch.mode } }) ∧
    ∀ o n, Operand.parse? (s.codeBytes.drop s.cursor) size = some (o, n) →
      ∃ mode, s.codeBytes[s.cursor]? = some mode ∧
        Exec.resolve size destination s =
          Exec.outcome mode
            (o.location? size s.registers s.code.base s.cursor (s.cursor + n) destination)
            (s.past o size n mode) ∧
        (o.location? size s.registers s.code.base s.cursor (s.cursor + n) destination = none ↔
          (∃ detail descriptor d, o = .codeIndexed detail descriptor d) ∨
          (∃ byte, o = .reserved byte) ∨
          (o = .sameAsDestination ∧ destination = none) ∨
          o.address? size s.registers s.code.base s.cursor (s.cursor + n) = some 0) := by
  show ((∃ address t, Exec.resolve size destination s = .error (.cursorOutOfRange address) t) ↔
    Operand.parse? s.ahead size = none) ∧ _
  cases hparse : Operand.parse? s.ahead size with
  | none =>
      obtain ⟨address, t, hresolve, ht⟩ :=
        Exec.resolve_of_parse?_none s size destination hparse
      refine ⟨⟨fun _ => rfl, fun _ => ⟨address, t, hresolve⟩⟩, ?_, ?_⟩
      · intro address' t' hresolve'
        rw [hresolve] at hresolve'
        injection hresolve' with _ hstate
        rw [← hstate]
        exact ht
      · intro o n hsome
        exact absurd (hparse.symm.trans hsome) (by simp)
  | some parsed =>
      obtain ⟨o, n⟩ := parsed
      obtain ⟨mode, hmode, hresolve⟩ :=
        Exec.resolve_of_parse?_some s size destination hparse
      -- A parsed operand never ends in a fault of the fetch.
      have hfetched : ∀ address t,
          Exec.resolve size destination s ≠ .error (.cursorOutOfRange address) t := by
        intro address t
        rw [hresolve]
        unfold Exec.outcome
        split <;> simp
      refine ⟨⟨?_, by simp⟩, ?_, ?_⟩
      · rintro ⟨address, t, hfault⟩
        exact absurd hfault (hfetched address t)
      · intro address t hfault
        exact absurd hfault (hfetched address t)
      · intro o' n' hsome
        have hpair : (o, n) = (o', n') := Option.some.inj (hparse.symm.trans hsome)
        injection hpair with ho hn
        subst ho hn
        refine ⟨mode, ?_, hresolve, ?_⟩
        · rw [← hmode, State.ahead, List.head?_drop]
        · exact Operand.location?_eq_none_iff o size s.registers s.code.base s.cursor
            (s.cursor + n) destination (Operand.ne_codeLabel_of_parse? hparse)

end BytecodeMachine
