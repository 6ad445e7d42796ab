import BytecodeMachine.Proofs.Instruction.Reading

/-!
# Decoding the fields of an instruction

An instruction part decodes its fields one after the other before it does anything else.
`Exec.Decodes kinds size x s post` says so of the part `x`: either `x` stops with a fault on
the way, and then it has done nothing but decode some of the fields, or all fields are there
and the answer of `x` satisfies `post`.

Decoding moves the cursor forward, notes things in the latch, and steps the registers of
increment and decrement operands.  `State.Decoding` says that two states differ in no more
than that.
-/

namespace BytecodeMachine

/-! ## The operands among the fields -/

/-- The operand moves this general register when it is resolved. -/
def Operand.Steps (o : Operand) (r : RegisterIndex) : Prop :=
  ∃ how n, o = .stepped how n ∧ RegisterIndex.ofByte n = r

theorem Operand.get_moved (o : Operand) (size : Nat) (f : RegisterFile) {bank : Bank}
    {r : RegisterIndex} (hstays : bank = .general → ¬o.Steps r) :
    (o.moved size f).get bank r = f.get bank r := by
  cases o with
  | stepped how n =>
      have hother : ¬(Bank.general = bank ∧ RegisterIndex.ofByte n = r) := by
        rintro ⟨hbank, hr⟩
        exact hstays hbank.symm ⟨how, n, rfl, hr⟩
      rw [Operand.moved, RegisterFile.get_set, if_neg hother]
  | _ => rfl

namespace RegisterFile

/-- The registers after operands of the given sizes have been resolved one after the other. -/
def stepped (f : RegisterFile) (operands : List (Operand × Nat)) : RegisterFile :=
  operands.foldl (fun f entry => entry.1.moved entry.2 f) f

@[simp]
theorem stepped_nil (f : RegisterFile) : f.stepped [] = f := rfl

@[simp]
theorem stepped_cons (f : RegisterFile) (o : Operand) (size : Nat)
    (operands : List (Operand × Nat)) :
    f.stepped ((o, size) :: operands) = (o.moved size f).stepped operands := rfl

/-- A cell that no operand steps stays as it was. -/
theorem get_stepped (f : RegisterFile) {operands : List (Operand × Nat)} {bank : Bank}
    {r : RegisterIndex}
    (hstays : bank = .general → ∀ entry ∈ operands, ¬entry.1.Steps r) :
    (f.stepped operands).get bank r = f.get bank r := by
  induction operands generalizing f with
  | nil => rfl
  | cons entry rest ih =>
      obtain ⟨o, size⟩ := entry
      rw [stepped_cons, ih _ fun hbank other hother => hstays hbank other (by simp [hother])]
      exact o.get_moved size f fun hbank => hstays hbank (o, size) (by simp)

theorem get_stepped_float (f : RegisterFile) (operands : List (Operand × Nat))
    (r : RegisterIndex) : (f.stepped operands).get .float r = f.get .float r :=
  f.get_stepped (by simp)

end RegisterFile

namespace FieldKind

/-- The size of an operand of this kind, where the fields before it give `size`. -/
def operandSize (kind : FieldKind) (size : Nat) : Nat :=
  match kind with
  | operand fixed => fixed
  | _ => size

/-- The operands among fields of the given kinds, each with its size. -/
def operands : List FieldKind → Nat → List Field → List (Operand × Nat)
  | kind :: kinds, size, field :: fields =>
      match field with
      | .operand o =>
          (o, kind.operandSize size) :: operands kinds (field.operandSize size) fields
      | _ => operands kinds (field.operandSize size) fields
  | _, _, _ => []

theorem length_take?_le {bytes front : List UInt8} {n : Nat}
    (htake : take? bytes n = some front) : n ≤ bytes.length := by
  unfold take? at htake
  simp only [List.length_take] at htake
  split at htake
  · cases htake
  · omega

/-- A field lies within the bytes it is read from. -/
theorem length_read?_le {kind : FieldKind} {size n : Nat} {bytes : List UInt8} {field : Field}
    (hread : kind.read? size bytes = some (field, n)) : n ≤ bytes.length := by
  have hbyte : ∀ make, readByte? bytes make = some (field, n) → n ≤ bytes.length := by
    intro make hmake
    cases bytes with
    | nil => cases hmake
    | cons byte rest =>
        cases hmake
        simp
  have hlong : ∀ make, readLong? bytes make = some (field, n) → n ≤ bytes.length := by
    intro make hmake
    obtain ⟨front, htake, hpair⟩ := Option.map_eq_some_iff.mp hmake
    cases hpair
    exact length_take?_le htake
  have hoperand : ∀ fixed, readOperand? bytes fixed = some (field, n) → n ≤ bytes.length := by
    intro fixed hmake
    obtain ⟨⟨o, length⟩, hparse, hpair⟩ := Option.map_eq_some_iff.mp hmake
    cases hpair
    obtain ⟨byte, rest, rfl, hrest, -, rfl⟩ := Operand.exists_of_parse?_some hparse
    rw [List.length_cons]
    omega
  cases kind with
  | hostModule => exact hbyte _ hread
  | branch => exact hlong _ hread
  | condition arity => exact hbyte _ hread
  | operand fixed => exact hoperand _ hread
  | sizedOperand => exact hoperand _ hread
  | registerPair bank => exact hbyte _ hread
  | mask => exact hlong _ hread
  | frameRegister => exact hbyte _ hread
  | displacement => exact hlong _ hread

/-- A list of kinds that begins with one reads that field and then the others. -/
theorem readAll?_cons_of_some {kind : FieldKind} {kinds : List FieldKind} {size n more : Nat}
    {bytes : List UInt8} {field : Field} {fields : List Field}
    (hread : kind.read? size bytes = some (field, n))
    (hrest : readAll? kinds (field.operandSize size) (bytes.drop n) = some (fields, more)) :
    readAll? (kind :: kinds) size bytes = some (field :: fields, n + more) := by
  simp only [readAll?, hread, hrest]

theorem readAll?_cons_of_none {kind : FieldKind} {kinds : List FieldKind} {size n : Nat}
    {bytes : List UInt8} {field : Field} (hread : kind.read? size bytes = some (field, n))
    (hrest : readAll? kinds (field.operandSize size) (bytes.drop n) = none) :
    readAll? (kind :: kinds) size bytes = none := by
  simp only [readAll?, hread, hrest]

/-- Fields lie within the bytes they are read from. -/
theorem length_readAll?_le {kinds : List FieldKind} {size n : Nat} {bytes : List UInt8}
    {fields : List Field} (hread : readAll? kinds size bytes = some (fields, n)) :
    n ≤ bytes.length := by
  induction kinds generalizing size bytes fields n with
  | nil =>
      cases hread
      exact Nat.zero_le _
  | cons kind kinds ih =>
      cases hfield : kind.read? size bytes with
      | none => simp [readAll?, hfield] at hread
      | some parsed =>
          obtain ⟨field, length⟩ := parsed
          cases hrest : readAll? kinds (field.operandSize size) (bytes.drop length) with
          | none => simp [readAll?_cons_of_none hfield hrest] at hread
          | some parsed =>
              obtain ⟨others, more⟩ := parsed
              rw [readAll?_cons_of_some hfield hrest] at hread
              cases hread
              have hfirst := length_read?_le hfield
              have hlast := ih hrest
              rw [List.length_drop] at hlast
              omega

end FieldKind

/-! ## The cursor while an operand is decoded -/

namespace State

/-- The cursor has moved forward and has not left the code. -/
structure Onward (s t : State) : Prop where
  code : t.code = s.code
  forward : s.cursor ≤ t.cursor
  within : s.cursor ≤ s.code.length → t.cursor ≤ s.code.length

theorem Onward.refl (s : State) : s.Onward s := ⟨rfl, Nat.le_refl _, id⟩

theorem Onward.trans {s t u : State} (hst : s.Onward t) (htu : t.Onward u) : s.Onward u := by
  refine ⟨htu.code.trans hst.code, Nat.le_trans hst.forward htu.forward, fun hs => ?_⟩
  have ht := hst.within hs
  rw [← hst.code] at ht ⊢
  exact htu.within ht

/-- A state that differs in neither cursor nor code. -/
theorem Onward.of_same {s t : State} (hcode : t.code = s.code) (hcursor : t.cursor = s.cursor) :
    s.Onward t :=
  ⟨hcode, Nat.le_of_eq hcursor.symm, fun hs => by rwa [hcursor]⟩

end State

namespace Exec

variable {α β : Type}

/-- However the part ends, the cursor has moved forward within the code. -/
def Advances (x : Exec α) : Prop :=
  ∀ s, match x s with
    | .ok _ t => s.Onward t
    | .error _ t => s.Onward t

theorem advances_pure (a : α) : Advances (pure a) := State.Onward.refl

theorem advances_throw (f : Fault) : Advances (throw f : Exec α) := State.Onward.refl

theorem advances_get : Advances (get : Exec State) := State.Onward.refl

theorem advances_modify {g : State → State} (hg : ∀ s : State, s.Onward (g s)) :
    Advances (modify g : Exec PUnit) := hg

theorem advances_bind {x : Exec α} {k : α → Exec β} (hx : Advances x)
    (hk : ∀ a, Advances (k a)) : Advances (x >>= k) := by
  intro s
  have hfirst := hx s
  cases hanswer : x s with
  | error f t =>
      rw [hanswer] at hfirst
      rw [bind_of_error hanswer]
      exact hfirst
  | ok a t =>
      rw [hanswer] at hfirst
      rw [bind_of_ok hanswer]
      have hsecond := hk a t
      cases hrest : k a t with
      | error f u =>
          rw [hrest] at hsecond
          exact hfirst.trans hsecond
      | ok b u =>
          rw [hrest] at hsecond
          exact hfirst.trans hsecond

theorem advances_advance (n : Nat) : Advances (advance n) := by
  intro s
  by_cases hlong : s.cursor + n ≤ s.code.length
  · rw [advance_of_le s n hlong]
    exact ⟨rfl, Nat.le_add_right _ _, fun _ => hlong⟩
  · rw [advance_of_lt s n (by omega)]
    exact State.Onward.refl s

/-- A fetch of bytes, whatever they are decoded to. -/
theorem advances_fetch (decode : List UInt8 → α) (n : Nat) :
    Advances (fetch n >>= fun bytes => pure (decode bytes)) :=
  advances_bind
    (advances_bind (advances_advance n) fun _ =>
      advances_bind advances_get fun _ => advances_pure _)
    fun _ => advances_pure _

theorem advances_locate (mode : UInt8) (a : UInt64) : Advances (locate mode a) := by
  unfold locate
  split
  · exact advances_throw _
  · exact advances_pure _

theorem advances_resolveMode (size : Nat) (destination : Option Location) (mode : UInt8) :
    Advances (resolveMode size destination mode) := by
  have hlocate : ∀ address : State → UInt64,
      Advances (get >>= fun s => locate mode (address s)) :=
    fun address => advances_bind advances_get fun s => advances_locate mode (address s)
  unfold resolveMode
  cases Mode.ofByte mode with
  | register bank r => exact advances_pure _
  | indirect r => exact hlocate _
  | stepped how r =>
      refine advances_bind (fun s => ?_) fun a => advances_locate mode a
      exact State.Onward.of_same rfl rfl
  | displaced r => exact advances_bind (advances_fetch _ 4) fun _ => hlocate _
  | indexed width scale far =>
      cases far with
      | false => exact advances_bind (advances_fetch _ 1) fun _ => hlocate _
      | true =>
          exact advances_bind (advances_fetch _ 1) fun _ =>
            advances_bind (advances_fetch _ 4) fun _ => hlocate _
  | sameAsDestination =>
      cases destination with
      | none => exact advances_throw _
      | some l => exact advances_pure l
  | codeRelative => exact advances_bind (advances_fetch _ 4) fun _ => hlocate _
  | codeIndexed detail far => exact advances_bind (advances_advance _) fun _ => advances_throw _
  | immediate => exact advances_bind (advances_advance _) fun _ => hlocate _
  | absolute => exact advances_bind (advances_fetch _ 8) fun a => advances_locate mode a
  | reserved => exact advances_throw _

theorem advances_resolve (size : Nat) (destination : Option Location) :
    Advances (resolve size destination) :=
  advances_bind (advances_fetch _ 1) fun mode =>
    advances_bind (advances_modify fun _ => State.Onward.of_same rfl rfl) fun _ =>
      advances_resolveMode size destination mode

end Exec

/-! ## Parts that decode fields -/

/-- The faults that the code itself gives rise to: it ends, an operand has no location, or a
byte is no condition. -/
def Fault.isOfCode : Fault → Bool
  | cursorOutOfRange _ | nullAddress _ | badCondition _ => true
  | _ => false

namespace State

/-- The state `t` is `s` after some of the fields of the given kinds have been decoded. -/
def Decoding (s : State) (kinds : List FieldKind) (size : Nat) (t : State) : Prop :=
  ∃ part fields n,
    part <+: kinds ∧ FieldKind.readAll? part size s.ahead = some (fields, n) ∧
    s.cursor + n ≤ t.cursor ∧ (s.cursor ≤ s.code.length → t.cursor ≤ s.code.length) ∧
    t.toCore =
      { s.toCore with
        cursor := t.cursor
        registers := s.registers.stepped (FieldKind.operands part size fields) }

variable {kind : FieldKind} {kinds : List FieldKind} {size : Nat} {s t u : State}

/-- Nothing has been decoded, though the cursor may have passed some bytes. -/
theorem decoding_of_moved (honward : s.Onward t)
    (ht : t.toCore = { s.toCore with cursor := t.cursor }) : s.Decoding kinds size t :=
  ⟨[], [], 0, List.nil_prefix, rfl, honward.forward, honward.within, ht⟩

/-- One field has been decoded, and then some of the others. -/
theorem decoding_cons {field : Field} {n : Nat}
    (hread : kind.read? size s.ahead = some (field, n))
    (hahead : t.ahead = s.ahead.drop n) (hcursor : t.cursor = s.cursor + n)
    (ht : t.toCore =
      { s.toCore with
        cursor := t.cursor
        registers := s.registers.stepped (FieldKind.operands [kind] size [field]) })
    (hrest : t.Decoding kinds (field.operandSize size) u) :
    s.Decoding (kind :: kinds) size u := by
  obtain ⟨part, fields, more, hpart, hfields, hforward, hwithin, hu⟩ := hrest
  have hlength := FieldKind.length_read?_le hread
  have hcode : t.code = s.code := by rw [ht]
  rw [hahead] at hfields
  rw [length_ahead] at hlength
  refine ⟨kind :: part, field :: fields, n + more, ?_,
    FieldKind.readAll?_cons_of_some hread hfields, by omega, fun hs => ?_, ?_⟩
  · exact List.cons_prefix_cons.mpr ⟨rfl, hpart⟩
  · rw [hcode] at hwithin
    exact hwithin (by omega)
  · rw [hu, ht]
    cases field <;> rfl

end State

namespace Exec

variable {α β : Type}

/-- The part `x`, started in `s`, stops while it decodes the fields of the given kinds.  A
fault of the cursor comes only from code that is cut off. -/
def StopsDecoding (kinds : List FieldKind) (size : Nat) (x : Exec α) (s : State) : Prop :=
  ∃ f t, x s = .error f t ∧ s.Decoding kinds size t ∧ f.isOfCode = true ∧
    (FieldKind.readAll? kinds size s.ahead ≠ none → ∀ a, f ≠ .cursorOutOfRange a)

/-- The part `x`, started in `s`, decodes the fields of the given kinds and then answers as
`post` says. -/
def Decodes (kinds : List FieldKind) (size : Nat) (x : Exec α) (s : State)
    (post : List Field → Nat → EStateM.Result Fault State α → Prop) : Prop :=
  StopsDecoding kinds size x s ∨
    ∃ fields n, FieldKind.readAll? kinds size s.ahead = some (fields, n) ∧
      post fields (s.cursor + n) (x s)

variable {kind : FieldKind} {kinds : List FieldKind} {size : Nat} {x y : Exec α} {s t : State}
  {post : List Field → Nat → EStateM.Result Fault State α → Prop}

theorem decodes_nil (hpost : post [] s.cursor (x s)) : Decodes [] size x s post :=
  Or.inr ⟨[], 0, rfl, hpost⟩

/-- Only the answer in the given state counts. -/
theorem decodes_congr (hxy : x s = y s) (hy : Decodes kinds size y s post) :
    Decodes kinds size x s post := by
  unfold Decodes StopsDecoding at hy ⊢
  rw [hxy]
  exact hy

/-- A fault that is none of the cursor may come at any time. -/
theorem decodes_of_fault {f : Fault} (hf : f.isOfCode = true)
    (hcursor : ∀ a, f ≠ .cursorOutOfRange a) (hx : x s = .error f t) (honward : s.Onward t)
    (ht : t.toCore = { s.toCore with cursor := t.cursor }) : Decodes kinds size x s post :=
  Or.inl ⟨f, t, hx, State.decoding_of_moved honward ht, hf, fun _ => hcursor⟩

/-- The first field is cut off. -/
theorem decodes_cons_of_none {f : Fault} (hread : kind.read? size s.ahead = none)
    (hf : f.isOfCode = true) (hx : x s = .error f t) (honward : s.Onward t)
    (ht : t.toCore = { s.toCore with cursor := t.cursor }) :
    Decodes (kind :: kinds) size x s post := by
  refine Or.inl ⟨f, t, hx, State.decoding_of_moved honward ht, hf, fun hcomplete => ?_⟩
  exact absurd (by simp only [FieldKind.readAll?, hread]) hcomplete

/-- After the first field, the part goes on as `y` in a state behind the field. -/
theorem decodes_cons_of_some (field : Field) (n : Nat)
    (hread : kind.read? size s.ahead = some (field, n)) (hx : x s = y t)
    (hahead : t.ahead = s.ahead.drop n) (hcursor : t.cursor = s.cursor + n)
    (ht : t.toCore =
      { s.toCore with
        cursor := t.cursor
        registers := s.registers.stepped (FieldKind.operands [kind] size [field]) })
    (hrest : Decodes kinds (field.operandSize size) y t
      (fun fields next answer => post (field :: fields) next answer)) :
    Decodes (kind :: kinds) size x s post := by
  obtain ⟨f, u, hy, hdecoding, hf, hcomplete⟩ | ⟨fields, more, hfields, hpost⟩ := hrest
  · refine Or.inl ⟨f, u, hx.trans hy, State.decoding_cons hread hahead hcursor ht hdecoding,
      hf, fun hall => hcomplete fun hnone => hall ?_⟩
    rw [hahead] at hnone
    exact FieldKind.readAll?_cons_of_none hread hnone
  · rw [hahead] at hfields
    refine Or.inr ⟨field :: fields, n + more, FieldKind.readAll?_cons_of_some hread hfields, ?_⟩
    rw [hx, ← Nat.add_assoc, ← hcursor]
    exact hpost

/-- A field of one byte. -/
theorem decodes_byte (make : UInt8 → Field) {k : UInt8 → Exec α}
    (hkind : kind.read? size s.ahead = FieldKind.readByte? s.ahead make)
    (hmake : ∀ byte, FieldKind.operands [kind] size [make byte] = [])
    (hrest : ∀ byte, Decodes kinds ((make byte).operandSize size) (k byte)
      { s with cursor := s.cursor + 1 }
      (fun fields next answer => post (make byte :: fields) next answer)) :
    Decodes (kind :: kinds) size (fetchByte >>= k) s post := by
  cases hahead : s.ahead with
  | nil =>
      refine decodes_cons_of_none ?_ rfl (bind_of_error (fetchByte_of_nil s hahead))
        (State.Onward.refl s) rfl
      rw [hkind, hahead]
      rfl
  | cons byte rest =>
      refine decodes_cons_of_some (make byte) 1 ?_
        (bind_of_ok (fetchByte_of_cons s hahead)) (State.ahead_skip s 1 _ _) rfl ?_ (hrest byte)
      · rw [hkind, hahead]
        rfl
      · rw [hmake]
        rfl

/-- A field of four bytes. -/
theorem decodes_long {decode : List UInt8 → β} (make : β → Field) {k : β → Exec α}
    (hkind : kind.read? size s.ahead =
      FieldKind.readLong? s.ahead (fun front => make (decode front)))
    (hmake : ∀ value, FieldKind.operands [kind] size [make value] = [])
    (hrest : ∀ value, Decodes kinds ((make value).operandSize size) (k value)
      { s with cursor := s.cursor + 4 }
      (fun fields next answer => post (make value :: fields) next answer)) :
    Decodes (kind :: kinds) size ((fetch 4 >>= fun bytes => pure (decode bytes)) >>= k) s
      post := by
  have hlength := s.length_ahead
  by_cases hlong : s.cursor + 4 ≤ s.code.length
  · have htake : FieldKind.take? s.ahead 4 = some (s.ahead.take 4) := by
      unfold FieldKind.take?
      rw [if_neg (by rw [List.length_take]; omega)]
    refine decodes_cons_of_some (make (decode (s.ahead.take 4))) 4 ?_
      (bind_of_ok (fetch_decoded_of_le decode s 4 hlong)) (State.ahead_skip s 4 _ _) rfl ?_
      (hrest _)
    · rw [hkind, FieldKind.readLong?, htake]
      rfl
    · rw [hmake]
      rfl
  · have htake : FieldKind.take? s.ahead 4 = none := by
      unfold FieldKind.take?
      rw [if_pos (by rw [List.length_take]; omega)]
    refine decodes_cons_of_none ?_ rfl
      (bind_of_error (fetch_decoded_of_lt decode s 4 (by omega))) (State.Onward.refl s) rfl
    rw [hkind, FieldKind.readLong?, htake]
    rfl

/-- A condition byte that tests one operand. -/
theorem decodes_test {k : OperandType × Test → Exec α}
    (hrest : ∀ byte type test, Condition.monadic? byte = some (type, test) →
      Decodes kinds type.size (k (type, test)) { s with cursor := s.cursor + 1 }
        (fun fields next answer => post (.condition .monadic byte :: fields) next answer)) :
    Decodes (.condition .monadic :: kinds) size (fetchTest >>= k) s post := by
  unfold fetchTest
  rw [bind_assoc]
  refine decodes_byte (.condition .monadic) rfl (fun _ => rfl) ?_
  intro byte
  cases hcondition : Condition.monadic? byte with
  | none =>
      exact decodes_of_fault rfl (by simp) (bind_throw _ k _) (State.Onward.refl _) rfl
  | some condition =>
      obtain ⟨type, test⟩ := condition
      have hsize : (Field.condition .monadic byte).operandSize size = type.size :=
        Condition.operandSize_of_monadic? hcondition
      rw [hsize]
      exact hrest byte type test hcondition

/-- A condition byte that compares two operands. -/
theorem decodes_relation {k : UInt8 × OperandType × Relation → Exec α}
    (hrest : ∀ byte type relation, Condition.dyadic? byte = some (type, relation) →
      Decodes kinds type.size (k (byte, type, relation)) { s with cursor := s.cursor + 1 }
        (fun fields next answer => post (.condition .dyadic byte :: fields) next answer)) :
    Decodes (.condition .dyadic :: kinds) size (fetchRelation >>= k) s post := by
  unfold fetchRelation
  rw [bind_assoc]
  refine decodes_byte (.condition .dyadic) rfl (fun _ => rfl) ?_
  intro byte
  cases hcondition : Condition.dyadic? byte with
  | none =>
      exact decodes_of_fault rfl (by simp) (bind_throw _ k _) (State.Onward.refl _) rfl
  | some condition =>
      obtain ⟨type, relation⟩ := condition
      have hsize : (Field.condition .dyadic byte).operandSize size = type.size :=
        Condition.operandSize_of_dyadic? hcondition
      rw [hsize]
      exact hrest byte type relation hcondition

/-- An operand that is resolved with a given destination to refer to. -/
theorem decodes_operand {operandSize : Nat} {destination : Option Location}
    {k : Location → Exec α}
    (hkind : kind.read? size s.ahead = FieldKind.readOperand? s.ahead operandSize)
    (hsize : kind.operandSize size = operandSize)
    (hrest : ∀ o mode l,
      o.location? operandSize s.registers s.code.base s.cursor
        (s.cursor + o.extent operandSize) destination = some l →
      Decodes kinds size (k l) (s.past o operandSize (o.extent operandSize) mode)
        (fun fields next answer => post (.operand o :: fields) next answer)) :
    Decodes (kind :: kinds) size (resolve operandSize destination >>= k) s post := by
  cases hparse : Operand.parse? s.ahead operandSize with
  | none =>
      obtain ⟨address, t, hresolve, ht⟩ :=
        resolve_of_parse?_none s operandSize destination hparse
      have honward := advances_resolve operandSize destination s
      rw [hresolve] at honward
      refine decodes_cons_of_none ?_ rfl (bind_of_error hresolve) honward ?_
      · rw [hkind, FieldKind.readOperand?, hparse]
        rfl
      · exact congrArg State.toCore ht
  | some parsed =>
      obtain ⟨o, n⟩ := parsed
      obtain ⟨mode, -, hresolve⟩ :=
        resolve_of_parse?_some s operandSize destination hparse
      have hextent := Operand.length_of_parse? hparse
      subst hextent
      have hread : kind.read? size s.ahead = some (.operand o, o.extent operandSize) := by
        rw [hkind, FieldKind.readOperand?, hparse]
        rfl
      cases hlocation : o.location? operandSize s.registers s.code.base s.cursor
          (s.cursor + o.extent operandSize) destination with
      | none =>
          rw [hlocation] at hresolve
          refine decodes_cons_of_some (y := fun t => .error (.nullAddress mode) t) _ _ hread
            (bind_of_error hresolve) (State.ahead_skip s _ _ _) rfl ?_
            (decodes_of_fault rfl (by simp) rfl (State.Onward.refl _) rfl)
          rw [FieldKind.operands, hsize]
          rfl
      | some l =>
          rw [hlocation] at hresolve
          refine decodes_cons_of_some _ _ hread (bind_of_ok hresolve) (State.ahead_skip s _ _ _)
            rfl ?_ (hrest o mode l hlocation)
          rw [FieldKind.operands, hsize]
          rfl

/-- The destination operand, whose location is noted. -/
theorem decodes_destination {operandSize : Nat} {k : Location → Exec α}
    (hkind : kind.read? size s.ahead = FieldKind.readOperand? s.ahead operandSize)
    (hsize : kind.operandSize size = operandSize)
    (hrest : ∀ o mode l,
      o.location? operandSize s.registers s.code.base s.cursor
        (s.cursor + o.extent operandSize) none = some l →
      Decodes kinds size (k l) ((s.past o operandSize (o.extent operandSize) mode).noting l)
        (fun fields next answer => post (.operand o :: fields) next answer)) :
    Decodes (kind :: kinds) size (resolveDestination operandSize >>= k) s post := by
  unfold resolveDestination
  rw [bind_assoc]
  refine decodes_operand hkind hsize ?_
  intro o mode l hlocation
  exact hrest o mode l hlocation

/-- A source operand, which may refer to the noted destination. -/
theorem decodes_source {operandSize : Nat} {k : Location → Exec α}
    (hkind : kind.read? size s.ahead = FieldKind.readOperand? s.ahead operandSize)
    (hsize : kind.operandSize size = operandSize)
    (hrest : ∀ o mode l,
      o.location? operandSize s.registers s.code.base s.cursor
        (s.cursor + o.extent operandSize) s.latch.destination = some l →
      Decodes kinds size (k l) (s.past o operandSize (o.extent operandSize) mode)
        (fun fields next answer => post (.operand o :: fields) next answer)) :
    Decodes (kind :: kinds) size (resolveSource operandSize >>= k) s post := by
  refine decodes_congr (y := resolve operandSize s.latch.destination >>= k) rfl ?_
  exact decodes_operand hkind hsize hrest

/-- The only operand of an instruction, which must have an address. -/
theorem decodes_address {operandSize : Nat} {k : UInt64 → Exec α}
    (hkind : kind.read? size s.ahead = FieldKind.readOperand? s.ahead operandSize)
    (hsize : kind.operandSize size = operandSize)
    (hrest : ∀ o mode a,
      o.address? operandSize s.registers s.code.base s.cursor
        (s.cursor + o.extent operandSize) = some a →
      Decodes kinds size (k a) (s.past o operandSize (o.extent operandSize) mode)
        (fun fields next answer => post (.operand o :: fields) next answer)) :
    Decodes (kind :: kinds) size (resolveAddress operandSize >>= k) s post := by
  unfold resolveAddress resolveOnly
  rw [bind_assoc]
  refine decodes_operand hkind hsize ?_
  intro o mode l hlocation
  cases l with
  | register bank r =>
      exact decodes_of_fault rfl (by simp) (bind_of_error rfl) (State.Onward.refl _) rfl
  | memory a =>
      refine decodes_congr (y := k a) (bind_of_ok rfl) ?_
      exact hrest o mode a (Operand.address?_of_location? hlocation)

end Exec

end BytecodeMachine
