import BytecodeMachine.Execution.Transfer
import BytecodeMachine.Instruction.Basic
import BytecodeMachine.Proofs.Operand.Denotation

/-!
# Instruction parts that read their fields

The listing reads the fields after an opcode byte by a list of field kinds; the executor
fetches and resolves them one at a time while it works.  `Exec.Reads kinds size x s post`
says that the part `x` takes its bytes as those kinds do: where the code ends within the
fields, `x` faults, and where they are complete, its answer satisfies `post` of the fields
and of the offset behind them.

The lemmas take one field off the front: a byte, four bytes, a condition, or an operand.
-/

namespace BytecodeMachine

theorem Condition.operandSize_of_monadic? {byte : UInt8} {type : OperandType} {test : Test}
    (hcondition : Condition.monadic? byte = some (type, test)) :
    Condition.operandSize byte = type.size := by
  unfold Condition.monadic? at hcondition
  unfold Condition.operandSize
  cases htype : OperandType.ofNibble? (byte >>> 4) with
  | none => simp [htype] at hcondition
  | some type' =>
      cases htest : Test.ofNibble? (byte &&& 0xf) with
      | none => simp [htype, htest] at hcondition
      | some test' => simp_all

theorem Condition.operandSize_of_dyadic? {byte : UInt8} {type : OperandType}
    {relation : Relation} (hcondition : Condition.dyadic? byte = some (type, relation)) :
    Condition.operandSize byte = type.size := by
  unfold Condition.dyadic? at hcondition
  unfold Condition.operandSize
  cases htype : OperandType.ofNibble? (byte >>> 4) with
  | none => simp [htype] at hcondition
  | some type' =>
      cases hrelation : Relation.ofNibble? (byte &&& 0xf) with
      | none => simp [htype, hrelation] at hcondition
      | some relation' =>
          simp only [htype, hrelation, Option.bind_eq_bind, Option.bind_some] at hcondition
          split at hcondition
          · cases hcondition
          · injection hcondition with hpair
            injection hpair with htypes _
            rw [htypes]

/-- The state with a location noted as that of the destination. -/
def State.noting (s : State) (l : Location) : State :=
  { s with latch := { s.latch with destination := some l } }

namespace Exec

variable {α β : Type}

/-- The part `x`, started in `s`, reads the fields of the given kinds. -/
def Reads (kinds : List FieldKind) (size : Nat) (x : Exec α) (s : State)
    (post : List Field → Nat → EStateM.Result Fault State α → Prop) : Prop :=
  match FieldKind.readAll? kinds size s.ahead with
  | none => ∃ f t, x s = .error f t
  | some (fields, n) => post fields (s.cursor + n) (x s)

/-- Every fault but one of the cursor is admitted, whatever the fields. -/
def Admits (post : List Field → Nat → EStateM.Result Fault State α → Prop) : Prop :=
  ∀ fields next f t, (∀ a, f ≠ .cursorOutOfRange a) → post fields next (.error f t)

variable {kind : FieldKind} {kinds : List FieldKind} {size : Nat} {x y : Exec α} {s t : State}
  {post : List Field → Nat → EStateM.Result Fault State α → Prop}

theorem reads_nil (hpost : post [] s.cursor (x s)) : Reads [] size x s post := hpost

/-- Only the answer in the given state counts. -/
theorem reads_congr (hxy : x s = y s) (hy : Reads kinds size y s post) :
    Reads kinds size x s post := by
  unfold Reads at hy ⊢
  rw [hxy]
  exact hy

/-- An admitted fault may come at any time. -/
theorem reads_of_error {f : Fault} (hpost : Admits post) (hf : ∀ a, f ≠ .cursorOutOfRange a)
    (hx : x s = .error f t) : Reads kinds size x s post := by
  unfold Reads
  split
  · exact ⟨f, t, hx⟩
  · rw [hx]
    exact hpost _ _ f t hf

theorem reads_cons_of_none {f : Fault} (hread : kind.read? size s.ahead = none)
    (hx : x s = .error f t) : Reads (kind :: kinds) size x s post := by
  unfold Reads
  simp only [FieldKind.readAll?, hread]
  exact ⟨f, t, hx⟩

/-- After the first field, the part goes on as `y` in a state behind the field. -/
theorem reads_cons_of_some (field : Field) (n : Nat)
    (hread : kind.read? size s.ahead = some (field, n)) (hx : x s = y t)
    (hahead : t.ahead = s.ahead.drop n) (hcursor : t.cursor = s.cursor + n)
    (hrest : Reads kinds (field.operandSize size) y t
      (fun fields next answer => post (field :: fields) next answer)) :
    Reads (kind :: kinds) size x s post := by
  unfold Reads at hrest ⊢
  simp only [FieldKind.readAll?, hread]
  rw [hahead] at hrest
  cases hfields : FieldKind.readAll? kinds (field.operandSize size) (s.ahead.drop n) with
  | none =>
      rw [hfields] at hrest
      rw [hx]
      exact hrest
  | some parsed =>
      obtain ⟨fields, more⟩ := parsed
      rw [hfields] at hrest
      simp only at hrest ⊢
      rw [hx, ← Nat.add_assoc, ← hcursor]
      exact hrest

/-- A field of one byte. -/
theorem reads_byte (make : UInt8 → Field) {k : UInt8 → Exec α}
    (hkind : kind.read? size s.ahead = FieldKind.readByte? s.ahead make)
    (hrest : ∀ byte, Reads kinds ((make byte).operandSize size) (k byte)
      { s with cursor := s.cursor + 1 }
      (fun fields next answer => post (make byte :: fields) next answer)) :
    Reads (kind :: kinds) size (fetchByte >>= k) s post := by
  cases hahead : s.ahead with
  | nil =>
      refine reads_cons_of_none ?_ (bind_of_error (fetchByte_of_nil s hahead))
      rw [hkind, hahead]
      rfl
  | cons byte rest =>
      refine reads_cons_of_some (make byte) 1 ?_
        (bind_of_ok (fetchByte_of_cons s hahead)) (State.ahead_skip s 1 _ _) rfl
        (hrest byte)
      rw [hkind, hahead]
      rfl

/-- A field of four bytes. -/
theorem reads_long {decode : List UInt8 → β} (make : β → Field) {k : β → Exec α}
    (hkind : kind.read? size s.ahead =
      FieldKind.readLong? s.ahead (fun front => make (decode front)))
    (hrest : ∀ value, Reads kinds ((make value).operandSize size) (k value)
      { s with cursor := s.cursor + 4 }
      (fun fields next answer => post (make value :: fields) next answer)) :
    Reads (kind :: kinds) size ((fetch 4 >>= fun bytes => pure (decode bytes)) >>= k) s post := by
  have hlength := s.length_ahead
  by_cases hlong : s.cursor + 4 ≤ s.code.length
  · refine reads_cons_of_some (make (decode (s.ahead.take 4))) 4 ?_
      (bind_of_ok (fetch_decoded_of_le decode s 4 hlong)) (State.ahead_skip s 4 _ _) rfl
      (hrest _)
    have htake : FieldKind.take? s.ahead 4 = some (s.ahead.take 4) := by
      unfold FieldKind.take?
      rw [if_neg (by rw [List.length_take]; omega)]
    rw [hkind, FieldKind.readLong?, htake]
    rfl
  · refine reads_cons_of_none ?_
      (bind_of_error (fetch_decoded_of_lt decode s 4 (by omega)))
    have htake : FieldKind.take? s.ahead 4 = none := by
      unfold FieldKind.take?
      rw [if_pos (by rw [List.length_take]; omega)]
    rw [hkind, FieldKind.readLong?, htake]
    rfl

/-- A condition byte that tests one operand gives the operands after it their size. -/
theorem reads_test {k : OperandType × Test → Exec α} (hpost : Admits post)
    (hrest : ∀ byte type test, Condition.monadic? byte = some (type, test) →
      Reads kinds type.size (k (type, test)) { s with cursor := s.cursor + 1 }
        (fun fields next answer => post (.condition .monadic byte :: fields) next answer)) :
    Reads (.condition .monadic :: kinds) size (fetchTest >>= k) s post := by
  unfold fetchTest
  rw [bind_assoc]
  refine reads_byte (.condition .monadic) rfl ?_
  intro byte
  cases hcondition : Condition.monadic? byte with
  | none =>
      exact reads_of_error (fun fields => hpost (_ :: fields)) (by simp) (bind_throw _ k _)
  | some condition =>
      obtain ⟨type, test⟩ := condition
      have hsize : (Field.condition .monadic byte).operandSize size = type.size :=
        Condition.operandSize_of_monadic? hcondition
      rw [hsize]
      exact hrest byte type test hcondition

/-- A condition byte that compares two operands gives them their size. -/
theorem reads_relation {k : UInt8 × OperandType × Relation → Exec α} (hpost : Admits post)
    (hrest : ∀ byte type relation, Condition.dyadic? byte = some (type, relation) →
      Reads kinds type.size (k (byte, type, relation)) { s with cursor := s.cursor + 1 }
        (fun fields next answer => post (.condition .dyadic byte :: fields) next answer)) :
    Reads (.condition .dyadic :: kinds) size (fetchRelation >>= k) s post := by
  unfold fetchRelation
  rw [bind_assoc]
  refine reads_byte (.condition .dyadic) rfl ?_
  intro byte
  cases hcondition : Condition.dyadic? byte with
  | none =>
      exact reads_of_error (fun fields => hpost (_ :: fields)) (by simp) (bind_throw _ k _)
  | some condition =>
      obtain ⟨type, relation⟩ := condition
      have hsize : (Field.condition .dyadic byte).operandSize size = type.size :=
        Condition.operandSize_of_dyadic? hcondition
      rw [hsize]
      exact hrest byte type relation hcondition

/-! ## Operands -/

/-- An operand that is resolved with a given destination to refer to. -/
theorem reads_operand {operandSize : Nat} {destination : Option Location}
    {k : Location → Exec α}
    (hkind : kind.read? size s.ahead = FieldKind.readOperand? s.ahead operandSize)
    (hpost : Admits post)
    (hrest : ∀ o mode l,
      o.location? operandSize s.registers s.code.base s.cursor
        (s.cursor + o.extent operandSize) destination = some l →
      Reads kinds size (k l) (s.past o operandSize (o.extent operandSize) mode)
        (fun fields next answer => post (.operand o :: fields) next answer)) :
    Reads (kind :: kinds) size (resolve operandSize destination >>= k) s post := by
  cases hparse : Operand.parse? s.ahead operandSize with
  | none =>
      obtain ⟨address, t, hresolve, -⟩ :=
        resolve_of_parse?_none s operandSize destination hparse
      refine reads_cons_of_none ?_ (bind_of_error hresolve)
      rw [hkind, FieldKind.readOperand?, hparse]
      rfl
  | some parsed =>
      obtain ⟨o, n⟩ := parsed
      obtain ⟨mode, -, hresolve⟩ :=
        resolve_of_parse?_some s operandSize destination hparse
      have hextent := Operand.length_of_parse? hparse
      subst hextent
      cases hlocation : o.location? operandSize s.registers s.code.base s.cursor
          (s.cursor + o.extent operandSize) destination with
      | none =>
          rw [hlocation] at hresolve
          exact reads_of_error hpost (by simp) (bind_of_error hresolve)
      | some l =>
          rw [hlocation] at hresolve
          refine reads_cons_of_some (.operand o) (o.extent operandSize) ?_
            (bind_of_ok hresolve) (State.ahead_skip s _ _ _) rfl (hrest o mode l hlocation)
          rw [hkind, FieldKind.readOperand?, hparse]
          rfl

/-- The destination operand, whose location is noted. -/
theorem reads_destination {operandSize : Nat} {k : Location → Exec α}
    (hkind : kind.read? size s.ahead = FieldKind.readOperand? s.ahead operandSize)
    (hpost : Admits post)
    (hrest : ∀ o mode l,
      o.location? operandSize s.registers s.code.base s.cursor
        (s.cursor + o.extent operandSize) none = some l →
      Reads kinds size (k l) ((s.past o operandSize (o.extent operandSize) mode).noting l)
        (fun fields next answer => post (.operand o :: fields) next answer)) :
    Reads (kind :: kinds) size (resolveDestination operandSize >>= k) s post := by
  unfold resolveDestination
  rw [bind_assoc]
  refine reads_operand hkind hpost ?_
  intro o mode l hlocation
  exact hrest o mode l hlocation

/-- A source operand, which may refer to the noted destination. -/
theorem reads_source {operandSize : Nat} {k : Location → Exec α}
    (hkind : kind.read? size s.ahead = FieldKind.readOperand? s.ahead operandSize)
    (hpost : Admits post)
    (hrest : ∀ o mode l,
      o.location? operandSize s.registers s.code.base s.cursor
        (s.cursor + o.extent operandSize) s.latch.destination = some l →
      Reads kinds size (k l) (s.past o operandSize (o.extent operandSize) mode)
        (fun fields next answer => post (.operand o :: fields) next answer)) :
    Reads (kind :: kinds) size (resolveSource operandSize >>= k) s post := by
  refine reads_congr (y := resolve operandSize s.latch.destination >>= k) rfl ?_
  exact reads_operand hkind hpost hrest

/-- The only operand of an instruction, which must have an address. -/
theorem reads_address {operandSize : Nat} {k : UInt64 → Exec α}
    (hkind : kind.read? size s.ahead = FieldKind.readOperand? s.ahead operandSize)
    (hpost : Admits post)
    (hrest : ∀ o mode a,
      o.address? operandSize s.registers s.code.base s.cursor
        (s.cursor + o.extent operandSize) = some a →
      Reads kinds size (k a) (s.past o operandSize (o.extent operandSize) mode)
        (fun fields next answer => post (.operand o :: fields) next answer)) :
    Reads (kind :: kinds) size (resolveAddress operandSize >>= k) s post := by
  unfold resolveAddress resolveOnly
  rw [bind_assoc]
  refine reads_operand hkind hpost ?_
  intro o mode l hlocation
  cases l with
  | register bank r =>
      exact reads_of_error (fun fields => hpost (_ :: fields)) (by simp) (bind_of_error rfl)
  | memory a =>
      refine reads_congr (y := k a) (bind_of_ok rfl) ?_
      exact hrest o mode a (Operand.address?_of_location? hlocation)

end Exec

end BytecodeMachine
