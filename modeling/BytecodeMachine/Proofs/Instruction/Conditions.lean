import BytecodeMachine.Proofs.Instruction.Branches
import BytecodeMachine.Proofs.Integer.Stored

/-!
# Conditions and what they decide

Two instructions branch under a condition and two store whether one holds.  Each finds its
operands in its own way and decides the condition in its own body.

* `Relation.Holds` and `Test.Holds` say what the conditions mean for bit vectors of any width;
* `Relation.onBits?` and `Test.onBits` are the decisions, as functions of the bits of the operands;
* `State.BranchesOn` and `State.StoresTruth` say what a step makes of a decision.

The main statement is that branching and storing instructions decide alike, exactly for integers,
and that they refuse the same condition bytes before anything else of the instruction is read.
-/

namespace BytecodeMachine

/-! ## The meaning of conditions -/

namespace Relation

/-- A comparison of two bit vectors: equality, the order of two's complement numbers, or the order
of unsigned numbers. -/
def Holds {n : Nat} (r : Relation) (x y : BitVec n) : Prop :=
  match r with
  | eq => x = y
  | ne => x ≠ y
  | lt => x.toInt < y.toInt
  | le => x.toInt ≤ y.toInt
  | gt => y.toInt < x.toInt
  | ge => y.toInt ≤ x.toInt
  | lo => x.toNat < y.toNat
  | ls => x.toNat ≤ y.toNat
  | hi => y.toNat < x.toNat
  | hs => y.toNat ≤ x.toNat

instance {n : Nat} (r : Relation) (x y : BitVec n) : Decidable (r.Holds x y) :=
  match r with
  | eq => inferInstanceAs (Decidable (x = y))
  | ne => inferInstanceAs (Decidable (x ≠ y))
  | lt => inferInstanceAs (Decidable (x.toInt < y.toInt))
  | le => inferInstanceAs (Decidable (x.toInt ≤ y.toInt))
  | gt => inferInstanceAs (Decidable (y.toInt < x.toInt))
  | ge => inferInstanceAs (Decidable (y.toInt ≤ x.toInt))
  | lo => inferInstanceAs (Decidable (x.toNat < y.toNat))
  | ls => inferInstanceAs (Decidable (x.toNat ≤ y.toNat))
  | hi => inferInstanceAs (Decidable (y.toNat < x.toNat))
  | hs => inferInstanceAs (Decidable (y.toNat ≤ x.toNat))

/-- The comparison that is to hold where this one does not. -/
def complement : Relation → Relation
  | eq => ne
  | ne => eq
  | lt => ge
  | le => gt
  | gt => le
  | ge => lt
  | lo => hs
  | ls => hi
  | hi => ls
  | hs => lo

theorem holds_complement {n : Nat} (r : Relation) (x y : BitVec n) :
    r.complement.Holds x y ↔ ¬r.Holds x y := by
  cases r <;> simp [complement, Holds]

/-- A comparison of extended operands is exact: the signed view keeps the signed order, the
unsigned view keeps the unsigned order, and either one tells operands apart. -/
theorem onIntegers_extend (r : Relation) (w : Width) (x y : BitVec w.bits) :
    r.onIntegers (w.signExtend (w.extend x)) (w.signExtend (w.extend y)) (w.extend x)
      (w.extend y) = decide (r.Holds x y) := by
  -- Equality is decided on the unsigned view alone.
  have hsame : w.extend x = w.extend y ↔ x = y := by
    rw [← UInt64.toNat_inj, w.toNat_extend, w.toNat_extend, BitVec.toNat_inj]
  rw [Bool.eq_iff_iff, decide_eq_true_iff]
  cases r <;>
    simp [onIntegers, Holds, hsame, Int64.lt_iff_toInt_lt, Int64.le_iff_toInt_le,
      UInt64.lt_iff_toNat_lt, UInt64.le_iff_toNat_le, w.toInt_signExtend_extend, w.toNat_extend]

/-- The comparison of two operands of a type, given by their bits. -/
def onBits? (r : Relation) : (type : OperandType) → (x y : BitVec type.width.bits) → Option Bool
  | .integer _, x, y => some (decide (r.Holds x y))
  | .real p, x, y =>
      r.onReals? (Floating.toFloat p (p.width.extend x)) (Floating.toFloat p (p.width.extend y))

end Relation

namespace Test

/-- A test of a bit vector: zero or not, its highest bit set or not. -/
def Holds {n : Nat} (t : Test) (x : BitVec n) : Prop :=
  match t with
  | iz => x = 0#n
  | nz => x ≠ 0#n
  | mi => x.msb = true
  | pl => x.msb = false

instance {n : Nat} (t : Test) (x : BitVec n) : Decidable (t.Holds x) :=
  match t with
  | iz => inferInstanceAs (Decidable (x = 0#n))
  | nz => inferInstanceAs (Decidable (x ≠ 0#n))
  | mi => inferInstanceAs (Decidable (x.msb = true))
  | pl => inferInstanceAs (Decidable (x.msb = false))

/-- The test that is to hold where this one does not. -/
def complement : Test → Test
  | iz => nz
  | nz => iz
  | mi => pl
  | pl => mi

theorem holds_complement {n : Nat} (t : Test) (x : BitVec n) :
    t.complement.Holds x ↔ ¬t.Holds x := by
  cases t <;> simp [complement, Holds]

/-- A test of a sign-extended operand is exact. -/
theorem onInteger_extend (t : Test) (w : Width) (x : BitVec w.bits) :
    t.onInteger (w.signExtend (w.extend x)) = decide (t.Holds x) := by
  have hzero := w.signExtend_extend_eq_zero_iff x
  -- The sign of the extended operand is its highest bit.
  have hnegative : w.signExtend (w.extend x) < 0 ↔ x.msb = true := by
    rw [Int64.lt_iff_toInt_lt, w.toInt_signExtend_extend, BitVec.msb_eq_toInt]
    simp
  have hpositive : 0 ≤ w.signExtend (w.extend x) ↔ x.msb = false := by
    rw [← Bool.not_eq_true, ← hnegative, Int64.not_lt]
  rw [Bool.eq_iff_iff, decide_eq_true_iff]
  cases t <;> simp [onInteger, Holds, hzero, hnegative, hpositive]

/-- The test of an operand of a type, given by its bits. -/
def onBits (t : Test) : (type : OperandType) → BitVec type.width.bits → Bool
  | .integer _, x => decide (t.Holds x)
  | .real p, x => t.onReal (Floating.toFloat p (p.width.extend x))

end Test

namespace Core

variable (c : Core)

/-- Of an operand under a test, only its bits count. -/
theorem passes_eq_onBits (type : OperandType) (test : Test) (l : Location) :
    c.passes type test l = test.onBits type (c.bitsAt l type.width) := by
  cases type with
  | integer w =>
      show test.onInteger (w.signExtend (c.read l w)) = decide (test.Holds (c.bitsAt l w))
      rw [c.read_eq_extend, test.onInteger_extend]
  | real p =>
      show test.onReal (Floating.toFloat p (c.read l p.width)) = _
      rw [c.read_eq_extend]
      rfl

/-- Of operands under a comparison, only their bits count. -/
theorem compares?_eq_onBits? (type : OperandType) (relation : Relation) (a b : Location) :
    c.compares? type relation a b =
      relation.onBits? type (c.bitsAt a type.width) (c.bitsAt b type.width) := by
  cases type with
  | integer w =>
      show some (relation.onIntegers _ _ _ _) = some _
      rw [c.read_eq_extend, c.read_eq_extend, relation.onIntegers_extend]
      rfl
  | real p =>
      show relation.onReals? _ _ = _
      rw [c.read_eq_extend, c.read_eq_extend]
      rfl

/-- On integers, complementary tests decide opposite ways. -/
theorem passes_complement (w : Width) (test : Test) (l : Location) :
    c.passes (.integer w) test.complement l = !c.passes (.integer w) test l := by
  rw [passes_eq_onBits, passes_eq_onBits]
  simp only [Test.onBits, Test.holds_complement, decide_not]

/-- On integers, complementary comparisons decide opposite ways. -/
theorem compares?_complement (w : Width) (relation : Relation) (a b : Location) :
    c.compares? (.integer w) relation.complement a b =
      (c.compares? (.integer w) relation a b).map (!·) := by
  rw [compares?_eq_onBits?, compares?_eq_onBits?]
  simp only [Relation.onBits?, Relation.holds_complement, decide_not, Option.map_some]

end Core

/-! ## Condition bytes that are refused -/

/-- The opcodes of instructions with a condition, and whether it is about one operand or two. -/
inductive Opcode.Conditional : Opcode → Arity → Prop
  | bmc : Conditional .bmc .monadic
  | smc : Conditional .smc .monadic
  | bdc : Conditional .bdc .dyadic
  | sdc : Conditional .sdc .dyadic

namespace Exec

variable {α β : Type} {s : State} {op : Opcode} {arity : Arity} {byte : UInt8}
  {rest : List UInt8} {table : HostTable}

/-- The part refuses no condition byte, wherever it is started. -/
def Accepts (x : Exec α) : Prop := ∀ s t byte, x s ≠ .error (.badCondition byte) t

theorem accepts_pure (a : α) : Accepts (pure a) := by
  intro s t byte h
  cases h

theorem accepts_get : Accepts (get : Exec State) := by
  intro s t byte h
  cases h

theorem accepts_modify (g : State → State) : Accepts (modify g : Exec PUnit) := by
  intro s t byte h
  cases h

theorem accepts_bind {x : Exec α} {k : α → Exec β} (hx : Accepts x) (hk : ∀ a, Accepts (k a)) :
    Accepts (x >>= k) := by
  intro s t byte h
  cases hanswer : x s with
  | error f u =>
      rw [bind_of_error hanswer] at h
      cases h
      exact hx s t byte hanswer
  | ok a u =>
      rw [bind_of_ok hanswer] at h
      exact hk a u t byte h

theorem accepts_resolve (size : Nat) (destination : Option Location) :
    Accepts (resolve size destination) := by
  intro s t byte h
  cases hparse : Operand.parse? s.ahead size with
  | none =>
      obtain ⟨address, u, hresolve, -⟩ := resolve_of_parse?_none s size destination hparse
      rw [h] at hresolve
      cases hresolve
  | some parsed =>
      obtain ⟨o, n⟩ := parsed
      obtain ⟨mode, -, hresolve⟩ := resolve_of_parse?_some s size destination hparse
      rw [h] at hresolve
      cases hlocation : o.location? size s.registers s.code.base s.cursor (s.cursor + n)
          destination with
      | none =>
          rw [hlocation] at hresolve
          cases hresolve
      | some l =>
          rw [hlocation] at hresolve
          cases hresolve

theorem accepts_destination (size : Nat) : Accepts (resolveDestination size) :=
  accepts_bind (accepts_resolve size none) fun _ =>
    accepts_bind (accepts_modify _) fun _ => accepts_pure _

theorem accepts_source (size : Nat) : Accepts (resolveSource size) :=
  accepts_bind accepts_get fun _ => accepts_resolve size _

theorem accepts_storeTruth (l : Location) (holds : Bool) : Accepts (storeTruth l holds) :=
  accepts_bind (accepts_modify _) fun _ => accepts_pure _

theorem accepts_branchIf (taken : Bool) : Accepts (branchIf taken) := by
  have hbranch : ∀ d, Accepts (branch d) := by
    intro d
    refine accepts_bind accepts_get fun s => ?_
    dsimp only
    split
    · intro t u byte h
      cases h
    · exact accepts_modify _
  refine accepts_bind ?_ fun d => ?_
  · intro s t byte h
    by_cases hlong : s.cursor + 4 ≤ s.code.length
    · rw [fetchDisplacement_of_le s hlong] at h
      cases h
    · have hshort := fetch_decoded_of_lt LittleEndian.displacement s 4 (by omega)
      have hfetch := h.symm.trans hshort
      cases hfetch
  · cases taken with
    | false => exact accepts_pure _
    | true => exact accepts_bind (hbranch d) fun _ => accepts_pure _

/-- Where the condition byte is valid, operands compare and the byte is not looked at again. -/
theorem exists_compare {type : OperandType} {relation : Relation}
    (hcondition : Condition.dyadic? byte = some (type, relation)) (a b : Location) (s : State) :
    ∃ holds, compare byte type relation a b s = .ok holds s := by
  obtain ⟨holds, hholds⟩ := exists_compares? hcondition s.toCore a b
  exact ⟨holds, compare_of_some hholds⟩

theorem accepts_compare {type : OperandType} {relation : Relation}
    (hcondition : Condition.dyadic? byte = some (type, relation)) (a b : Location) :
    Accepts (compare byte type relation a b) := by
  intro s t byte' h
  obtain ⟨holds, hcompare⟩ := exists_compare hcondition a b s
  rw [h] at hcompare
  cases hcompare

/-- A handler fetches its condition byte first, and refuses nothing once the byte is valid. -/
theorem fetches_of_conditional (table : HostTable) (hop : op.Conditional arity) :
    match arity with
    | .monadic => ∃ k, perform table op = fetchTest >>= k ∧ ∀ condition, Accepts (k condition)
    | .dyadic => ∃ k, perform table op = fetchRelation >>= k ∧
        ∀ byte type relation, Condition.dyadic? byte = some (type, relation) →
          Accepts (k (byte, type, relation)) := by
  cases hop with
  | bmc =>
      refine ⟨_, rfl, fun condition => ?_⟩
      exact accepts_bind (accepts_destination _) fun _ =>
        accepts_bind accepts_get fun _ => accepts_branchIf _
  | smc =>
      refine ⟨_, rfl, fun condition => ?_⟩
      exact accepts_bind (accepts_destination _) fun _ =>
        accepts_bind (accepts_source _) fun _ =>
          accepts_bind accepts_get fun _ => accepts_storeTruth _ _
  | bdc =>
      refine ⟨_, rfl, fun byte type relation hcondition => ?_⟩
      exact accepts_bind (accepts_destination _) fun _ =>
        accepts_bind (accepts_source _) fun _ =>
          accepts_bind (accepts_compare hcondition _ _) fun _ => accepts_branchIf _
  | sdc =>
      refine ⟨_, rfl, fun byte type relation hcondition => ?_⟩
      exact accepts_bind (accepts_destination _) fun _ =>
        accepts_bind (accepts_source _) fun _ =>
          accepts_bind (accepts_source _) fun _ =>
            accepts_bind (accepts_compare hcondition _ _) fun _ => accepts_storeTruth _ _

/-- An invalid condition byte is refused as soon as it is fetched. -/
theorem perform_of_invalid (table : HostTable) (hop : op.Conditional arity)
    (hahead : s.ahead = byte :: rest) (hinvalid : ¬(Field.condition arity byte).IsValid) :
    perform table op s = .error (.badCondition byte) { s with cursor := s.cursor + 1 } := by
  have hfetches := fetches_of_conditional table hop
  cases arity with
  | monadic =>
      obtain ⟨k, hk, -⟩ := hfetches
      have hnone : Condition.monadic? byte = none := Classical.not_not.mp hinvalid
      rw [hk]
      apply bind_of_error
      unfold fetchTest
      rw [bind_of_ok (fetchByte_of_cons s hahead), hnone]
      rfl
  | dyadic =>
      obtain ⟨k, hk, -⟩ := hfetches
      have hnone : Condition.dyadic? byte = none := Classical.not_not.mp hinvalid
      rw [hk]
      apply bind_of_error
      unfold fetchRelation
      rw [bind_of_ok (fetchByte_of_cons s hahead), hnone]
      rfl

/-- Behind a valid condition byte, no condition byte is refused. -/
theorem perform_of_valid (table : HostTable) (hop : op.Conditional arity)
    (hahead : s.ahead = byte :: rest) (hvalid : (Field.condition arity byte).IsValid)
    (other : UInt8) (t : State) : perform table op s ≠ .error (.badCondition other) t := by
  have hfetches := fetches_of_conditional table hop
  cases arity with
  | monadic =>
      obtain ⟨k, hk, haccepts⟩ := hfetches
      obtain ⟨condition, hcondition⟩ := Option.ne_none_iff_exists'.mp hvalid
      rw [hk, bind_of_ok (fetchTest_of_cons hahead hcondition)]
      exact haccepts condition _ t other
  | dyadic =>
      obtain ⟨k, hk, haccepts⟩ := hfetches
      obtain ⟨condition, hcondition⟩ := Option.ne_none_iff_exists'.mp hvalid
      rw [hk, bind_of_ok (fetchRelation_of_cons hahead hcondition)]
      exact haccepts byte _ _ hcondition _ t other

/-- A handler with a condition is none that computes a value. -/
theorem perform_ne_compute (hop : op.Conditional arity) (d w : Width)
    (value : UInt64 → UInt64 → Option UInt64) : perform table op ≠ compute d w value := by
  intro hcompute
  -- The byte is no condition, and as an operand it refers to a destination that is not there.
  let s : State := State.load [0xa0] ⟨AddressSpace.stackBase, 0⟩
  have hahead : s.ahead = [0xa0] := by decide +kernel
  have hinvalid : ¬(Field.condition arity 0xa0).IsValid := by
    cases arity
    · exact fun h => h rfl
    · exact fun h => h rfl
  have hrefused := perform_of_invalid table hop hahead hinvalid
  obtain ⟨t, hnull⟩ : Faults (.nullAddress 0xa0) (compute d w value) s :=
    faults_destination _ _ hahead rfl
  rw [hcompute, hnull] at hrefused
  cases hrefused

end Exec

/-! ## Steps -/

namespace State

/-- A step over a conditional branch comes to a decision: control goes by the displacement where
the condition holds, and otherwise nothing has happened but that the instruction is decoded. -/
def BranchesOn (host : HostTable) (s : State) (i : Instruction) (n : Nat) (d : Int32)
    (holds : Bool) : Prop :=
  if holds = true then s.HeadsFor host ((s.cursor + n : Nat) + d.toInt)
  else ∃ t : State, (∀ fuel, s.step host fuel = some t) ∧ t.toCore = s.decoded i n

/-- A step over a conditional set comes to a decision: the byte at the target is one where the
condition holds and zero where it does not. -/
def StoresTruth (host : HostTable) (s : State) (i : Instruction) (n : Nat) (target : Location)
    (holds : Bool) : Prop :=
  ∃ t : State, (∀ fuel, s.step host fuel = some t) ∧
    t.toCore = (s.decoded i n).write target .byte (if holds then 1 else 0)

/-- An active machine stands before an instruction of `n` bytes whose operands have these
places. -/
structure Faces (s : State) (i : Instruction) (n : Nat) (places : List Location) : Prop where
  active : s.status.isActive = true
  listed : s.instruction? = some (i, n)
  located : i.places s.registers s.code.base (s.cursor + 1) = .ok places

variable {host : HostTable} {s t : State} {i : Instruction} {n : Nat} {d : Int32}
  {byte : UInt8} {type : OperandType} {places : List Location} {target a b l : Location}

/-- An instruction with a destination acts at the places of its operands. -/
theorem Faces.exists_acts (host : HostTable) (hfaces : s.Faces i n places)
    (hdestination : i.opcode.hasDestination = true)
    (hvalid : ∀ field ∈ i.fields, field.IsValid) :
    ∃ t : State, t.toCore = s.decoded i n ∧ i.Acts host t places (s.handled host) := by
  have hlocated := handled_located host hfaces.listed hdestination hvalid
  rw [hfaces.located] at hlocated
  exact hlocated

theorem branchesOn_of_handled {holds : Bool} (hactive : s.status.isActive = true)
    (ht : t.toCore = s.decoded i n) (hhandled : s.handled host = Exec.branchWhen holds d t) :
    s.BranchesOn host i n d holds := by
  unfold BranchesOn
  cases holds with
  | false => exact ⟨t, step_of_handled hactive hhandled, ht⟩
  | true =>
      have hcode : t.code = s.code := by
        rw [ht]
        rfl
      have hstatus : t.status = .running := by
        rw [ht]
        rfl
      have hcursor : t.cursor = s.cursor + n := by
        rw [ht]
        rfl
      have hheads := headsFor_of_branch hactive hhandled hcode hstatus
      rw [hcursor] at hheads
      exact hheads

theorem storesTruth_of_handled {holds : Bool} (hactive : s.status.isActive = true)
    (ht : t.toCore = s.decoded i n)
    (hhandled : s.handled host = .ok .next (t.write target .byte (if holds then 1 else 0))) :
    s.StoresTruth host i n target holds := by
  refine ⟨_, step_of_handled hactive hhandled, ?_⟩
  rw [← ht]
  rfl

/-- A branch on one operand goes by the test of its bits. -/
theorem branchesOn_test {test : Test} {o : Operand} (host : HostTable)
    (hcondition : Condition.monadic? byte = some (type, test))
    (hi : i = ⟨.bmc, [.condition .monadic byte, .operand o, .branch d]⟩)
    (hfaces : s.Faces i n [l]) :
    s.BranchesOn host i n d (test.onBits type ((s.decoded i n).bitsAt l type.width)) := by
  subst hi
  obtain ⟨t, ht, hacts⟩ := hfaces.exists_acts host rfl (by simp [Field.IsValid, hcondition])
  rw [← ht, ← Core.passes_eq_onBits]
  generalize hanswer : s.handled host = answer at hacts
  cases hacts with
  | testAndBranch hop hfields hcondition' hholds =>
      cases hfields
      rw [hcondition] at hcondition'
      cases hcondition'
      rw [hholds]
      exact branchesOn_of_handled hfaces.active ht hanswer

/-- A set on one operand stores the test of its bits. -/
theorem storesTruth_test {test : Test} {o o' : Operand} (host : HostTable)
    (hcondition : Condition.monadic? byte = some (type, test))
    (hi : i = ⟨.smc, [.condition .monadic byte, .operand o, .operand o']⟩)
    (hfaces : s.Faces i n [target, l]) :
    s.StoresTruth host i n target
      (test.onBits type ((s.decoded i n).bitsAt l type.width)) := by
  subst hi
  obtain ⟨t, ht, hacts⟩ := hfaces.exists_acts host rfl (by simp [Field.IsValid, hcondition])
  rw [← ht, ← Core.passes_eq_onBits]
  generalize hanswer : s.handled host = answer at hacts
  cases hacts with
  | compute hop => exact (Exec.perform_ne_compute .smc _ _ _ hop).elim
  | address hop => cases hop
  | compareAndBranch hop => cases hop
  | testAndSet hop hfields hcondition' hholds =>
      cases hfields
      rw [hcondition] at hcondition'
      cases hcondition'
      rw [hholds]
      exact storesTruth_of_handled hfaces.active ht hanswer

/-- A branch on two operands goes by the comparison of their bits. -/
theorem branchesOn_relation {relation : Relation} {o o' : Operand} (host : HostTable)
    (hcondition : Condition.dyadic? byte = some (type, relation))
    (hi : i = ⟨.bdc, [.condition .dyadic byte, .operand o, .operand o', .branch d]⟩)
    (hfaces : s.Faces i n [a, b]) :
    ∃ holds, relation.onBits? type ((s.decoded i n).bitsAt a type.width)
        ((s.decoded i n).bitsAt b type.width) = some holds ∧ s.BranchesOn host i n d holds := by
  subst hi
  obtain ⟨t, ht, hacts⟩ := hfaces.exists_acts host rfl (by simp [Field.IsValid, hcondition])
  rw [← ht, ← Core.compares?_eq_onBits?]
  generalize hanswer : s.handled host = answer at hacts
  -- Other instructions have two places as well, and the opcode tells them apart.
  cases hacts with
  | compute hop => exact (Exec.perform_ne_compute .bdc _ _ _ hop).elim
  | address hop => cases hop
  | compareAndBranch hop hfields hcondition' hholds =>
      cases hfields
      rw [hcondition] at hcondition'
      cases hcondition'
      exact ⟨_, hholds, branchesOn_of_handled hfaces.active ht hanswer⟩
  | testAndSet hop => cases hop

/-- A set on two operands stores the comparison of their bits. -/
theorem storesTruth_relation {relation : Relation} {o o' o'' : Operand} (host : HostTable)
    (hcondition : Condition.dyadic? byte = some (type, relation))
    (hi : i = ⟨.sdc, [.condition .dyadic byte, .operand o, .operand o', .operand o'']⟩)
    (hfaces : s.Faces i n [target, a, b]) :
    ∃ holds, relation.onBits? type ((s.decoded i n).bitsAt a type.width)
        ((s.decoded i n).bitsAt b type.width) = some holds ∧
      s.StoresTruth host i n target holds := by
  subst hi
  obtain ⟨t, ht, hacts⟩ := hfaces.exists_acts host rfl (by simp [Field.IsValid, hcondition])
  rw [← ht, ← Core.compares?_eq_onBits?]
  generalize hanswer : s.handled host = answer at hacts
  cases hacts with
  | compareAndSet hop hfields hcondition' hholds =>
      cases hfields
      rw [hcondition] at hcondition'
      cases hcondition'
      exact ⟨_, hholds, storesTruth_of_handled hfaces.active ht hanswer⟩

section

variable {op : Opcode} {arity : Arity} {opcode : UInt8} {rest : List UInt8}

/-- An invalid condition byte stops the instruction right behind it. -/
theorem handled_of_invalid (host : HostTable) (hop : op.Conditional arity)
    (hopcode : Opcode.ofByte? opcode = some op) (hahead : s.ahead = opcode :: byte :: rest)
    (hinvalid : ¬(Field.condition arity byte).IsValid) :
    s.handled host =
      .error (.badCondition byte) { s.behindOpcode opcode with cursor := s.cursor + 2 } := by
  rw [handled_of_cons host hahead, hopcode]
  exact Exec.perform_of_invalid host hop (ahead_behindOpcode hahead) hinvalid

/-- The condition byte behind the opcode byte is refused if it is invalid, and no other is. -/
theorem raises_badCondition_iff (host : HostTable) (hactive : s.status.isActive = true)
    (hop : op.Conditional arity) (hopcode : Opcode.ofByte? opcode = some op)
    (hahead : s.ahead = opcode :: byte :: rest) (other : UInt8) :
    s.Raises host (.badCondition other) ↔
      other = byte ∧ ¬(Field.condition arity byte).IsValid := by
  constructor
  · rintro ⟨t, hhandled, -⟩
    by_cases hvalid : (Field.condition arity byte).IsValid
    · rw [handled_of_cons host hahead, hopcode] at hhandled
      exact absurd hhandled
        (Exec.perform_of_valid host hop (ahead_behindOpcode hahead) hvalid other t)
    · rw [handled_of_invalid host hop hopcode hahead hvalid] at hhandled
      cases hhandled
      exact ⟨rfl, hvalid⟩
  · rintro ⟨rfl, hinvalid⟩
    exact raises_of_handled hactive (handled_of_invalid host hop hopcode hahead hinvalid)

/-- When a condition byte is refused, nothing behind it has been read and nothing has changed. -/
theorem exists_refused (host : HostTable) (hactive : s.status.isActive = true)
    (hop : op.Conditional arity) (hopcode : Opcode.ofByte? opcode = some op)
    (hahead : s.ahead = opcode :: byte :: rest)
    (hinvalid : ¬(Field.condition arity byte).IsValid) :
    ∃ t : State, t.toCore = { s.started with cursor := s.cursor + 2 } ∧
      ∀ fuel, s.step host fuel = some (t.raise (.badCondition byte)) := by
  have hhandled := handled_of_invalid host hop hopcode hahead hinvalid
  obtain ⟨t, ht, hstep⟩ := raises_of_handled hactive hhandled
  rw [hhandled] at ht
  cases ht
  exact ⟨_, rfl, hstep⟩

end

end State

/-- Conditional branches and conditional sets decide the same conditions.

Under the same condition byte and the same operand values, the branch is taken exactly if the set
stores one, and otherwise the set stores zero; on integers the decision is the exact one at their
width, so that complementary conditions exclude each other and leave nothing out.  All four
instructions refuse their condition byte exactly if it is invalid for its kind, when nothing behind
it has been read; the comparison of operands never comes to refuse it. -/
theorem conditions_decide_alike :
    (∀ (host : HostTable) (s u : State) (i j : Instruction) (n m : Nat) (byte : UInt8)
      (type : OperandType) (relation : Relation) (o₁ o₂ p p₁ p₂ : Operand) (d : Int32)
      (a b target a' b' : Location) (x y : BitVec type.width.bits),
      Condition.dyadic? byte = some (type, relation) →
      i = ⟨.bdc, [.condition .dyadic byte, .operand o₁, .operand o₂, .branch d]⟩ →
      j = ⟨.sdc, [.condition .dyadic byte, .operand p, .operand p₁, .operand p₂]⟩ →
      s.Faces i n [a, b] → u.Faces j m [target, a', b'] →
      (s.decoded i n).bitsAt a type.width = x → (s.decoded i n).bitsAt b type.width = y →
      (u.decoded j m).bitsAt a' type.width = x → (u.decoded j m).bitsAt b' type.width = y →
      ∃ holds, s.BranchesOn host i n d holds ∧ u.StoresTruth host j m target holds ∧
        (type.isReal = false → (holds = true ↔ relation.Holds x y))) ∧
    (∀ (host : HostTable) (s u : State) (i j : Instruction) (n m : Nat) (byte : UInt8)
      (type : OperandType) (test : Test) (o p p₁ : Operand) (d : Int32)
      (l target l' : Location) (x : BitVec type.width.bits),
      Condition.monadic? byte = some (type, test) →
      i = ⟨.bmc, [.condition .monadic byte, .operand o, .branch d]⟩ →
      j = ⟨.smc, [.condition .monadic byte, .operand p, .operand p₁]⟩ →
      s.Faces i n [l] → u.Faces j m [target, l'] →
      (s.decoded i n).bitsAt l type.width = x → (u.decoded j m).bitsAt l' type.width = x →
      ∃ holds, s.BranchesOn host i n d holds ∧ u.StoresTruth host j m target holds ∧
        (type.isReal = false → (holds = true ↔ test.Holds x))) ∧
    (∀ (c : Core) (w : Width) (relation : Relation) (a b : Location),
      c.compares? (.integer w) relation.complement a b =
        (c.compares? (.integer w) relation a b).map (!·)) ∧
    (∀ (c : Core) (w : Width) (test : Test) (l : Location),
      c.passes (.integer w) test.complement l = !c.passes (.integer w) test l) ∧
    (∀ (host : HostTable) (s : State) (op : Opcode) (arity : Arity) (opcode byte : UInt8)
      (rest : List UInt8), s.status.isActive = true → op.Conditional arity →
      Opcode.ofByte? opcode = some op → s.ahead = opcode :: byte :: rest →
      (∀ other, s.Raises host (.badCondition other) ↔
        other = byte ∧ ¬(Field.condition arity byte).IsValid) ∧
      (¬(Field.condition arity byte).IsValid →
        ∃ t : State, t.toCore = { s.started with cursor := s.cursor + 2 } ∧
          ∀ fuel, s.step host fuel = some (t.raise (.badCondition byte)))) ∧
    (∀ (byte : UInt8) (type : OperandType) (relation : Relation) (a b : Location) (s : State),
      Condition.dyadic? byte = some (type, relation) →
      ∃ holds, Exec.compare byte type relation a b s = .ok holds s) := by
  refine ⟨?_, ?_, Core.compares?_complement, Core.passes_complement, ?_, ?_⟩
  · intro host s u i j n m byte type relation o₁ o₂ p p₁ p₂ d a b target a' b' x y hcondition hi hj
      hs hu hx hy hx' hy'
    obtain ⟨holds, hdecides, hbranches⟩ := State.branchesOn_relation host hcondition hi hs
    obtain ⟨holds', hdecides', hstores⟩ := State.storesTruth_relation host hcondition hj hu
    -- Both decisions are the same function of the same bits.
    rw [hx, hy] at hdecides
    rw [hx', hy', hdecides] at hdecides'
    cases hdecides'
    refine ⟨holds, hbranches, hstores, fun hinteger => ?_⟩
    cases type with
    | integer w =>
        cases hdecides
        exact decide_eq_true_iff
    | real p => cases hinteger
  · intro host s u i j n m byte type test o p p₁ d l target l' x hcondition hi hj hs hu hx hx'
    have hbranches := State.branchesOn_test host hcondition hi hs
    have hstores := State.storesTruth_test host hcondition hj hu
    rw [hx] at hbranches
    rw [hx'] at hstores
    refine ⟨_, hbranches, hstores, fun hinteger => ?_⟩
    cases type with
    | integer w => exact decide_eq_true_iff
    | real p => cases hinteger
  · intro host s op arity opcode byte rest hactive hop hopcode hahead
    constructor
    · exact State.raises_badCondition_iff host hactive hop hopcode hahead
    · exact State.exists_refused host hactive hop hopcode hahead
  · intro byte type relation a b s hcondition
    exact Exec.exists_compare hcondition a b s

/-- A machine with -128 and 1 in the lowest bytes of registers 0 and 1. -/
def State.holdingBytes (code : List UInt8) : State :=
  { State.load code ⟨AddressSpace.stackBase, 64⟩ with
    registers := (RegisterFile.zero.set .general (.ofNat 0) 0x80).set .general (.ofNat 1) 1
    status := .initialised }

/-- The signed comparison holds: a branch by it goes back to the start, and a set into register 2
stores one.  As single precision reals the operands cannot be compared unsigned, and neither the
branch nor the set tries to. -/
theorem holdingBytes_decide_alike :
    (State.holdingBytes [Opcode.bdc.byte, 0x02, 0x00, 0x01, 0xf8, 0xff, 0xff, 0xff]).HeadsFor
      {} 0 ∧
    (∃ t : State,
      (∀ fuel, (State.holdingBytes [Opcode.sdc.byte, 0x02, 0x02, 0x00, 0x01]).step {} fuel =
        some t) ∧
      t.registers.get .general (.ofNat 2) = 1) ∧
    (State.holdingBytes [Opcode.bdc.byte, 0x46]).Raises {} (.badCondition 0x46) ∧
    (State.holdingBytes [Opcode.sdc.byte, 0x46]).Raises {} (.badCondition 0x46) := by
  obtain ⟨hcompare, -, -, -, hrefuse, -⟩ := conditions_decide_alike
  have hs : (State.holdingBytes
        [Opcode.bdc.byte, 0x02, 0x00, 0x01, 0xf8, 0xff, 0xff, 0xff]).Faces
      ⟨.bdc, [.condition .dyadic 0x02, .operand (.register .general 0),
        .operand (.register .general 1), .branch (-8)]⟩ 8
      [.register .general (.ofNat 0), .register .general (.ofNat 1)] :=
    ⟨rfl, by decide +kernel, rfl⟩
  have hu : (State.holdingBytes [Opcode.sdc.byte, 0x02, 0x02, 0x00, 0x01]).Faces
      ⟨.sdc, [.condition .dyadic 0x02, .operand (.register .general 2),
        .operand (.register .general 0), .operand (.register .general 1)]⟩ 5
      [.register .general (.ofNat 2), .register .general (.ofNat 0),
        .register .general (.ofNat 1)] :=
    ⟨rfl, by decide +kernel, rfl⟩
  obtain ⟨holds, hbranches, ⟨t, hstep, ht⟩, hexact⟩ := hcompare {} _ _ _ _ 8 5 0x02
    (.integer .byte) .lt _ _ _ _ _ (-8) _ _ _ _ _ 0x80#8 0x01#8 rfl rfl rfl hs hu rfl rfl rfl rfl
  have hless : (0x80#8).toInt < (0x01#8).toInt := by decide
  obtain rfl : holds = true := (hexact rfl).mpr hless
  refine ⟨hbranches, ⟨t, hstep, ?_⟩, ?_, ?_⟩
  · rw [ht]
    decide +kernel
  · exact ((hrefuse {} _ .bdc .dyadic Opcode.bdc.byte 0x46 [] rfl .bdc (by decide +kernel)
      (by decide +kernel)).1 0x46).mpr ⟨rfl, fun h => h rfl⟩
  · exact ((hrefuse {} _ .sdc .dyadic Opcode.sdc.byte 0x46 [] rfl .sdc (by decide +kernel)
      (by decide +kernel)).1 0x46).mpr ⟨rfl, fun h => h rfl⟩

end BytecodeMachine
