import BytecodeMachine.Proofs.Instruction.Outcome

/-!
# The places of operands

The operands of an instruction are resolved one after the other, each in the registers that those
before it have left.  The first one is the destination.  A reference to the destination has the
place that the destination was found to have, and it steps nothing.

`Operand.places` says this without a latch, and `Instruction.Acts` says what an instruction with
a destination does once the places are known.  The main statement is that every such instruction
acts at the places of its operands, and that an instruction stops with a null address where one
of its operands has no place.
-/

namespace BytecodeMachine

namespace Operand

/-! ## Places -/

/-- The places of operands of the given sizes that stand one behind the other from the code
offset `start` on, where the code begins at `code`, or the first operand that has none.  Each one
is resolved after those before it have stepped their registers, and may refer to the first, the
destination. -/
def places (code : UInt64) (destination : Option Location) (f : RegisterFile) (start : Nat) :
    List (Operand × Nat) → Except Operand (List Location)
  | [] => .ok []
  | (o, size) :: rest =>
      match o.location? size f code start (start + o.extent size) destination with
      | none => .error o
      | some l =>
          (places code (destination.or (some l)) (o.moved size f) (start + o.extent size)
            rest).map (l :: ·)

variable {code : UInt64} {destination : Option Location} {f : RegisterFile} {start k size : Nat}
  {operands rest : List (Operand × Nat)} {found : List Location} {o : Operand}

/-- Where all operands have places, the first has one, and so have the others behind it. -/
theorem exists_of_places_cons
    (hplaces : places code destination f start ((o, size) :: rest) = .ok found) :
    ∃ l others, found = l :: others ∧
      o.location? size f code start (start + o.extent size) destination = some l ∧
      places code (destination.or (some l)) (o.moved size f) (start + o.extent size) rest =
        .ok others := by
  unfold places at hplaces
  cases hlocation : o.location? size f code start (start + o.extent size) destination with
  | none => simp [hlocation] at hplaces
  | some l =>
      simp only [hlocation] at hplaces
      cases hrest : places code (destination.or (some l)) (o.moved size f)
          (start + o.extent size) rest with
      | error o' =>
          rw [hrest] at hplaces
          cases hplaces
      | ok others =>
          rw [hrest] at hplaces
          cases hplaces
          exact ⟨l, others, rfl, rfl, hrest⟩

/-- Every reference to a known destination has its place. -/
theorem place_of_known {target : Location}
    (hplaces : places code (some target) f start operands = .ok found)
    (hsame : operands[k]? = some (sameAsDestination, size)) : found[k]? = some target := by
  induction operands generalizing f start k found with
  | nil => simp at hsame
  | cons entry rest ih =>
      obtain ⟨o, own⟩ := entry
      obtain ⟨l, others, rfl, hlocation, hrest⟩ := exists_of_places_cons hplaces
      cases k with
      | zero =>
          simp only [List.getElem?_cons_zero, Option.some.injEq, Prod.mk.injEq] at hsame
          rw [hsame.1] at hlocation
          exact hlocation.symm
      | succ k =>
          rw [List.getElem?_cons_succ] at hsame ⊢
          exact ih hrest hsame

/-- Every reference to the destination has the place of the first operand. -/
theorem place_of_same (hplaces : places code none f start operands = .ok found)
    (hsame : operands[k]? = some (sameAsDestination, size)) :
    ∃ target, found[0]? = some target ∧ found[k]? = some target := by
  cases operands with
  | nil => simp at hsame
  | cons entry rest =>
      obtain ⟨o, own⟩ := entry
      obtain ⟨l, others, rfl, -, hrest⟩ := exists_of_places_cons hplaces
      refine ⟨l, rfl, ?_⟩
      cases k with
      | zero => rfl
      | succ k =>
          rw [List.getElem?_cons_succ] at hsame ⊢
          exact place_of_known hrest hsame

end Operand

/-- References to the destination step no register. -/
theorem RegisterFile.stepped_filter (f : RegisterFile) (operands : List (Operand × Nat)) :
    f.stepped (operands.filter fun entry => entry.1 ≠ .sameAsDestination) =
      f.stepped operands := by
  induction operands generalizing f with
  | nil => rfl
  | cons entry rest ih =>
      obtain ⟨o, size⟩ := entry
      by_cases hsame : o = .sameAsDestination
      · subst hsame
        exact ih f
      · simp only [List.filter_cons, hsame, ne_eq, not_false_eq_true, decide_true, if_true,
          RegisterFile.stepped_cons]
        exact ih _

/-! ## Operands among the fields -/

namespace Operand

/-- Operands of the given sizes stand one behind the other at the front of the bytes. -/
def Stand : List (Operand × Nat) → List UInt8 → Prop
  | [], _ => True
  | (o, size) :: rest, bytes =>
      parse? bytes size = some (o, o.extent size) ∧ Stand rest (bytes.drop (o.extent size))

end Operand

namespace FieldKind

variable {kind : FieldKind} {kinds : List FieldKind} {size n : Nat} {bytes : List UInt8}
  {fields : List Field}

theorem exists_of_readAll?_cons (hread : readAll? (kind :: kinds) size bytes = some (fields, n)) :
    ∃ field m others more, kind.read? size bytes = some (field, m) ∧
      readAll? kinds (field.operandSize size) (bytes.drop m) = some (others, more) ∧
      fields = field :: others ∧ n = m + more := by
  cases hfield : kind.read? size bytes with
  | none => simp [readAll?, hfield] at hread
  | some parsed =>
      obtain ⟨field, m⟩ := parsed
      cases hrest : readAll? kinds (field.operandSize size) (bytes.drop m) with
      | none => simp [readAll?_cons_of_none hfield hrest] at hread
      | some parsed =>
          obtain ⟨others, more⟩ := parsed
          rw [readAll?_cons_of_some hfield hrest] at hread
          cases hread
          exact ⟨field, m, others, more, rfl, hrest, rfl, rfl⟩

/-- The first field is an operand. -/
theorem exists_operand (own : Nat)
    (hkind : ∀ bytes, kind.read? size bytes = readOperand? bytes own)
    (hread : readAll? (kind :: kinds) size bytes = some (fields, n)) :
    ∃ o others more, fields = .operand o :: others ∧ n = o.extent own + more ∧
      Operand.parse? bytes own = some (o, o.extent own) ∧
      readAll? kinds size (bytes.drop (o.extent own)) = some (others, more) := by
  obtain ⟨field, m, others, more, hfield, hrest, rfl, rfl⟩ := exists_of_readAll?_cons hread
  rw [hkind] at hfield
  obtain ⟨⟨o, length⟩, hparse, hpair⟩ := Option.map_eq_some_iff.mp hfield
  cases hpair
  have hextent := Operand.length_of_parse? hparse
  subst hextent
  exact ⟨o, others, more, rfl, rfl, hparse, hrest⟩

/-- The first field is one byte. -/
theorem exists_byte {make : UInt8 → Field}
    (hkind : ∀ bytes, kind.read? size bytes = readByte? bytes make)
    (hread : readAll? (kind :: kinds) size bytes = some (fields, n)) :
    ∃ byte rest others more, bytes = byte :: rest ∧ fields = make byte :: others ∧
      n = 1 + more ∧ readAll? kinds ((make byte).operandSize size) rest = some (others, more) := by
  obtain ⟨field, m, others, more, hfield, hrest, rfl, rfl⟩ := exists_of_readAll?_cons hread
  rw [hkind] at hfield
  cases bytes with
  | nil => cases hfield
  | cons byte rest =>
      cases hfield
      exact ⟨byte, rest, others, more, rfl, rfl, rfl, hrest⟩

/-- The first field is four bytes. -/
theorem exists_long {make : List UInt8 → Field}
    (hkind : ∀ bytes, kind.read? size bytes = readLong? bytes make)
    (hread : readAll? (kind :: kinds) size bytes = some (fields, n)) :
    ∃ others more, 4 ≤ bytes.length ∧ fields = make (bytes.take 4) :: others ∧ n = 4 + more ∧
      readAll? kinds ((make (bytes.take 4)).operandSize size) (bytes.drop 4) =
        some (others, more) := by
  obtain ⟨field, m, others, more, hfield, hrest, rfl, rfl⟩ := exists_of_readAll?_cons hread
  rw [hkind] at hfield
  obtain ⟨front, htake, hpair⟩ := Option.map_eq_some_iff.mp hfield
  have hlength := length_take?_le htake
  unfold take? at htake
  simp only [List.length_take] at htake
  split at htake
  · cases htake
  · cases htake
    cases hpair
    exact ⟨others, more, hlength, rfl, rfl, hrest⟩

/-- The first field is a condition byte. -/
theorem exists_condition {arity : Arity}
    (hread : readAll? (.condition arity :: kinds) size bytes = some (fields, n)) :
    ∃ byte rest others more, bytes = byte :: rest ∧ fields = .condition arity byte :: others ∧
      n = 1 + more ∧ readAll? kinds (Condition.operandSize byte) rest = some (others, more) :=
  exists_byte (fun _ => rfl) hread

/-- The only field left is a branch displacement. -/
theorem exists_branch (hread : readAll? [.branch] size bytes = some (fields, n)) :
    4 ≤ bytes.length ∧
      fields = [.branch (LittleEndian.displacement (bytes.take 4))] ∧ n = 4 := by
  obtain ⟨others, more, hlength, rfl, rfl, hrest⟩ := exists_long (fun _ => rfl) hread
  cases hrest
  exact ⟨hlength, rfl, rfl⟩

end FieldKind

/-! ## Acting at places -/

/-- Branch by a displacement if a condition holds. -/
def Exec.branchWhen (taken : Bool) (d : Int32) : Exec Flow := do
  if taken then branch d
  return .next

/-- The condition byte of a field names a condition of its kind. -/
def Field.IsValid : Field → Prop
  | .condition .monadic byte => Condition.monadic? byte ≠ none
  | .condition .dyadic byte => Condition.dyadic? byte ≠ none
  | _ => True

/-- The first operand of an instruction of this opcode is noted as the destination. -/
def Opcode.hasDestination (op : Opcode) : Bool :=
  match op.layout with
  | .binary _ _ | .testAndBranch | .compareAndBranch | .testAndSet | .compareAndSet => true
  | _ => false

namespace Instruction

/-- How many bytes stand between the opcode byte and the destination. -/
def lead (i : Instruction) : Nat :=
  match i.fields with
  | .condition _ _ :: _ => 1
  | _ => 0

/-- The places of the operands of an instruction whose fields begin at the code offset
`start`. -/
def places (i : Instruction) (f : RegisterFile) (code : UInt64) (start : Nat) :
    Except Operand (List Location) :=
  Operand.places code none f (start + i.lead) i.operands

/-- What an instruction with a destination does at the places of its operands, where `t` is the
state behind the instruction: it computes a value from destination and source and stores it, it
stores the address of the source, it branches if a condition holds, or it stores whether one
holds. -/
inductive Acts (table : HostTable) (i : Instruction) (t : State) :
    List Location → EStateM.Result Fault State Flow → Prop
  | compute {d w : Width} {value : UInt64 → UInt64 → Option UInt64} {target source : Location}
      (hop : Exec.perform table i.opcode = Exec.compute d w value) :
      Acts table i t [target, source]
        (match value (t.read target d) (t.read source w) with
          | none => .error .zeroDivide t
          | some x => .ok .next (t.write target d x))
  | address {target source : Location} (hop : i.opcode = .lea) :
      Acts table i t [target, source]
        (match source.address? with
          | none => .error (.nullAddress t.latch.mode) t
          | some a => .ok .next (t.write target .quad a))
  | testAndBranch {byte : UInt8} {o : Operand} {d : Int32} {type : OperandType} {test : Test}
      {l : Location} {holds : Bool} (hop : i.opcode = .bmc)
      (hfields : i.fields = [.condition .monadic byte, .operand o, .branch d])
      (hcondition : Condition.monadic? byte = some (type, test))
      (hholds : t.passes type test l = holds) :
      Acts table i t [l] (Exec.branchWhen holds d t)
  | compareAndBranch {byte : UInt8} {o o' : Operand} {d : Int32} {type : OperandType}
      {relation : Relation} {a b : Location} {holds : Bool} (hop : i.opcode = .bdc)
      (hfields : i.fields = [.condition .dyadic byte, .operand o, .operand o', .branch d])
      (hcondition : Condition.dyadic? byte = some (type, relation))
      (hholds : t.compares? type relation a b = some holds) :
      Acts table i t [a, b] (Exec.branchWhen holds d t)
  | testAndSet {byte : UInt8} {fields : List Field} {type : OperandType} {test : Test}
      {target l : Location} {holds : Bool} (hop : i.opcode = .smc)
      (hfields : i.fields = .condition .monadic byte :: fields)
      (hcondition : Condition.monadic? byte = some (type, test))
      (hholds : t.passes type test l = holds) :
      Acts table i t [target, l]
        (.ok .next (t.write target .byte (if holds then 1 else 0)))
  | compareAndSet {byte : UInt8} {fields : List Field} {type : OperandType}
      {relation : Relation} {target a b : Location} {holds : Bool} (hop : i.opcode = .sdc)
      (hfields : i.fields = .condition .dyadic byte :: fields)
      (hcondition : Condition.dyadic? byte = some (type, relation))
      (hholds : t.compares? type relation a b = some holds) :
      Acts table i t [target, a, b]
        (.ok .next (t.write target .byte (if holds then 1 else 0)))

end Instruction

namespace Exec

variable {α : Type} {s t : State} {o : Operand} {size : Nat} {rest : List (Operand × Nat)}
  {destination : Option Location} {target : Location}
  {post : List Location → EStateM.Result Fault State α → Prop}

/-- An answer under the places of some operands: a null address under the mode byte of the first
operand that has no place, and otherwise as `post` says. -/
def Located (post : List Location → EStateM.Result Fault State α → Prop) :
    Except Operand (List Location) → EStateM.Result Fault State α → Prop
  | .error o, answer =>
      ∃ mode extension t, Operand.ofParts mode extension = o ∧
        answer = .error (.nullAddress mode) t
  | .ok places, answer => post places answer

/-- The part `x`, started in `s`, resolves the given operands with a destination to refer to, and
then answers as `post` says of their places. -/
def AtPlaces (operands : List (Operand × Nat)) (destination : Option Location) (x : Exec α)
    (s : State) (post : List Location → EStateM.Result Fault State α → Prop) : Prop :=
  Located post (Operand.places s.code.base destination s.registers s.cursor operands) (x s)

theorem atPlaces_nil {x : Exec α} (hpost : post [] (x s)) : AtPlaces [] destination x s post :=
  hpost

/-- Only the answer in the given state counts. -/
theorem atPlaces_congr {operands : List (Operand × Nat)} {x y : Exec α} (hxy : x s = y t)
    (hcore : s.toCore = t.toCore) (hy : AtPlaces operands destination y t post) :
    AtPlaces operands destination x s post := by
  unfold AtPlaces at hy ⊢
  rw [hxy, hcore]
  exact hy

theorem atPlaces_get {operands : List (Operand × Nat)} {k : State → Exec α}
    (hrest : AtPlaces operands destination (k s) s post) :
    AtPlaces operands destination (get >>= k) s post :=
  atPlaces_congr (bind_get k s) rfl hrest

/-- An operand is resolved, and then the others. -/
theorem atPlaces_operand {k : Location → Exec α}
    (hstand : Operand.Stand ((o, size) :: rest) s.ahead)
    (hrest : ∀ mode l, Operand.Stand rest (s.past o size (o.extent size) mode).ahead →
      AtPlaces rest (destination.or (some l)) (k l) (s.past o size (o.extent size) mode)
        (fun places answer => post (l :: places) answer)) :
    AtPlaces ((o, size) :: rest) destination (resolve size destination >>= k) s post := by
  obtain ⟨hparse, hothers⟩ := hstand
  obtain ⟨mode, hmode, hresolve⟩ := resolve_of_parse?_some s size destination hparse
  unfold AtPlaces
  simp only [Operand.places]
  cases hlocation : o.location? size s.registers s.code.base s.cursor
      (s.cursor + o.extent size) destination with
  | none =>
      rw [hlocation] at hresolve
      obtain ⟨byte, bytes, hahead, -, ho, -⟩ := Operand.exists_of_parse?_some hparse
      rw [hahead] at hmode
      cases hmode
      exact ⟨mode, _, _, ho.symm, bind_of_error hresolve⟩
  | some l =>
      rw [hlocation] at hresolve
      rw [bind_of_ok hresolve]
      have hnext : Located (fun places answer => post (l :: places) answer)
          (Operand.places s.code.base (destination.or (some l)) (o.moved size s.registers)
            (s.cursor + o.extent size) rest)
          (k l (s.past o size (o.extent size) mode)) := by
        refine hrest mode l ?_
        rw [State.past, State.ahead_skip]
        exact hothers
      revert hnext
      simp only
      cases Operand.places s.code.base (destination.or (some l)) (o.moved size s.registers)
          (s.cursor + o.extent size) rest with
      | error o => exact id
      | ok places => exact id

/-- The destination is resolved and noted, and the others may refer to it. -/
theorem atPlaces_destination {k : Location → Exec α}
    (hstand : Operand.Stand ((o, size) :: rest) s.ahead)
    (hrest : ∀ mode l,
      Operand.Stand rest ((s.past o size (o.extent size) mode).noting l).ahead →
      AtPlaces rest (some l) (k l) ((s.past o size (o.extent size) mode).noting l)
        (fun places answer => post (l :: places) answer)) :
    AtPlaces ((o, size) :: rest) none (resolveDestination size >>= k) s post := by
  unfold resolveDestination
  rw [bind_assoc]
  refine atPlaces_operand hstand fun mode l hothers => ?_
  exact atPlaces_congr rfl rfl (hrest mode l hothers)

/-- A source is resolved with the noted destination to refer to. -/
theorem atPlaces_source {k : Location → Exec α} (hnoted : s.latch.destination = some target)
    (hstand : Operand.Stand ((o, size) :: rest) s.ahead)
    (hrest : ∀ mode l, Operand.Stand rest (s.past o size (o.extent size) mode).ahead →
      AtPlaces rest (some target) (k l) (s.past o size (o.extent size) mode)
        (fun places answer => post (l :: places) answer)) :
    AtPlaces ((o, size) :: rest) (some target) (resolveSource size >>= k) s post := by
  refine atPlaces_congr (y := resolve size (some target) >>= k) ?_ rfl
    (atPlaces_operand hstand hrest)
  unfold resolveSource
  rw [bind_assoc, bind_get, hnoted]

end Exec

namespace Instruction

/-- The instruction acts at these places once all of its fields have been decoded. -/
def Enacts (table : HostTable) (i : Instruction) (s : State) (next : Nat)
    (places : List Location) (answer : EStateM.Result Fault State Flow) : Prop :=
  ∃ t, i.Decoded s next t ∧ i.Acts table t places answer

end Instruction

namespace Exec

open Instruction (Enacts Decoded)

/-- Where the fields of its opcode's layout are there and a condition among them is valid, the
handler resolves the operands to their places and acts there. -/
def PerformsAtPlaces (table : HostTable) (op : Opcode) : Prop :=
  ∀ s fields n, FieldKind.readAll? op.layout.fields 0 s.ahead = some (fields, n) →
    (∀ field ∈ fields, field.IsValid) →
    Located (Enacts table ⟨op, fields⟩ s (s.cursor + n))
      (Instruction.places ⟨op, fields⟩ s.registers s.code.base s.cursor)
      (perform table op s)

variable {table : HostTable} {op : Opcode} {fields : List Field} {n : Nat} {s : State}

/-! ## Instructions with a destination and a source -/

/-- The operands of an instruction with two operands. -/
theorem exists_of_binary {first second : Nat} {bytes : List UInt8}
    (hread : FieldKind.readAll? (Layout.binary first second).fields 0 bytes =
      some (fields, n)) :
    ∃ o o', fields = [.operand o, .operand o'] ∧ n = o.extent first + o'.extent second ∧
      Operand.Stand [(o, first), (o', second)] bytes := by
  obtain ⟨o, others, more, rfl, rfl, hparse, hrest⟩ :=
    FieldKind.exists_operand first (fun _ => rfl) hread
  obtain ⟨o', others, more, rfl, rfl, hparse', hrest⟩ :=
    FieldKind.exists_operand second (fun _ => rfl) hrest
  cases hrest
  exact ⟨o, o', rfl, rfl, hparse, hparse', trivial⟩

/-- Once both operands are resolved, a value is computed and stored. -/
theorem acts_compute {i : Instruction} {t : State} {d w : Width}
    {value : UInt64 → UInt64 → Option UInt64} {target source : Location}
    (hop : perform table i.opcode = compute d w value) :
    i.Acts table t [target, source] ((do
      let u ← get
      match value (u.read target d) (u.read source w) with
      | none => throw .zeroDivide
      | some x =>
          modify fun v => v.write target d x
          return Flow.next : Exec Flow) t) := by
  have hacts : i.Acts table t [target, source] _ := .compute hop
  cases hvalue : value (t.read target d) (t.read source w) with
  | none =>
      rw [hvalue] at hacts
      simp only [bind_get, hvalue]
      exact hacts
  | some x =>
      rw [hvalue] at hacts
      simp only [bind_get, hvalue]
      exact hacts

/-- Destination and source are resolved to their places, and the handler goes on with both of
them behind the instruction. -/
theorem binary_atPlaces {first second : Nat} {k : Location → Location → Exec Flow}
    {post : List Location → EStateM.Result Fault State Flow → Prop}
    (hop : perform table op = do
      let target ← resolveDestination first
      let source ← resolveSource second
      k target source)
    (hlayout : op.layout = .binary first second)
    (hread : FieldKind.readAll? op.layout.fields 0 s.ahead = some (fields, n))
    (hpost : ∀ t target source, Decoded ⟨op, fields⟩ s (s.cursor + n) t →
      post [target, source] (k target source t)) :
    Located post (Instruction.places ⟨op, fields⟩ s.registers s.code.base s.cursor)
      (perform table op s) := by
  rw [hlayout] at hread
  obtain ⟨o, o', rfl, rfl, hstand⟩ := exists_of_binary hread
  have hoperands : Instruction.operands ⟨op, [.operand o, .operand o']⟩ =
      [(o, first), (o', second)] := by
    unfold Instruction.operands
    rw [hlayout]
    rfl
  unfold Instruction.places
  rw [hoperands, hop]
  refine atPlaces_destination (s := s) hstand fun mode target hstand' => ?_
  refine atPlaces_source rfl hstand' fun mode' source _ => atPlaces_nil ?_
  apply hpost
  unfold Decoded Instruction.resolved
  rw [hoperands, ← Nat.add_assoc]
  rfl

theorem compute_atPlaces {d w : Width} {value : UInt64 → UInt64 → Option UInt64}
    (hop : perform table op = compute d w value)
    (hlayout : op.layout = .binary d.bytes w.bytes) : PerformsAtPlaces table op := by
  intro s fields n hread _
  exact binary_atPlaces hop hlayout hread
    fun t target source hdecoded => ⟨t, hdecoded, acts_compute hop⟩

theorem lea_atPlaces : PerformsAtPlaces table .lea := by
  intro s fields n hread _
  refine binary_atPlaces rfl rfl hread fun t target source hdecoded => ⟨t, hdecoded, ?_⟩
  cases source with
  | register bank r => exact .address rfl
  | memory a => exact .address rfl

/-! ## Instructions with a condition -/

theorem fetchTest_of_cons {byte : UInt8} {rest : List UInt8} {condition : OperandType × Test}
    (hahead : s.ahead = byte :: rest) (hcondition : Condition.monadic? byte = some condition) :
    fetchTest s = .ok condition { s with cursor := s.cursor + 1 } := by
  unfold fetchTest
  rw [bind_of_ok (fetchByte_of_cons s hahead), hcondition]
  rfl

theorem fetchRelation_of_cons {byte : UInt8} {rest : List UInt8}
    {condition : OperandType × Relation} (hahead : s.ahead = byte :: rest)
    (hcondition : Condition.dyadic? byte = some condition) :
    fetchRelation s = .ok (byte, condition) { s with cursor := s.cursor + 1 } := by
  unfold fetchRelation
  rw [bind_of_ok (fetchByte_of_cons s hahead), hcondition]
  rfl

theorem ahead_of_cons {byte : UInt8} {rest : List UInt8} (hahead : s.ahead = byte :: rest) :
    State.ahead { s with cursor := s.cursor + 1 } = rest := by
  rw [State.ahead_skip s 1 s.registers s.latch, hahead]
  rfl

/-- A displacement that is there is fetched before the branch. -/
theorem branchIf_of_le (taken : Bool) (hlong : 4 ≤ s.ahead.length) :
    branchIf taken s =
      branchWhen taken (LittleEndian.displacement (s.ahead.take 4))
        { s with cursor := s.cursor + 4 } := by
  rw [State.length_ahead] at hlong
  exact bind_of_ok (fetchDisplacement_of_le s (by omega))

/-- Under a valid condition two operands always compare. -/
theorem exists_compares? {byte : UInt8} {type : OperandType} {relation : Relation}
    (hcondition : Condition.dyadic? byte = some (type, relation)) (c : Core) (a b : Location) :
    ∃ holds, c.compares? type relation a b = some holds := by
  cases type with
  | integer w => exact ⟨_, rfl⟩
  | real p =>
      -- The condition byte is refused where an unsigned comparison is asked of reals.
      have hsigned : relation.isUnsigned = false := by
        unfold Condition.dyadic? at hcondition
        obtain ⟨type, -, hcondition⟩ := Option.bind_eq_some_iff.mp hcondition
        obtain ⟨relation', -, hcondition⟩ := Option.bind_eq_some_iff.mp hcondition
        split at hcondition
        · cases hcondition
        · rename_i hallowed
          cases hcondition
          simpa [OperandType.isReal] using hallowed
      cases relation with
      | lo => cases hsigned
      | ls => cases hsigned
      | hi => cases hsigned
      | hs => cases hsigned
      | _ => exact ⟨_, rfl⟩

theorem compare_of_some {byte : UInt8} {type : OperandType} {relation : Relation}
    {a b : Location} {holds : Bool} (hholds : s.compares? type relation a b = some holds) :
    compare byte type relation a b s = .ok holds s := by
  unfold compare
  simp only [bind_get, hholds]
  rfl

/-- After the operands a displacement is fetched, and control branches by it. -/
theorem atPlaces_branchIf {destination : Option Location} {bytes : List UInt8} {taken : Bool}
    {post : List Location → EStateM.Result Fault State Flow → Prop} (hahead : s.ahead = bytes)
    (hlong : 4 ≤ bytes.length)
    (hpost : post [] (branchWhen taken (LittleEndian.displacement (bytes.take 4))
      { s with cursor := s.cursor + 4 })) :
    AtPlaces [] destination (branchIf taken) s post := by
  subst hahead
  refine atPlaces_nil ?_
  rw [branchIf_of_le taken hlong]
  exact hpost

theorem atPlaces_compare {α : Type} {destination : Option Location} {byte : UInt8}
    {type : OperandType} {relation : Relation} {a b : Location} {k : Bool → Exec α}
    {operands : List (Operand × Nat)}
    {post : List Location → EStateM.Result Fault State α → Prop}
    (hcondition : Condition.dyadic? byte = some (type, relation))
    (hrest : ∀ holds, s.compares? type relation a b = some holds →
      AtPlaces operands destination (k holds) s post) :
    AtPlaces operands destination (compare byte type relation a b >>= k) s post := by
  obtain ⟨holds, hholds⟩ := exists_compares? hcondition s.toCore a b
  exact atPlaces_congr (bind_of_ok (compare_of_some hholds)) rfl (hrest holds hholds)

/-- A field stands before the operands. -/
theorem located_behind {γ : Type} {x : Exec γ} {c : γ} {k : γ → Exec Flow} {front : Field}
    {others : List Field} {operands : List (Operand × Nat)} {m more : Nat}
    (hop : perform table op = x >>= k)
    (hfetch : x s = .ok c { s with cursor := s.cursor + m })
    (hlead : Instruction.lead ⟨op, front :: others⟩ = m)
    (hoperands : Instruction.operands ⟨op, front :: others⟩ = operands)
    (hrest : AtPlaces operands none (k c) { s with cursor := s.cursor + m }
      (Enacts table ⟨op, front :: others⟩ s (s.cursor + m + more))) :
    Located (Enacts table ⟨op, front :: others⟩ s (s.cursor + (m + more)))
      (Instruction.places ⟨op, front :: others⟩ s.registers s.code.base s.cursor)
      (perform table op s) := by
  unfold Instruction.places
  rw [hlead, hoperands, hop, bind_of_ok hfetch, ← Nat.add_assoc]
  exact hrest

/-- A condition byte that tests one operand stands before the operands. -/
theorem performsAtPlaces_test {kinds : List FieldKind}
    {k : OperandType × Test → Exec Flow}
    (hkinds : op.layout.fields = .condition .monadic :: kinds)
    (hop : perform table op = fetchTest >>= k)
    (hrest : ∀ s byte type test others more u,
      Condition.monadic? byte = some (type, test) →
      u.toCore = { s.toCore with cursor := s.cursor + 1 } →
      Instruction.operands ⟨op, .condition .monadic byte :: others⟩ =
        FieldKind.operands kinds type.size others →
      FieldKind.readAll? kinds type.size u.ahead = some (others, more) →
      AtPlaces (FieldKind.operands kinds type.size others) none (k (type, test)) u
        (Enacts table ⟨op, .condition .monadic byte :: others⟩ s (u.cursor + more))) :
    PerformsAtPlaces table op := by
  intro s fields n hread hvalid
  rw [hkinds] at hread
  obtain ⟨byte, rest, others, more, hahead, rfl, rfl, hothers⟩ :=
    FieldKind.exists_condition hread
  obtain ⟨⟨type, test⟩, hcondition⟩ := Option.ne_none_iff_exists'.mp
    (hvalid (.condition .monadic byte) (by simp))
  have hsize := Condition.operandSize_of_monadic? hcondition
  rw [hsize, ← ahead_of_cons hahead] at hothers
  have hoperands : Instruction.operands ⟨op, .condition .monadic byte :: others⟩ =
      FieldKind.operands kinds type.size others := by
    unfold Instruction.operands
    rw [hkinds, ← hsize]
    rfl
  exact located_behind hop (fetchTest_of_cons hahead hcondition) rfl hoperands
    (hrest s byte type test others more _ hcondition rfl hoperands hothers)

/-- A condition byte that compares two operands stands before the operands. -/
theorem performsAtPlaces_relation {kinds : List FieldKind}
    {k : UInt8 × OperandType × Relation → Exec Flow}
    (hkinds : op.layout.fields = .condition .dyadic :: kinds)
    (hop : perform table op = fetchRelation >>= k)
    (hrest : ∀ s byte type relation others more u,
      Condition.dyadic? byte = some (type, relation) →
      u.toCore = { s.toCore with cursor := s.cursor + 1 } →
      Instruction.operands ⟨op, .condition .dyadic byte :: others⟩ =
        FieldKind.operands kinds type.size others →
      FieldKind.readAll? kinds type.size u.ahead = some (others, more) →
      AtPlaces (FieldKind.operands kinds type.size others) none (k (byte, type, relation)) u
        (Enacts table ⟨op, .condition .dyadic byte :: others⟩ s (u.cursor + more))) :
    PerformsAtPlaces table op := by
  intro s fields n hread hvalid
  rw [hkinds] at hread
  obtain ⟨byte, rest, others, more, hahead, rfl, rfl, hothers⟩ :=
    FieldKind.exists_condition hread
  obtain ⟨⟨type, relation⟩, hcondition⟩ := Option.ne_none_iff_exists'.mp
    (hvalid (.condition .dyadic byte) (by simp))
  have hsize := Condition.operandSize_of_dyadic? hcondition
  rw [hsize, ← ahead_of_cons hahead] at hothers
  have hoperands : Instruction.operands ⟨op, .condition .dyadic byte :: others⟩ =
      FieldKind.operands kinds type.size others := by
    unfold Instruction.operands
    rw [hkinds, ← hsize]
    rfl
  exact located_behind hop (fetchRelation_of_cons hahead hcondition) rfl hoperands
    (hrest s byte type relation others more _ hcondition rfl hoperands hothers)

/-- The operands have been decoded behind the fields before them. -/
theorem decoded_behind {i : Instruction} {u t : State} {next m : Nat}
    {operands : List (Operand × Nat)} (hu : u.toCore = { s.toCore with cursor := m })
    (hoperands : i.operands = operands)
    (ht : t.toCore =
      { u.toCore with cursor := next, registers := u.registers.stepped operands }) :
    i.Decoded s next t := by
  unfold Decoded Instruction.resolved
  rw [ht, hu, hoperands]

theorem bmc_atPlaces : PerformsAtPlaces table .bmc := by
  refine performsAtPlaces_test rfl rfl
    fun s byte type test others more u hcondition hu hoperands hrest => ?_
  obtain ⟨o, others, more, rfl, rfl, hparse, hrest⟩ :=
    FieldKind.exists_operand type.size (fun _ => rfl) hrest
  obtain ⟨hlong, rfl, rfl⟩ := FieldKind.exists_branch hrest
  refine atPlaces_destination ⟨hparse, trivial⟩ fun mode l _ => ?_
  refine atPlaces_get ?_
  refine atPlaces_branchIf (State.ahead_skip _ _ _ _) hlong
    ⟨_, decoded_behind hu hoperands ?_,
      .testAndBranch rfl rfl hcondition (Core.passes_of_same rfl rfl ..)⟩
  rfl

theorem bdc_atPlaces : PerformsAtPlaces table .bdc := by
  refine performsAtPlaces_relation rfl rfl
    fun s byte type relation others more u hcondition hu hoperands hrest => ?_
  obtain ⟨o, others, more, rfl, rfl, hparse, hrest⟩ :=
    FieldKind.exists_operand type.size (fun _ => rfl) hrest
  obtain ⟨o', others, more, rfl, rfl, hparse', hrest⟩ :=
    FieldKind.exists_operand type.size (fun _ => rfl) hrest
  obtain ⟨hlong, rfl, rfl⟩ := FieldKind.exists_branch hrest
  refine atPlaces_destination ⟨hparse, hparse', trivial⟩ fun mode a hstand => ?_
  refine atPlaces_source rfl hstand fun mode' b _ => ?_
  refine atPlaces_compare hcondition fun holds hholds => ?_
  refine atPlaces_branchIf ?_ hlong
    ⟨_, decoded_behind hu hoperands ?_,
      .compareAndBranch rfl rfl hcondition ((Core.compares?_of_same rfl rfl ..).trans hholds)⟩
  · exact (State.ahead_skip _ _ _ _).trans
      (congrArg (List.drop _) (State.ahead_skip _ _ _ _))
  · simp only [← Nat.add_assoc]
    rfl

theorem smc_atPlaces : PerformsAtPlaces table .smc := by
  refine performsAtPlaces_test rfl rfl
    fun s byte type test others more u hcondition hu hoperands hrest => ?_
  obtain ⟨o, others, more, rfl, rfl, hparse, hrest⟩ :=
    FieldKind.exists_operand 1 (fun _ => rfl) hrest
  obtain ⟨o', others, more, rfl, rfl, hparse', hrest⟩ :=
    FieldKind.exists_operand type.size (fun _ => rfl) hrest
  cases hrest
  refine atPlaces_destination ⟨hparse, hparse', trivial⟩ fun mode target hstand => ?_
  refine atPlaces_source rfl hstand fun mode' l _ => atPlaces_nil ?_
  refine ⟨((u.past o 1 (o.extent 1) mode).noting target).past o' type.size
    (o'.extent type.size) mode', decoded_behind hu hoperands ?_,
    .testAndSet rfl rfl hcondition rfl⟩
  simp only [← Nat.add_assoc]
  rfl

theorem sdc_atPlaces : PerformsAtPlaces table .sdc := by
  refine performsAtPlaces_relation rfl rfl
    fun s byte type relation others more u hcondition hu hoperands hrest => ?_
  obtain ⟨o, others, more, rfl, rfl, hparse, hrest⟩ :=
    FieldKind.exists_operand 1 (fun _ => rfl) hrest
  obtain ⟨o', others, more, rfl, rfl, hparse', hrest⟩ :=
    FieldKind.exists_operand type.size (fun _ => rfl) hrest
  obtain ⟨o'', others, more, rfl, rfl, hparse'', hrest⟩ :=
    FieldKind.exists_operand type.size (fun _ => rfl) hrest
  cases hrest
  refine atPlaces_destination ⟨hparse, hparse', hparse'', trivial⟩ fun mode target hstand => ?_
  refine atPlaces_source rfl hstand fun mode' a hstand' => ?_
  refine atPlaces_source rfl hstand' fun mode'' b _ => ?_
  refine atPlaces_compare hcondition fun holds hholds => atPlaces_nil ?_
  refine ⟨(((u.past o 1 (o.extent 1) mode).noting target).past o' type.size
    (o'.extent type.size) mode').past o'' type.size (o''.extent type.size) mode'',
    decoded_behind hu hoperands ?_, .compareAndSet rfl rfl hcondition hholds⟩
  simp only [← Nat.add_assoc]
  rfl

/-! ## All opcodes -/

/-- The handlers of instructions with a destination: all but five of them compute a value from
destination and source. -/
theorem handler_of_destination (table : HostTable) (hdestination : op.hasDestination = true) :
    op ∈ [.bmc, .bdc, .smc, .sdc, .lea] ∨
      ∃ d w value, perform table op = compute d w value ∧
        op.layout = .binary d.bytes w.bytes := by
  have htransform : ∀ {d w : Width} {value : UInt64 → UInt64} {op : Opcode},
      perform table op = transform d w value → op.layout = .binary d.bytes w.bytes →
      ∃ d w value, perform table op = compute d w value ∧
        op.layout = .binary d.bytes w.bytes := by
    intro d w value op hop hlayout
    exact ⟨d, w, fun _ x => some (value x), hop, hlayout⟩
  cases op with
  | bmc => simp
  | bdc => simp
  | smc => simp
  | sdc => simp
  | lea => simp
  | move w => exact .inr (htransform rfl rfl)
  | fmove p => exact .inr (htransform rfl rfl)
  | ext e => exact .inr (htransform rfl rfl)
  | realOfInteger w p => exact .inr (htransform rfl rfl)
  | integerOfReal p w => exact .inr (htransform rfl rfl)
  | convert p =>
      cases p with
      | single => exact .inr (htransform (d := .quad) (w := .long) rfl rfl)
      | double => exact .inr (htransform (d := .long) (w := .quad) rfl rfl)
  | integerBinary op w => exact .inr ⟨w, w, op.eval? w, rfl, rfl⟩
  | integerUnary op w => exact .inr (htransform rfl rfl)
  | shift op w => exact .inr ⟨w, .byte, fun a n => some (op.eval w a n), rfl, rfl⟩
  | realBinary op p => exact .inr ⟨p.width, p.width, fun a b => some (op.eval p a b), rfl, rfl⟩
  | realUnary op p => exact .inr (htransform rfl rfl)
  | _ => cases hdestination

/-- Every handler of an instruction with a destination acts at the places of its operands. -/
theorem perform_atPlaces (table : HostTable) (hdestination : op.hasDestination = true) :
    PerformsAtPlaces table op := by
  obtain hnamed | ⟨d, w, value, hop, hlayout⟩ := handler_of_destination table hdestination
  · simp only [List.mem_cons, List.not_mem_nil, or_false] at hnamed
    obtain rfl | rfl | rfl | rfl | rfl := hnamed
    · exact bmc_atPlaces
    · exact bdc_atPlaces
    · exact smc_atPlaces
    · exact sdc_atPlaces
    · exact lea_atPlaces
  · exact compute_atPlaces hop hlayout

end Exec

/-! ## References without a destination -/

/-- The bytes between the opcode byte and the first operand, for an opcode that has operands: a
condition byte of its kind, a register mask, or nothing. -/
def Opcode.Leads (op : Opcode) (front : List UInt8) : Prop :=
  match op.layout with
  | .testAndBranch | .testAndSet => ∃ byte, front = [byte] ∧ Condition.monadic? byte ≠ none
  | .compareAndBranch | .compareAndSet => ∃ byte, front = [byte] ∧ Condition.dyadic? byte ≠ none
  | .block => front.length = 4
  | .target | .counter | .unary _ | .binary _ _ => front = []
  | _ => False

namespace Exec

variable {α β : Type} {mode : UInt8} {front rest : List UInt8}

/-- The part stops with this fault. -/
def Faults (f : Fault) (x : Exec α) (s : State) : Prop := ∃ t, x s = .error f t

theorem faults_bind {f : Fault} {x : Exec α} {k : α → Exec β} (hx : Faults f x s) :
    Faults f (x >>= k) s := by
  obtain ⟨t, ht⟩ := hx
  exact ⟨t, bind_of_error ht⟩

theorem faults_behind {f : Fault} {x : Exec α} {a : α} {k : α → Exec β} {t : State}
    (hx : x s = .ok a t) (hk : Faults f (k a) t) : Faults f (x >>= k) s := by
  obtain ⟨u, hu⟩ := hk
  exact ⟨u, (bind_of_ok hx).trans hu⟩

/-- Without a destination there is nothing to refer to. -/
theorem faults_resolve (size : Nat) (hahead : s.ahead = mode :: rest)
    (hmode : Mode.ofByte mode = .sameAsDestination) :
    Faults (.nullAddress mode) (resolve size none) s := by
  refine faults_behind (fetchByte_of_cons s hahead) (faults_behind rfl ?_)
  unfold resolveMode
  rw [hmode]
  exact ⟨_, rfl⟩

theorem faults_destination (size : Nat) (k : Location → Exec α) (hahead : s.ahead = mode :: rest)
    (hmode : Mode.ofByte mode = .sameAsDestination) :
    Faults (.nullAddress mode) (resolveDestination size >>= k) s :=
  faults_bind (faults_bind (faults_resolve size hahead hmode))

theorem faults_address (size : Nat) (k : UInt64 → Exec α) (hahead : s.ahead = mode :: rest)
    (hmode : Mode.ofByte mode = .sameAsDestination) :
    Faults (.nullAddress mode) (resolveAddress size >>= k) s :=
  faults_bind (faults_bind (faults_resolve size hahead hmode))

theorem faults_test {k : OperandType × Test → Exec α}
    (hfront : ∃ byte, front = [byte] ∧ Condition.monadic? byte ≠ none)
    (hahead : s.ahead = front ++ mode :: rest)
    (hk : ∀ condition t, t.ahead = mode :: rest → Faults (.nullAddress mode) (k condition) t) :
    Faults (.nullAddress mode) (fetchTest >>= k) s := by
  obtain ⟨byte, rfl, hvalid⟩ := hfront
  obtain ⟨condition, hcondition⟩ := Option.ne_none_iff_exists'.mp hvalid
  exact faults_behind (fetchTest_of_cons hahead hcondition)
    (hk condition _ (ahead_of_cons hahead))

theorem faults_relation {k : UInt8 × OperandType × Relation → Exec α}
    (hfront : ∃ byte, front = [byte] ∧ Condition.dyadic? byte ≠ none)
    (hahead : s.ahead = front ++ mode :: rest)
    (hk : ∀ condition t, t.ahead = mode :: rest → Faults (.nullAddress mode) (k condition) t) :
    Faults (.nullAddress mode) (fetchRelation >>= k) s := by
  obtain ⟨byte, rfl, hvalid⟩ := hfront
  obtain ⟨condition, hcondition⟩ := Option.ne_none_iff_exists'.mp hvalid
  exact faults_behind (fetchRelation_of_cons hahead hcondition)
    (hk (byte, condition) _ (ahead_of_cons hahead))

theorem faults_block {k : RegisterMask → UInt64 → Exec α} (hfront : front.length = 4)
    (hahead : s.ahead = front ++ mode :: rest)
    (hmode : Mode.ofByte mode = .sameAsDestination) :
    Faults (.nullAddress mode)
      (fetchLong >>= fun mask => resolveAddress (RegisterMask.blockSize mask) >>= k mask) s := by
  have hlength := s.length_ahead
  rw [hahead, List.length_append, List.length_cons] at hlength
  have hbehind : State.ahead { s with cursor := s.cursor + 4 } = mode :: rest := by
    rw [State.ahead_skip s 4 s.registers s.latch, hahead, ← hfront, List.drop_left]
  exact faults_behind (fetch_decoded_of_le _ s 4 (by omega)) (faults_address _ _ hbehind hmode)

/-- In every handler the first operand is resolved without a destination. -/
theorem faults_perform (table : HostTable) (op : Opcode) (hfront : op.Leads front)
    (hahead : s.ahead = front ++ mode :: rest)
    (hmode : Mode.ofByte mode = .sameAsDestination) :
    Faults (.nullAddress mode) (perform table op) s := by
  -- A destination is resolved before it is noted, so it is no exception.
  by_cases hdestination : op.hasDestination = true
  · obtain hnamed | ⟨d, w, value, hop, hlayout⟩ := handler_of_destination table hdestination
    · simp only [List.mem_cons, List.not_mem_nil, or_false] at hnamed
      obtain rfl | rfl | rfl | rfl | rfl := hnamed
      · exact faults_test hfront hahead fun _ _ ht => faults_destination _ _ ht hmode
      · exact faults_relation hfront hahead fun _ _ ht => faults_destination _ _ ht hmode
      · exact faults_test hfront hahead fun _ _ ht => faults_destination _ _ ht hmode
      · exact faults_relation hfront hahead fun _ _ ht => faults_destination _ _ ht hmode
      · obtain rfl : front = [] := hfront
        exact faults_destination _ _ hahead hmode
    · unfold Opcode.Leads at hfront
      rw [hlayout] at hfront
      obtain rfl : front = [] := hfront
      rw [hop]
      exact faults_destination _ _ hahead hmode
  · cases op with
    | jmp =>
        obtain rfl : front = [] := hfront
        exact faults_address _ _ hahead hmode
    | jsr =>
        obtain rfl : front = [] := hfront
        exact faults_address _ _ hahead hmode
    | pea =>
        obtain rfl : front = [] := hfront
        exact faults_address _ _ hahead hmode
    | clr w =>
        obtain rfl : front = [] := hfront
        exact faults_bind (faults_resolve _ hahead hmode)
    | dbnz =>
        obtain rfl : front = [] := hfront
        exact faults_bind (faults_resolve _ hahead hmode)
    | savem => exact faults_block hfront hahead hmode
    | loadm => exact faults_block hfront hahead hmode
    | stop => exact hfront.elim
    | host => exact hfront.elim
    | bra => exact hfront.elim
    | bsr => exact hfront.elim
    | rts => exact hfront.elim
    | exg => exact hfront.elim
    | fexg => exact hfront.elim
    | link => exact hfront.elim
    | unlk => exact hfront.elim
    | convert p => cases p <;> exact absurd rfl hdestination
    | _ => exact absurd rfl hdestination

end Exec

namespace State

variable {host : HostTable} {s t : State} {i : Instruction} {n : Nat}

/-- The instruction at the cursor resolves its operands to their places. -/
theorem handled_located (host : HostTable) (hlisted : s.instruction? = some (i, n))
    (hdestination : i.opcode.hasDestination = true)
    (hvalid : ∀ field ∈ i.fields, field.IsValid) :
    Exec.Located
      (fun places answer =>
        ∃ t, t.toCore = { i.resolved s.started with cursor := s.cursor + n } ∧
          i.Acts host t places answer)
      (i.places s.registers s.code.base (s.cursor + 1)) (s.handled host) := by
  obtain ⟨byte, rest, m, hahead, hop, hfields, rfl⟩ := exists_of_instruction? hlisted
  rw [← readAll?_behindOpcode hahead] at hfields
  have henacts := Exec.perform_atPlaces host hdestination _ _ _ hfields hvalid
  rw [handled_of_cons host hahead, hop, ← Nat.add_assoc]
  exact henacts

/-- The state after a step whose instruction gives this answer and calls no host function. -/
def settled : EStateM.Result Fault State Flow → State
  | .ok _ t => t
  | .error f t => t.raise f

/-- After an instruction with a destination, the next one follows. -/
theorem flow_of_acts {places : List Location} {answer : EStateM.Result Fault State Flow}
    (hacts : i.Acts host t places answer) {flow : Flow} {u : State}
    (hanswer : answer = .ok flow u) : flow = .next := by
  have hbranch : ∀ taken d, Exec.branchWhen taken d t = .ok flow u → flow = .next := by
    intro taken d hok
    cases taken with
    | false =>
        cases hok
        rfl
    | true =>
        unfold Exec.branchWhen at hok
        cases hgoes : Exec.branch d t with
        | error f v =>
            rw [if_pos rfl, Exec.bind_of_error hgoes] at hok
            cases hok
        | ok a v =>
            rw [if_pos rfl, Exec.bind_of_ok hgoes] at hok
            cases hok
            rfl
  cases hacts with
  | compute hop =>
      split at hanswer <;> cases hanswer
      rfl
  | address hop =>
      split at hanswer <;> cases hanswer
      rfl
  | testAndBranch hop hfields hcondition hholds => exact hbranch _ _ hanswer
  | compareAndBranch hop hfields hcondition hholds => exact hbranch _ _ hanswer
  | testAndSet hop hfields hcondition hholds =>
      cases hanswer
      rfl
  | compareAndSet hop hfields hcondition hholds =>
      cases hanswer
      rfl

/-- A step over an instruction with a destination does what the instruction does. -/
theorem step_of_acts {places : List Location} (hactive : s.status.isActive = true)
    (hacts : i.Acts host t places (s.handled host)) (fuel : Nat) :
    s.step host fuel = some (settled (s.handled host)) := by
  cases hanswer : s.handled host with
  | error f u =>
      obtain ⟨v, hv, hstep⟩ := raises_of_handled hactive hanswer
      rw [hanswer] at hv
      cases hv
      exact hstep fuel
  | ok flow u =>
      obtain rfl := flow_of_acts hacts hanswer
      exact step_of_handled hactive hanswer fuel

end State

end BytecodeMachine
