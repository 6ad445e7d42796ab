import BytecodeMachine.Proofs.Assembly.Restoration
import BytecodeMachine.Proofs.Instruction.Locality
import BytecodeMachine.Proofs.Listing.Indexing
import BytecodeMachine.Proofs.Operand.RoundTrip

/-!
# Listings partition the code

A line delimits itself: it can be read off its own bytes, and off no fewer of them.  So the lines of
a listing stand one behind the other, and code that is put behind other code is listed as if it
stood alone, up to its place.

* `FieldKind.readAll?_take_of_lt` says that a part of an instruction is no instruction;
* `Listing.Chain` and `Listing.Breaks` follow the lines from an offset on, to the end of the code or
  to an instruction that the code ends within;
* `Listing.listing_partitions_code` says what follows for single lines and for whole listings.
-/

namespace BytecodeMachine

/-! ## A part of an instruction is no instruction -/

namespace FieldKind

variable {bytes : List UInt8} {size n k : Nat}

theorem readByte?_take_of_lt {field : Field} {make : UInt8 → Field}
    (hread : readByte? bytes make = some (field, n)) (hk : k < n) :
    readByte? (bytes.take k) make = none := by
  obtain ⟨byte, -, hpair⟩ := Option.map_eq_some_iff.mp hread
  cases hpair
  obtain rfl : k = 0 := by omega
  rfl

theorem readLong?_take_of_lt {field : Field} {make : List UInt8 → Field}
    (hread : readLong? bytes make = some (field, n)) (hk : k < n) :
    readLong? (bytes.take k) make = none := by
  obtain ⟨front, -, hpair⟩ := Option.map_eq_some_iff.mp hread
  cases hpair
  have hshort : ((bytes.take k).take 4).length < 4 := by
    rw [List.length_take, List.length_take]
    omega
  unfold readLong? take?
  dsimp only
  rw [if_pos hshort]
  rfl

theorem readOperand?_take_of_lt {field : Field}
    (hread : readOperand? bytes size = some (field, n)) (hk : k < n) :
    readOperand? (bytes.take k) size = none := by
  obtain ⟨⟨o, length⟩, hparse, hpair⟩ := Option.map_eq_some_iff.mp hread
  cases hpair
  unfold readOperand?
  rw [Operand.parse?_take_of_lt hparse hk]
  rfl

/-- A part of a field is no field. -/
theorem read?_take_of_lt {kind : FieldKind} {field : Field}
    (hread : kind.read? size bytes = some (field, n)) (hk : k < n) :
    kind.read? size (bytes.take k) = none := by
  cases kind with
  | hostModule => exact readByte?_take_of_lt hread hk
  | branch => exact readLong?_take_of_lt hread hk
  | condition arity => exact readByte?_take_of_lt hread hk
  | operand fixed => exact readOperand?_take_of_lt hread hk
  | sizedOperand => exact readOperand?_take_of_lt hread hk
  | registerPair bank => exact readByte?_take_of_lt hread hk
  | mask => exact readLong?_take_of_lt hread hk
  | frameRegister => exact readByte?_take_of_lt hread hk
  | displacement => exact readLong?_take_of_lt hread hk

/-- A part of the fields of an instruction is not enough. -/
theorem readAll?_take_of_lt {kinds : List FieldKind} {fields : List Field}
    (hread : readAll? kinds size bytes = some (fields, n)) (hk : k < n) :
    readAll? kinds size (bytes.take k) = none := by
  induction kinds generalizing size bytes fields n k with
  | nil =>
      cases hread
      omega
  | cons kind kinds ih =>
      obtain ⟨field, m, others, more, hfield, hrest, -, rfl⟩ := exists_of_readAll?_cons hread
      by_cases hfirst : k < m
      · simp only [readAll?, read?_take_of_lt hfield hfirst]
      · -- The first field is whole, and the others are cut.
        have hsame : (bytes.take k).take m = bytes.take m := by
          rw [List.take_take, Nat.min_eq_left (by omega)]
        have hcut : (bytes.take k).drop m = (bytes.drop m).take (k - m) := List.drop_take
        apply readAll?_cons_of_none (read?_of_take hfield hsame)
        rw [hcut]
        exact ih hrest (by omega)

end FieldKind

/-! ## Lines delimit themselves -/

namespace Listing

variable {code other : List UInt8} {offset : Nat} {l : PlacedLine}

/-- What the reading of a line can come to, and from which bytes. -/
inductive Reads (code : List UInt8) (offset : Nat) : Except ListingError PlacedLine → Prop where
  | outside : code.length ≤ offset → Reads code offset (.error (.outOfRange offset))
  | byte {value : UInt8} {rest : List UInt8} :
      code.drop offset = value :: rest → Opcode.ofByte? value = none →
      Reads code offset (.ok { offset, length := 1, line := .byte value })
  | cut {value : UInt8} {rest : List UInt8} {opcode : Opcode} :
      code.drop offset = value :: rest → Opcode.ofByte? value = some opcode →
      FieldKind.readAll? opcode.layout.fields 0 rest = none →
      Reads code offset (.error (.truncated offset opcode))
  | whole {value : UInt8} {rest : List UInt8} {opcode : Opcode} {fields : List Field} {n : Nat} :
      code.drop offset = value :: rest → Opcode.ofByte? value = some opcode →
      FieldKind.readAll? opcode.layout.fields 0 rest = some (fields, n) →
      Reads code offset
        (.ok { offset, length := 1 + n, line := .instruction { opcode, fields } })

theorem reads_lineAt (code : List UInt8) (offset : Nat) :
    Reads code offset (lineAt code offset) := by
  cases hahead : code.drop offset with
  | nil =>
      have hend := List.drop_eq_nil_iff.mp hahead
      rw [lineAt_of_le hend]
      exact .outside hend
  | cons value rest =>
      cases hop : Opcode.ofByte? value with
      | none =>
          rw [lineAt_of_none hahead hop]
          exact .byte hahead hop
      | some opcode =>
          rw [lineAt_of_some hahead hop]
          cases hread : FieldKind.readAll? opcode.layout.fields 0 rest with
          | none => exact .cut hahead hop hread
          | some answer => exact .whole hahead hop hread

theorem reads_of_ok (hline : lineAt code offset = .ok l) : Reads code offset (.ok l) := by
  rw [← hline]
  exact reads_lineAt code offset

theorem reads_of_error {e : ListingError} (hline : lineAt code offset = .error e) :
    Reads code offset (.error e) := by
  rw [← hline]
  exact reads_lineAt code offset

/-- There is no line exactly where there is no byte. -/
theorem lineAt_eq_outOfRange_iff {place : Nat} :
    lineAt code offset = .error (.outOfRange place) ↔ place = offset ∧ code.length ≤ offset := by
  constructor
  · intro hline
    cases reads_of_error hline with
    | outside hend => exact ⟨rfl, hend⟩
  · rintro ⟨rfl, hend⟩
    exact lineAt_of_le hend

/-- A line is not empty and lies within the code. -/
theorem lineAt_bounds (hline : lineAt code offset = .ok l) :
    1 ≤ l.length ∧ offset + l.length ≤ code.length := by
  cases reads_of_ok hline with
  | byte hahead hop =>
      have hlength := congrArg List.length hahead
      rw [List.length_drop, List.length_cons] at hlength
      dsimp only
      omega
  | whole hahead hop hread =>
      have hlength := congrArg List.length hahead
      have hn := FieldKind.length_readAll?_le hread
      rw [List.length_drop, List.length_cons] at hlength
      dsimp only
      omega

/-- A line is read off its own bytes. -/
theorem lineAt_of_take (hline : lineAt code offset = .ok l)
    (hsame : (other.drop offset).take l.length = (code.drop offset).take l.length) :
    lineAt other offset = .ok l := by
  cases reads_of_ok hline with
  | @byte value rest hahead hop =>
      rw [hahead] at hsame
      cases hother : other.drop offset with
      | nil =>
          rw [hother] at hsame
          cases hsame
      | cons value' rest' =>
          rw [hother] at hsame
          cases hsame
          exact lineAt_of_none hother hop
  | @whole value rest opcode fields n hahead hop hread =>
      rw [hahead, Nat.add_comm 1, List.take_succ_cons] at hsame
      cases hother : other.drop offset with
      | nil =>
          rw [hother] at hsame
          cases hsame
      | cons value' rest' =>
          rw [hother, List.take_succ_cons] at hsame
          obtain ⟨rfl, hrest⟩ := List.cons.inj hsame
          rw [lineAt_of_some hother hop, FieldKind.readAll?_of_take hread hrest]

/-- A line is read off no fewer bytes. -/
theorem lineAt_take_of_lt {k : Nat} (hline : lineAt code offset = .ok l) (hfrom : offset < k)
    (hto : k < offset + l.length) :
    ∃ i, l.line = .instruction i ∧
      lineAt (code.take k) offset = .error (.truncated offset i.opcode) := by
  cases reads_of_ok hline with
  | byte hahead hop =>
      dsimp only at hto
      omega
  | @whole value rest opcode fields n hahead hop hread =>
      dsimp only at hto
      have hplace : k - offset = k - offset - 1 + 1 := by omega
      have hcut : (code.take k).drop offset = value :: rest.take (k - offset - 1) := by
        rw [List.drop_take, hahead, hplace, List.take_succ_cons]
        rfl
      refine ⟨_, rfl, ?_⟩
      rw [lineAt_of_some hcut hop, FieldKind.readAll?_take_of_lt hread (by omega)]

/-! ## Chains of lines -/

/-- Lines stand one behind the other, from an offset on to the end of the code. -/
inductive Chain (code : List UInt8) : Nat → List PlacedLine → Prop where
  | done : Chain code code.length []
  | line {offset : Nat} {l : PlacedLine} {ls : List PlacedLine} :
      lineAt code offset = .ok l → Chain code (offset + l.length) ls → Chain code offset (l :: ls)

/-- The lines from an offset on come to an instruction that the code ends within. -/
inductive Breaks (code : List UInt8) : Nat → ListingError → Prop where
  | here {offset : Nat} {opcode : Opcode} :
      lineAt code offset = .error (.truncated offset opcode) →
      Breaks code offset (.truncated offset opcode)
  | line {offset : Nat} {l : PlacedLine} {e : ListingError} :
      lineAt code offset = .ok l → Breaks code (offset + l.length) e → Breaks code offset e

/-- The line at an offset is the one that is read there. -/
theorem read_of_lineAt (hline : lineAt code offset = .ok l) :
    Line.read offset (code.drop offset) = .ok (l.line, l.length) ∧ l.offset = offset := by
  unfold lineAt Line.readAt at hline
  split at hline
  · rename_i hread
    cases hline
    exact ⟨hread, rfl⟩
  · cases hline

/-- A line is listed before the lines behind it. -/
theorem linesFrom_of_ok (hline : lineAt code offset = .ok l) :
    linesFrom (code.drop offset) offset 0 =
      (linesFrom (code.drop (offset + l.length)) (offset + l.length) 0).map (l :: ·) := by
  obtain ⟨hpositive, hwithin⟩ := lineAt_bounds hline
  obtain ⟨hread, hoffset⟩ := read_of_lineAt hline
  have hinside : offset < code.length := by omega
  have hplace : offset + 1 + (l.length - 1) = offset + l.length := by omega
  have hplaced : ({ offset, length := l.length, line := l.line } : PlacedLine) = l := by
    rw [← hoffset]
  rw [List.drop_eq_getElem_cons hinside] at hread ⊢
  rw [linesFrom_cons, hread]
  dsimp only
  rw [linesFrom_skip, List.drop_drop, hplace, hplaced]
  cases linesFrom (code.drop (offset + l.length)) (offset + l.length) 0 <;> rfl

/-- The listing fails at the first instruction that the code ends within. -/
theorem linesFrom_of_error {e : ListingError} (hinside : offset < code.length)
    (hline : lineAt code offset = .error e) :
    linesFrom (code.drop offset) offset 0 = .error e := by
  have hread : Line.read offset (code.drop offset) = .error e := by
    unfold lineAt Line.readAt at hline
    split at hline
    · cases hline
    · cases hline
      assumption
  rw [List.drop_eq_getElem_cons hinside] at hread ⊢
  rw [linesFrom_cons, hread]

theorem linesFrom_of_chain {ls : List PlacedLine} (hchain : Chain code offset ls) :
    linesFrom (code.drop offset) offset 0 = .ok ls := by
  induction hchain with
  | done =>
      rw [List.drop_length]
      rfl
  | line hline _ ih =>
      rw [linesFrom_of_ok hline, ih]
      rfl

theorem linesFrom_of_breaks {e : ListingError} (hbreaks : Breaks code offset e) :
    linesFrom (code.drop offset) offset 0 = .error e := by
  induction hbreaks with
  | @here offset opcode hline =>
      have hinside : offset < code.length := by
        by_contra hend
        rw [lineAt_of_le (by omega)] at hline
        cases hline
      exact linesFrom_of_error hinside hline
  | line hline _ ih =>
      rw [linesFrom_of_ok hline, ih]
      rfl

/-- From every offset within the code the lines come to the end or break off. -/
theorem chain_or_breaks (hoffset : offset ≤ code.length) :
    (∃ ls, Chain code offset ls) ∨ ∃ e, Breaks code offset e := by
  -- A line is not empty, so that there is less code behind it.
  induction hrest : code.length - offset using Nat.strongRecOn generalizing offset with
  | ind rest ih =>
      rcases Nat.lt_or_eq_of_le hoffset with hinside | rfl
      · cases hline : lineAt code offset with
        | ok l =>
            obtain ⟨hpositive, hwithin⟩ := lineAt_bounds hline
            rcases ih _ (by omega) hwithin rfl with ⟨ls, hchain⟩ | ⟨e, hbreaks⟩
            · exact Or.inl ⟨l :: ls, .line hline hchain⟩
            · exact Or.inr ⟨e, .line hline hbreaks⟩
        | error e =>
            cases reads_of_error hline with
            | outside hend => omega
            | cut => exact Or.inr ⟨_, .here hline⟩
      · exact Or.inl ⟨[], .done⟩

/-- The lines of some code are those of its chain, unless the chain breaks off. -/
theorem lines_cases (code : List UInt8) :
    (∃ ls, Chain code 0 ls ∧ lines code = .ok ls) ∨
      ∃ e, Breaks code 0 e ∧ lines code = .error e := by
  rcases chain_or_breaks (Nat.zero_le code.length) with ⟨ls, hchain⟩ | ⟨e, hbreaks⟩
  · exact Or.inl ⟨ls, hchain, linesFrom_of_chain hchain⟩
  · exact Or.inr ⟨e, hbreaks, linesFrom_of_breaks hbreaks⟩

theorem lines_eq_ok_iff {ls : List PlacedLine} : lines code = .ok ls ↔ Chain code 0 ls := by
  refine ⟨fun hlines => ?_, linesFrom_of_chain⟩
  obtain ⟨ls', hchain, hok⟩ | ⟨e, -, herror⟩ := lines_cases code
  · rw [hok] at hlines
    cases hlines
    exact hchain
  · rw [herror] at hlines
    cases hlines

theorem lines_eq_error_iff {e : ListingError} : lines code = .error e ↔ Breaks code 0 e := by
  refine ⟨fun hlines => ?_, linesFrom_of_breaks⟩
  obtain ⟨ls, -, hok⟩ | ⟨e', hbreaks, herror⟩ := lines_cases code
  · rw [hok] at hlines
    cases hlines
  · rw [herror] at hlines
    cases hlines
    exact hbreaks

namespace Chain

variable {b : List UInt8} {la ls : List PlacedLine}

/-- The bytes of the lines are the code. -/
theorem flatten_bytes (hchain : Chain code offset ls) :
    (ls.map fun l => (code.drop l.offset).take l.length).flatten = code.drop offset := by
  induction hchain with
  | done =>
      rw [List.drop_length]
      rfl
  | @line offset l ls hline _ ih =>
      rw [List.map_cons, List.flatten_cons, ih, (read_of_lineAt hline).2, ← List.drop_drop,
        List.take_append_drop]

/-- A line of code is a line of the code that other code is put behind. -/
theorem lineAt_append (b : List UInt8) (hline : lineAt code offset = .ok l) :
    lineAt (code ++ b) offset = .ok l := by
  have hwithin := (lineAt_bounds hline).2
  apply lineAt_of_take hline
  rw [List.drop_append_of_le_length (by omega), List.take_append_of_le_length]
  rw [List.length_drop]
  omega

theorem append {lb : List PlacedLine} (hfirst : Chain code offset la)
    (hsecond : Chain (code ++ b) code.length lb) : Chain (code ++ b) offset (la ++ lb) := by
  induction hfirst with
  | done => exact hsecond
  | line hline _ ih => exact .line (lineAt_append b hline) ih

/-- The chain of the first code is passed before the chain goes on in the second. -/
theorem exists_of_append (hfirst : Chain code offset la) (hwhole : Chain (code ++ b) offset ls) :
    ∃ lb, Chain (code ++ b) code.length lb ∧ ls = la ++ lb := by
  induction hfirst generalizing ls with
  | done => exact ⟨ls, hwhole, rfl⟩
  | @line offset l la hline _ ih =>
      have hline' := lineAt_append b hline
      cases hwhole with
      | done =>
          have hbounds := lineAt_bounds hline'
          omega
      | line hother hrest =>
          rw [hline'] at hother
          cases hother
          obtain ⟨lb, hsecond, rfl⟩ := ih hrest
          exact ⟨lb, hsecond, rfl⟩

end Chain

/-! ## The listing follows the chain -/

theorem textOf_append (la lb : List PlacedLine) : textOf (la ++ lb) = textOf la ++ textOf lb := by
  rw [textOf, List.map_append, String.join_append]
  rfl

theorem render_eq_ok_iff {text : String} :
    render code = .ok text ↔ ∃ ls, Chain code 0 ls ∧ text = textOf ls := by
  constructor
  · intro hrender
    cases hlines : lines code with
    | error e =>
        rw [render, hlines] at hrender
        cases hrender
    | ok ls =>
        rw [render_of_lines hlines] at hrender
        cases hrender
        exact ⟨ls, lines_eq_ok_iff.mp hlines, rfl⟩
  · rintro ⟨ls, hchain, rfl⟩
    exact render_of_lines (lines_eq_ok_iff.mpr hchain)

/-- What is said of one line: where there is one, that its bytes are its own, and that it is read
without looking outside of the code. -/
structure SelfDelimiting (code : List UInt8) (offset : Nat) : Prop where
  outOfRange : ∀ place, lineAt code offset = .error (.outOfRange place) ↔
    place = offset ∧ code.length ≤ offset
  indices : Indexed.line? code offset = some (lineAt code offset)
  bounds : ∀ l, lineAt code offset = .ok l → 1 ≤ l.length ∧ offset + l.length ≤ code.length
  alike : ∀ l other, lineAt code offset = .ok l →
    (other.drop offset).take l.length = (code.drop offset).take l.length →
    lineAt other offset = .ok l
  truncated : ∀ l k, lineAt code offset = .ok l → offset < k → k < offset + l.length →
    ∃ i, l.line = .instruction i ∧
      lineAt (code.take k) offset = .error (.truncated offset i.opcode)

/-- What is said of a whole listing: it shows the lines of the chain from the start of the code, and
other code that is put behind is listed behind. -/
structure FollowsChain (code : List UInt8) : Prop where
  ends : (∃ ls, Chain code 0 ls) ∨ ∃ e, Breaks code 0 e
  listed : ∀ ls, lines code = .ok ls ↔ Chain code 0 ls
  failed : ∀ e, lines code = .error e ↔ Breaks code 0 e
  text : ∀ text, render code = .ok text ↔ ∃ ls, Chain code 0 ls ∧ text = textOf ls
  covers : ∀ ls, Chain code 0 ls →
    (ls.map fun l => (code.drop l.offset).take l.length).flatten = code
  behind : ∀ la b, lines code = .ok la → ∀ ls,
    lines (code ++ b) = .ok ls ↔ ∃ lb, Chain (code ++ b) code.length lb ∧ ls = la ++ lb
  behind_text : ∀ text b, render code = .ok text → ∀ whole,
    render (code ++ b) = .ok whole ↔
      ∃ lb, Chain (code ++ b) code.length lb ∧ whole = text ++ textOf lb

theorem selfDelimiting (code : List UInt8) (offset : Nat) : SelfDelimiting code offset where
  outOfRange := fun _ => lineAt_eq_outOfRange_iff
  indices := Indexed.line?_eq_some code offset
  bounds := fun _ => lineAt_bounds
  alike := fun _ _ => lineAt_of_take
  truncated := fun _ _ => lineAt_take_of_lt

theorem followsChain (code : List UInt8) : FollowsChain code where
  ends := chain_or_breaks (Nat.zero_le code.length)
  listed := fun _ => lines_eq_ok_iff
  failed := fun _ => lines_eq_error_iff
  text := fun _ => render_eq_ok_iff
  covers := fun _ hchain => hchain.flatten_bytes
  behind := by
    intro la b hla ls
    have hfirst := lines_eq_ok_iff.mp hla
    rw [lines_eq_ok_iff]
    constructor
    · exact hfirst.exists_of_append
    · rintro ⟨lb, hsecond, rfl⟩
      exact hfirst.append hsecond
  behind_text := by
    intro text b htext whole
    obtain ⟨la, hfirst, rfl⟩ := render_eq_ok_iff.mp htext
    rw [render_eq_ok_iff]
    constructor
    · rintro ⟨ls, hwhole, rfl⟩
      obtain ⟨lb, hsecond, rfl⟩ := hfirst.exists_of_append hwhole
      exact ⟨lb, hsecond, textOf_append la lb⟩
    · rintro ⟨lb, hsecond, rfl⟩
      exact ⟨la ++ lb, hfirst.append hsecond, (textOf_append la lb).symm⟩

/-- Lines delimit themselves, and the listing of every code follows the chain of its lines. -/
theorem listing_partitions_code (code : List UInt8) :
    (∀ offset, SelfDelimiting code offset) ∧ FollowsChain code :=
  ⟨selfDelimiting code, followsChain code⟩

end Listing

end BytecodeMachine
