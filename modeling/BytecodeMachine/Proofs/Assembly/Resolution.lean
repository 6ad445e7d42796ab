import BytecodeMachine.Proofs.Assembly.Emission

/-!
# Resolving labels

What becomes of a program, said without a draft: the bytes that its statements emit, the label
references among them, the offsets of its labels, and the errors that stand in the way.

* `Program.complaints` are the errors of the statements themselves, in the order of the program.
* `Program.failures` are the errors of the label references, in the order of emission.
* `Program.Resolves` says what the finished code is: the emitted bytes, where each reference holds
  the displacement from its end to its label.

Assembling gives the first complaint, or else the first failure, or else resolved code
(`assemble_of_complaints`, `assemble_of_failures`, `exists_assemble`).  The draft is followed one
statement at a time: `Draft.add_labelOffset?` and `Draft.add_error` say what a statement does to
the labels and to the error, and the lemmas on whole programs follow by induction.
-/

namespace BytecodeMachine

/-! ## What a program asks for -/

/-- The names that a statement defines. -/
def Statement.names : Statement → List String
  | label name => [name]
  | _ => []

/-- Why a statement is refused, where the names `known` are taken. -/
def Statement.complaint? (known : List String) : Statement → Option AssemblyError
  | label name => if name ∈ known then some (.duplicateLabel name) else none
  | plain opcode operands =>
      match opcode.layout.operandSizes? with
      | none => some (.wrongLayout opcode)
      | some sizes =>
          if sizes.length = operands.length then none
          else some (.operandCount opcode sizes.length operands.length)
  | _ => none

namespace Program

open Stretch (blanks holes filled)

/-- The row of stretches that a program emits. -/
def row (program : List Statement) : List Stretch := program.flatMap Statement.stretches

/-- The bytes that a program emits, with blank fields for its label references. -/
def emitted (program : List Statement) : List UInt8 := blanks (row program)

/-- The label references of a program in the order of emission. -/
def references (program : List Statement) : List Reference := holes 0 (row program)

/-- The offset at which a program defines a label. -/
def labelOffset? (name : String) : List Statement → Option Nat
  | [] => none
  | s :: rest =>
      if s = .label name then some 0
      else (labelOffset? name rest).map ((blanks s.stretches).length + ·)

/-- The errors of the statements of a program, where the names `known` are taken before it. -/
def complaints (known : List String) : List Statement → List AssemblyError
  | [] => []
  | s :: rest => (s.complaint? known).toList ++ complaints (s.names ++ known) rest

/-- Why a reference cannot be resolved: its label is nowhere defined, or the distance from the end
of its field to the label does not fit 32 bits with a sign. -/
def failure? (program : List Statement) (r : Reference) : Option AssemblyError :=
  match labelOffset? r.label program with
  | none => some (.unknownLabel r.label)
  | some target =>
      let distance : Int := (target : Int) - (r.offset + 4 : Nat)
      if -0x80000000 ≤ distance ∧ distance < 0x80000000 then none
      else some (.displacementOverflow r.label)

/-- The errors of the label references of a program. -/
def failures (program : List Statement) : List AssemblyError :=
  (references program).filterMap (failure? program)

/-- The code is what the program emits, with its label references resolved. -/
structure Resolves (program : List Statement) (code : List UInt8) : Prop where
  length_eq : code.length = (emitted program).length
  /-- A byte outside all fields is the one that was emitted. -/
  unchanged : ∀ k, (∀ r ∈ references program, k < r.offset ∨ r.offset + 4 ≤ k) →
    code[k]? = (emitted program)[k]?
  inside : ∀ r ∈ references program, r.offset + 4 ≤ code.length
  disjoint : (references program).Pairwise fun q r => q.offset + 4 ≤ r.offset
  /-- The field of a reference leads from its end to the label. -/
  field : ∀ r ∈ references program, ∃ target d, labelOffset? r.label program = some target ∧
    (r.offset + 4 : Nat) + d.toInt = (target : Int) ∧
    (code.drop r.offset).take 4 = LittleEndian.ofDisplacement d

/-! ## Labels -/

/-- A label stands inside the code or at its end. -/
theorem labelOffset?_le {program : List Statement} {name : String} {target : Nat}
    (htarget : labelOffset? name program = some target) :
    target ≤ (emitted program).length := by
  induction program generalizing target with
  | nil => cases htarget
  | cons s rest ih =>
      have hlength : (emitted (s :: rest)).length =
          (blanks s.stretches).length + (emitted rest).length := by
        rw [emitted, row, List.flatMap_cons, Stretch.blanks_append, List.length_append]
        rfl
      rw [labelOffset?] at htarget
      split at htarget
      · cases htarget
        omega
      · obtain ⟨place, hplace, rfl⟩ := Option.map_eq_some_iff.mp htarget
        have hrest := ih hplace
        omega

end Program

/-! ## What a statement does to the labels and to the error -/

/-- A statement that emits nothing because of an error is refused for it. -/
theorem Statement.complaint?_of_pieces_error {s : Statement} {e : AssemblyError}
    (hpieces : s.pieces = .error e) (known : List String) : s.complaint? known = some e := by
  cases s with
  | plain opcode operands =>
      rw [pieces] at hpieces
      rw [complaint?]
      cases hsizes : opcode.layout.operandSizes? with
      | none =>
          simp only [hsizes] at hpieces ⊢
          cases hpieces
          rfl
      | some sizes =>
          simp only [hsizes] at hpieces ⊢
          split at hpieces
          · rename_i hcount
            cases hpieces
            exact if_neg hcount
          · cases hpieces
  | exchange bank a b => cases bank <;> cases hpieces
  | _ => cases hpieces

theorem Statement.complaint?_of_pieces_ok {s : Statement} {parts : List Piece}
    (hlabel : ∀ name, s ≠ .label name) (hpieces : s.pieces = .ok parts) (known : List String) :
    s.complaint? known = none := by
  cases s with
  | label name => exact absurd rfl (hlabel name)
  | plain opcode operands =>
      rw [pieces] at hpieces
      rw [complaint?]
      cases hsizes : opcode.layout.operandSizes? with
      | none =>
          simp only [hsizes] at hpieces
          cases hpieces
      | some sizes =>
          simp only [hsizes] at hpieces ⊢
          split at hpieces
          · cases hpieces
          · rename_i hcount
            exact if_pos (Decidable.not_not.mp hcount)
  | _ => rfl

namespace Draft

open Stretch (blanks holes filled)
open Program (complaints failure?)

variable {d : Draft} {known : List String}

theorem fail_error (d : Draft) (e : AssemblyError) : (d.fail e).error = d.error.or (some e) := by
  unfold fail
  split
  · rename_i hnone
    rw [hnone]
    rfl
  · rename_i first hfirst
    rw [hfirst]
    rfl

/-- A statement defines at most the label that it is, at the present position, and never anew. -/
theorem add_labelOffset? (d : Draft) (s : Statement) (name : String) :
    (d.add s).labelOffset? name =
      (d.labelOffset? name).or (if s = .label name then some d.position else none) := by
  have hother : (∀ name, s ≠ .label name) → (d.add s).labels = d.labels →
      (d.add s).labelOffset? name =
        (d.labelOffset? name).or (if s = .label name then some d.position else none) := by
    intro hlabel hlabels
    rw [if_neg (hlabel name), Option.or_none, Draft.labelOffset?, hlabels]
    rfl
  rcases d.add_cases s with ⟨own, rfl, hadd⟩ | ⟨e, hpieces, hadd⟩ | ⟨hlabel, -, hadd⟩
  · rw [hadd, define]
    split
    · -- A second definition leaves the first in place.
      rename_i place hplace
      rw [Draft.labelOffset?, (d.fail_code _).2.2.1]
      by_cases hname : own = name
      · subst hname
        rw [hplace]
        exact hplace
      · rw [if_neg (by simpa using hname), Option.or_none]
        rfl
    · show (d.labels ++ [(own, d.position)]).lookup name = _
      rw [List.lookup_append]
      by_cases hname : own = name
      · subst hname
        simp [Draft.labelOffset?]
      · have hdiffers : (name == own) = false := beq_false_of_ne (Ne.symm hname)
        simp [Draft.labelOffset?, hname, List.lookup_cons, hdiffers]
  · apply hother
    · rintro own rfl
      cases hpieces
    · rw [hadd, (d.fail_code e).2.2.1]
  · exact hother hlabel (by rw [hadd]; rfl)

/-- A statement is refused for its complaint, and the first error stays. -/
theorem add_error (s : Statement) (hknown : ∀ name, name ∈ known ↔ d.labelOffset? name ≠ none) :
    (d.add s).error = d.error.or (s.complaint? known) := by
  rcases d.add_cases s with
    ⟨name, rfl, hadd⟩ | ⟨e, hpieces, hadd⟩ | ⟨hlabel, ⟨parts, hpieces⟩, hadd⟩
  · rw [hadd, define]
    simp only [Statement.complaint?, hknown]
    split
    · rename_i place hplace
      rw [fail_error, if_pos (by rw [hplace]; simp)]
    · rename_i hfresh
      rw [if_neg (by rw [hfresh]; simp), Option.or_none]
  · rw [hadd, fail_error, Statement.complaint?_of_pieces_error hpieces]
  · rw [hadd, Statement.complaint?_of_pieces_ok hlabel hpieces, Option.or_none]
    rfl

/-- The names that are known after a statement. -/
theorem known_add (s : Statement) (hknown : ∀ name, name ∈ known ↔ d.labelOffset? name ≠ none)
    (name : String) : name ∈ s.names ++ known ↔ (d.add s).labelOffset? name ≠ none := by
  have hnames : name ∈ s.names ↔ s = .label name := by
    cases s <;> simp [Statement.names, eq_comm]
  rw [List.mem_append, add_labelOffset?, hknown, hnames]
  by_cases hs : s = .label name
  · simp [hs]
  · simp [hs]

/-! ## Whole programs -/

theorem foldl_add_labelOffset? (d : Draft) (program : List Statement) (name : String) :
    (program.foldl add d).labelOffset? name =
      (d.labelOffset? name).or ((Program.labelOffset? name program).map (d.position + ·)) := by
  -- The offset in the rest of the program counts from the end of the statement, as the position
  -- of the draft does that has taken it in.
  induction program generalizing d with
  | nil =>
      rw [Program.labelOffset?, Option.map_none, Option.or_none]
      rfl
  | cons s rest ih =>
      have hposition : (d.add s).position = d.position + (blanks s.stretches).length := by
        rw [position, (d.add_code s).1, List.length_append]
        rfl
      rw [List.foldl_cons, ih, add_labelOffset?, hposition, Option.or_assoc]
      congr 1
      rw [Program.labelOffset?]
      by_cases hs : s = .label name
      · simp [hs]
      · simp only [hs, if_false, Option.none_or, Option.map_map]
        congr 1
        funext place
        exact Nat.add_assoc _ _ _

theorem foldl_add_error (program : List Statement)
    (hknown : ∀ name, name ∈ known ↔ d.labelOffset? name ≠ none) :
    (program.foldl add d).error = d.error.or (complaints known program).head? := by
  -- What is known is carried along: a name is taken as soon as its first definition is added.
  induction program generalizing d known with
  | nil => exact (Option.or_none).symm
  | cons s rest ih =>
      have hhead : (complaints known (s :: rest)).head? =
          (s.complaint? known).or (complaints (s.names ++ known) rest).head? := by
        rw [complaints, List.head?_append]
        cases s.complaint? known <;> rfl
      rw [List.foldl_cons, ih (known_add s hknown), add_error s hknown, hhead, Option.or_assoc]

theorem labelOffset?_ofStatements (program : List Statement) (name : String) :
    (ofStatements program).labelOffset? name = Program.labelOffset? name program := by
  have hrun := foldl_add_labelOffset? {} program name
  have hstart : (fun place => ({} : Draft).position + place) = id := by
    funext place
    exact Nat.zero_add place
  rw [hstart, Option.map_id] at hrun
  exact hrun

theorem error_ofStatements (program : List Statement) :
    (ofStatements program).error = (complaints [] program).head? := by
  have hnone : ∀ name, name ∈ ([] : List String) ↔ ({} : Draft).labelOffset? name ≠ none := by
    intro name
    simp [Draft.labelOffset?]
  exact foldl_add_error program hnone

/-! ## References -/

theorem displacement_of_failure {program : List Statement} {r : Reference} {e : AssemblyError}
    (hfailure : failure? program r = some e) :
    (ofStatements program).displacement r = .error e := by
  unfold failure? at hfailure
  unfold displacement
  rw [labelOffset?_ofStatements]
  cases hlabel : Program.labelOffset? r.label program with
  | none =>
      simp only [hlabel] at hfailure ⊢
      cases hfailure
      rfl
  | some target =>
      simp only [hlabel] at hfailure ⊢
      split at hfailure
      · cases hfailure
      · rename_i hfar
        cases hfailure
        have hleast : Int32.minValue.toInt = -0x80000000 := by decide
        have hlargest : Int32.maxValue.toInt = 0x7fffffff := by decide
        rw [if_neg (by omega)]

theorem displacement_of_resolvable {program : List Statement} {r : Reference}
    (hresolvable : failure? program r = none) :
    ∃ target distance, Program.labelOffset? r.label program = some target ∧
      (r.offset + 4 : Nat) + distance.toInt = (target : Int) ∧
      (ofStatements program).displacement r = .ok distance := by
  unfold failure? at hresolvable
  unfold displacement
  rw [labelOffset?_ofStatements]
  cases hlabel : Program.labelOffset? r.label program with
  | none =>
      simp only [hlabel] at hresolvable
      cases hresolvable
  | some target =>
      simp only [hlabel] at hresolvable ⊢
      split at hresolvable
      · rename_i hfits
        have hleast : Int32.minValue.toInt = -0x80000000 := by decide
        have hlargest : Int32.maxValue.toInt = 0x7fffffff := by decide
        refine ⟨target, Int32.ofInt ((target : Int) - (r.offset + 4 : Nat)), rfl, ?_, ?_⟩
        · rw [Int32.toInt_ofInt_of_le hfits.1 hfits.2]
          omega
        · exact if_pos (by omega)
      · cases hresolvable

end Draft

/-! ## Filling in -/

namespace Stretch

variable {d : Draft} {row : List Stretch} {offset : Nat} {bytes : List UInt8}

/-- The first reference that cannot be resolved decides. -/
theorem filled_of_first_error {before after : List Reference} {r : Reference}
    {e : AssemblyError} (hholes : holes offset row = before ++ r :: after)
    (hbefore : ∀ q ∈ before, ∃ distance, d.displacement q = .ok distance)
    (hr : d.displacement r = .error e) : filled d offset row = .error e := by
  -- The references of the row and the stretches are gone through together; the references before
  -- the first error are used up one by one.
  induction row generalizing offset before with
  | nil => simp [holes] at hholes
  | cons s row ih =>
      cases s with
      | fixed raw =>
          rw [holes] at hholes
          rw [filled, ih hholes hbefore]
      | pending label =>
          rw [holes] at hholes
          rw [filled]
          cases before with
          | nil =>
              injection hholes with hfirst _
              rw [hfirst, hr]
          | cons q before =>
              injection hholes with hfirst hrest
              obtain ⟨distance, hdistance⟩ := hbefore q (by simp)
              rw [hfirst, hdistance, ih hrest fun p hp => hbefore p (by simp [hp])]

theorem exists_filled
    (hall : ∀ r ∈ holes offset row, ∃ distance, d.displacement r = .ok distance) :
    ∃ bytes, filled d offset row = .ok bytes := by
  induction row generalizing offset with
  | nil => exact ⟨[], rfl⟩
  | cons s row ih =>
      cases s with
      | fixed raw =>
          obtain ⟨more, hmore⟩ : ∃ more, filled d (offset + raw.length) row = .ok more := ih hall
          exact ⟨raw ++ more, by rw [filled, hmore]⟩
      | pending label =>
          obtain ⟨distance, hdistance⟩ := hall { offset, label } (by simp [holes])
          obtain ⟨more, hmore⟩ : ∃ more, filled d (offset + 4) row = .ok more :=
            ih fun r hr => hall r (by simp [holes, hr])
          exact ⟨LittleEndian.ofDisplacement distance ++ more, by rw [filled, hdistance, hmore]⟩

/-- A reference stands where its stretch begins. -/
theorem exists_of_mem_holes {r : Reference} (hr : r ∈ holes offset row) :
    ∃ front back, row = front ++ .pending r.label :: back ∧
      r.offset = offset + (blanks front).length := by
  induction row generalizing offset with
  | nil => simp [holes] at hr
  | cons s row ih =>
      cases s with
      | fixed raw =>
          rw [holes] at hr
          obtain ⟨front, back, rfl, hplace⟩ := ih hr
          refine ⟨.fixed raw :: front, back, rfl, ?_⟩
          rw [hplace, blanks_cons, blank, List.length_append, Nat.add_assoc]
      | pending label =>
          rw [holes] at hr
          rcases List.mem_cons.mp hr with rfl | hrest
          · exact ⟨[], row, rfl, rfl⟩
          · obtain ⟨front, back, rfl, hplace⟩ := ih hrest
            refine ⟨.pending label :: front, back, rfl, ?_⟩
            rw [hplace, blanks_cons, blank, List.length_append,
              LittleEndian.length_ofDisplacement, Nat.add_assoc]

theorem mem_holes (offset : Nat) (front back : List Stretch) (label : String) :
    { offset := offset + (blanks front).length, label : Reference } ∈
      holes offset (front ++ .pending label :: back) := by
  rw [holes_append, holes]
  simp

theorem le_of_mem_holes {r : Reference} (hr : r ∈ holes offset row) : offset ≤ r.offset := by
  obtain ⟨front, back, -, hplace⟩ := exists_of_mem_holes hr
  omega

/-- No two fields overlap. -/
theorem pairwise_holes (offset : Nat) (row : List Stretch) :
    (holes offset row).Pairwise fun q r => q.offset + 4 ≤ r.offset := by
  induction row generalizing offset with
  | nil => exact .nil
  | cons s row ih =>
      cases s with
      | fixed raw => exact ih _
      | pending label => exact .cons (fun r hr => le_of_mem_holes hr) (ih _)

/-- The field of a reference holds its displacement. -/
theorem field_of_filled {r : Reference} (hfilled : filled d offset row = .ok bytes)
    (hr : r ∈ holes offset row) :
    ∃ distance front back, d.displacement r = .ok distance ∧
      bytes = front ++ LittleEndian.ofDisplacement distance ++ back ∧
      r.offset = offset + front.length := by
  obtain ⟨before, after, rfl, hplace⟩ := exists_of_mem_holes hr
  obtain ⟨front, behind, rfl, hfront, hbehind⟩ := filled_append hfilled
  have hlength := length_filled hfront
  have hoffset : offset + front.length = r.offset := by omega
  rw [hoffset] at hbehind
  obtain ⟨distance, back, rfl, hdistance, -⟩ := exists_of_filled_pending hbehind
  exact ⟨distance, front, back, hdistance, (List.append_assoc _ _ _).symm, hoffset.symm⟩

/-- Outside the fields nothing is changed. -/
theorem getElem?_filled {k : Nat} (hfilled : filled d offset row = .ok bytes)
    (houtside : ∀ r ∈ holes offset row, offset + k < r.offset ∨ r.offset + 4 ≤ offset + k) :
    bytes[k]? = (blanks row)[k]? := by
  induction row generalizing offset bytes k with
  | nil =>
      cases hfilled
      rfl
  | cons s row ih =>
      cases s with
      | fixed raw =>
          obtain ⟨more, rfl, hmore⟩ := exists_of_filled_fixed hfilled
          rw [blanks_cons, blank]
          by_cases hk : k < raw.length
          · rw [List.getElem?_append_left hk, List.getElem?_append_left hk]
          · have hk' : raw.length ≤ k := Nat.le_of_not_lt hk
            rw [List.getElem?_append_right hk', List.getElem?_append_right hk']
            apply ih hmore
            intro r hr
            have hr' := houtside r hr
            omega
      | pending label =>
          obtain ⟨distance, more, rfl, -, hmore⟩ := exists_of_filled_pending hfilled
          -- The place is outside this field, which begins at the offset, so it lies behind.
          have hk : 4 ≤ k := by
            have hown := houtside { offset, label } (by simp [holes])
            simp only at hown
            omega
          have hfield := LittleEndian.length_ofDisplacement distance
          have hblank := LittleEndian.length_ofDisplacement 0
          rw [blanks_cons, blank, List.getElem?_append_right (by omega),
            List.getElem?_append_right (by omega), hfield, hblank]
          apply ih hmore
          intro r hr
          have hr' := houtside r (by simp [holes, hr])
          omega

end Stretch

/-! ## Assembling -/

section
variable {program : List Statement}

open Program (complaints failures failure? references Resolves)

/-- The first complaint is the answer, whatever the references are. -/
theorem assemble_of_complaints {e : AssemblyError} {more : List AssemblyError}
    (hcomplaints : complaints [] program = e :: more) : assemble program = .error e := by
  have herror := Draft.error_ofStatements program
  rw [hcomplaints] at herror
  unfold assemble Draft.finish
  rw [herror]
  rfl

/-- Without a complaint, assembling is filling in the row of the program. -/
theorem assemble_of_accepted (hcomplaints : complaints [] program = []) :
    assemble program =
      Stretch.filled (Draft.ofStatements program) 0 (Program.row program) := by
  apply assemble_eq_filled
  rw [Draft.error_ofStatements, hcomplaints]
  rfl

/-- Without a complaint, the first failure is the answer. -/
theorem assemble_of_failures {e : AssemblyError} {more : List AssemblyError}
    (hcomplaints : complaints [] program = []) (hfailures : failures program = e :: more) :
    assemble program = .error e := by
  obtain ⟨before, r, after, hreferences, hbefore, hr, -⟩ :=
    List.filterMap_eq_cons_iff.mp hfailures
  rw [assemble_of_accepted hcomplaints]
  refine Stretch.filled_of_first_error hreferences ?_ (Draft.displacement_of_failure hr)
  intro q hq
  obtain ⟨target, distance, -, -, hdistance⟩ :=
    Draft.displacement_of_resolvable (hbefore q hq)
  exact ⟨distance, hdistance⟩

/-- Without a complaint or a failure, the answer is code with all labels resolved. -/
theorem exists_assemble (hcomplaints : complaints [] program = [])
    (hfailures : failures program = []) :
    ∃ code, assemble program = .ok code ∧ Resolves program code := by
  have hresolvable : ∀ r ∈ references program, failure? program r = none :=
    List.filterMap_eq_nil_iff.mp hfailures
  have hall : ∀ r ∈ references program,
      ∃ distance, (Draft.ofStatements program).displacement r = .ok distance := by
    intro r hr
    obtain ⟨target, distance, -, -, hdistance⟩ :=
      Draft.displacement_of_resolvable (hresolvable r hr)
    exact ⟨distance, hdistance⟩
  obtain ⟨code, hfilled⟩ := Stretch.exists_filled hall
  refine ⟨code, (assemble_of_accepted hcomplaints).trans hfilled, ?_⟩
  have hfield : ∀ r ∈ references program, ∃ distance front back,
      (Draft.ofStatements program).displacement r = .ok distance ∧
      code = front ++ LittleEndian.ofDisplacement distance ++ back ∧
      r.offset = front.length := by
    intro r hr
    obtain ⟨distance, front, back, hdistance, hcode, hplace⟩ :=
      Stretch.field_of_filled hfilled hr
    exact ⟨distance, front, back, hdistance, hcode, hplace.trans (Nat.zero_add _)⟩
  constructor
  · exact Stretch.length_filled hfilled
  · intro k houtside
    refine Stretch.getElem?_filled hfilled fun r hr => ?_
    rw [Nat.zero_add]
    exact houtside r hr
  · intro r hr
    obtain ⟨distance, front, back, -, rfl, hplace⟩ := hfield r hr
    rw [List.length_append, List.length_append, LittleEndian.length_ofDisplacement, hplace]
    omega
  · exact Stretch.pairwise_holes 0 (Program.row program)
  · intro r hr
    obtain ⟨target, distance, htarget, hleads, hdistance⟩ :=
      Draft.displacement_of_resolvable (hresolvable r hr)
    obtain ⟨distance', front, back, hdistance', rfl, hplace⟩ := hfield r hr
    rw [hdistance] at hdistance'
    cases hdistance'
    refine ⟨target, distance, htarget, hleads, ?_⟩
    rw [hplace, List.append_assoc, List.drop_left,
      List.take_left' (LittleEndian.length_ofDisplacement distance)]

end

end BytecodeMachine
