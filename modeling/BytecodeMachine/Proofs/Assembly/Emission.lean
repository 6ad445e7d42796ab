import BytecodeMachine.Assembly
import BytecodeMachine.Proofs.Operand.Codec
import Mathlib.Data.List.Induction

/-!
# What a draft holds

The code of a draft is a row of stretches: bytes that stay as they are, and fields of four
bytes that wait for a label.  `Statement.stretches` gives the stretches of a statement, and a
draft is the row of the stretches of its statements (`Draft.code_ofStatements`,
`Draft.references_ofStatements`), whether or not one of them was refused.

Finishing a draft patches one field after the other.  The main statement,
`Draft.resolve_holes`, is that this comes to writing the row anew with the displacements
in their fields: no patch touches anything but its own field.
-/

namespace BytecodeMachine

/-- A stretch of emitted code. -/
inductive Stretch where
  | fixed (raw : List UInt8)
  /-- A displacement field that waits for its label. -/
  | pending (label : String)
  deriving DecidableEq, Repr

namespace Stretch

/-- The bytes of a stretch before its label is known. -/
def blank : Stretch → List UInt8
  | fixed raw => raw
  | pending _ => LittleEndian.ofDisplacement 0

/-- The bytes of a row of stretches before the labels are known. -/
def blanks (row : List Stretch) : List UInt8 := row.flatMap blank

/-- The fields that wait in a row of stretches that begins at an offset. -/
def holes (offset : Nat) : List Stretch → List Reference
  | [] => []
  | fixed raw :: rest => holes (offset + raw.length) rest
  | pending label :: rest => { offset, label } :: holes (offset + 4) rest

/-- The bytes of a row of stretches that begins at an offset, with the displacements to the
labels of the draft in their fields. -/
def filled (d : Draft) (offset : Nat) : List Stretch → Except AssemblyError (List UInt8)
  | [] => .ok []
  | fixed raw :: rest =>
      match filled d (offset + raw.length) rest with
      | .error e => .error e
      | .ok more => .ok (raw ++ more)
  | pending label :: rest =>
      match d.displacement { offset, label } with
      | .error e => .error e
      | .ok distance =>
          match filled d (offset + 4) rest with
          | .error e => .error e
          | .ok more => .ok (LittleEndian.ofDisplacement distance ++ more)

@[simp]
theorem blanks_nil : blanks [] = [] := rfl

@[simp]
theorem blanks_cons (s : Stretch) (row : List Stretch) :
    blanks (s :: row) = s.blank ++ blanks row := rfl

theorem blanks_append (front back : List Stretch) :
    blanks (front ++ back) = blanks front ++ blanks back := List.flatMap_append

theorem holes_append (offset : Nat) (front back : List Stretch) :
    holes offset (front ++ back) =
      holes offset front ++ holes (offset + (blanks front).length) back := by
  induction front generalizing offset with
  | nil => rfl
  | cons s front ih =>
      cases s with
      | fixed raw =>
          simp only [List.cons_append, holes, ih, blanks_cons, blank, List.length_append,
            Nat.add_assoc]
      | pending label =>
          simp only [List.cons_append, holes, ih, blanks_cons, blank, List.length_append,
            LittleEndian.length_ofDisplacement, Nat.add_assoc]

variable {d : Draft} {offset : Nat}

/-- What it takes to fill in a row that begins with bytes. -/
theorem exists_of_filled_fixed {raw bytes : List UInt8} {row : List Stretch}
    (hfilled : filled d offset (.fixed raw :: row) = .ok bytes) :
    ∃ more, bytes = raw ++ more ∧ filled d (offset + raw.length) row = .ok more := by
  rw [filled] at hfilled
  split at hfilled
  · cases hfilled
  · rename_i more hmore
    cases hfilled
    exact ⟨more, rfl, hmore⟩

/-- What it takes to fill in a row that begins with a field. -/
theorem exists_of_filled_pending {label : String} {bytes : List UInt8} {row : List Stretch}
    (hfilled : filled d offset (.pending label :: row) = .ok bytes) :
    ∃ distance more, bytes = LittleEndian.ofDisplacement distance ++ more ∧
      d.displacement { offset, label } = .ok distance ∧
      filled d (offset + 4) row = .ok more := by
  rw [filled] at hfilled
  split at hfilled
  · cases hfilled
  · rename_i distance hdistance
    split at hfilled
    · cases hfilled
    · rename_i more hmore
      cases hfilled
      exact ⟨distance, more, rfl, hdistance, hmore⟩

/-- Filling a row in fills each of its parts in. -/
theorem filled_append {front back : List Stretch} {bytes : List UInt8}
    (hfilled : filled d offset (front ++ back) = .ok bytes) :
    ∃ x y, bytes = x ++ y ∧ filled d offset front = .ok x ∧
      filled d (offset + x.length) back = .ok y := by
  -- A distance depends on where its field stands, so the offset moves along the front.
  induction front generalizing offset bytes with
  | nil => exact ⟨[], bytes, rfl, rfl, hfilled⟩
  | cons s front ih =>
      rw [List.cons_append] at hfilled
      cases s with
      | fixed raw =>
          obtain ⟨more, rfl, hmore⟩ := exists_of_filled_fixed hfilled
          obtain ⟨x, y, rfl, hx, hy⟩ := ih hmore
          refine ⟨raw ++ x, y, (List.append_assoc _ _ _).symm, by rw [filled, hx], ?_⟩
          rw [List.length_append, ← Nat.add_assoc]
          exact hy
      | pending label =>
          obtain ⟨distance, more, rfl, hdistance, hmore⟩ := exists_of_filled_pending hfilled
          obtain ⟨x, y, rfl, hx, hy⟩ := ih hmore
          refine ⟨LittleEndian.ofDisplacement distance ++ x, y,
            (List.append_assoc _ _ _).symm, by rw [filled, hdistance, hx], ?_⟩
          rw [List.length_append, LittleEndian.length_ofDisplacement, ← Nat.add_assoc]
          exact hy

/-- Filling in keeps all places. -/
theorem length_filled {row : List Stretch} {bytes : List UInt8}
    (hfilled : filled d offset row = .ok bytes) : bytes.length = (blanks row).length := by
  induction row generalizing offset bytes with
  | nil =>
      cases hfilled
      rfl
  | cons s row ih =>
      cases s with
      | fixed raw =>
          obtain ⟨more, rfl, hmore⟩ := exists_of_filled_fixed hfilled
          simp only [blanks_cons, blank, List.length_append, ih hmore]
      | pending label =>
          obtain ⟨distance, more, rfl, -, hmore⟩ := exists_of_filled_pending hfilled
          simp only [blanks_cons, blank, List.length_append,
            LittleEndian.length_ofDisplacement, ih hmore]

/-- Bytes may be cut into two stretches. -/
theorem filled_fixed_append (a b : List UInt8) (row : List Stretch) :
    filled d offset (fixed (a ++ b) :: row) = filled d offset (fixed a :: fixed b :: row) := by
  simp only [filled, List.length_append, Nat.add_assoc]
  cases filled d (offset + (a.length + b.length)) row with
  | error e => rfl
  | ok more => simp only [List.append_assoc]

end Stretch

/-! ## The stretches of a statement -/

/-- The stretches of a part of an instruction. -/
def Piece.stretches : Piece → List Stretch
  | .bytes raw => [.fixed raw]
  | .operand (.codeLabel label) _ => [.fixed [Operand.nibbles 0xb 0], .pending label]
  | .operand o size => [.fixed (o.encode size)]
  | .reference label => [.pending label]

/-- The stretches of a statement; none for one that is refused. -/
def Statement.stretches (s : Statement) : List Stretch :=
  match s.pieces with
  | .error _ => []
  | .ok pieces => pieces.flatMap Piece.stretches

theorem Statement.stretches_of_pieces {s : Statement} {pieces : List Piece}
    (hpieces : s.pieces = .ok pieces) : s.stretches = pieces.flatMap Piece.stretches := by
  unfold stretches
  rw [hpieces]

namespace Draft

open Stretch (blanks holes filled)

/-- The draft with a row of stretches behind its code. -/
def extended (d : Draft) (row : List Stretch) : Draft :=
  { d with
    code := d.code ++ blanks row
    references := d.references ++ holes d.position row }

theorem extended_append (d : Draft) (front back : List Stretch) :
    d.extended (front ++ back) = (d.extended front).extended back := by
  simp only [extended, position, Stretch.blanks_append, Stretch.holes_append,
    List.length_append, List.append_assoc]

theorem emit_eq (d : Draft) (piece : Piece) : d.emit piece = d.extended piece.stretches := by
  cases piece with
  | bytes raw => simp [emit, extended, Piece.stretches, holes, Stretch.blank]
  | reference label => simp [emit, extended, Piece.stretches, holes, Stretch.blank]
  | operand o size =>
      cases o with
      | codeLabel label =>
          simp [emit, extended, Piece.stretches, holes, Stretch.blank, Operand.encode]
      | _ => simp [emit, extended, Piece.stretches, holes, Stretch.blank]

theorem foldl_emit (d : Draft) (pieces : List Piece) :
    pieces.foldl emit d = d.extended (pieces.flatMap Piece.stretches) := by
  induction pieces generalizing d with
  | nil => simp [extended, holes]
  | cons piece pieces ih =>
      rw [List.foldl_cons, ih, emit_eq, List.flatMap_cons, extended_append]

/-- What adding a statement does to a draft: a label is defined, a statement in error is
refused, and any other is emitted. -/
theorem add_cases (d : Draft) (s : Statement) :
    (∃ name, s = .label name ∧ d.add s = d.define name) ∨
    (∃ e, s.pieces = .error e ∧ d.add s = d.fail e) ∨
    ((∀ name, s ≠ .label name) ∧ (∃ pieces, s.pieces = .ok pieces) ∧
      d.add s = d.extended s.stretches) := by
  by_cases hlabel : ∃ name, s = .label name
  · obtain ⟨name, rfl⟩ := hlabel
    exact Or.inl ⟨name, rfl, rfl⟩
  · have hadd : d.add s =
        match s.pieces with
        | .error e => d.fail e
        | .ok pieces => pieces.foldl emit d := by
      cases s with
      | label name => exact absurd ⟨name, rfl⟩ hlabel
      | _ => rfl
    cases hpieces : s.pieces with
    | error e =>
        rw [hpieces] at hadd
        exact Or.inr (Or.inl ⟨e, rfl, hadd⟩)
    | ok pieces =>
        rw [hpieces] at hadd
        simp only [foldl_emit] at hadd
        refine Or.inr (Or.inr ⟨fun name h => hlabel ⟨name, h⟩, ⟨pieces, rfl⟩, ?_⟩)
        rw [hadd, Statement.stretches_of_pieces hpieces]

theorem fail_code (d : Draft) (e : AssemblyError) :
    (d.fail e).code = d.code ∧ (d.fail e).references = d.references ∧
      (d.fail e).labels = d.labels ∧ (d.fail e).error ≠ none := by
  unfold fail
  split <;> simp_all

theorem define_code (d : Draft) (name : String) :
    (d.define name).code = d.code ∧ (d.define name).references = d.references := by
  unfold define
  split
  · obtain ⟨hcode, hreferences, -⟩ := d.fail_code (.duplicateLabel name)
    exact ⟨hcode, hreferences⟩
  · exact ⟨rfl, rfl⟩

/-- Every statement puts its stretches behind the code. -/
theorem add_code (d : Draft) (s : Statement) :
    (d.add s).code = d.code ++ blanks s.stretches ∧
      (d.add s).references = d.references ++ holes d.position s.stretches := by
  rcases d.add_cases s with ⟨name, rfl, hadd⟩ | ⟨e, hpieces, hadd⟩ | ⟨-, -, hadd⟩
  · obtain ⟨hcode, hreferences⟩ := d.define_code name
    rw [hadd, hcode, hreferences]
    simp [Statement.stretches, Statement.pieces, holes]
  · obtain ⟨hcode, hreferences, -⟩ := d.fail_code e
    rw [hadd, hcode, hreferences]
    simp [Statement.stretches, hpieces, holes]
  · rw [hadd]
    exact ⟨rfl, rfl⟩

theorem foldl_add_code (d : Draft) (program : List Statement) :
    (program.foldl add d).code = d.code ++ blanks (program.flatMap Statement.stretches) ∧
      (program.foldl add d).references =
        d.references ++ holes d.position (program.flatMap Statement.stretches) := by
  induction program generalizing d with
  | nil => simp [holes]
  | cons s program ih =>
      obtain ⟨hcode, hreferences⟩ := d.add_code s
      obtain ⟨hcodes, hrest⟩ := ih (d.add s)
      rw [List.foldl_cons, hcodes, hrest, List.flatMap_cons, Stretch.blanks_append,
        Stretch.holes_append, position, hcode, hreferences, List.length_append,
        List.append_assoc, List.append_assoc]
      exact ⟨rfl, rfl⟩

theorem code_ofStatements (program : List Statement) :
    (ofStatements program).code = blanks (program.flatMap Statement.stretches) :=
  ((foldl_add_code {} program).1).trans (List.nil_append _)

theorem references_ofStatements (program : List Statement) :
    (ofStatements program).references =
      holes 0 (program.flatMap Statement.stretches) :=
  ((foldl_add_code {} program).2).trans (List.nil_append _)

theorem ofStatements_concat (program : List Statement) (s : Statement) :
    ofStatements (program ++ [s]) = (ofStatements program).add s := by
  simp [ofStatements]

theorem position_concat (program : List Statement) (s : Statement) :
    (ofStatements (program ++ [s])).position =
      (ofStatements program).position + (blanks s.stretches).length := by
  rw [ofStatements_concat, position, (add_code _ s).1, List.length_append]
  rfl

/-! ## Errors and labels -/

/-- A draft without an error has accepted the last statement and all before it. -/
theorem accepted_of_add {d : Draft} {s : Statement} (herror : (d.add s).error = none) :
    d.error = none ∧ ∃ pieces, s.pieces = .ok pieces := by
  rcases d.add_cases s with ⟨name, rfl, hadd⟩ | ⟨e, hpieces, hadd⟩ | ⟨-, hpieces, hadd⟩
  · refine ⟨?_, [], rfl⟩
    rw [hadd, define] at herror
    split at herror
    · exact absurd herror (d.fail_code _).2.2.2
    · exact herror
  · rw [hadd] at herror
    exact absurd herror (d.fail_code e).2.2.2
  · rw [hadd] at herror
    exact ⟨herror, hpieces⟩

theorem accepted_of_error {program : List Statement}
    (herror : (ofStatements program).error = none) :
    ∀ s ∈ program, ∃ pieces, s.pieces = .ok pieces := by
  induction program using List.reverseRecOn with
  | nil => simp
  | append_singleton program s ih =>
      rw [ofStatements_concat] at herror
      obtain ⟨hbefore, hpieces⟩ := accepted_of_add herror
      intro s' hs'
      rcases List.mem_append.mp hs' with hmem | hmem
      · exact ih hbefore s' hmem
      · rw [List.mem_singleton.mp hmem]
        exact hpieces

/-- A label stands where the program defines it. -/
theorem defined_of_labelOffset? {program : List Statement} {name : String} {offset : Nat}
    (hoffset : (ofStatements program).labelOffset? name = some offset) :
    ∃ front back, program = front ++ .label name :: back ∧
      offset = (ofStatements front).position := by
  induction program using List.reverseRecOn with
  | nil => cases hoffset
  | append_singleton program s ih =>
      have hearlier : (ofStatements program).labelOffset? name = some offset →
          ∃ front back, program ++ [s] = front ++ .label name :: back ∧
            offset = (ofStatements front).position := by
        intro hbefore
        obtain ⟨front, back, rfl, hplace⟩ := ih hbefore
        exact ⟨front, back ++ [s], by simp, hplace⟩
      rw [ofStatements_concat] at hoffset
      rcases (ofStatements program).add_cases s with
        ⟨other, rfl, hadd⟩ | ⟨e, -, hadd⟩ | ⟨-, -, hadd⟩
      · rw [hadd, define] at hoffset
        split at hoffset
        · -- A second definition is an error and leaves the first in place.
          rw [labelOffset?, ((ofStatements program).fail_code _).2.2.1] at hoffset
          exact hearlier hoffset
        · rename_i hfresh
          simp only [labelOffset?, List.lookup_append] at hoffset
          cases hbefore : (ofStatements program).labels.lookup name with
          | some p =>
              rw [hbefore] at hoffset
              exact hearlier (hbefore.trans hoffset)
          | none =>
              -- The name is the one that is defined here.
              rw [hbefore] at hoffset
              by_cases hname : name = other
              · subst hname
                simp at hoffset
                exact ⟨program, [], rfl, hoffset.symm⟩
              · have hother : (name == other) = false := beq_false_of_ne hname
                simp [List.lookup_cons, hother] at hoffset
      · rw [hadd, labelOffset?, ((ofStatements program).fail_code e).2.2.1] at hoffset
        exact hearlier hoffset
      · rw [hadd] at hoffset
        exact hearlier hoffset

/-! ## Finishing -/

/-- A patch replaces the field at its place. -/
theorem patch_append (front field back bytes : List UInt8) (hlength : bytes.length = field.length) :
    patch (front ++ (field ++ back)) front.length bytes = front ++ bytes ++ back := by
  unfold patch
  rw [List.take_left, hlength, ← List.append_assoc front field back, ← List.length_append,
    List.drop_left]

/-- Patching the fields of a row one after the other, behind code that is done, is filling the
row in. -/
theorem resolve_holes (d : Draft) (done : List UInt8) (row : List Stretch) :
    d.resolve (holes done.length row) (done ++ blanks row) =
      match filled d done.length row with
      | .error e => .error e
      | .ok bytes => .ok (done ++ bytes) := by
  -- What is done is final: all fields that are left lie in the row behind it.
  induction row generalizing done with
  | nil => rfl
  | cons s row ih =>
      cases s with
      | fixed raw =>
          have hrest := ih (done ++ raw)
          rw [List.length_append] at hrest
          rw [holes, Stretch.blanks_cons, Stretch.blank, ← List.append_assoc, hrest, filled]
          cases filled d (done.length + raw.length) row with
          | error e => rfl
          | ok more => simp only [List.append_assoc]
      | pending label =>
          rw [holes, resolve, filled]
          cases d.displacement { offset := done.length, label } with
          | error e => rfl
          | ok distance =>
              have hfield := LittleEndian.length_ofDisplacement distance
              have hrest := ih (done ++ LittleEndian.ofDisplacement distance)
              rw [List.length_append, hfield] at hrest
              simp only [Stretch.blanks_cons, Stretch.blank]
              rw [patch_append _ _ _ _ hfield, hrest]
              cases filled d (done.length + 4) row with
              | error e => rfl
              | ok more => simp only [List.append_assoc]

end Draft

/-- Without an error, finishing a program is filling in the row of its stretches. -/
theorem assemble_eq_filled {program : List Statement}
    (herror : (Draft.ofStatements program).error = none) :
    assemble program =
      Stretch.filled (Draft.ofStatements program) 0 (program.flatMap Statement.stretches) := by
  have hresolve := Draft.resolve_holes (Draft.ofStatements program) []
    (program.flatMap Statement.stretches)
  simp only [List.length_nil, List.nil_append] at hresolve
  unfold assemble Draft.finish
  rw [herror, Draft.code_ofStatements, Draft.references_ofStatements]
  refine hresolve.trans ?_
  cases Stretch.filled (Draft.ofStatements program) 0
    (program.flatMap Statement.stretches) <;> rfl

/-- The code of a program is the row of its stretches, filled in. -/
theorem assemble_eq_ok {program : List Statement} {code : List UInt8}
    (hcode : assemble program = .ok code) :
    (Draft.ofStatements program).error = none ∧
      Stretch.filled (Draft.ofStatements program) 0 (program.flatMap Statement.stretches) =
        .ok code := by
  cases herror : (Draft.ofStatements program).error with
  | some e =>
      unfold assemble Draft.finish at hcode
      rw [herror] at hcode
      cases hcode
  | none => exact ⟨rfl, (assemble_eq_filled herror).symm.trans hcode⟩

end BytecodeMachine
