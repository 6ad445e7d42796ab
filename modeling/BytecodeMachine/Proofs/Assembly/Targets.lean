import BytecodeMachine.Proofs.Assembly.Resolution
import BytecodeMachine.Proofs.Assembly.Restoration
import BytecodeMachine.Proofs.Instruction.Branches

/-!
# Labels as targets

The assembler counts displacements from the end of their field to the label.  The executor counts
them from its cursor, in one way for branches and in another for operands.  Here the two meet: in
a machine that holds the code of a program, a branch that is taken lands at its label, and a label
operand has the address of its label.

`assemble_resolves_labels` states the whole course of label references, from the errors of a
program to the execution of its code.
-/

namespace BytecodeMachine

/-- The machine holds this code, in a proper region. -/
structure State.HoldsCode (s : State) (code : List UInt8) : Prop where
  bytes : s.codeBytes = code
  proper : s.code.Proper

/-- The label to which a statement branches. -/
def Statement.branchLabel? : Statement → Option String
  | bra target | bsr target | bmc _ _ target | bdc _ _ _ target | dbnz _ target => some target
  | _ => none

namespace Program

open Stretch (blanks holes filled)

/-- Where a part of an instruction stands in the code of a program. -/
def PlacedAt (program : List Statement) (piece : Piece) (offset : Nat) : Prop :=
  ∃ front s back before after, program = front ++ s :: back ∧
    s.pieces = .ok (before ++ piece :: after) ∧
    offset = (emitted front).length + (blanks (before.flatMap Piece.stretches)).length

/-- Machines that hold the code take its label references for the places of the labels. -/
structure Reaches (program : List Statement) (code : List UInt8) : Prop where
  /-- A taken branch lands at the label of the reference whose field is the last of the
  instruction. -/
  branch : ∀ (host : HostTable) (s : State) (i : Instruction) (n : Nat) (r : Reference)
    (target : Nat), s.HoldsCode code → s.status.isActive = true → s.instruction? = some (i, n) →
    i.Taken s.toCore (s.cursor + 1) → r ∈ references program → r.offset + 4 = s.cursor + n →
    labelOffset? r.label program = some target → s.LandsAt host target
  /-- At the place of a statement that branches to a label stands a branch whose last field is a
  reference to the label, if no operand of the statement is read as another. -/
  statement : ∀ (s : State) (front back : List Statement) (st : Statement) (label : String),
    s.HoldsCode code → program = front ++ st :: back → s.cursor = (emitted front).length →
    st.branchLabel? = some label → (∀ o ∈ st.operands, o.Sound) →
    ∃ i n r, s.instruction? = some (i, n) ∧ st.RestoredBy program s.cursor i ∧
      r ∈ references program ∧ r.label = label ∧ r.offset + 4 = s.cursor + n
  /-- A label operand denotes the address of its label. -/
  operand : ∀ (s : State) (label : String) (size width target : Nat)
    (destination : Option Location), s.HoldsCode code →
    PlacedAt program (.operand (.codeLabel label) width) s.cursor →
    labelOffset? label program = some target →
    ∃ t, Exec.resolve size destination s = .ok (.memory (s.codeAddress target)) t ∧
      t.cursor = s.cursor + 5

end Program

open Stretch (blanks holes filled)
open Program (row emitted references labelOffset? PlacedAt Resolves Reaches)

variable {program : List Statement} {code : List UInt8} {s : State} {target : Nat}

theorem State.HoldsCode.length_eq (hholds : s.HoldsCode code) : s.code.length = code.length := by
  rw [← hholds.bytes, State.length_codeBytes]

theorem Program.row_split (front back : List Statement) (st : Statement) :
    row (front ++ st :: back) = row front ++ (st.stretches ++ row back) := by
  rw [row, List.flatMap_append, List.flatMap_cons]
  rfl

/-! ## Fields -/

/-- What the field of a reference holds. -/
theorem displacement_of_reference {r : Reference} (hresolves : Resolves program code)
    (hr : r ∈ references program) (htarget : labelOffset? r.label program = some target) :
    (r.offset + 4 : Nat) + (LittleEndian.displacement ((code.drop r.offset).take 4)).toInt =
      (target : Int) := by
  obtain ⟨target', d, htarget', hleads, hfield⟩ := hresolves.field r hr
  rw [htarget] at htarget'
  cases htarget'
  rw [hfield, LittleEndian.displacement_ofDisplacement]
  exact hleads

/-- A label lies in the code, or at its end. -/
theorem target_le {label : String} (hresolves : Resolves program code) (hholds : s.HoldsCode code)
    (htarget : labelOffset? label program = some target) : target ≤ s.code.length := by
  rw [hholds.length_eq, hresolves.length_eq]
  exact Program.labelOffset?_le htarget

/-! ## Statements -/

/-- At the place of a statement that emits an instruction, the machine finds it. -/
theorem State.instruction?_of_statement {front back : List Statement} {st : Statement}
    (hcode : assemble (front ++ st :: back) = .ok code) (hholds : s.HoldsCode code)
    (hcursor : s.cursor = (emitted front).length) (hlabel : ∀ name, st ≠ .label name)
    (hlistable : st.Listable) :
    ∃ i, s.instruction? = some (i, (blanks st.stretches).length) ∧
      st.RestoredBy (front ++ st :: back) s.cursor i := by
  obtain ⟨herror, hfilled⟩ := assemble_eq_ok hcode
  obtain ⟨pieces, hpieces⟩ := Draft.accepted_of_error herror st (by simp)
  have hrow := Program.row_split front back st
  unfold row at hrow
  rw [hrow] at hfilled
  obtain ⟨first, others, rfl, hfirst, hothers⟩ := Stretch.filled_append hfilled
  obtain ⟨own, rest, rfl, hown, -⟩ := Stretch.filled_append hothers
  have hplace : 0 + first.length = s.cursor := by
    rw [Nat.zero_add, hcursor, Stretch.length_filled hfirst]
    rfl
  rw [hplace] at hown
  obtain ⟨-, i, hrestored, hread⟩ := Statement.read_emitted hpieces hlabel hlistable hown
  refine ⟨i, ?_, hrestored⟩
  have hahead : s.ahead = own ++ rest := by
    rw [State.ahead, hholds.bytes, ← hplace, Nat.zero_add, List.drop_left]
  unfold instruction?
  rw [Listing.lineAt_eq, hahead, hread rest, Stretch.length_filled hown]

/-- The stretches of a branch end with the field of its label. -/
theorem Statement.stretches_of_branchLabel? {st : Statement} {label : String}
    (hbranch : st.branchLabel? = some label) :
    ∃ front, st.stretches = front ++ [.pending label] := by
  cases st with
  | bra target =>
      cases hbranch
      exact ⟨[.fixed [Opcode.bra.byte]], rfl⟩
  | bsr target =>
      cases hbranch
      exact ⟨[.fixed [Opcode.bsr.byte]], rfl⟩
  | bmc condition o target =>
      cases hbranch
      exact ⟨.fixed [Opcode.bmc.byte, condition] ::
        (Piece.operand o (Condition.operandSize condition)).stretches, rfl⟩
  | bdc condition a b target =>
      cases hbranch
      refine ⟨.fixed [Opcode.bdc.byte, condition] ::
        ((Piece.operand a (Condition.operandSize condition)).stretches ++
          (Piece.operand b (Condition.operandSize condition)).stretches), ?_⟩
      rw [List.cons_append, List.append_assoc]
      rfl
  | dbnz counter target =>
      cases hbranch
      exact ⟨.fixed [Opcode.dbnz.byte] :: (Piece.operand counter 4).stretches, rfl⟩
  | _ => cases hbranch

/-- The field at the end of a branch is a reference of the program. -/
theorem exists_reference (front back : List Statement) {st : Statement} {label : String}
    (hbranch : st.branchLabel? = some label) :
    ∃ r ∈ references (front ++ st :: back), r.label = label ∧
      r.offset + 4 = (emitted front).length + (blanks st.stretches).length := by
  obtain ⟨before, hstretches⟩ := st.stretches_of_branchLabel? hbranch
  have hmem := Stretch.mem_holes 0 (row front ++ before) (row back) label
  refine ⟨{ offset := 0 + (blanks (row front ++ before)).length, label }, ?_, rfl, ?_⟩
  · unfold references
    rw [Program.row_split, hstretches]
    simpa using hmem
  · have hfield := LittleEndian.length_ofDisplacement 0
    simp only [hstretches, Stretch.blanks_append, Stretch.blanks_cons, Stretch.blanks_nil,
      Stretch.blank, List.length_append, List.length_nil, hfield, emitted]
    omega

/-! ## Operands -/

/-- A part of an instruction is part of the row of the program. -/
theorem Program.PlacedAt.row_eq {piece : Piece} {offset : Nat}
    (hplaced : PlacedAt program piece offset) :
    ∃ before after, row program = before ++ (piece.stretches ++ after) ∧
      offset = (blanks before).length := by
  obtain ⟨front, st, back, before, after, rfl, hpieces, rfl⟩ := hplaced
  refine ⟨row front ++ before.flatMap Piece.stretches,
    after.flatMap Piece.stretches ++ row back, ?_, ?_⟩
  · rw [row_split, Statement.stretches_of_pieces hpieces, List.flatMap_append, List.flatMap_cons]
    simp only [List.append_assoc]
  · rw [Stretch.blanks_append, List.length_append]
    rfl

/-- A label operand is a mode byte and a reference, and stands in the code as a distance from its
own end. -/
theorem exists_of_placedAt {label : String} {width offset : Nat}
    (hcode : assemble program = .ok code)
    (hplaced : PlacedAt program (.operand (.codeLabel label) width) offset) :
    { offset := offset + 1, label : Reference } ∈ references program ∧
      ∃ d rest, code.drop offset = (Operand.codeRelative d).encode width ++ rest := by
  obtain ⟨before, after, hrow, rfl⟩ := hplaced.row_eq
  constructor
  · have hmem := Stretch.mem_holes 0 (before ++ [.fixed [Operand.nibbles 0xb 0]]) after label
    unfold references
    rw [hrow]
    simpa [Stretch.blanks_append, Stretch.blank, Piece.stretches] using hmem
  · obtain ⟨-, hfilled⟩ := assemble_eq_ok hcode
    unfold row at hrow
    rw [hrow] at hfilled
    obtain ⟨first, others, rfl, hfirst, hothers⟩ := Stretch.filled_append hfilled
    obtain ⟨own, rest, rfl, hown, -⟩ := Stretch.filled_append hothers
    obtain ⟨more, rfl, hmore⟩ := Stretch.exists_of_filled_fixed hown
    obtain ⟨distance, more, rfl, -, hmore⟩ := Stretch.exists_of_filled_pending hmore
    cases hmore
    refine ⟨distance, rest, ?_⟩
    rw [← Stretch.length_filled hfirst, List.drop_left, List.append_nil]
    rfl

/-- A label operand is resolved to the address of its label. -/
theorem resolve_of_placedAt {label : String} {width : Nat} (hcode : assemble program = .ok code)
    (hresolves : Resolves program code) (hholds : s.HoldsCode code)
    (hplaced : PlacedAt program (.operand (.codeLabel label) width) s.cursor)
    (htarget : labelOffset? label program = some target) (size : Nat)
    (destination : Option Location) :
    ∃ t, Exec.resolve size destination s = .ok (.memory (s.codeAddress target)) t ∧
      t.cursor = s.cursor + 5 := by
  obtain ⟨hmem, d, rest, hdrop⟩ := exists_of_placedAt hcode hplaced
  have hleads := displacement_of_reference hresolves hmem htarget
  have hle := target_le hresolves hholds htarget
  have hahead : s.ahead = (Operand.codeRelative d).encode size ++ rest := by
    rw [State.ahead, hholds.bytes, hdrop]
    rfl
  -- The distance that the operand shows is the one in the field of the reference.
  have hdistance : LittleEndian.displacement ((code.drop (s.cursor + 1)).take 4) = d := by
    have hfield : code.drop (s.cursor + 1) = LittleEndian.ofDisplacement d ++ rest := by
      rw [← List.drop_drop, hdrop]
      rfl
    rw [hfield, List.take_left' (LittleEndian.length_ofDisplacement d),
      LittleEndian.displacement_ofDisplacement]
  rw [hdistance] at hleads
  have hsound : (Operand.codeRelative d).Sound := trivial
  have hparse : Operand.parse? s.ahead size = some (.codeRelative d, 5) := by
    rw [hahead, Operand.parse?_encode hsound (by simp)]
    rfl
  have haddress : (Operand.codeRelative d).address? size s.registers s.code.base s.cursor
      (s.cursor + 5) = some (s.codeAddress target) := by
    rw [Core.codeAddress_eq_ofInt, ← hleads, ← Int.add_assoc]
    rfl
  have hlocation := Operand.location?_of_address? haddress destination
  rw [if_neg (Core.codeAddress_ne_zero hholds.proper hle)] at hlocation
  obtain ⟨mode, hresolve⟩ := Exec.exists_resolve hparse hlocation
  exact ⟨_, hresolve, rfl⟩

/-! ## The course of label references -/

/-- Machines that hold the code of a program take its label references for the places of the
labels. -/
theorem reaches_of_assemble (hcode : assemble program = .ok code)
    (hresolves : Resolves program code) : Reaches program code := by
  constructor
  · intro host s i n r target hholds hactive hlisted htaken hr hfield htarget
    refine State.landsAt_of_taken host hactive hholds.proper hlisted htaken ?_
      (target_le hresolves hholds htarget)
    rw [hholds.bytes, ← hfield, Nat.add_sub_cancel]
    exact displacement_of_reference hresolves hr htarget
  · intro s front back st label hholds hprogram hcursor hbranch hsound
    subst hprogram
    have hlabel : ∀ name, st ≠ .label name := by
      rintro name rfl
      cases hbranch
    have hbytes : ∀ raw, st ≠ .bytes raw := by
      rintro raw rfl
      cases hbranch
    obtain ⟨i, hlisted, hrestored⟩ :=
      State.instruction?_of_statement hcode hholds hcursor hlabel ⟨hbytes, hsound⟩
    obtain ⟨r, hr, hname, hplace⟩ := exists_reference front back hbranch
    exact ⟨i, _, r, hlisted, hrestored, hr, hname, hplace.trans (by rw [hcursor])⟩
  · intro s label size width target destination hholds hplaced htarget
    exact resolve_of_placedAt hcode hresolves hholds hplaced htarget size destination

/-- A program is answered with the first complaint about a statement, or else with the first
failure of a label reference, or else with code in which every label reference is resolved, and
executing the code reaches the labels. -/
theorem assemble_resolves_labels (program : List Statement) :
    match Program.complaints [] program, Program.failures program with
    | e :: _, _ => assemble program = .error e
    | [], e :: _ => assemble program = .error e
    | [], [] => ∃ code, assemble program = .ok code ∧ Resolves program code ∧
        Reaches program code := by
  split
  · rename_i e more failures hcomplaints
    exact assemble_of_complaints hcomplaints
  · rename_i e more hcomplaints hfailures
    exact assemble_of_failures hcomplaints hfailures
  · rename_i hcomplaints hfailures
    obtain ⟨code, hcode, hresolves⟩ := exists_assemble hcomplaints hfailures
    exact ⟨code, hcode, hresolves, reaches_of_assemble hcode hresolves⟩

-- A statement that is refused counts before a label that is missing, wherever the two stand.
example : assemble [.bra "nowhere", .label "here", .label "here"] =
    .error (.duplicateLabel "here") := by decide +kernel

/-- A program with a label operand, a loop back over it, and a call to the end of the code behind
a byte of data. -/
def countsAndLeaves : List Statement :=
  [.label "again",
    .plain .lea [.register .general 2, .codeLabel "out"],
    .dbnz (.register .general 1) "again",
    .bytes [0xff],
    .bsr "out",
    .label "out"]

/-- A machine that is about to read a program at an offset. -/
def State.reading (code : List UInt8) (cursor : Nat) : State :=
  { State.load code ⟨AddressSpace.stackBase, 64⟩ with cursor, status := .initialised }

/-- A machine holds the code that it is loaded with. -/
theorem State.holdsCode_reading (code : List UInt8) (cursor : Nat)
    (hlength : AddressSpace.codeBase.toNat + code.length < UInt64.size) :
    (State.reading code cursor).HoldsCode code := by
  constructor
  · exact Memory.bytes_setBytes_same _ _ code (by omega)
  · have hbase : AddressSpace.codeBase ≠ 0 := by decide
    exact ⟨hbase, hlength⟩

/-- The loop goes back to the start, the call to the end of the code faults, and the operand has
the address of the end. -/
theorem countsAndLeaves_reaches_labels :
    ∃ code, assemble countsAndLeaves = .ok code ∧ Resolves countsAndLeaves code ∧
      (∃ t, (∀ fuel, (State.reading code 7).step {} fuel = some t) ∧ t.cursor = 0 ∧
        t.status = .running) ∧
      (State.reading code 14).Raises {} (.cursorOutOfRange 0x100000013) ∧
      ∃ t, Exec.resolve 8 none (State.reading code 2) = .ok (.memory 0x100000013) t ∧
        t.cursor = 7 := by
  obtain ⟨code, hcode, hresolves, hreaches⟩ := assemble_resolves_labels countsAndLeaves
  refine ⟨code, hcode, hresolves, ?_⟩
  let bytes : List UInt8 :=
    [28, 0x02, 0xb0, 12, 0, 0, 0, 9, 0x01, 243, 255, 255, 255, 0xff, 3, 0, 0, 0, 0]
  have hbytes : code = bytes := by
    have hknown : assemble countsAndLeaves = .ok bytes := by decide +kernel
    rw [hcode] at hknown
    injection hknown
  subst hbytes
  have hholds := fun cursor => State.holdsCode_reading bytes cursor (by decide)
  refine ⟨?_, ?_, ?_⟩
  · exact hreaches.branch {} _ ⟨.dbnz, [.operand (.register .general 1), .branch (-13)]⟩ 6
      ⟨9, "again"⟩ 0 (hholds 7) rfl (by decide +kernel) (.dbnz (-13) (by decide +kernel))
      (by decide +kernel) rfl rfl
  · exact hreaches.branch {} _ ⟨.bsr, [.branch 0]⟩ 5 ⟨15, "out"⟩ 19 (hholds 14) rfl
      (by decide +kernel) (.bsr 0 ⟨by decide +kernel, by decide +kernel⟩) (by decide +kernel)
      rfl (by decide +kernel)
  · exact hreaches.operand _ "out" 8 8 19 none (hholds 2)
      ⟨[.label "again"], _, _, [.bytes [28], .operand (.register .general 2) 8], [], rfl, rfl,
        rfl⟩ (by decide +kernel)

end BytecodeMachine
