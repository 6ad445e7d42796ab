import BytecodeMachine.Listing
import BytecodeMachine.Proofs.Assembly.Emission

/-!
# The listing of an assembled program

A program without raw bytes is assembled to code whose listing shows one instruction for each
statement that emits one, at the offset at which the statement stood, and with the opcode and
the fields that the statement gives.  Operands come back in normal form, and a label as the
displacement to the place where the program defines it.

* `FieldSource` is a field as a statement gives it, `Statement.source?` the opcode and the
  fields of a statement.
* `FieldSource.Restores` says which field of the listing belongs to it.
* `Draft.placed` are the statements that emit an instruction, with their offsets.

The agreement of the assembler with the reader of instructions is shown field by field
(`FieldSource.Fits.readFrom`), then for the fields of a statement, and then for the whole program
by induction on the statements that are still to come.
-/

namespace BytecodeMachine

/-! ## Listings line by line -/

/-- An opcode byte with the fields of its layout behind it is read as the instruction of the
two. -/
theorem Line.read_cons {opcode : Opcode} {fields : List Field} {bytes : List UInt8} {n : Nat}
    (hread : FieldKind.readAll? opcode.layout.fields 0 bytes = some (fields, n))
    (offset : Nat) :
    Line.read offset (opcode.byte :: bytes) = .ok (.instruction { opcode, fields }, 1 + n) := by
  unfold Line.read
  simp only [Opcode.ofByte?_byte, Instruction.read?, hread, Option.map_some]

namespace Listing

/-- The text of some lines. -/
def textOf (ls : List PlacedLine) : String := String.join (ls.map fun l => l.render ++ "\n")

theorem render_of_lines {code : List UInt8} {ls : List PlacedLine} (hlines : lines code = .ok ls) :
    render code = .ok (textOf ls) := by
  rw [render, hlines]
  rfl

/-- Bytes that belong to the line before are passed over. -/
theorem linesFrom_skip (bytes : List UInt8) (offset skip : Nat) :
    linesFrom bytes offset skip = linesFrom (bytes.drop skip) (offset + skip) 0 := by
  induction bytes generalizing offset skip with
  | nil =>
      rw [List.drop_nil]
      rfl
  | cons value rest ih =>
      cases skip with
      | zero => rfl
      | succ skip =>
          have hoffset : offset + 1 + skip = offset + (skip + 1) := by omega
          show linesFrom rest (offset + 1) skip = _
          rw [ih, List.drop_succ_cons, hoffset]

section
attribute [local irreducible] Line.read

/-- A line, then the lines behind it. -/
theorem linesFrom_cons (value : UInt8) (rest : List UInt8) (offset : Nat) :
    linesFrom (value :: rest) offset 0 =
      match Line.read offset (value :: rest) with
      | .error e => .error e
      | .ok (line, length) =>
          match linesFrom rest (offset + 1) (length - 1) with
          | .error e => .error e
          | .ok lines => .ok ({ offset, length, line } :: lines) := rfl

end

/-- A line that is read off the front is followed by the lines of what comes behind it. -/
theorem linesFrom_of_read {front rest : List UInt8} {offset : Nat} {line : Line}
    {lines : List PlacedLine} (hfront : front ≠ [])
    (hread : Line.read offset (front ++ rest) = .ok (line, front.length))
    (hlines : linesFrom rest (offset + front.length) 0 = .ok lines) :
    linesFrom (front ++ rest) offset 0 =
      .ok ({ offset, length := front.length, line } :: lines) := by
  cases front with
  | nil => exact absurd rfl hfront
  | cons value front =>
      have hbehind : linesFrom (front ++ rest) (offset + 1) ((value :: front).length - 1) =
          .ok lines := by
        have hplace : offset + 1 + front.length = offset + (value :: front).length := by
          rw [List.length_cons]
          omega
        rw [linesFrom_skip, List.length_cons, Nat.add_sub_cancel, List.drop_left, hplace]
        exact hlines
      rw [List.cons_append] at hread ⊢
      rw [linesFrom_cons, hread]
      simp only [hbehind]

end Listing

/-! ## Fields as statements give them -/

/-- A field as a statement gives it. -/
inductive FieldSource where
  | value (f : Field)
  | registers (bank : Bank) (a b : UInt8)
  | operand (o : Operand) (size : Nat)
  | branch (label : String)
  deriving DecidableEq, Repr

namespace FieldSource

/-- The number of bytes of the field. -/
def extent : FieldSource → Nat
  | value (.branch _) | value (.mask _) | value (.displacement _) => 4
  | value _ | registers _ _ _ => 1
  | operand o size => o.extent size
  | branch _ => 4

/-- The size that a field gives to the operands after it, if the size before it was `size`. -/
def operandSize (source : FieldSource) (size : Nat) : Nat :=
  match source with
  | value f => f.operandSize size
  | _ => size

end FieldSource

namespace Statement

/-- The opcode and the fields that a statement gives; nothing for one that emits no
instruction. -/
def source? : Statement → Option (Opcode × List FieldSource)
  | label _ | bytes _ => none
  | plain opcode operands =>
      opcode.layout.operandSizes?.map fun sizes =>
        (opcode, List.zipWith FieldSource.operand operands sizes)
  | host module => some (.host, [.value (.hostModule module)])
  | bra target => some (.bra, [.branch target])
  | bsr target => some (.bsr, [.branch target])
  | bmc condition o target =>
      some (.bmc, [.value (.condition .monadic condition),
        .operand o (Condition.operandSize condition), .branch target])
  | bdc condition a b target =>
      let size := Condition.operandSize condition
      some (.bdc, [.value (.condition .dyadic condition), .operand a size, .operand b size,
        .branch target])
  | dbnz counter target => some (.dbnz, [.operand counter 4, .branch target])
  | smc condition destination o =>
      some (.smc, [.value (.condition .monadic condition), .operand destination 1,
        .operand o (Condition.operandSize condition)])
  | sdc condition destination a b =>
      let size := Condition.operandSize condition
      some (.sdc, [.value (.condition .dyadic condition), .operand destination 1,
        .operand a size, .operand b size])
  | exchange .general a b => some (.exg, [.registers .general a b])
  | exchange .float a b => some (.fexg, [.registers .float a b])
  | savem mask o => some (.savem, [.value (.mask mask), .operand o mask.blockSize])
  | loadm mask o => some (.loadm, [.value (.mask mask), .operand o mask.blockSize])
  | link r d => some (.link, [.value (.frameRegister (r % 16)), .value (.displacement d)])
  | unlk r => some (.unlk, [.value (.frameRegister (r % 16))])

/-- The operands of a statement. -/
def operands : Statement → List Operand
  | plain _ operands => operands
  | bmc _ o _ | dbnz o _ | savem _ o | loadm _ o => [o]
  | bdc _ a b _ | smc _ a b => [a, b]
  | sdc _ destination a b => [destination, a, b]
  | _ => []

/-- The statement is no raw bytes, and its reserved operands have reserved mode bytes. -/
def Listable (s : Statement) : Prop :=
  (∀ raw, s ≠ .bytes raw) ∧ ∀ o ∈ s.operands, o.Sound

end Statement

/-- From the code offset `stop`, the displacement leads to the place where the program defines
the label. -/
def LeadsTo (program : List Statement) (label : String) (stop : Nat) (d : Int32) : Prop :=
  ∃ front back, program = front ++ .label label :: back ∧
    (stop : Int) + d.toInt = (Draft.ofStatements front).position

/-- The field that a listing shows for a field of a statement, where it ends at the code offset
`stop`. -/
inductive FieldSource.Restores (program : List Statement) (stop : Nat) :
    FieldSource → Field → Prop
  | value (f : Field) : Restores program stop (.value f) f
  | registers {bank : Bank} {a b byte : UInt8} (hhigh : byte >>> 4 = a % 16)
      (hlow : byte &&& 0xf = b % 16) :
      Restores program stop (.registers bank a b) (.registerPair bank byte)
  | operand {o : Operand} {size : Nat} (hlabel : ∀ label, o ≠ .codeLabel label) :
      Restores program stop (.operand o size) (.operand (o.normal size))
  | labelOperand {label : String} {size : Nat} {d : Int32}
      (hleads : LeadsTo program label stop d) :
      Restores program stop (.operand (.codeLabel label) size) (.operand (.codeRelative d))
  | branch {label : String} {d : Int32} (hleads : LeadsTo program label stop d) :
      Restores program stop (.branch label) (.branch d)

/-- The same for fields one after the other, where the first begins at the code offset
`start`. -/
inductive FieldSource.RestoresAll (program : List Statement) :
    Nat → List FieldSource → List Field → Prop
  | nil {start : Nat} : RestoresAll program start [] []
  | cons {start : Nat} {source : FieldSource} {sources : List FieldSource} {field : Field}
      {fields : List Field} (hfirst : source.Restores program (start + source.extent) field)
      (hrest : RestoresAll program (start + source.extent) sources fields) :
      RestoresAll program start (source :: sources) (field :: fields)

/-- The instruction that a listing shows at an offset is the one that the statement gives. -/
def Statement.RestoredBy (program : List Statement) (offset : Nat) (s : Statement)
    (i : Instruction) : Prop :=
  ∃ sources, s.source? = some (i.opcode, sources) ∧
    FieldSource.RestoresAll program (offset + 1) sources i.fields

/-- The statements that emit an instruction when they are added to a draft, each with the
offset at which it does. -/
def Draft.placed (d : Draft) : List Statement → List (Nat × Statement)
  | [] => []
  | .label name :: rest => (d.define name).placed rest
  | s :: rest => (d.position, s) :: (d.add s).placed rest

/-! ## One field -/

namespace FieldSource

/-- The field is of the kind that a layout asks for, where the fields before give `size`. -/
inductive Fits (size : Nat) : FieldKind → FieldSource → Prop
  | hostModule {id : UInt8} : Fits size .hostModule (.value (.hostModule id))
  | condition {arity : Arity} {byte : UInt8} :
      Fits size (.condition arity) (.value (.condition arity byte))
  | mask {m : RegisterMask} : Fits size .mask (.value (.mask m))
  | frameRegister {r : UInt8} : Fits size .frameRegister (.value (.frameRegister r))
  | displacement {d : Int32} : Fits size .displacement (.value (.displacement d))
  | registers {bank : Bank} {a b : UInt8} :
      Fits size (.registerPair bank) (.registers bank a b)
  | operand {o : Operand} {fixed : Nat} : Fits size (.operand fixed) (.operand o fixed)
  | sizedOperand {o : Operand} : Fits size .sizedOperand (.operand o size)
  | branch {label : String} : Fits size .branch (.branch label)

/-- The fields are of the kinds that a layout asks for, one after the other. -/
inductive FitsAll : Nat → List FieldKind → List FieldSource → Prop
  | nil {size : Nat} : FitsAll size [] []
  | cons {size : Nat} {kind : FieldKind} {kinds : List FieldKind} {source : FieldSource}
      {sources : List FieldSource} (hfirst : Fits size kind source)
      (hrest : FitsAll (source.operandSize size) kinds sources) :
      FitsAll size (kind :: kinds) (source :: sources)

/-- The stretches of a field. -/
def stretches : FieldSource → List Stretch
  | value (.hostModule byte) | value (.condition _ byte) | value (.frameRegister byte)
  | value (.registerPair _ byte) => [.fixed [byte]]
  | value (.mask m) => [.fixed (LittleEndian.encode 4 m.toNat)]
  | value (.displacement d) | value (.branch d) => [.fixed (LittleEndian.ofDisplacement d)]
  | value (.operand _) => []
  | registers _ a b => [.fixed [Operand.nibbles a b]]
  | operand o size => (Piece.operand o size).stretches
  | branch label => [.pending label]

/-- The operand of a field, if it is one, is sound. -/
def Sound : FieldSource → Prop
  | operand o _ => o.Sound
  | _ => True

end FieldSource

/-- A reference that is resolved leads to its label. -/
theorem leadsTo_of_displacement {program : List Statement} {label : String} {offset : Nat}
    {d : Int32}
    (hdistance : (Draft.ofStatements program).displacement { offset, label } = .ok d) :
    LeadsTo program label (offset + 4) d := by
  unfold Draft.displacement at hdistance
  split at hdistance
  · cases hdistance
  · rename_i target htarget
    obtain ⟨front, back, hprogram, rfl⟩ := Draft.defined_of_labelOffset? htarget
    simp only at hdistance
    split at hdistance
    · rename_i hfits
      cases hdistance
      refine ⟨front, back, hprogram, ?_⟩
      have hlargest : Int32.maxValue.toInt = 2147483647 := by decide
      rw [Int32.toInt_ofInt_of_le hfits.1 (by omega)]
      omega
    · cases hdistance

namespace FieldKind

theorem readLong?_append {front : List UInt8} (hfront : front.length = 4)
    (make : List UInt8 → Field) (rest : List UInt8) :
    readLong? (front ++ rest) make = some (make front, 4) := by
  have htake : (front ++ rest).take 4 = front := by rw [← hfront, List.take_left]
  rw [readLong?, take?]
  simp only [htake, hfront, Nat.lt_irrefl, if_false, Option.map_some]

theorem readOperand?_encode {o : Operand} (hsound : o.Sound)
    (hlabel : ∀ label, o ≠ .codeLabel label) (size : Nat) (rest : List UInt8) :
    readOperand? (o.encode size ++ rest) size =
      some (.operand (o.normal size), (o.encode size).length) := by
  rw [readOperand?, Operand.parse?_encode hsound hlabel, Operand.extent_normal,
    Operand.length_encode]
  rfl

end FieldKind

namespace FieldSource

open Stretch (filled)

/-- What it means for bytes to hold a field of a kind: they are read as the field that a
listing shows for it, whatever comes behind them. -/
def ReadFrom (program : List Statement) (size start : Nat) (kind : FieldKind)
    (source : FieldSource) (bytes : List UInt8) : Prop :=
  bytes.length = source.extent ∧
    ∃ field, source.Restores program (start + source.extent) field ∧
      field.operandSize size = source.operandSize size ∧
      ∀ rest, kind.read? size (bytes ++ rest) = some (field, bytes.length)

/-- An operand that is emitted is read back. -/
theorem readFrom_operand {program : List Statement} {start size operandSize : Nat}
    {kind : FieldKind} {o : Operand} {bytes : List UInt8} (hsound : o.Sound)
    (hkind : ∀ bytes, kind.read? size bytes = FieldKind.readOperand? bytes operandSize)
    (hfilled : filled (Draft.ofStatements program) start
      (FieldSource.operand o operandSize).stretches = .ok bytes) :
    ReadFrom program size start kind (.operand o operandSize) bytes := by
  by_cases hlabel : ∃ label, o = .codeLabel label
  · -- A label is emitted as a distance in the code, and this is what is read.
    obtain ⟨label, rfl⟩ := hlabel
    obtain ⟨more, rfl, hmore⟩ := Stretch.exists_of_filled_fixed hfilled
    obtain ⟨distance, rest, rfl, hdistance, hrest⟩ := Stretch.exists_of_filled_pending hmore
    cases hrest
    have hbytes : [Operand.nibbles 0xb 0] ++ (LittleEndian.ofDisplacement distance ++ []) =
        (Operand.codeRelative distance).encode operandSize := by
      rw [List.append_nil]
      rfl
    rw [hbytes]
    refine ⟨Operand.length_encode _ _, .operand (.codeRelative distance),
      .labelOperand (leadsTo_of_displacement hdistance), rfl, fun rest => ?_⟩
    have hrelative : (Operand.codeRelative distance).Sound := trivial
    rw [hkind]
    exact FieldKind.readOperand?_encode hrelative (by simp) operandSize rest
  · have hstretches : (FieldSource.operand o operandSize).stretches =
        [.fixed (o.encode operandSize)] := by
      cases o with
      | codeLabel label => exact absurd ⟨label, rfl⟩ hlabel
      | _ => rfl
    have hnolabel : ∀ label, o ≠ .codeLabel label := fun label h => hlabel ⟨label, h⟩
    rw [hstretches] at hfilled
    simp only [filled, List.append_nil] at hfilled
    cases hfilled
    refine ⟨Operand.length_encode _ _, _, .operand hnolabel, rfl, fun rest => ?_⟩
    rw [hkind]
    exact FieldKind.readOperand?_encode hsound hnolabel operandSize rest

/-- A field that is emitted is read back. -/
theorem Fits.readFrom {program : List Statement} {size start : Nat} {kind : FieldKind}
    {source : FieldSource} {bytes : List UInt8} (hfits : Fits size kind source)
    (hsound : source.Sound)
    (hfilled : filled (Draft.ofStatements program) start source.stretches = .ok bytes) :
    ReadFrom program size start kind source bytes := by
  cases hfits with
  | hostModule | condition | frameRegister =>
      cases hfilled
      exact ⟨rfl, _, .value _, rfl, fun rest => rfl⟩
  | registers =>
      cases hfilled
      refine ⟨rfl, _, .registers ?_ ?_, rfl, fun rest => rfl⟩
      · exact Operand.nibbles_shiftRight _ _
      · exact Operand.nibbles_and _ _
  | @mask m =>
      simp only [stretches, filled, List.append_nil] at hfilled
      cases hfilled
      have hlength : (LittleEndian.encode 4 m.toNat).length = 4 := LittleEndian.length_encode 4 _
      refine ⟨hlength, _, .value _, rfl, fun rest => ?_⟩
      rw [FieldKind.read?, FieldKind.readLong?_append hlength, hlength,
        LittleEndian.word32_encode]
  | @displacement d =>
      simp only [stretches, filled, List.append_nil] at hfilled
      cases hfilled
      have hlength := LittleEndian.length_ofDisplacement d
      refine ⟨hlength, _, .value _, rfl, fun rest => ?_⟩
      rw [FieldKind.read?, FieldKind.readLong?_append hlength, hlength,
        LittleEndian.displacement_ofDisplacement]
  | operand => exact readFrom_operand hsound (fun _ => rfl) hfilled
  | sizedOperand => exact readFrom_operand hsound (fun _ => rfl) hfilled
  | branch =>
      obtain ⟨distance, more, rfl, hdistance, hmore⟩ := Stretch.exists_of_filled_pending hfilled
      cases hmore
      have hlength := LittleEndian.length_ofDisplacement distance
      rw [List.append_nil]
      refine ⟨hlength, _, .branch (leadsTo_of_displacement hdistance), rfl, fun rest => ?_⟩
      rw [FieldKind.read?, FieldKind.readLong?_append hlength, hlength,
        LittleEndian.displacement_ofDisplacement]

/-! ## The fields of a statement -/

/-- Fields that are emitted one after the other are read back one after the other. -/
theorem FitsAll.readAll {program : List Statement} {size start : Nat} {kinds : List FieldKind}
    {sources : List FieldSource} {bytes : List UInt8} (hfits : FitsAll size kinds sources)
    (hsound : ∀ source ∈ sources, source.Sound)
    (hfilled : filled (Draft.ofStatements program) start (sources.flatMap stretches) =
      .ok bytes) :
    ∃ fields, RestoresAll program start sources fields ∧
      ∀ rest, FieldKind.readAll? kinds size (bytes ++ rest) = some (fields, bytes.length) := by
  -- The size that a condition or a mask sets for the operands behind it is an index of `FitsAll`,
  -- so the induction hypothesis has it as the reader does.
  induction hfits generalizing start bytes with
  | nil =>
      cases hfilled
      exact ⟨[], .nil, fun rest => rfl⟩
  | cons hfirst hrest ih =>
      rename_i size kind kinds source sources
      rw [List.flatMap_cons] at hfilled
      obtain ⟨front, back, rfl, hfront, hback⟩ := Stretch.filled_append hfilled
      obtain ⟨hlength, field, hrestores, hsize, hread⟩ :=
        hfirst.readFrom (hsound _ (by simp)) hfront
      rw [hlength] at hback
      obtain ⟨fields, hall, hreadAll⟩ :=
        ih (fun other hother => hsound other (by simp [hother])) hback
      refine ⟨field :: fields, .cons hrestores hall, fun rest => ?_⟩
      rw [FieldKind.readAll?, List.append_assoc, hread, List.length_append]
      simp only [hsize, List.drop_left, hreadAll]

/-- Operands in a row fit the layout of their sizes. -/
theorem fitsAll_operands (size : Nat) (operands : List Operand) (sizes : List Nat)
    (hlength : sizes.length = operands.length) :
    FitsAll size (sizes.map .operand) (List.zipWith FieldSource.operand operands sizes) := by
  induction operands generalizing sizes with
  | nil =>
      rw [List.eq_nil_of_length_eq_zero hlength]
      exact .nil
  | cons o operands ih =>
      cases sizes with
      | nil => cases hlength
      | cons first sizes => exact .cons .operand (ih sizes (by simpa using hlength))

end FieldSource

/-- The layouts of operands alone. -/
theorem Layout.fields_of_operandSizes? {l : Layout} {sizes : List Nat}
    (hsizes : l.operandSizes? = some sizes) : l.fields = sizes.map .operand := by
  cases l with
  | bare | target | unary | binary =>
      cases hsizes
      rfl
  | _ => cases hsizes

namespace Statement

open Stretch (filled)

/-- An instruction is emitted as its opcode byte and then its fields, as its layout asks for
them. -/
theorem emits_source {s : Statement} {pieces : List Piece} (hpieces : s.pieces = .ok pieces)
    (hlabel : ∀ name, s ≠ .label name) (hlistable : s.Listable) :
    ∃ opcode sources, s.source? = some (opcode, sources) ∧
      FieldSource.FitsAll 0 opcode.layout.fields sources ∧
      (∀ source ∈ sources, source.Sound) ∧
      ∀ d offset, filled d offset s.stretches =
        filled d offset (.fixed [opcode.byte] :: sources.flatMap FieldSource.stretches) := by
  obtain ⟨hbytes, hsound⟩ := hlistable
  rw [stretches_of_pieces hpieces]
  cases s with
  | label name => exact absurd rfl (hlabel name)
  | bytes raw => exact absurd rfl (hbytes raw)
  | plain opcode operands =>
      rw [Statement.pieces] at hpieces
      split at hpieces
      · cases hpieces
      · rename_i sizes hsizes
        split at hpieces
        · cases hpieces
        · rename_i hlength
          cases hpieces
          refine ⟨opcode, List.zipWith FieldSource.operand operands sizes, ?_, ?_, ?_, ?_⟩
          · rw [source?, hsizes, Option.map_some]
          · rw [Layout.fields_of_operandSizes? hsizes]
            exact FieldSource.fitsAll_operands 0 operands sizes (Decidable.not_not.mp hlength)
          · intro source hsource
            obtain ⟨i, hi, rfl⟩ := List.mem_iff_getElem.mp hsource
            rw [List.getElem_zipWith]
            exact hsound _ (List.getElem_mem _)
          · intro d offset
            have hrow : (List.zipWith Piece.operand operands sizes).flatMap Piece.stretches =
                (List.zipWith FieldSource.operand operands sizes).flatMap
                  FieldSource.stretches := by
              simp only [List.flatMap_def, List.map_zipWith]
              rfl
            rw [List.flatMap_cons, hrow]
            rfl
  | host module =>
      cases hpieces
      exact ⟨.host, _, rfl, .cons .hostModule .nil, by simp [FieldSource.Sound],
        fun d offset => Stretch.filled_fixed_append [_] [module] _⟩
  | bra target =>
      cases hpieces
      exact ⟨.bra, _, rfl, .cons .branch .nil, by simp [FieldSource.Sound],
        fun d offset => rfl⟩
  | bsr target =>
      cases hpieces
      exact ⟨.bsr, _, rfl, .cons .branch .nil, by simp [FieldSource.Sound],
        fun d offset => rfl⟩
  | bmc condition o target =>
      cases hpieces
      exact ⟨.bmc, _, rfl, .cons .condition (.cons .sizedOperand (.cons .branch .nil)),
        by simpa [FieldSource.Sound, operands] using hsound,
        fun d offset => Stretch.filled_fixed_append [_] [condition] _⟩
  | bdc condition a b target =>
      cases hpieces
      exact ⟨.bdc, _, rfl,
        .cons .condition (.cons .sizedOperand (.cons .sizedOperand (.cons .branch .nil))),
        by simpa [FieldSource.Sound, operands] using hsound,
        fun d offset => Stretch.filled_fixed_append [_] [condition] _⟩
  | dbnz counter target =>
      cases hpieces
      exact ⟨.dbnz, _, rfl, .cons .operand (.cons .branch .nil),
        by simpa [FieldSource.Sound, operands] using hsound, fun d offset => rfl⟩
  | smc condition destination o =>
      cases hpieces
      exact ⟨.smc, _, rfl, .cons .condition (.cons .operand (.cons .sizedOperand .nil)),
        by simpa [FieldSource.Sound, operands] using hsound,
        fun d offset => Stretch.filled_fixed_append [_] [condition] _⟩
  | sdc condition destination a b =>
      cases hpieces
      exact ⟨.sdc, _, rfl,
        .cons .condition (.cons .operand (.cons .sizedOperand (.cons .sizedOperand .nil))),
        by simpa [FieldSource.Sound, operands] using hsound,
        fun d offset => Stretch.filled_fixed_append [_] [condition] _⟩
  | exchange bank a b =>
      cases bank with
      | general =>
          cases hpieces
          exact ⟨.exg, _, rfl, .cons .registers .nil, by simp [FieldSource.Sound],
            fun d offset => Stretch.filled_fixed_append [_] [Operand.nibbles a b] _⟩
      | float =>
          cases hpieces
          exact ⟨.fexg, _, rfl, .cons .registers .nil, by simp [FieldSource.Sound],
            fun d offset => Stretch.filled_fixed_append [_] [Operand.nibbles a b] _⟩
  | savem mask o =>
      cases hpieces
      exact ⟨.savem, _, rfl, .cons .mask (.cons .sizedOperand .nil),
        by simpa [FieldSource.Sound, operands] using hsound,
        fun d offset => Stretch.filled_fixed_append [_] (LittleEndian.encode 4 mask.toNat) _⟩
  | loadm mask o =>
      cases hpieces
      exact ⟨.loadm, _, rfl, .cons .mask (.cons .sizedOperand .nil),
        by simpa [FieldSource.Sound, operands] using hsound,
        fun d offset => Stretch.filled_fixed_append [_] (LittleEndian.encode 4 mask.toNat) _⟩
  | link r d =>
      rw [Statement.pieces, Operand.and_low_eq_mod] at hpieces
      cases hpieces
      refine ⟨.link, _, rfl, .cons .frameRegister (.cons .displacement .nil),
        by simp [FieldSource.Sound], fun d' offset => ?_⟩
      simp [start, Piece.stretches, FieldSource.stretches, filled]
  | unlk r =>
      rw [Statement.pieces, Operand.and_low_eq_mod] at hpieces
      cases hpieces
      exact ⟨.unlk, _, rfl, .cons .frameRegister .nil, by simp [FieldSource.Sound],
        fun d offset => Stretch.filled_fixed_append [_] [r % 16] _⟩

end Statement

/-! ## Whole programs -/

/-- A line shows a statement at its place: it is the instruction of the statement, and is printed
as the text of the instruction behind the offset. -/
def PlacedLine.Shows (program : List Statement) (placed : Nat × Statement)
    (l : PlacedLine) : Prop :=
  l.offset = placed.1 ∧
    ∃ i, l.line = .instruction i ∧ placed.2.RestoredBy program placed.1 i ∧
      l.render = Text.hexDigits 4 placed.1 ++ ": " ++ i.text (placed.1 + l.length)

/-- The bytes of a statement that emits an instruction are read as a line that shows it. -/
theorem Statement.read_emitted {program : List Statement} {s : Statement}
    {pieces : List Piece} {offset : Nat} {front : List UInt8} (hpieces : s.pieces = .ok pieces)
    (hlabel : ∀ name, s ≠ .label name) (hlistable : s.Listable)
    (hfront : Stretch.filled (Draft.ofStatements program) offset s.stretches = .ok front) :
    front ≠ [] ∧ ∃ i, s.RestoredBy program offset i ∧
      ∀ rest, Line.read offset (front ++ rest) = .ok (.instruction i, front.length) := by
  obtain ⟨opcode, sources, hsource, hfits, hsound, hemits⟩ :=
    emits_source hpieces hlabel hlistable
  rw [hemits] at hfront
  have hparts : Stretch.fixed [opcode.byte] :: sources.flatMap FieldSource.stretches =
      [.fixed [opcode.byte]] ++ sources.flatMap FieldSource.stretches := rfl
  rw [hparts] at hfront
  obtain ⟨first, bytes, rfl, hfirst, hbytes⟩ := Stretch.filled_append hfront
  cases hfirst
  obtain ⟨fields, hrestores, hread⟩ := hfits.readAll hsound hbytes
  refine ⟨by simp, { opcode, fields }, ⟨sources, hsource, hrestores⟩, fun rest => ?_⟩
  have hline := Line.read_cons (hread rest) offset
  rw [Nat.add_comm] at hline
  exact hline

/-- The statements that are still to come are listed as they will be placed. -/
theorem linesFrom_filled {program before after : List Statement} {bytes : List UInt8}
    (hpieces : ∀ s ∈ after, ∃ pieces, s.pieces = .ok pieces)
    (hlistable : ∀ s ∈ after, s.Listable)
    (hfilled : Stretch.filled (Draft.ofStatements program) (Draft.ofStatements before).position
      (after.flatMap Statement.stretches) = .ok bytes) :
    ∃ lines, Listing.linesFrom bytes (Draft.ofStatements before).position 0 = .ok lines ∧
      List.Forall₂ (PlacedLine.Shows program) ((Draft.ofStatements before).placed after)
        lines := by
  -- The statement that is listed goes over from `after` to `before`, and the position with it;
  -- the program as a whole stays, since its labels are needed all along.
  induction after generalizing before bytes with
  | nil =>
      cases hfilled
      exact ⟨[], rfl, .nil⟩
  | cons s after ih =>
      obtain ⟨pieces, hs⟩ := hpieces s (by simp)
      rw [List.flatMap_cons] at hfilled
      obtain ⟨front, back, rfl, hfront, hback⟩ := Stretch.filled_append hfilled
      rw [Stretch.length_filled hfront, ← Draft.position_concat] at hback
      obtain ⟨lines, hlines, hshows⟩ := @ih (before ++ [s]) back
        (fun t ht => hpieces t (by simp [ht])) (fun t ht => hlistable t (by simp [ht])) hback
      rw [Draft.position_concat, ← Stretch.length_filled hfront] at hlines
      rw [Draft.ofStatements_concat] at hshows
      by_cases hlabel : ∃ name, s = .label name
      · -- A label takes no bytes and has no line.
        obtain ⟨name, rfl⟩ := hlabel
        cases hfront
        exact ⟨lines, hlines, hshows⟩
      · have hnolabel : ∀ name, s ≠ .label name := fun name h => hlabel ⟨name, h⟩
        obtain ⟨hnonempty, i, hrestored, hread⟩ :=
          Statement.read_emitted hs hnolabel (hlistable s (by simp)) hfront
        have hplaced : (Draft.ofStatements before).placed (s :: after) =
            ((Draft.ofStatements before).position, s) ::
              ((Draft.ofStatements before).add s).placed after := by
          cases s with
          | label name => exact absurd rfl (hnolabel name)
          | _ => rfl
        rw [hplaced]
        refine ⟨_, Listing.linesFrom_of_read hnonempty (hread back) hlines, .cons ?_ hshows⟩
        exact ⟨rfl, i, rfl, hrestored, rfl⟩

/-- The stored form of an image is read as the image. -/
theorem Image.ofBytes_toBytes (i : Image) : ofBytes i.toBytes = .ok i := by
  have hmagic := LittleEndian.length_encode 8 magic.toNat
  have hreserved := LittleEndian.length_encode 8 i.reserved.toNat
  have hlength : ¬ i.toBytes.length < headerSize := by
    simp only [toBytes, List.length_append, hmagic, hreserved, headerSize]
    omega
  have hfirst : i.toBytes.take 8 = LittleEndian.encode 8 magic.toNat := by
    rw [toBytes, List.append_assoc, List.take_left' hmagic]
  have hsecond : (i.toBytes.drop 8).take 8 = LittleEndian.encode 8 i.reserved.toNat := by
    rw [toBytes, List.append_assoc, List.drop_left' hmagic, List.take_left' hreserved]
  have hrest : i.toBytes.drop headerSize = i.code := by
    refine List.drop_left' ?_
    simp only [List.length_append, hmagic, hreserved, headerSize]
  rw [ofBytes, if_neg hlength]
  simp only [hfirst, hsecond, hrest, LittleEndian.word64_encode, ne_eq, not_true_eq_false,
    if_false]

/-- A program without raw bytes whose reserved operands are reserved is listed as it was
written: one line for each instruction, at the offset of its statement, with the opcode and
the fields of the statement in normal form, and the listing prints these lines.  The code comes
back from the stored form. -/
theorem listing_restores_program (program : List Statement) (code : List UInt8)
    (hlistable : ∀ s ∈ program, s.Listable) (hcode : assemble program = .ok code) :
    (∃ lines, Listing.lines code = .ok lines ∧
      Listing.render code = .ok (Listing.textOf lines) ∧
      List.Forall₂ (PlacedLine.Shows program) (Draft.placed {} program) lines) ∧
    ∃ image stored, assembleImage program = .ok image ∧ Image.ofBytes image = .ok stored ∧
      stored.code = code ∧ stored.reserved = 0 := by
  obtain ⟨herror, hfilled⟩ := assemble_eq_ok hcode
  constructor
  · obtain ⟨lines, hlines, hshows⟩ := @linesFrom_filled program [] program code
      (Draft.accepted_of_error herror) hlistable hfilled
    have hall : Listing.lines code = .ok lines := hlines
    exact ⟨lines, hall, Listing.render_of_lines hall, hshows⟩
  · refine ⟨(Image.ofCode code).toBytes, Image.ofCode code, ?_, Image.ofBytes_toBytes _, rfl, rfl⟩
    rw [assembleImage, hcode]
    rfl

/-- A loop with labels on both sides, a label operand, numbers that are cut and a reserved
operand. -/
def countsDown : List Statement :=
  [.plain (.move .long) [.register .general 0x21, .immediate 0x100000003],
    .label "again",
    .bmc 0x20 (.register .general 1) "out",
    .savem 3 (.stepped .preDecrement 15),
    .plain .lea [.register .general 2, .codeLabel "again"],
    .dbnz (.register .general 0x31) "again",
    .label "out",
    .plain (.clr .byte) [.reserved 0xe5],
    .plain .stop []]

theorem listing_restores_countsDown :
    (∀ s ∈ countsDown, s.Listable) ∧ ∃ code, assemble countsDown = .ok code ∧
      (∃ lines, Listing.lines code = .ok lines ∧
        Listing.render code = .ok (Listing.textOf lines) ∧
        List.Forall₂ (PlacedLine.Shows countsDown) (Draft.placed {} countsDown) lines) ∧
      ∃ image stored, assembleImage countsDown = .ok image ∧ Image.ofBytes image = .ok stored ∧
        stored.code = code ∧ stored.reserved = 0 := by
  have hlistable : ∀ s ∈ countsDown, s.Listable := by
    simp [countsDown, Statement.Listable, Statement.operands, Operand.Sound]
  have hcode : assemble countsDown = .ok
      [14, 0x01, 0xf0, 3, 0, 0, 0, 7, 0x20, 0x01, 19, 0, 0, 0, 24, 3, 0, 0, 0, 0x5f, 28, 0x02,
        0xb0, 236, 255, 255, 255, 9, 0x01, 230, 255, 255, 255, 18, 0xe5, 0] := by
    rfl
  exact ⟨hlistable, _, hcode, listing_restores_program countsDown _ hlistable hcode⟩

end BytecodeMachine
