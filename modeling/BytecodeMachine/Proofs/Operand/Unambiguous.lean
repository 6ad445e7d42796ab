import BytecodeMachine.Operand.Text
import BytecodeMachine.Proofs.Operand.Denotation
import BytecodeMachine.Proofs.Text.Numerals

/-!
# Operand texts are unambiguous

The text of an operand is read back here, which shows that two operands from code that are shown
by the same text are the same operand.

* `Spelling` is a text cut at its marks, the characters that stand for themselves such as
  parentheses, into the fields between them; `Spelling.cut_flatten` says that a text is cut in
  one way;
* `Operand.spelling` is the text of an operand cut at its marks, and `Operand.ofSpelling?` reads
  it, with one reader for each kind of field;
* `Operand.ofText?_text` says that an operand is read back from its text.

A minus sign is no mark: it belongs to the number behind it, and where no number follows it is
a field of its own.
-/

namespace BytecodeMachine

/-! ## Texts cut at their marks -/

/-- The character stands for itself between the fields of an operand. -/
def isMark (c : Char) : Bool :=
  ['(', ')', '<', '>', '[', ']', '#', '=', '+', ',', '.', '*', ' '].contains c

/-- There is no mark in the field. -/
def Plain (field : List Char) : Prop := ∀ c ∈ field, isMark c = false

instance (field : List Char) : Decidable (Plain field) :=
  List.decidableBAll (fun c => isMark c = false) field

theorem plain_cons {c : Char} {field : List Char} :
    Plain (c :: field) ↔ isMark c = false ∧ Plain field := List.forall_mem_cons

/-- A first field, and behind it marks with a field each. -/
structure Spelling where
  first : List Char
  rest : List (Char × List Char)

namespace Spelling

/-- The whole text. -/
def flatten (s : Spelling) : List Char :=
  s.first ++ s.rest.flatMap fun piece => piece.1 :: piece.2

/-- Cut a text at its marks. -/
def cut : List Char → Spelling
  | [] => ⟨[], []⟩
  | c :: text =>
      let s := cut text
      if isMark c then ⟨[], (c, s.first) :: s.rest⟩ else ⟨c :: s.first, s.rest⟩

/-- Marks stand between the fields and nowhere else. -/
def Clean (s : Spelling) : Prop :=
  Plain s.first ∧ ∀ piece ∈ s.rest, isMark piece.1 = true ∧ Plain piece.2

theorem cut_append {field : List Char} (hplain : Plain field) (text : List Char) :
    cut (field ++ text) = ⟨field ++ (cut text).first, (cut text).rest⟩ := by
  induction field with
  | nil => rfl
  | cons c field ih =>
      obtain ⟨hc, hfield⟩ := plain_cons.mp hplain
      rw [List.cons_append, cut, ih hfield, if_neg (by simp [hc])]
      rfl

/-- A text is cut where its marks stand. -/
theorem cut_flatten {s : Spelling} (hclean : s.Clean) : cut s.flatten = s := by
  obtain ⟨first, rest⟩ := s
  induction rest generalizing first with
  | nil =>
      have hcut := cut_append hclean.1 []
      rw [cut, List.append_nil] at hcut
      rw [flatten, List.flatMap_nil, List.append_nil, hcut]
  | cons piece rest ih =>
      obtain ⟨hfirst, hrest⟩ := hclean
      obtain ⟨⟨hmark, hfield⟩, hrest⟩ := List.forall_mem_cons.mp hrest
      -- The first mark ends the first field, and the text behind it is one of the same kind.
      have hflatten : flatten ⟨first, piece :: rest⟩ =
          first ++ piece.1 :: flatten ⟨piece.2, rest⟩ := rfl
      rw [hflatten, cut_append hfirst, cut, ih piece.2 ⟨hfield, hrest⟩, if_pos hmark,
        List.append_nil]

end Spelling

/-! ## Numbers have no marks -/

namespace Text

/-- A character that is no digit stands in no number. -/
theorem not_mem_digits {base : Nat} (hone : 1 < base) (hbase : base ≤ 16) (width n : Nat)
    {c : Char} (hdigit : CommandLine.digit? base c = none) : c ∉ digits base width n := by
  intro hc
  have hsome := CommandLine.digit?_isSome_of_mem
    (CommandLine.digits?_digits hone hbase width n) hc
  rw [hdigit] at hsome
  cases hsome

theorem digit?_of_isMark (base : Nat) {c : Char} (hmark : isMark c = true) :
    CommandLine.digit? base c = none := by
  simp only [isMark, List.contains_eq_mem, List.mem_cons, List.not_mem_nil, or_false,
    decide_eq_true_eq] at hmark
  rcases hmark with rfl | rfl | rfl | rfl | rfl | rfl | rfl | rfl | rfl | rfl | rfl | rfl | rfl
  all_goals rfl

theorem plain_digits {base : Nat} (hone : 1 < base) (hbase : base ≤ 16) (width n : Nat) :
    Plain (digits base width n) := by
  intro c hc
  cases hmark : isMark c with
  | false => rfl
  | true => exact absurd hc (not_mem_digits hone hbase width n (digit?_of_isMark base hmark))

theorem plain_decimal (n : Nat) : Plain (digits 10 0 n) :=
  plain_digits (by decide) (by decide) 0 n

theorem toList_hex (width n : Nat) : (hex width n).toList = '0' :: 'x' :: digits 16 width n := by
  simp [hex, hexDigits]

theorem plain_hex (width n : Nat) : Plain (hex width n).toList := by
  rw [toList_hex, plain_cons, plain_cons]
  exact ⟨rfl, rfl, plain_digits (by decide) (by decide) width n⟩

/-- The number behind `0x`. -/
def hex? : List Char → Option Nat
  | '0' :: 'x' :: ds => CommandLine.digits? 16 0 ds
  | _ => none

theorem hex?_hex (width n : Nat) : hex? (hex width n).toList = some n := by
  rw [toList_hex]
  exact CommandLine.digits?_digits (by decide) (by decide) width n

theorem digits?_decimal (n : Nat) : CommandLine.digits? 10 0 (digits 10 0 n) = some n :=
  CommandLine.digits?_digits (by decide) (by decide) 0 n

end Text

namespace Operand

/-! ## Registers, displacements and indices -/

theorem toList_registerName (r : UInt8) :
    (registerName r).toList =
      if r = 15 then ['s', 'p'] else 'r' :: Text.digits 10 0 r.toNat := by
  rw [registerName]
  split_ifs with hr
  · rfl
  · simp [Text.decimal]

theorem plain_registerName (r : UInt8) : Plain (registerName r).toList := by
  rw [toList_registerName]
  split_ifs with hr
  · decide
  · exact plain_cons.mpr ⟨rfl, Text.plain_decimal r.toNat⟩

/-- The register of a name. -/
def register? : List Char → Option UInt8
  | ['s', 'p'] => some 15
  | 'r' :: ds => (CommandLine.digits? 10 0 ds).map UInt8.ofNat
  | _ => none

theorem register?_registerName (r : UInt8) : register? (registerName r).toList = some r := by
  rw [toList_registerName]
  split_ifs with hr
  · rw [hr]
    rfl
  · rw [register?, Text.digits?_decimal, Option.map_some, UInt8.ofNat_toNat]

theorem toList_displacementText (d : Int32) :
    (displacementText d).toList =
      if d.toInt < 0 then '-' :: Text.digits 10 0 d.toInt.natAbs
      else Text.digits 10 0 d.toInt.natAbs := by
  rw [displacementText, Text.signedDecimal]
  split_ifs with hd
  · simp [Text.decimal]
  · simp [Text.decimal]

theorem plain_displacementText (d : Int32) : Plain (displacementText d).toList := by
  rw [toList_displacementText]
  split_ifs with hd
  · exact plain_cons.mpr ⟨rfl, Text.plain_decimal _⟩
  · exact Text.plain_decimal _

/-- A displacement: a number, with a minus sign in front of a negative one. -/
def displacement? (field : List Char) : Option Int32 :=
  if field.head? = some '-' then
    (CommandLine.digits? 10 0 field.tail).map fun n : Nat => Int32.ofInt (-n)
  else (CommandLine.digits? 10 0 field).map fun n : Nat => Int32.ofInt n

theorem head?_digits (n : Nat) : (Text.digits 10 0 n).head? ≠ some '-' := by
  intro hhead
  exact Text.not_mem_digits (by decide) (by decide) 0 n (by decide)
    (List.mem_of_head? hhead)

theorem digits_ne_nil (n : Nat) : Text.digits 10 0 n ≠ [] :=
  List.append_ne_nil_of_right_ne_nil _ Nat.toDigits_ne_nil

theorem displacement?_displacementText (d : Int32) :
    displacement? (displacementText d).toList = some d := by
  rw [toList_displacementText, displacement?]
  split_ifs with hd hhead hhead
  · have hvalue : -(d.toInt.natAbs : Int) = d.toInt := by omega
    rw [List.tail_cons, Text.digits?_decimal, Option.map_some, hvalue, Int32.ofInt_toInt]
  · exact absurd rfl hhead
  · exact absurd hhead (head?_digits _)
  · have hvalue : (d.toInt.natAbs : Int) = d.toInt := by omega
    rw [Text.digits?_decimal, Option.map_some, hvalue, Int32.ofInt_toInt]

/-- A displacement is neither left out nor a sign alone. -/
theorem displacementText_ne (d : Int32) :
    (displacementText d).toList ≠ [] ∧ (displacementText d).toList ≠ ['-'] := by
  rw [toList_displacementText]
  split_ifs with hd
  · simp [digits_ne_nil]
  · refine ⟨digits_ne_nil _, ?_⟩
    intro hsame
    exact head?_digits d.toInt.natAbs (by rw [hsame]; rfl)

/-- The width of a letter. -/
def width? : List Char → Option Width
  | ['b'] => some .byte
  | ['w'] => some .word
  | ['l'] => some .long
  | ['q'] => some .quad
  | _ => none

/-- The scale of a factor. -/
def scale? (field : List Char) : Option UInt8 :=
  (CommandLine.digits? 10 0 field).bind fun
    | 1 => some 0
    | 2 => some 1
    | 4 => some 2
    | 8 => some 3
    | _ => none

theorem scale?_factor {scale : UInt8} (hscale : scale < 4) :
    scale? (Text.digits 10 0 ((1 : UInt8) <<< scale).toNat) = some scale := by
  have hall : ∀ n, n < 4 →
      scale? (Text.digits 10 0 ((1 : UInt8) <<< UInt8.ofNat n).toNat) = some (UInt8.ofNat n) := by
    decide
  have hn := hall scale.toNat hscale
  rwa [UInt8.ofNat_toNat] at hn

/-! ## Operands as fields and marks -/

/-- The text of an operand, cut at its marks. -/
def spelling : Operand → Spelling
  | register .general r => ⟨(registerName r).toList, []⟩
  | register .float r => ⟨'f' :: 'p' :: Text.digits 10 0 r.toNat, []⟩
  | indirect r => ⟨[], [('(', (registerName r).toList), (')', [])]⟩
  | stepped .postIncrement r => ⟨[], [('(', (registerName r).toList), (')', []), ('+', [])]⟩
  | stepped .postDecrement r => ⟨[], [('(', (registerName r).toList), (')', ['-'])]⟩
  | stepped .preIncrement r => ⟨[], [('+', []), ('(', (registerName r).toList), (')', [])]⟩
  | stepped .preDecrement r => ⟨['-'], [('(', (registerName r).toList), (')', [])]⟩
  | displaced r d => ⟨(displacementText d).toList, [('(', (registerName r).toList), (')', [])]⟩
  | indexed base index width scale d =>
      ⟨(d.map fun d => (displacementText d).toList).getD [],
        [ ('(', (registerName base).toList), (',', []), (' ', (registerName index).toList),
          ('.', width.letter.toList), ('*', Text.digits 10 0 ((1 : UInt8) <<< scale).toNat),
          (')', []) ]⟩
  | sameAsDestination => ⟨[], [('=', [])]⟩
  | codeRelative d => ⟨(displacementText d).toList, [('(', ['p', 'c']), (')', [])]⟩
  | codeLabel label => ⟨label.toList, [('(', ['p', 'c']), (')', [])]⟩
  | codeIndexed detail descriptor none =>
      ⟨[],
        [ ('<', ['p', 'c', '-', 'i', 'n', 'd', 'e', 'x']), (' ', (Text.hex 0 detail.toNat).toList),
          (' ', (Text.hex 2 descriptor.toNat).toList), ('>', []) ]⟩
  | codeIndexed detail descriptor (some d) =>
      ⟨[],
        [ ('<', ['p', 'c', '-', 'i', 'n', 'd', 'e', 'x']), (' ', (Text.hex 0 detail.toNat).toList),
          (' ', (Text.hex 2 descriptor.toNat).toList), (' ', (displacementText d).toList),
          ('>', []) ]⟩
  | immediate value => ⟨[], [('#', (Text.hex 0 value.toNat).toList)]⟩
  | absolute address => ⟨[], [('[', (Text.hex 0 address.toNat).toList), (']', [])]⟩
  | reserved byte =>
      ⟨[],
        [ ('<', ['r', 'e', 's', 'e', 'r', 'v', 'e', 'd']), (' ', (Text.hex 2 byte.toNat).toList),
          ('>', []) ]⟩

theorem flatten_spelling (o : Operand) : o.spelling.flatten = o.text.toList := by
  cases o with
  | register bank r =>
      cases bank <;> simp [spelling, Spelling.flatten, text.eq_def, Text.decimal]
  | stepped how r => cases how <;> simp [spelling, Spelling.flatten, text.eq_def]
  | indexed base index width scale d =>
      cases d <;> simp [spelling, Spelling.flatten, text.eq_def, indexText, Text.decimal]
  | codeIndexed detail descriptor d =>
      cases d <;> simp [spelling, Spelling.flatten, text.eq_def]
  | _ => simp [spelling, Spelling.flatten, text.eq_def]

/-- The operands that listings show: none refers to a label, and scales have two bits. -/
def Listed : Operand → Prop
  | codeLabel _ => False
  | indexed _ _ _ scale _ => scale < 4
  | _ => True

theorem clean_spelling {o : Operand} (hlisted : o.Listed) : o.spelling.Clean := by
  have hempty : Plain [] := by decide
  have hname := plain_registerName
  have hdisplacement := plain_displacementText
  have hhex := Text.plain_hex
  have hdecimal := Text.plain_decimal
  have hletter : ∀ width : Width, Plain width.letter.toList := by
    intro width
    cases width <;> decide
  cases o with
  | codeLabel label => cases hlisted
  | register bank r =>
      cases bank <;> simp [Spelling.Clean, spelling, plain_cons, isMark, hname, hdecimal]
  | stepped how r =>
      cases how <;> simp [Spelling.Clean, spelling, plain_cons, isMark, hname, hempty]
  | indexed base index width scale d =>
      cases d <;>
        simp [Spelling.Clean, spelling, isMark, hname, hempty, hletter, hdecimal, hdisplacement]
  | codeIndexed detail descriptor d =>
      cases d <;>
        simp [Spelling.Clean, spelling, plain_cons, isMark, hempty, hhex, hdisplacement]
  | _ =>
      simp [Spelling.Clean, spelling, plain_cons, isMark, hname, hempty, hhex, hdisplacement]

/-- An operand whose text has no marks. -/
def ofName? (name : List Char) : Option Operand :=
  if name.take 2 = ['f', 'p'] then
    (CommandLine.digits? 10 0 (name.drop 2)).map fun n => register .float (UInt8.ofNat n)
  else (register? name).map (register .general)

/-- An operand with a pair of parentheses, by what stands before, in and behind it. -/
def ofEnclosed? (before inside behind : List Char) : Option Operand :=
  if inside = ['p', 'c'] then (displacement? before).map codeRelative
  else if behind = ['-'] then (register? inside).map (stepped .postDecrement)
  else if before = ['-'] then (register? inside).map (stepped .preDecrement)
  else if before = [] then (register? inside).map indirect
  else (register? inside).bind fun r => (displacement? before).map (displaced r)

/-- The name of a general register does not start as that of a float register, and is not the
name of the cursor. -/
theorem registerName_ne (r : UInt8) :
    (registerName r).toList.take 2 ≠ ['f', 'p'] ∧ (registerName r).toList ≠ ['p', 'c'] := by
  rw [toList_registerName]
  split_ifs with hr
  · decide
  · simp

/-- A displacement that may be left out. -/
def optional? (field : List Char) : Option (Option Int32) :=
  if field = [] then some none else (displacement? field).map some

theorem optional?_displacement (d : Option Int32) :
    optional? ((d.map fun d => (displacementText d).toList).getD []) = some d := by
  cases d with
  | none => rfl
  | some d =>
      show optional? (displacementText d).toList = _
      rw [optional?, if_neg (displacementText_ne d).1, displacement?_displacementText]
      rfl

/-- An operand with an opening parenthesis, by what stands before and behind it. -/
def ofParenthesis? (before inside : List Char) : List (List Char) → Option Operand
  | [behind] => ofEnclosed? before inside behind
  | [_, _] => (register? inside).map (stepped .postIncrement)
  | [_, index, width, scale, _] => do
      return indexed (← register? inside) (← register? index) (← width? width) (← scale? scale)
        (← optional? before)
  | _ => none

/-- An operand without a location, by the fields behind its name. -/
def ofBracket? : List (List Char) → Option Operand
  | [byte, _] => (Text.hex? byte).map fun n => reserved (UInt8.ofNat n)
  | [detail, descriptor, _] => do
      return codeIndexed (UInt8.ofNat (← Text.hex? detail)) (UInt8.ofNat (← Text.hex? descriptor))
        none
  | [detail, descriptor, d, _] => do
      return codeIndexed (UInt8.ofNat (← Text.hex? detail)) (UInt8.ofNat (← Text.hex? descriptor))
        (← displacement? d)
  | _ => none

/-- The operand of a text that is cut at its marks. -/
def ofSpelling? (s : Spelling) : Option Operand :=
  match s.rest with
  | [] => ofName? s.first
  | ('(', inside) :: rest => ofParenthesis? s.first inside (rest.map Prod.snd)
  | ('<', _) :: rest => ofBracket? (rest.map Prod.snd)
  | ('#', value) :: _ => (Text.hex? value).map fun n => immediate (UInt64.ofNat n)
  | ('[', address) :: _ => (Text.hex? address).map fun n => absolute (UInt64.ofNat n)
  | ('+', _) :: (_, name) :: _ => (register? name).map (stepped .preIncrement)
  | _ => some sameAsDestination

/-- An operand is read back from the fields and marks of its text. -/
theorem ofSpelling?_spelling {o : Operand} (hlisted : o.Listed) :
    ofSpelling? o.spelling = some o := by
  cases o with
  | codeLabel label => cases hlisted
  | register bank r =>
      cases bank with
      | general =>
          show ofName? (registerName r).toList = _
          rw [ofName?, if_neg (registerName_ne r).1, register?_registerName]
          rfl
      | float =>
          show (CommandLine.digits? 10 0 (Text.digits 10 0 r.toNat)).map _ = _
          rw [Text.digits?_decimal, Option.map_some, UInt8.ofNat_toNat]
  | indirect r =>
      show ofEnclosed? [] (registerName r).toList [] = _
      rw [ofEnclosed?, if_neg (registerName_ne r).2, register?_registerName]
      rfl
  | stepped how r =>
      cases how with
      | postIncrement =>
          show (register? (registerName r).toList).map _ = _
          rw [register?_registerName]
          rfl
      | postDecrement =>
          show ofEnclosed? [] (registerName r).toList ['-'] = _
          rw [ofEnclosed?, if_neg (registerName_ne r).2, register?_registerName]
          rfl
      | preIncrement =>
          show (register? (registerName r).toList).map _ = _
          rw [register?_registerName]
          rfl
      | preDecrement =>
          show ofEnclosed? ['-'] (registerName r).toList [] = _
          rw [ofEnclosed?, if_neg (registerName_ne r).2, register?_registerName]
          rfl
  | displaced r d =>
      show ofEnclosed? (displacementText d).toList (registerName r).toList [] = _
      rw [ofEnclosed?, if_neg (registerName_ne r).2, if_neg (by decide),
        if_neg (displacementText_ne d).2, if_neg (displacementText_ne d).1,
        register?_registerName, displacement?_displacementText]
      rfl
  | indexed base index width scale d =>
      have hwidth : width? width.letter.toList = some width := by cases width <;> decide
      simp only [ofSpelling?, spelling, List.map_cons, List.map_nil, ofParenthesis?,
        register?_registerName, hwidth, scale?_factor hlisted, optional?_displacement]
      rfl
  | sameAsDestination => rfl
  | codeRelative d =>
      show ofEnclosed? (displacementText d).toList ['p', 'c'] [] = _
      rw [ofEnclosed?, if_pos rfl, displacement?_displacementText]
      rfl
  | codeIndexed detail descriptor d =>
      cases d with
      | none => simp [ofSpelling?, spelling, ofBracket?, Text.hex?_hex]
      | some d =>
          simp [ofSpelling?, spelling, ofBracket?, Text.hex?_hex, displacement?_displacementText]
  | immediate value =>
      simp only [ofSpelling?, spelling, Text.hex?_hex, Option.map_some, UInt64.ofNat_toNat]
  | absolute address =>
      simp only [ofSpelling?, spelling, Text.hex?_hex, Option.map_some, UInt64.ofNat_toNat]
  | reserved byte =>
      simp only [ofSpelling?, spelling, List.map_cons, List.map_nil, ofBracket?, Text.hex?_hex,
        Option.map_some, UInt8.ofNat_toNat]

/-- The operand of a text. -/
def ofText? (text : String) : Option Operand := ofSpelling? (Spelling.cut text.toList)

/-- An operand that listings show is read back from its text. -/
theorem ofText?_text {o : Operand} (hlisted : o.Listed) : ofText? o.text = some o := by
  rw [ofText?, ← flatten_spelling, Spelling.cut_flatten (clean_spelling hlisted),
    ofSpelling?_spelling hlisted]

/-! ## Operands from code -/

theorem scale_lt_four {byte scale : UInt8} {width : Width} {far : Bool}
    (hmode : Mode.ofByte byte = .indexed width scale far) : scale < 4 := by
  have hlow : byte.toNat &&& 15 ≤ 15 := Nat.and_le_right
  rw [Mode.scale_of_ofByte hmode, UInt8.lt_iff_toNat_lt, UInt8.toNat_shiftRight,
    UInt8.toNat_and, Nat.shiftRight_eq_div_pow]
  show (byte.toNat &&& 15) / 4 < 4
  omega

theorem listed_of_parse? {bytes : List UInt8} {size n : Nat} {o : Operand}
    (hparse : parse? bytes size = some (o, n)) : o.Listed := by
  cases o with
  | codeLabel label => exact absurd rfl (ne_codeLabel_of_parse? hparse label)
  | indexed base index width scale d =>
      obtain ⟨byte, rest, -, -, ho, -⟩ := exists_of_parse?_some hparse
      cases hmode : Mode.ofByte byte with
      | indexed width' scale' far =>
          -- The scale comes from two bits of the mode byte.
          rw [ofParts, hmode] at ho
          obtain ⟨-, -, -, rfl, -⟩ := Operand.indexed.inj ho
          exact scale_lt_four hmode
      | _ =>
          rw [ofParts, hmode] at ho
          cases ho
  | _ => trivial

/-- Two operands that were read from any bytes, and are shown by the same text, are the same. -/
theorem text_determines_operand {bytes bytes' : List UInt8} {size size' n n' : Nat}
    {o o' : Operand} (hparse : parse? bytes size = some (o, n))
    (hparse' : parse? bytes' size' = some (o', n')) (htext : o.text = o'.text) : o = o' := by
  have hread := ofText?_text (listed_of_parse? hparse)
  rw [htext, ofText?_text (listed_of_parse? hparse')] at hread
  exact (Option.some.inj hread).symm

/-- Immediates of one and of two bytes that are shown alike are the same. -/
theorem immediates_determined_by_text :
    (parse? [0xf0, 0xff] 1).map Prod.fst = some (immediate 0xff) ∧
      (parse? [0xf0, 0xff, 0x00] 2).map Prod.fst = some (immediate 0xff) := by
  have hshort : parse? [0xf0, 0xff] 1 = some (immediate 0xff, 2) := by decide
  have hshown : (parse? [0xf0, 0xff, 0x00] 2).map (fun answer => answer.1.text) =
      some (immediate 0xff).text := by decide +kernel
  obtain ⟨⟨o, n⟩, hlong, htext⟩ := Option.map_eq_some_iff.mp hshown
  have hsame : o = immediate 0xff := text_determines_operand hlong hshort htext
  rw [hshort, hlong, hsame]
  exact ⟨rfl, rfl⟩

end Operand

end BytecodeMachine
