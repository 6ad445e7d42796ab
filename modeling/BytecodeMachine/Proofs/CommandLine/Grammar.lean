import BytecodeMachine.Proofs.Text.Numerals
import Mathlib.Data.List.Induction

/-!
# The grammar of the command line

A command line is a row of items: flags, flags with a number behind them, and paths.

* `Numeral` is a number as arguments write it, `Item` an item with the words it is made of;
* `Consistent` says which items go together, `Configures` which options they ask for;
* `Options.read_item_eq_ok_iff` is the step of the reading loop over one item, and
  `Options.read_flatMap_eq_ok_iff` the loop over all of them;
* `arguments_follow_grammar` says that exactly the consistent rows are accepted, with the options
  they ask for, and that only the order of the items that overwrite one another matters.
-/

namespace BytecodeMachine.CommandLine

/-! ## Numbers as arguments write them -/

/-- The base of a number; a hexadecimal one is announced by a small or a capital letter. -/
inductive Radix where
  | decimal
  | hexadecimal (capital : Bool)
  deriving DecidableEq, Repr

namespace Radix

def base : Radix → Nat
  | decimal => 10
  | hexadecimal _ => 16

/-- What stands in front of the number. -/
def mark : Radix → List Char
  | decimal => []
  | hexadecimal false => ['0', 'x']
  | hexadecimal true => ['0', 'X']

theorem base_le (r : Radix) : r.base ≤ 16 := by
  cases r with
  | decimal => decide
  | hexadecimal capital => exact Nat.le_refl 16

end Radix

/-- The sign of a number, which may be left out. -/
def sign (plus : Bool) : List Char := if plus then ['+'] else []

/-- A number below `2 ^ 64` as an argument writes it: the mark of its base, a sign that may be
left out, and at least one digit. -/
structure Numeral where
  radix : Radix
  plus : Bool
  digits : List Char
  /-- What the digits stand for, from left to right. -/
  figures : List Nat
  nonempty : digits ≠ []
  spelled : List.Forall₂ (IsDigit radix.base) figures digits
  small : Nat.ofDigits radix.base figures.reverse < UInt64.size

namespace Numeral

/-- The positional value of the digits. -/
def value (n : Numeral) : Nat := Nat.ofDigits n.radix.base n.figures.reverse

/-- The argument. -/
def text (n : Numeral) : String := String.ofList (n.radix.mark ++ (sign n.plus ++ n.digits))

end Numeral

/-- A character that is no digit stands in no row of digits. -/
theorem not_mem_of_digit? {base : Nat} {figures : List Nat} {ds : List Char} {c : Char}
    (hbase : base ≤ 16) (hdigit : digit? base c = none)
    (hspelled : List.Forall₂ (IsDigit base) figures ds) : c ∉ ds := by
  induction hspelled with
  | nil => exact List.not_mem_nil
  | @cons d first _ _ hhead _ ih =>
      rw [List.mem_cons, not_or]
      refine ⟨?_, ih⟩
      rintro rfl
      rw [digit?_of_isDigit hbase hhead] at hdigit
      cases hdigit

/-- The sign is taken off, and what is left is read as digits. -/
theorem unsigned?_sign {base : Nat} {plus : Bool} {ds : List Char} (hnonempty : ds ≠ [])
    (hunsigned : plus = true ∨ ∀ rest, ds ≠ '+' :: rest) :
    unsigned? base (sign plus ++ ds) = (digits? base 0 ds).filter (· < UInt64.size) := by
  cases ds with
  | nil => exact absurd rfl hnonempty
  | cons c ds =>
      cases plus with
      | true => rfl
      | false =>
          have hc : c ≠ '+' := by
            rintro rfl
            exact hunsigned.elim Bool.noConfusion fun h => h ds rfl
          show unsigned? base (c :: ds) = _
          unfold unsigned?
          split
          · rename_i rest heq
            exact absurd (List.cons.inj heq).1 hc
          · rfl

theorem exists_sign (text : List Char) :
    ∃ plus ds, text = sign plus ++ ds ∧ (plus = true ∨ ∀ rest, ds ≠ '+' :: rest) := by
  by_cases hplus : ∃ rest, text = '+' :: rest
  · obtain ⟨rest, rfl⟩ := hplus
    exact ⟨true, rest, rfl, .inl rfl⟩
  · exact ⟨false, text, rfl, .inr fun rest h => hplus ⟨rest, h⟩⟩

theorem exists_of_unsigned? {base n : Nat} {text : List Char}
    (hread : unsigned? base text = some n) :
    ∃ plus ds, text = sign plus ++ ds ∧ ds ≠ [] ∧ digits? base 0 ds = some n ∧
      n < UInt64.size := by
  obtain ⟨plus, ds, rfl, hunsigned⟩ := exists_sign text
  have hnonempty : ds ≠ [] := by
    rintro rfl
    cases plus <;> cases hread
  rw [unsigned?_sign hnonempty hunsigned] at hread
  obtain ⟨hdigits, hsmall⟩ := Option.filter_eq_some_iff.mp hread
  exact ⟨plus, ds, rfl, hnonempty, hdigits, by simpa using hsmall⟩

/-- The text does not start with the mark of a hexadecimal number. -/
def Unmarked (text : List Char) : Prop :=
  ∀ capital rest, text ≠ (Radix.hexadecimal capital).mark ++ rest

/-- The mark is taken off, and what is left is read in its base. -/
theorem number?_mark {r : Radix} {text : List Char} (hunmarked : r = .decimal → Unmarked text) :
    number? (String.ofList (r.mark ++ text)) = unsigned? r.base text := by
  unfold number?
  rw [String.toList_ofList]
  cases r with
  | decimal =>
      simp only [Radix.mark, List.nil_append]
      split
      · exact absurd rfl (hunmarked rfl false _)
      · exact absurd rfl (hunmarked rfl true _)
      · rfl
  | hexadecimal capital => cases capital <;> rfl

theorem exists_mark (text : List Char) :
    ∃ (r : Radix) (rest : List Char), text = r.mark ++ rest ∧ (r = .decimal → Unmarked rest) := by
  by_cases hmarked : ∃ capital rest, text = (Radix.hexadecimal capital).mark ++ rest
  · obtain ⟨capital, rest, rfl⟩ := hmarked
    exact ⟨.hexadecimal capital, rest, rfl, Radix.noConfusion⟩
  · exact ⟨.decimal, text, rfl, fun _ capital rest h => hmarked ⟨capital, rest, h⟩⟩

theorem Numeral.unmarked (n : Numeral) (hdecimal : n.radix = .decimal) :
    Unmarked (sign n.plus ++ n.digits) := by
  have hbase : n.radix.base = 10 := by rw [hdecimal]; rfl
  have hspelled := n.spelled
  rw [hbase] at hspelled
  have hsmall : 'x' ∉ n.digits := not_mem_of_digit? (by decide) (by decide) hspelled
  have hcapital : 'X' ∉ n.digits := not_mem_of_digit? (by decide) (by decide) hspelled
  -- The mark would bring its letter among the digits, or stand where the sign stands.
  intro capital rest htext
  cases hplus : n.plus with
  | true =>
      rw [hplus] at htext
      cases capital <;> cases htext
  | false =>
      rw [hplus] at htext
      change n.digits = _ at htext
      rw [htext] at hsmall hcapital
      cases capital with
      | false => exact hsmall (by simp [Radix.mark])
      | true => exact hcapital (by simp [Radix.mark])

/-- Numbers are read from numerals and from nothing else. -/
theorem number?_eq_some_iff (raw : String) (n : Nat) :
    number? raw = some n ↔ ∃ m : Numeral, m.text = raw ∧ m.value = n := by
  constructor
  · intro hread
    obtain ⟨r, rest, htext, hunmarked⟩ := exists_mark raw.toList
    rw [← String.ofList_toList (s := raw), htext, number?_mark hunmarked] at hread
    obtain ⟨plus, ds, rfl, hnonempty, hdigits, hsmall⟩ := exists_of_unsigned? hread
    obtain ⟨figures, hspelled, hvalue⟩ := (digits?_eq_some_iff r.base_le 0 n ds).mp hdigits
    rw [Nat.ofDigits_append_zero] at hvalue
    refine ⟨⟨r, plus, ds, figures, hnonempty, hspelled, by rwa [hvalue]⟩, ?_, hvalue⟩
    rw [Numeral.text, ← htext, String.ofList_toList]
  · rintro ⟨m, rfl, rfl⟩
    have hplus : '+' ∉ m.digits := by
      refine not_mem_of_digit? m.radix.base_le ?_ m.spelled
      rfl
    have hdigits : digits? m.radix.base 0 m.digits = some m.value := by
      refine (digits?_eq_some_iff m.radix.base_le 0 _ _).mpr ⟨m.figures, m.spelled, ?_⟩
      rw [Nat.ofDigits_append_zero, Numeral.value]
    rw [Numeral.text, number?_mark m.unmarked, unsigned?_sign m.nonempty, hdigits]
    · exact Option.filter_eq_some_iff.mpr ⟨rfl, decide_eq_true m.small⟩
    · right
      intro rest h
      rw [h] at hplus
      exact hplus List.mem_cons_self

/-! ## Items -/

/-- An item of a command line. -/
inductive Item where
  /-- A request for the usage text, in its long or in its short form. -/
  | help (long : Bool)
  | disasm
  | step
  | json
  | entry (n : Numeral)
  | stack (n : Numeral) (nonzero : n.value ≠ 0)
  | path (p : String) (plain : p.toList.head? ≠ some '-')

namespace Item

/-- The arguments that an item is made of. -/
def words : Item → List String
  | help false => ["-h"]
  | help true => ["--help"]
  | disasm => ["--disasm"]
  | step => ["--step"]
  | json => ["--json"]
  | entry n => ["--entry", n.text]
  | stack n _ => ["--stack", n.text]
  | path p _ => [p]

def entry? : Item → Option Numeral
  | entry n => some n
  | _ => none

def stack? : Item → Option Numeral
  | stack n _ => some n
  | _ => none

def path? : Item → Option String
  | path p _ => some p
  | _ => none

end Item

/-- The items go together: there is at most one path, there is a path or a request for help, and
a listing is asked for alone. -/
structure Consistent (items : List Item) : Prop where
  paths : (items.filterMap Item.path?).length ≤ 1
  purpose : (∃ p plain, Item.path p plain ∈ items) ∨ ∃ long, Item.help long ∈ items
  listing : ¬ (Item.disasm ∈ items ∧ (Item.step ∈ items ∨ Item.json ∈ items))

/-- The options that items ask for: the image is the path, the last of several numbers counts,
and a flag is set if its item is there. -/
structure Configures (items : List Item) (o : Options) : Prop where
  image : o.image.toList = items.filterMap Item.path?
  entry : o.entry = ((items.filterMap Item.entry?).getLast?.map Numeral.value).getD 0
  stackSize : o.stackSize = ((items.filterMap Item.stack?).getLast?.map Numeral.value).getD 65536
  disasm : o.disasm = true ↔ Item.disasm ∈ items
  step : o.step = true ↔ Item.step ∈ items
  json : o.json = true ↔ Item.json ∈ items
  help : o.help = true ↔ ∃ long, Item.help long ∈ items

/-! ## Reading items one after the other -/

namespace Options

/-- The options after one more item. -/
def add (o : Options) : Item → Options
  | .help _ => { o with help := true }
  | .disasm => { o with disasm := true }
  | .step => { o with step := true }
  | .json => { o with json := true }
  | .entry n => { o with entry := n.value }
  | .stack n _ => { o with stackSize := n.value }
  | .path p _ => { o with image := some p }

theorem add_image (o : Options) (item : Item) :
    (o.add item).image = item.path?.or o.image := by cases item <;> rfl

theorem add_entry (o : Options) (item : Item) :
    (o.add item).entry = (item.entry?.map Numeral.value).getD o.entry := by cases item <;> rfl

theorem add_stackSize (o : Options) (item : Item) :
    (o.add item).stackSize = (item.stack?.map Numeral.value).getD o.stackSize := by
  cases item <;> rfl

theorem add_disasm (o : Options) (item : Item) :
    (o.add item).disasm = true ↔ o.disasm = true ∨ .disasm = item := by
  cases item <;> simp [add]

theorem add_step (o : Options) (item : Item) :
    (o.add item).step = true ↔ o.step = true ∨ .step = item := by
  cases item <;> simp [add]

theorem add_json (o : Options) (item : Item) :
    (o.add item).json = true ↔ o.json = true ∨ .json = item := by
  cases item <;> simp [add]

theorem add_help (o : Options) (item : Item) :
    (o.add item).help = true ↔ o.help = true ∨ ∃ long, .help long = item := by
  cases item <;> simp [add]

/-- The item is no second path. -/
def Takes (o : Options) (item : Item) : Prop := item.path? = none ∨ o.image = none

/-- There is no second path among the items. -/
def TakesAll (o : Options) (items : List Item) : Prop :=
  (o.image.toList ++ items.filterMap Item.path?).length ≤ 1

theorem takesAll_cons (o : Options) (item : Item) (items : List Item) :
    o.TakesAll (item :: items) ↔ o.Takes item ∧ (o.add item).TakesAll items := by
  cases item with
  | path p plain =>
      cases himage : o.image <;> simp [TakesAll, Takes, add, Item.path?, himage]
  | _ => simp [TakesAll, Takes, add, Item.path?, List.filterMap_cons]

theorem read_word (o : Options) {arg : String} (rest : List String) (hentry : arg ≠ "--entry")
    (hstack : arg ≠ "--stack") :
    o.read (arg :: rest) =
      match o.word arg with
      | .error e => .error e
      | .ok o => o.read rest := by
  cases rest with
  | nil =>
      rw [read, if_neg (by simp [hentry, hstack])]
      cases o.word arg <;> rfl
  | cons raw rest =>
      rw [read, if_neg hentry]
      exact if_neg hstack

theorem read_of_word {o o' : Options} {arg : String} (rest : List String)
    (hword : o.word arg = .ok o') (hentry : arg ≠ "--entry") (hstack : arg ≠ "--stack") :
    o.read (arg :: rest) = o'.read rest := by
  rw [read_word o rest hentry hstack, hword]

theorem value_text (flag : String) (n : Numeral) : value flag n.text = .ok n.value := by
  have hread : number? n.text = some n.value := (number?_eq_some_iff _ _).mpr ⟨n, rfl, rfl⟩
  rw [value, hread]

/-- Reading takes off an item that is no path, and goes on behind it. -/
theorem read_item (o : Options) {item : Item} (rest : List String) (hitem : item.path? = none) :
    o.read (item.words ++ rest) = (o.add item).read rest := by
  cases item with
  | help long =>
      cases long with
      | false => exact read_of_word rest rfl (by decide) (by decide)
      | true => exact read_of_word rest rfl (by decide) (by decide)
  | disasm => exact read_of_word rest rfl (by decide) (by decide)
  | step => exact read_of_word rest rfl (by decide) (by decide)
  | json => exact read_of_word rest rfl (by decide) (by decide)
  | entry n =>
      show o.read ("--entry" :: n.text :: rest) = _
      rw [read, if_pos rfl, value_text]
      rfl
  | stack n nonzero =>
      show o.read ("--stack" :: n.text :: rest) = _
      rw [read, if_neg (by decide), if_pos rfl, value_text]
      simp only [setStack, if_neg nonzero]
      rfl
  | path p plain => cases hitem

theorem ne_of_plain {p flag : String} (plain : p.toList.head? ≠ some '-')
    (hflag : flag.toList.head? = some '-') : p ≠ flag := by
  rintro rfl
  exact plain hflag

theorem word_path (o : Options) {p : String} (plain : p.toList.head? ≠ some '-') :
    o.word p = o.setImage p := by
  have hhelp : ¬ (p = "-h" ∨ p = "--help") := by
    rintro (h | h)
    · exact ne_of_plain plain (by decide) h
    · exact ne_of_plain plain (by decide) h
  rw [word, if_neg hhelp, if_neg (ne_of_plain plain (by decide)),
    if_neg (ne_of_plain plain (by decide)), if_neg (ne_of_plain plain (by decide)),
    if_neg plain]

/-- Reading takes off one item if it is no second path, and goes on behind it. -/
theorem read_item_eq_ok_iff (o o' : Options) (item : Item) (rest : List String) :
    o.read (item.words ++ rest) = .ok o' ↔ o.Takes item ∧ (o.add item).read rest = .ok o' := by
  cases hitem : item.path? with
  | none => rw [read_item o rest hitem, Takes, hitem, eq_self, true_or, true_and]
  | some path =>
      cases item with
      | path p plain =>
          have hentry : p ≠ "--entry" := ne_of_plain plain (by decide)
          have hstack : p ≠ "--stack" := ne_of_plain plain (by decide)
          show o.read (p :: rest) = .ok o' ↔ _
          rw [read_word o rest hentry hstack, word_path o plain, setImage]
          cases himage : o.image <;> simp [add, Takes, Item.path?, himage]
      | _ => cases hitem

/-- Reading the words of items succeeds if there is no second path, and adds the items up. -/
theorem read_flatMap_eq_ok_iff (o o' : Options) (items : List Item) :
    o.read (items.flatMap Item.words) = .ok o' ↔ o.TakesAll items ∧ items.foldl add o = o' := by
  induction items generalizing o with
  | nil => cases himage : o.image <;> simp [read, TakesAll, himage]
  | cons item items ih =>
      rw [List.flatMap_cons, read_item_eq_ok_iff, ih, takesAll_cons, List.foldl_cons, and_assoc]

/-- An argument that stands alone and is accepted is an item. -/
theorem exists_item_of_word {o o' : Options} {arg : String} (hword : o.word arg = .ok o') :
    ∃ item : Item, item.words = [arg] := by
  unfold word at hword
  split_ifs at hword with hhelp hdisasm hstep hjson hdash
  · rcases hhelp with rfl | rfl
    · exact ⟨.help false, rfl⟩
    · exact ⟨.help true, rfl⟩
  · exact ⟨.disasm, by rw [hdisasm]; rfl⟩
  · exact ⟨.step, by rw [hstep]; rfl⟩
  · exact ⟨.json, by rw [hjson]; rfl⟩
  · exact ⟨.path arg hdash, rfl⟩

theorem exists_numeral_of_value {flag raw : String} {n : Nat} (hvalue : value flag raw = .ok n) :
    ∃ m : Numeral, m.text = raw ∧ m.value = n := by
  apply (number?_eq_some_iff raw n).mp
  unfold value at hvalue
  cases hnumber : number? raw with
  | none =>
      rw [hnumber] at hvalue
      cases hvalue
  | some m =>
      rw [hnumber] at hvalue
      cases hvalue
      rfl

/-- Arguments that are accepted split into items. -/
theorem exists_items_of_read {o o' : Options} {args : List String}
    (hread : o.read args = .ok o') : ∃ items : List Item, items.flatMap Item.words = args := by
  -- The cases are those of the loop: no argument, the last one, `--entry`, `--stack`, any other.
  fun_induction read o args with
  | case1 o => exact ⟨[], rfl⟩
  | case2 o arg hvalueless => cases hread
  | case3 o arg hword =>
      obtain ⟨item, hitem⟩ := exists_item_of_word hread
      exact ⟨[item], by simpa using hitem⟩
  | case4 o raw rest e hvalue => cases hread
  | case5 o raw rest n hvalue ih =>
      obtain ⟨m, rfl, -⟩ := exists_numeral_of_value hvalue
      obtain ⟨items, rfl⟩ := ih hread
      exact ⟨.entry m :: items, rfl⟩
  | case6 => cases hread
  | case7 => cases hread
  | case8 o raw rest n o₁ hset _ hvalue ih =>
      obtain ⟨m, rfl, rfl⟩ := exists_numeral_of_value hvalue
      obtain ⟨items, rfl⟩ := ih hread
      have hnonzero : m.value ≠ 0 := by
        intro hzero
        rw [setStack, if_pos hzero] at hset
        cases hset
      exact ⟨.stack m hnonzero :: items, rfl⟩
  | case9 => cases hread
  | case10 o arg raw rest _ _ o₁ hword ih =>
      obtain ⟨item, hitem⟩ := exists_item_of_word hword
      obtain ⟨items, hitems⟩ := ih hread
      exact ⟨item :: items, by rw [List.flatMap_cons, hitem, hitems]; rfl⟩

/-! ## The options that come out -/

theorem check_eq_ok_iff (o o' : Options) :
    o.check = .ok o' ↔
      o = o' ∧ ¬ (o.disasm = true ∧ (o.step = true ∨ o.json = true)) ∧
        (o.help = true ∨ o.image.isSome = true) := by
  have hconflict : (o.disasm && (o.step || o.json)) = true ↔
      o.disasm = true ∧ (o.step = true ∨ o.json = true) := by
    rw [Bool.and_eq_true, Bool.or_eq_true]
  have hmissing : (!o.help && o.image.isNone) = true ↔
      ¬ (o.help = true ∨ o.image.isSome = true) := by
    cases o.help <;> cases o.image <;> simp
  rw [check, ← hconflict]
  split_ifs with hwrong hempty
  · simp [hwrong]
  · simp [hmissing.mp hempty]
  · rw [hmissing, not_not] at hempty
    simp [hwrong, hempty]

theorem parse_eq_ok_iff (args : List String) (o : Options) :
    parse args = .ok o ↔ ∃ o', read {} args = .ok o' ∧ o'.check = .ok o := by
  unfold parse
  cases read {} args <;> simp

end Options

namespace Configures

variable {items items' : List Item} {o : Options}

theorem nil : Configures [] {} := by
  constructor <;> simp [Machine.defaultStackSize]

theorem getLast?_filterMap_concat {α : Type} (f : Item → Option α) (items : List Item)
    (item : Item) :
    ((items ++ [item]).filterMap f).getLast? = (f item).or (items.filterMap f).getLast? := by
  cases hitem : f item <;> simp [hitem]

/-- One more item that is no second path. -/
theorem add (h : Configures items o) {item : Item} (htakes : o.Takes item) :
    Configures (items ++ [item]) (o.add item) := by
  refine ⟨?_, ?_, ?_, ?_, ?_, ?_, ?_⟩
  · rw [Options.add_image, List.filterMap_append, ← h.image]
    rcases htakes with hnone | hnone
    · simp [hnone]
    · cases hitem : item.path? <;> simp [hnone, hitem]
  · rw [Options.add_entry, getLast?_filterMap_concat, h.entry]
    cases item.entry? <;> rfl
  · rw [Options.add_stackSize, getLast?_filterMap_concat, h.stackSize]
    cases item.stack? <;> rfl
  · rw [Options.add_disasm, h.disasm, List.mem_append, List.mem_singleton]
  · rw [Options.add_step, h.step, List.mem_append, List.mem_singleton]
  · rw [Options.add_json, h.json, List.mem_append, List.mem_singleton]
  · simp only [Options.add_help, h.help, List.mem_append, List.mem_singleton, exists_or]

/-- Items without a second path configure the options that they add up to. -/
theorem foldl (items : List Item) (htakes : Options.TakesAll {} items) :
    Configures items (items.foldl Options.add {}) := by
  induction items using List.reverseRecOn with
  | nil => exact nil
  | append_singleton items item ih =>
      simp only [Options.TakesAll, List.filterMap_append, List.length_append] at htakes
      have h := ih (by simp only [Options.TakesAll, List.length_append]; omega)
      rw [List.foldl_append, List.foldl_cons, List.foldl_nil]
      apply h.add
      -- If the last item is a path, then there is none in front of it.
      cases hitem : item.path? with
      | none => exact .inl hitem
      | some p =>
          right
          rw [← Option.toList_eq_nil_iff, h.image]
          simp only [List.filterMap_cons, hitem, List.filterMap_nil, List.length_singleton] at htakes
          exact List.eq_nil_of_length_eq_zero (by omega)

/-- The items leave no choice. -/
theorem unique {o' : Options} (h : Configures items o) (h' : Configures items o') : o = o' := by
  have himage : o.image = o'.image := by
    ext p
    rw [← Option.mem_toList, ← Option.mem_toList, h.image, h'.image]
  have hentry : o.entry = o'.entry := h.entry.trans h'.entry.symm
  have hstack : o.stackSize = o'.stackSize := h.stackSize.trans h'.stackSize.symm
  have hdisasm : o.disasm = o'.disasm := Bool.eq_iff_iff.mpr (h.disasm.trans h'.disasm.symm)
  have hstep : o.step = o'.step := Bool.eq_iff_iff.mpr (h.step.trans h'.step.symm)
  have hjson : o.json = o'.json := Bool.eq_iff_iff.mpr (h.json.trans h'.json.symm)
  have hhelp : o.help = o'.help := Bool.eq_iff_iff.mpr (h.help.trans h'.help.symm)
  cases o
  cases o'
  simp only [Options.mk.injEq]
  exact ⟨himage, hentry, hstack, hdisasm, hstep, hjson, hhelp⟩

/-- Only the order of the items that overwrite one another matters. -/
theorem perm (h : Configures items o) (hperm : items.Perm items')
    (hentry : items.filterMap Item.entry? = items'.filterMap Item.entry?)
    (hstack : items.filterMap Item.stack? = items'.filterMap Item.stack?) :
    Configures items' o := by
  have hpaths : o.image.toList.Perm (items'.filterMap Item.path?) := by
    rw [h.image]
    exact hperm.filterMap _
  refine ⟨?_, ?_, ?_, ?_, ?_, ?_, ?_⟩
  · cases himage : o.image with
    | none => rw [himage] at hpaths; exact (List.nil_perm.mp hpaths).symm
    | some p => rw [himage] at hpaths; exact (List.singleton_perm.mp hpaths)
  · rw [← hentry]
    exact h.entry
  · rw [← hstack]
    exact h.stackSize
  · rw [← hperm.mem_iff]
    exact h.disasm
  · rw [← hperm.mem_iff]
    exact h.step
  · rw [← hperm.mem_iff]
    exact h.json
  · simp only [← hperm.mem_iff]
    exact h.help

end Configures

theorem Consistent.perm {items items' : List Item} (h : Consistent items)
    (hperm : items.Perm items') : Consistent items' := by
  refine ⟨?_, ?_, ?_⟩
  · rw [← (hperm.filterMap Item.path?).length_eq]
    exact h.paths
  · simp only [← hperm.mem_iff]
    exact h.purpose
  · simp only [← hperm.mem_iff]
    exact h.listing

/-- The options of consistent items, and of no others, pass the check. -/
theorem Configures.consistent_iff {items : List Item} {o : Options} (h : Configures items o) :
    Consistent items ↔ o.check = .ok o := by
  have hpath : o.image.isSome = true ↔ ∃ p plain, Item.path p plain ∈ items := by
    rw [Option.isSome_iff_exists]
    constructor
    · rintro ⟨p, hp⟩
      have hmem : p ∈ items.filterMap Item.path? := by
        rw [← h.image, hp]
        exact List.mem_singleton_self p
      obtain ⟨item, hitem, hsame⟩ := List.mem_filterMap.mp hmem
      cases item with
      | path q plain => exact ⟨q, plain, hitem⟩
      | _ => cases hsame
    · rintro ⟨p, plain, hp⟩
      have hmem : p ∈ items.filterMap Item.path? := List.mem_filterMap.mpr ⟨_, hp, rfl⟩
      rw [← h.image, Option.mem_toList] at hmem
      exact ⟨p, hmem⟩
  have hpaths : (items.filterMap Item.path?).length ≤ 1 := by
    rw [← h.image]
    cases o.image <;> simp
  rw [Options.check_eq_ok_iff, hpath, h.disasm, h.step, h.json, h.help]
  constructor
  · intro hc
    exact ⟨rfl, hc.listing, hc.purpose.symm⟩
  · rintro ⟨-, hlisting, hpurpose⟩
    exact ⟨hpaths, hpurpose.symm, hlisting⟩

/-- Items are accepted if they are consistent, and give the options that they configure. -/
theorem parse_flatMap_eq_ok_iff (items : List Item) (o : Options) :
    Options.parse (items.flatMap Item.words) = .ok o ↔ Consistent items ∧ Configures items o := by
  rw [Options.parse_eq_ok_iff]
  constructor
  · rintro ⟨o', hread, hcheck⟩
    obtain ⟨htakes, rfl⟩ := (Options.read_flatMap_eq_ok_iff _ _ _).mp hread
    obtain ⟨rfl, -⟩ := (Options.check_eq_ok_iff _ _).mp hcheck
    have hconfigures := Configures.foldl items htakes
    exact ⟨hconfigures.consistent_iff.mpr hcheck, hconfigures⟩
  · rintro ⟨hconsistent, hconfigures⟩
    have htakes : Options.TakesAll {} items := hconsistent.paths
    refine ⟨o, (Options.read_flatMap_eq_ok_iff _ _ _).mpr ⟨htakes, ?_⟩,
      hconfigures.consistent_iff.mp hconsistent⟩
    exact (Configures.foldl items htakes).unique hconfigures

/-- Arguments are accepted exactly if they split into consistent items, whose options come out;
reordering the items changes nothing as long as the items with an entry, and those with a
stack size, stay in their order. -/
theorem arguments_follow_grammar (args : List String) :
    ((∃ o, Options.parse args = .ok o) ↔
      ∃ items : List Item, items.flatMap Item.words = args ∧ Consistent items) ∧
    (∀ (items : List Item) (o : Options), items.flatMap Item.words = args →
      Options.parse args = .ok o →
      Configures items o ∧
      ∀ items' : List Item, items'.Perm items →
        items'.filterMap Item.entry? = items.filterMap Item.entry? →
        items'.filterMap Item.stack? = items.filterMap Item.stack? →
        Options.parse (items'.flatMap Item.words) = .ok o) := by
  refine ⟨⟨?_, ?_⟩, ?_⟩
  · rintro ⟨o, hparse⟩
    obtain ⟨o', hread, -⟩ := (Options.parse_eq_ok_iff args o).mp hparse
    obtain ⟨items, rfl⟩ := Options.exists_items_of_read hread
    exact ⟨items, rfl, ((parse_flatMap_eq_ok_iff items o).mp hparse).1⟩
  · rintro ⟨items, rfl, hconsistent⟩
    exact ⟨_, (parse_flatMap_eq_ok_iff items _).mpr
      ⟨hconsistent, Configures.foldl items hconsistent.paths⟩⟩
  · rintro items o rfl hparse
    obtain ⟨hconsistent, hconfigures⟩ := (parse_flatMap_eq_ok_iff items o).mp hparse
    refine ⟨hconfigures, ?_⟩
    intro items' hperm hentry hstack
    exact (parse_flatMap_eq_ok_iff items' o).mpr
      ⟨hconsistent.perm hperm.symm, hconfigures.perm hperm.symm hentry.symm hstack.symm⟩

/-- The argument `7`. -/
def Numeral.seven : Numeral where
  radix := .decimal
  plus := false
  digits := ['7']
  figures := [7]
  nonempty := by decide
  spelled := .cons ⟨by decide, .inl rfl⟩ .nil
  small := by decide

/-- The argument `0x+aF`. -/
def Numeral.mixed : Numeral where
  radix := .hexadecimal false
  plus := true
  digits := ['a', 'F']
  figures := [10, 15]
  nonempty := by decide
  spelled := .cons ⟨by decide, .inl rfl⟩ (.cons ⟨by decide, .inr rfl⟩ .nil)
  small := by decide

/-- The last of two entries counts, before and after the other items have changed places. -/
theorem reordered_arguments_follow_grammar :
    Options.parse ["a.bin", "--stack", "7", "--entry", "7", "--entry", "0x+aF", "--json"] =
        .ok { image := some "a.bin", entry := 0xaf, stackSize := 7, json := true } ∧
      Options.parse ["--entry", "7", "--entry", "0x+aF", "--json", "a.bin", "--stack", "7"] =
        .ok { image := some "a.bin", entry := 0xaf, stackSize := 7, json := true } := by
  have hparse :
      Options.parse ["a.bin", "--stack", "7", "--entry", "7", "--entry", "0x+aF", "--json"] =
        .ok { image := some "a.bin", entry := 0xaf, stackSize := 7, json := true } := by
    rfl
  let place : List Item := [.path "a.bin" (by decide), .stack .seven (by decide)]
  let start : List Item := [.entry .seven, .entry .mixed, .json]
  have hfollows := (arguments_follow_grammar _).2 (place ++ start) _ rfl hparse
  exact ⟨hparse, hfollows.2 (start ++ place) List.perm_append_comm rfl rfl⟩

end BytecodeMachine.CommandLine
