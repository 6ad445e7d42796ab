import BytecodeMachine.Machine

/-!
# Command-line options

Arguments are read from left to right.  `--entry` and `--stack` take the argument
after them, whatever it looks like; an argument without a dash is the image.
What does not fit together is refused only after all arguments have been read.
-/

namespace BytecodeMachine.CommandLine

/-- What the command line asks for. -/
structure Options where
  image : Option String := none
  entry : Nat := 0
  stackSize : Nat := Machine.defaultStackSize
  disasm : Bool := false
  step : Bool := false
  json : Bool := false
  help : Bool := false
  deriving DecidableEq, Repr

/-- Why a command line is refused. -/
inductive UsageError where
  | missingValue (flag : String)
  | invalidValue (flag raw : String)
  | zeroStack
  | unknownFlag (flag : String)
  | severalImages
  | conflict
  | missingImage
  deriving DecidableEq, Repr

/-- The wording of a refusal. -/
def UsageError.message : UsageError → String
  | missingValue flag => "missing value for " ++ flag
  | invalidValue flag raw => "invalid " ++ flag ++ " value '" ++ raw ++ "'"
  | zeroStack => "--stack must be non-zero"
  | unknownFlag flag => "unknown flag '" ++ flag ++ "'"
  | severalImages => "multiple image paths provided"
  | conflict => "--disasm cannot be combined with --step or --json"
  | missingImage => "missing image path"

/-- The value of a digit in bases up to sixteen. -/
def digit? (base : Nat) (c : Char) : Option Nat :=
  let value :=
    if '0' ≤ c ∧ c ≤ '9' then some (c.toNat - '0'.toNat)
    else if 'a' ≤ c ∧ c ≤ 'f' then some (c.toNat - 'a'.toNat + 10)
    else if 'A' ≤ c ∧ c ≤ 'F' then some (c.toNat - 'A'.toNat + 10)
    else none
  value.filter (· < base)

/-- The number of a digit list, after `value`. -/
def digits? (base : Nat) (value : Nat) : List Char → Option Nat
  | [] => some value
  | c :: rest =>
      match digit? base c with
      | none => none
      | some d => digits? base (base * value + d) rest

/-- A number in a base: an optional plus sign and at least one digit, below
`2 ^ 64`. -/
def unsigned? (base : Nat) (text : List Char) : Option Nat :=
  let ds :=
    match text with
    | '+' :: rest => rest
    | rest => rest
  match ds with
  | [] => none
  | _ => (digits? base 0 ds).filter (· < UInt64.size)

/-- A number as arguments write it: hexadecimal after `0x`, decimal otherwise. -/
def number? (raw : String) : Option Nat :=
  match raw.toList with
  | '0' :: 'x' :: rest => unsigned? 16 rest
  | '0' :: 'X' :: rest => unsigned? 16 rest
  | text => unsigned? 10 text

namespace Options

/-- The number after a flag. -/
def value (flag raw : String) : Except UsageError Nat :=
  match number? raw with
  | some n => .ok n
  | none => .error (.invalidValue flag raw)

/-- Set the stack size, which must not be zero. -/
def setStack (o : Options) (size : Nat) : Except UsageError Options :=
  if size = 0 then .error .zeroStack else .ok { o with stackSize := size }

/-- Set the image, of which there is one. -/
def setImage (o : Options) (path : String) : Except UsageError Options :=
  match o.image with
  | some _ => .error .severalImages
  | none => .ok { o with image := some path }

/-- An argument that stands alone. -/
def word (o : Options) (arg : String) : Except UsageError Options :=
  if arg = "-h" ∨ arg = "--help" then .ok { o with help := true }
  else if arg = "--disasm" then .ok { o with disasm := true }
  else if arg = "--step" then .ok { o with step := true }
  else if arg = "--json" then .ok { o with json := true }
  else if arg.toList.head? = some '-' then .error (.unknownFlag arg)
  else o.setImage arg

/-- Read arguments one after the other. -/
def read (o : Options) : List String → Except UsageError Options
  | [] => .ok o
  | [arg] =>
      if arg = "--entry" ∨ arg = "--stack" then .error (.missingValue arg) else o.word arg
  | arg :: raw :: rest =>
      if arg = "--entry" then
        match value arg raw with
        | .error e => .error e
        | .ok n => read { o with entry := n } rest
      else if arg = "--stack" then
        match value arg raw with
        | .error e => .error e
        | .ok n =>
            match o.setStack n with
            | .error e => .error e
            | .ok o => read o rest
      else
        match o.word arg with
        | .error e => .error e
        | .ok o => read o (raw :: rest)

/-- The options fit together. -/
def check (o : Options) : Except UsageError Options :=
  if o.disasm && (o.step || o.json) then .error .conflict
  else if !o.help && o.image.isNone then .error .missingImage
  else .ok o

/-- The options of an argument list. -/
def parse (args : List String) : Except UsageError Options :=
  match read {} args with
  | .error e => .error e
  | .ok o => o.check

end Options

/-- The usage text. -/
def usage : String :=
  "Usage:\n" ++
    "  mc64k-run <image> [--entry <offset>] [--stack <bytes>] [--json]\n" ++
    "  mc64k-run <image> --step [--entry <offset>]\n" ++
    "  mc64k-run <image> --disasm\n"

end BytecodeMachine.CommandLine
