import BytecodeMachine.Text.Radix

/-!
# JSON text

The few forms of JSON that snapshots and the interface manifest need: quoted
text, and values between brackets on one line or one below the other.
-/

namespace BytecodeMachine.Text.Json

/-- One character of a quoted text. -/
def escaped (c : Char) : List Char :=
  match c with
  | '"' => ['\\', '"']
  | '\\' => ['\\', '\\']
  | '\n' => ['\\', 'n']
  | '\r' => ['\\', 'r']
  | '\t' => ['\\', 't']
  | '\x08' => ['\\', 'b']
  | '\x0c' => ['\\', 'f']
  | c => if c.toNat < 0x20 then ['\\', 'u'] ++ digits 16 4 c.toNat else [c]

/-- A text in quotation marks. -/
def quote (text : String) : String :=
  String.ofList ('"' :: text.toList.flatMap escaped ++ ['"'])

/-- Values on one line. -/
def inline (opening separator closing : String) (values : List String) : String :=
  opening ++ String.intercalate separator values ++ closing

/-- Values one below the other, indented by `depth` levels of two blanks; the
closing bracket stands one level further out. -/
def block (opening closing : String) (depth : Nat) (values : List String) : String :=
  let blanks := fun level => String.ofList (List.replicate (2 * level) ' ')
  opening ++ "\n" ++
    String.intercalate ",\n" (values.map (blanks depth ++ ·)) ++ "\n" ++
    blanks (depth - 1) ++ closing

/-- A name and its value with a blank between them. -/
def member (name value : String) : String := quote name ++ ": " ++ value

/-- An object over several lines. -/
def object (depth : Nat) (members : List String) : String := block "\x7b" "\x7d" depth members

/-- A list over several lines. -/
def list (depth : Nat) (values : List String) : String := block "[" "]" depth values

end BytecodeMachine.Text.Json
