import BytecodeMachine.Text.Invisible
import BytecodeMachine.Text.Radix

/-!
# Quoted text

Text between quotation marks as errors show it: quotation marks and backslashes
after a backslash, the common control characters by a letter, other characters
without a shape by their number between braces.
-/

namespace BytecodeMachine.Text

/-- One character of a quoted text. -/
def quotedChar (c : Char) : List Char :=
  match c with
  | '"' => ['\\', '"']
  | '\\' => ['\\', '\\']
  | '\n' => ['\\', 'n']
  | '\r' => ['\\', 'r']
  | '\t' => ['\\', 't']
  | '\x00' => ['\\', '0']
  | c =>
      if isInvisible c then ['\\', 'u', '\x7b'] ++ digits 16 0 c.toNat ++ ['\x7d'] else [c]

/-- A text in quotation marks. -/
def quoted (text : String) : String :=
  String.ofList ('"' :: text.toList.flatMap quotedChar ++ ['"'])

end BytecodeMachine.Text
