/-!
# Lines

Text split at line feeds.  A last line without a line feed counts unless it is
empty.
-/

namespace BytecodeMachine.Text

/-- The lines of a character list, where `line` holds the characters of the
present line in reverse. -/
def linesOf (line : List Char) : List Char → List String
  | [] => if line.isEmpty then [] else [String.ofList line.reverse]
  | c :: rest =>
      if c = '\n' then String.ofList line.reverse :: linesOf [] rest
      else linesOf (c :: line) rest

/-- The lines of a text. -/
def lines (text : String) : List String := linesOf [] text.toList

end BytecodeMachine.Text
