import BytecodeMachine.Status

/-!
# Labels

Short coloured labels for terminal output: the three categories of messages and
the status of a machine.  Without colour a label is its plain text.
-/

namespace BytecodeMachine.Label

/-- The bright terminal colours in use. -/
inductive Colour where
  | red
  | green
  | blue
  | magenta
  | cyan
  deriving DecidableEq, Repr

/-- The terminal's code of a colour. -/
def Colour.code : Colour → String
  | red => "91"
  | green => "92"
  | blue => "94"
  | magenta => "95"
  | cyan => "96"

/-- A terminal control sequence. -/
def control (code : String) : String := "\x1b[" ++ code ++ "m"

/-- A text in a colour. -/
def paint (colour : Colour) (text : String) : String :=
  control colour.code ++ text ++ control "39"

/-- A text in bold. -/
def embolden (text : String) : String := control "1" ++ text ++ control "0"

/-- The categories of messages. -/
inductive Category where
  | machine
  | host
  | step
  deriving DecidableEq, Repr

/-- The colour of a category. -/
def Category.colour : Category → Colour
  | machine => .green
  | host => .cyan
  | step => .magenta

/-- The plain text of a category. -/
def Category.text : Category → String
  | machine => "MACHINE"
  | host => "HOST"
  | step => "STEP"

/-- The label of a category. -/
def category (coloured : Bool) (c : Category) : String :=
  if coloured then embolden (paint c.colour c.text) else c.text

/-- The colour of a status: blue while nothing is decided, then green or red. -/
def statusColour (s : Status) : Colour :=
  if s = .completed then .green else if s.isTerminal then .red else .blue

/-- The label of a status. -/
def status (coloured : Bool) (s : Status) : String :=
  if coloured then paint (statusColour s) s.text else s.text

end BytecodeMachine.Label
