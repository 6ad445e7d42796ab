import BytecodeMachine.Text.Blank
import BytecodeMachine.Text.Control
import BytecodeMachine.Text.Mark
import BytecodeMachine.Text.Unassigned

/-!
# Characters without a shape of their own

Controls, blanks other than the space, combining marks, code points without a
character, and a few signs and fillers.  Quoted text shows them by number.
-/

namespace BytecodeMachine.Text

/-- What has no shape and is in none of the other classes: number signs that
enclose what follows, letter fillers and the joiner. -/
def shapelessRanges : CodeRanges :=
  [ (0x600, 0x605), (0x6dd, 0x6dd), (0x70f, 0x70f), (0x890, 0x891), (0x8e2, 0x8e2),
    (0x115f, 0x1160), (0x200d, 0x200d), (0x3164, 0x3164), (0xffa0, 0xffa0), (0x110bd, 0x110bd),
    (0x110cd, 0x110cd) ]

/-- The character cannot be shown by itself. -/
def isInvisible (c : Char) : Bool :=
  c != ' ' && (isControl c || isBlank c || isCombining c || isUnassigned c ||
    shapelessRanges.contains c)

end BytecodeMachine.Text
