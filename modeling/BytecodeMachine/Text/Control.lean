import BytecodeMachine.Text.CodeRanges

/-!
# Control characters

Control and format characters, line and paragraph separators, and the code
points set aside for more of them.  None of them attaches to a neighbour.
-/

namespace BytecodeMachine.Text

/-- The control characters. -/
def controlRanges : CodeRanges :=
  [ (0x0, 0x1f), (0x7f, 0x9f), (0xad, 0xad), (0x61c, 0x61c), (0x180e, 0x180e), (0x200b, 0x200b),
    (0x200e, 0x200f), (0x2028, 0x202e), (0x2060, 0x206f), (0xfeff, 0xfeff), (0xfff0, 0xfffb),
    (0x13430, 0x1343f), (0x1bca0, 0x1bca3), (0x1d173, 0x1d17a), (0xe0000, 0xe001f),
    (0xe0080, 0xe00ff), (0xe01f0, 0xe0fff) ]

/-- The character is a control character. -/
def isControl (c : Char) : Bool :=
  controlRanges.contains c

end BytecodeMachine.Text
