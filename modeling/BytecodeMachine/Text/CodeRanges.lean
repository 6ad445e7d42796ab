/-!
# Ranges of code points

A class of characters is a list of ranges of code points in ascending order,
each given by its first and its last code point.
-/

namespace BytecodeMachine.Text

/-- Ranges of code points in ascending order. -/
abbrev CodeRanges := List (Nat × Nat)

namespace CodeRanges

/-- The character lies in one of the ranges. -/
def contains (ranges : CodeRanges) (c : Char) : Bool :=
  ranges.any fun (first, last) => first ≤ c.toNat && c.toNat ≤ last

end CodeRanges

end BytecodeMachine.Text
