/-!
# Numbers as text

Digits in a base, with an optional least width, and the two paddings that the
register table needs.  Hexadecimal digits are lower case.
-/

namespace BytecodeMachine.Text

/-- The digits of `n` in base `base`, most significant first, with zeros in
front until there are at least `width` of them. -/
def digits (base width n : Nat) : List Char :=
  let significant := Nat.toDigits base n
  List.replicate (width - significant.length) '0' ++ significant

/-- A natural number in base ten. -/
def decimal (n : Nat) : String :=
  String.ofList (digits 10 0 n)

/-- An integer in base ten, with a minus sign in front of a negative one. -/
def signedDecimal (i : Int) : String :=
  if i < 0 then "-" ++ decimal i.natAbs else decimal i.natAbs

/-- At least `width` hexadecimal digits, without a mark in front. -/
def hexDigits (width n : Nat) : String :=
  String.ofList (digits 16 width n)

/-- At least `width` hexadecimal digits after `0x`. -/
def hex (width n : Nat) : String :=
  "0x" ++ hexDigits width n

/-- Blanks in front until the text is at least `width` characters long. -/
def padLeft (width : Nat) (text : String) : String :=
  String.ofList (List.replicate (width - text.length) ' ') ++ text

/-- Blanks behind until the text is at least `width` characters long. -/
def padRight (width : Nat) (text : String) : String :=
  text ++ String.ofList (List.replicate (width - text.length) ' ')

end BytecodeMachine.Text
