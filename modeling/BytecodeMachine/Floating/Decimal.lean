import BytecodeMachine.Floating.Format
import BytecodeMachine.Text.Radix

/-!
# Doubles in decimal

A double is written with the fewest decimal digits that lie closer to it than to
any other double, in positional form without an exponent.  All arithmetic is
exact.  Of two candidates of that length the nearer is taken, and the upper one
on a tie.
-/

namespace BytecodeMachine.Floating

/-- A positive real in quarters of a unit `2 ^ scale`, with the ends of the
range that rounds to it.  The ends belong to the range if `closed`. -/
structure RoundingRange where
  value : Nat
  low : Nat
  high : Nat
  closed : Bool
  scale : Int

/-- The range of a positive finite magnitude of a format.  The range is shorter
below a power of two. -/
def RoundingRange.of (f : Format) (magnitude : Nat) : RoundingRange :=
  let m := f.significand magnitude
  let s := f.shift magnitude
  let lowest : Int := 3 - (1 <<< (f.exponent - 1) + f.fraction : Nat)
  { value := 4 * m
    low := if m = f.hiddenBit ∧ 0 < s then 4 * m - 1 else 4 * m - 2
    high := 4 * m + 2
    closed := m % 2 == 0
    scale := lowest - 1 + s - 2 }

/-- A whole number of powers of ten. -/
structure Decimal where
  coefficient : Nat
  exponent : Int

namespace RoundingRange

/-- The factor and the divisor that turn quarters into multiples of
`10 ^ exponent`. -/
def grid (r : RoundingRange) (exponent : Int) : Nat × Nat :=
  (Nat.pow 10 (-exponent).toNat <<< r.scale.toNat, Nat.pow 10 exponent.toNat <<< (-r.scale).toNat)

/-- The number of digits before the decimal point; zero or less for a value
below one tenth. -/
def pointPosition (r : RoundingRange) : Int :=
  let (factor, divisor) := r.grid 0
  let whole := r.value * factor / divisor
  if 0 < whole then (Nat.toDigits 10 whole).length
  else 1 - ((Nat.toDigits 10 ((divisor - 1) / (r.value * factor))).length : Int)

/-- The multiple of `10 ^ exponent` inside the range that is nearest to the
value, if there is one among its two neighbours. -/
def nearestOn? (r : RoundingRange) (exponent : Int) : Option Decimal :=
  let (factor, divisor) := r.grid exponent
  let below := r.value * factor / divisor
  let reachesDown :=
    if r.closed then r.low * factor ≤ below * divisor else r.low * factor < below * divisor
  let reachesUp :=
    if r.closed then (below + 1) * divisor ≤ r.high * factor
    else (below + 1) * divisor < r.high * factor
  let upperIsNearer := divisor ≤ 2 * (r.value * factor - below * divisor)
  if reachesUp ∧ (upperIsNearer ∨ ¬ reachesDown) then
    some { coefficient := below + 1, exponent }
  else if reachesDown then some { coefficient := below, exponent }
  else none

/-- The first decimal found with `digits`, `digits + 1`, … digits; seventeen
digits always suffice for a double. -/
def shortestFrom (r : RoundingRange) (digits : Nat) : Nat → Decimal
  | 0 => { coefficient := 0, exponent := 0 }
  | more + 1 =>
      match r.nearestOn? (r.pointPosition - digits) with
      | some d => d
      | none => r.shortestFrom (digits + 1) more

/-- The shortest decimal of the range. -/
def shortest (r : RoundingRange) : Decimal := r.shortestFrom 1 17

end RoundingRange

/-- The digits after the point without the zeros at their end. -/
def trimZeros (digits : List Char) : List Char :=
  (digits.reverse.dropWhile (· == '0')).reverse

/-- A decimal in positional form. -/
def Decimal.text (d : Decimal) : String :=
  let digits := Nat.toDigits 10 d.coefficient
  if 0 ≤ d.exponent then String.ofList (digits ++ List.replicate d.exponent.toNat '0')
  else
    let places := (-d.exponent).toNat
    let padded := List.replicate (places + 1 - digits.length) '0' ++ digits
    let whole := padded.take (padded.length - places)
    let fraction := trimZeros (padded.drop (padded.length - places))
    String.ofList (if fraction.isEmpty then whole else whole ++ '.' :: fraction)

/-- The text of a double's bit pattern. -/
def text (bits : UInt64) : String :=
  let f := Format.of .double
  let magnitude := f.magnitude bits.toNat
  let sign := if f.isNegative bits.toNat then "-" else ""
  if f.isNaN bits.toNat then "NaN"
  else if f.isInfinite bits.toNat then sign ++ "inf"
  else if magnitude = 0 then sign ++ "0"
  else sign ++ (RoundingRange.of f magnitude).shortest.text

end BytecodeMachine.Floating
