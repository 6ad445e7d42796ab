import BytecodeMachine.Width

/-!
# Binary formats of real numbers

A finite real of a format is a whole number of the format's smallest unit.  The
functions here take a bit pattern apart into its sign and that number, and put
them together again, in exact arithmetic on naturals.
-/

namespace BytecodeMachine.Floating

/-- Field widths of a binary interchange format. -/
structure Format where
  /-- Stored bits of the significand. -/
  fraction : Nat
  /-- Bits of the biased exponent. -/
  exponent : Nat
  deriving DecidableEq, Repr

/-- The format of a precision. -/
def Format.of : Precision → Format
  | .single => { fraction := 23, exponent := 8 }
  | .double => { fraction := 52, exponent := 11 }

namespace Format

/-- The bit that carries the sign. -/
def signBit (f : Format) : Nat := 1 <<< (f.fraction + f.exponent)

/-- The pattern without its sign. -/
def magnitude (f : Format) (bits : Nat) : Nat := bits % f.signBit

/-- The pattern has its sign set. -/
def isNegative (f : Format) (bits : Nat) : Bool := bits.testBit (f.fraction + f.exponent)

/-- The magnitude of an infinity. -/
def infinity (f : Format) : Nat := (1 <<< f.exponent - 1) <<< f.fraction

/-- The magnitude of the quiet not-a-number. -/
def quietNaN (f : Format) : Nat := f.infinity + 1 <<< (f.fraction - 1)

/-- The bit above the stored significand. -/
def hiddenBit (f : Format) : Nat := 1 <<< f.fraction

/-- The pattern stands for no number. -/
def isNaN (f : Format) (bits : Nat) : Bool := decide (f.infinity < f.magnitude bits)

/-- The pattern is an infinity. -/
def isInfinite (f : Format) (bits : Nat) : Bool := f.magnitude bits == f.infinity

/-- How far the significand of a finite magnitude is shifted, in powers of two
above the smallest unit. -/
def shift (f : Format) (magnitude : Nat) : Nat := magnitude >>> f.fraction - 1

/-- The significand of a finite magnitude, with the hidden bit. -/
def significand (f : Format) (magnitude : Nat) : Nat :=
  if magnitude < f.hiddenBit then magnitude else f.hiddenBit + magnitude % f.hiddenBit

/-- A finite magnitude as a number of smallest units. -/
def units (f : Format) (magnitude : Nat) : Nat :=
  f.significand magnitude <<< f.shift magnitude

/-- The magnitude of a number of smallest units that the format can hold. -/
def ofUnits (f : Format) (n : Nat) : Nat :=
  let excess := n.log2 - f.fraction
  excess <<< f.fraction + n >>> excess

end Format

/-- The remainder of a division that truncates toward zero, with the sign of the
dividend.  It is exact; a zero divisor or an infinite dividend gives no number,
and an infinite divisor leaves the dividend. -/
def remainder (p : Precision) (a b : UInt64) : UInt64 :=
  let f := Format.of p
  let x := a.toNat
  let y := b.toNat
  let result :=
    if f.isNaN x || f.isNaN y || f.isInfinite x || f.magnitude y == 0 then f.quietNaN
    else if f.isInfinite y then x
    else
      let rest := f.ofUnits (f.units (f.magnitude x) % f.units (f.magnitude y))
      if f.isNegative x then f.signBit + rest else rest
  UInt64.ofNat result

end BytecodeMachine.Floating
