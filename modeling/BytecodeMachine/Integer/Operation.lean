import BytecodeMachine.Width

/-!
# Integer operations

Operands arrive zero-extended to 64 bits.  They are combined at 64 bits, and the
low bytes of the result are what an instruction stores, so every operation wraps
at its own width.  Shift counts are taken modulo the width in bits.
-/

namespace BytecodeMachine.Integer

/-- An operation on a destination and a source of one width. -/
inductive Binary where
  | and
  | or
  | eor
  | add
  | sub
  | muls
  | mulu
  | divs
  | divu
  | mods
  | modu
  deriving DecidableEq, Repr, Inhabited

/-- An operation on a source alone. -/
inductive Unary where
  | not
  | neg
  deriving DecidableEq, Repr, Inhabited

/-- An operation on a destination and a bit count. -/
inductive Shift where
  | lsl
  | lsr
  | asr
  | rol
  | ror
  | bclr
  | bset
  deriving DecidableEq, Repr, Inhabited

namespace Binary

/-- Every operation. -/
def all : List Binary := [and, or, eor, add, sub, muls, mulu, divs, divu, mods, modu]

/-- The combined value before truncation; nothing for a division by zero. -/
def eval? (op : Binary) (w : Width) (a b : UInt64) : Option UInt64 :=
  match op with
  | and => some (a &&& b)
  | or => some (a ||| b)
  | eor => some (a ^^^ b)
  | add => some (a + b)
  | sub => some (a - b)
  | muls => some (w.signExtend a * w.signExtend b).toUInt64
  | mulu => some (a * b)
  | divs =>
      if w.signExtend b = 0 then none
      else some (w.signExtend a / w.signExtend b).toUInt64
  | divu => if b = 0 then none else some (a / b)
  | mods =>
      if w.signExtend b = 0 then none
      else some (w.signExtend a % w.signExtend b).toUInt64
  | modu => if b = 0 then none else some (a % b)

/-- The spelling without its width letter. -/
def stem : Binary → String
  | and => "and"
  | or => "or"
  | eor => "eor"
  | add => "add"
  | sub => "sub"
  | muls => "muls"
  | mulu => "mulu"
  | divs => "divs"
  | divu => "divu"
  | mods => "mods"
  | modu => "modu"

end Binary

namespace Unary

/-- Every operation. -/
def all : List Unary := [not, neg]

/-- The value before truncation. -/
def eval (op : Unary) (a : UInt64) : UInt64 :=
  match op with
  | not => ~~~a
  | neg => -a

/-- The spelling without its width letter. -/
def stem : Unary → String
  | not => "not"
  | neg => "neg"

end Unary

/-- Rotate the low bits of a width to the left by a count below that width. -/
def rotateLeft (w : Width) (value count : UInt64) : UInt64 :=
  let value := w.truncate value
  if count = 0 then value
  else w.truncate ((value <<< count) ||| (value >>> (UInt64.ofNat w.bits - count)))

namespace Shift

/-- Every operation, in the order of the opcode bytes. -/
def all : List Shift := [lsl, lsr, asr, rol, ror, bclr, bset]

/-- The value before truncation, for a count of any size. -/
def eval (op : Shift) (w : Width) (a count : UInt64) : UInt64 :=
  let n := count % UInt64.ofNat w.bits
  match op with
  | lsl => a <<< n
  | lsr => a >>> n
  | asr => (w.signExtend a >>> n.toInt64).toUInt64
  | rol => rotateLeft w a n
  | ror => rotateLeft w a ((UInt64.ofNat w.bits - n) % UInt64.ofNat w.bits)
  | bclr => a &&& ~~~((1 : UInt64) <<< n)
  | bset => a ||| ((1 : UInt64) <<< n)

/-- The spelling without its width letter. -/
def stem : Shift → String
  | lsl => "lsl"
  | lsr => "lsr"
  | asr => "asr"
  | rol => "rol"
  | ror => "ror"
  | bclr => "bclr"
  | bset => "bset"

end Shift

end BytecodeMachine.Integer
