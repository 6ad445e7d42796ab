import BytecodeMachine.Floating.Format

/-!
# Real operations

Reals travel as bit patterns of their precision, zero-extended to 64 bits.
Negation and absolute value act on the sign bit alone, so they keep the payload
of a not-a-number.  Conversions to integers truncate toward zero and saturate.
-/

namespace BytecodeMachine.Floating

/-- An operation on a destination and a source of one precision. -/
inductive Binary where
  | add
  | sub
  | mul
  | div
  | mod
  deriving DecidableEq, Repr, Inhabited

/-- An operation on a source alone. -/
inductive Unary where
  | abs
  | neg
  | sqrt
  | inv
  | acos
  | asin
  | atan
  | cos
  | sin
  | tan
  | cosh
  | sinh
  | tanh
  | etox
  | logn
  | log2
  | log10
  | twotox
  deriving DecidableEq, Repr, Inhabited

/-- The double with the value of a pattern of either precision. -/
def toFloat (p : Precision) (bits : UInt64) : Float :=
  match p with
  | .single => (Float32.ofBits bits.toUInt32).toFloat
  | .double => Float.ofBits bits

/-- The pattern of a double rounded to a precision. -/
def ofFloat (p : Precision) (x : Float) : UInt64 :=
  match p with
  | .single => x.toFloat32.toBits.toUInt64
  | .double => x.toBits

/-- The pattern of an integer rounded once to a precision. -/
def ofInt64 (p : Precision) (i : Int64) : UInt64 :=
  match p with
  | .single => i.toFloat32.toBits.toUInt64
  | .double => i.toFloat.toBits

/-- The greatest signed value of a width. -/
def greatest (w : Width) : Int64 :=
  Int64.maxValue >>> (64 - Int64.ofNat w.bits)

/-- Truncate toward zero into the signed range of a width; no number gives
zero. -/
def toInteger (w : Width) (x : Float) : Int64 :=
  let i := x.toInt64
  let top := greatest w
  if i < -top - 1 then -top - 1 else if top < i then top else i

namespace Binary

/-- Every operation, in the order of the opcode bytes. -/
def all : List Binary := [add, sub, mul, div, mod]

/-- The operation on doubles, the remainder apart. -/
def onDouble (op : Binary) (a b : Float) : Float :=
  match op with
  | add => a + b
  | sub => a - b
  | mul => a * b
  | div => a / b
  | mod => Float.ofBits (remainder .double a.toBits b.toBits)

/-- The operation on singles. -/
def onSingle (op : Binary) (a b : Float32) : Float32 :=
  match op with
  | add => a + b
  | sub => a - b
  | mul => a * b
  | div => a / b
  | mod =>
      Float32.ofBits (remainder .single a.toBits.toUInt64 b.toBits.toUInt64).toUInt32

/-- The operation on patterns. -/
def eval (op : Binary) (p : Precision) (a b : UInt64) : UInt64 :=
  match p with
  | .single =>
      (op.onSingle (Float32.ofBits a.toUInt32) (Float32.ofBits b.toUInt32)).toBits.toUInt64
  | .double => (op.onDouble (Float.ofBits a) (Float.ofBits b)).toBits

/-- The spelling without its precision letter. -/
def stem : Binary → String
  | add => "fadd"
  | sub => "fsub"
  | mul => "fmul"
  | div => "fdiv"
  | mod => "fmod"

end Binary

namespace Unary

/-- Every function, in the order of the opcode bytes. -/
def all : List Unary :=
  [abs, neg, sqrt, inv, acos, asin, atan, cos, sin, tan, cosh, sinh, tanh, etox, logn, log2,
    log10, twotox]

/-- The operation on doubles. -/
def onDouble (op : Unary) (a : Float) : Float :=
  match op with
  | abs => a.abs
  | neg => -a
  | sqrt => a.sqrt
  | inv => 1 / a
  | acos => a.acos
  | asin => a.asin
  | atan => a.atan
  | cos => a.cos
  | sin => a.sin
  | tan => a.tan
  | cosh => a.cosh
  | sinh => a.sinh
  | tanh => a.tanh
  | etox => a.exp
  | logn => a.log
  | log2 => a.log2
  | log10 => a.log10
  | twotox => a.exp2

/-- The operation on singles. -/
def onSingle (op : Unary) (a : Float32) : Float32 :=
  match op with
  | abs => a.abs
  | neg => -a
  | sqrt => a.sqrt
  | inv => 1 / a
  | acos => a.acos
  | asin => a.asin
  | atan => a.atan
  | cos => a.cos
  | sin => a.sin
  | tan => a.tan
  | cosh => a.cosh
  | sinh => a.sinh
  | tanh => a.tanh
  | etox => a.exp
  | logn => a.log
  | log2 => a.log2
  | log10 => a.log10
  | twotox => a.exp2

/-- The word whose only set bit is the sign of a precision. -/
def signMask : Precision → UInt64
  | .single => 0x80000000
  | .double => 0x8000000000000000

/-- The operation on patterns. -/
def eval (op : Unary) (p : Precision) (a : UInt64) : UInt64 :=
  match op with
  | abs => a &&& ~~~(signMask p)
  | neg => a ^^^ signMask p
  | _ =>
      match p with
      | .single => (op.onSingle (Float32.ofBits a.toUInt32)).toBits.toUInt64
      | .double => (op.onDouble (Float.ofBits a)).toBits

/-- The spelling without its precision letter. -/
def stem : Unary → String
  | abs => "fabs"
  | neg => "fneg"
  | sqrt => "fsqrt"
  | inv => "finv"
  | acos => "facos"
  | asin => "fasin"
  | atan => "fatan"
  | cos => "fcos"
  | sin => "fsin"
  | tan => "ftan"
  | cosh => "fcosh"
  | sinh => "fsinh"
  | tanh => "ftanh"
  | etox => "fetox"
  | logn => "flogn"
  | log2 => "flog2"
  | log10 => "flog10"
  | twotox => "ftwotox"

end Unary

end BytecodeMachine.Floating
