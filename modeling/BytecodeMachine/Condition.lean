import BytecodeMachine.Width

/-!
# Conditions

A condition byte holds the type of the operands in its high nibble and the test
in its low nibble.  One operand is tested against zero, two are compared.
Integers are compared through their signed or their unsigned view; reals have no
unsigned comparison, so such a condition byte stands for nothing.
-/

namespace BytecodeMachine

/-- The type of a tested operand. -/
inductive OperandType where
  | integer (w : Width)
  | real (p : Precision)
  deriving DecidableEq, Repr, Inhabited

namespace OperandType

/-- The type numbered by a nibble. -/
def ofNibble? (nibble : UInt8) : Option OperandType :=
  match nibble.toNat with
  | 0 => some (integer .byte)
  | 1 => some (integer .word)
  | 2 => some (integer .long)
  | 3 => some (integer .quad)
  | 4 => some (real .single)
  | 5 => some (real .double)
  | _ => none

/-- The number of a type. -/
def nibble : OperandType → UInt8
  | integer w => w.code
  | real p => 4 + p.code

/-- The width of the operand. -/
def width : OperandType → Width
  | integer w => w
  | real p => p.width

/-- Size in bytes. -/
def size (t : OperandType) : Nat := t.width.bytes

/-- The operand is a real number. -/
def isReal : OperandType → Bool
  | integer _ => false
  | real _ => true

/-- The suffix letter of the type. -/
def letter : OperandType → String
  | integer w => w.letter
  | real p => p.letter

end OperandType

/-- A test of one operand. -/
inductive Test where
  | iz
  | nz
  | mi
  | pl
  deriving DecidableEq, Repr, Inhabited

namespace Test

/-- Every test, in the order of their numbers. -/
def all : List Test := [iz, nz, mi, pl]

/-- The test numbered by a nibble. -/
def ofNibble? (nibble : UInt8) : Option Test :=
  match nibble.toNat with
  | 0 => some iz
  | 1 => some nz
  | 2 => some mi
  | 3 => some pl
  | _ => none

/-- The number of a test. -/
def nibble : Test → UInt8
  | iz => 0
  | nz => 1
  | mi => 2
  | pl => 3

/-- The spelling of a test. -/
def name : Test → String
  | iz => "iz"
  | nz => "nz"
  | mi => "mi"
  | pl => "pl"

/-- The test of a sign-extended integer. -/
def onInteger (t : Test) (value : Int64) : Bool :=
  match t with
  | iz => value == 0
  | nz => value != 0
  | mi => decide (value < 0)
  | pl => decide (0 ≤ value)

/-- The test of a real number. -/
def onReal (t : Test) (value : Float) : Bool :=
  match t with
  | iz => value == 0
  | nz => value != 0
  | mi => decide (value < 0)
  | pl => decide (0 ≤ value)

end Test

/-- A comparison of two operands. -/
inductive Relation where
  | eq
  | ne
  | lt
  | le
  | gt
  | ge
  | lo
  | ls
  | hi
  | hs
  deriving DecidableEq, Repr, Inhabited

namespace Relation

/-- Every comparison, in the order of their numbers. -/
def all : List Relation := [eq, ne, lt, le, gt, ge, lo, ls, hi, hs]

/-- The comparison numbered by a nibble. -/
def ofNibble? (nibble : UInt8) : Option Relation :=
  match nibble.toNat with
  | 0 => some eq
  | 1 => some ne
  | 2 => some lt
  | 3 => some le
  | 4 => some gt
  | 5 => some ge
  | 6 => some lo
  | 7 => some ls
  | 8 => some hi
  | 9 => some hs
  | _ => none

/-- The number of a comparison. -/
def nibble : Relation → UInt8
  | eq => 0
  | ne => 1
  | lt => 2
  | le => 3
  | gt => 4
  | ge => 5
  | lo => 6
  | ls => 7
  | hi => 8
  | hs => 9

/-- The spelling of a comparison. -/
def name : Relation → String
  | eq => "eq"
  | ne => "ne"
  | lt => "lt"
  | le => "le"
  | gt => "gt"
  | ge => "ge"
  | lo => "lo"
  | ls => "ls"
  | hi => "hi"
  | hs => "hs"

/-- The comparison reads its operands as unsigned numbers. -/
def isUnsigned : Relation → Bool
  | lo | ls | hi | hs => true
  | _ => false

/-- The comparison of two integers, each given sign- and zero-extended. -/
def onIntegers (r : Relation) (a b : Int64) (ua ub : UInt64) : Bool :=
  match r with
  | eq => ua == ub
  | ne => ua != ub
  | lt => decide (a < b)
  | le => decide (a ≤ b)
  | gt => decide (b < a)
  | ge => decide (b ≤ a)
  | lo => decide (ua < ub)
  | ls => decide (ua ≤ ub)
  | hi => decide (ub < ua)
  | hs => decide (ub ≤ ua)

/-- The comparison of two reals; the unsigned ones have no meaning there. -/
def onReals? (r : Relation) (a b : Float) : Option Bool :=
  match r with
  | eq => some (a == b)
  | ne => some (a != b)
  | lt => some (decide (a < b))
  | le => some (decide (a ≤ b))
  | gt => some (decide (b < a))
  | ge => some (decide (b ≤ a))
  | _ => none

end Relation

/-- Whether a condition tests one operand or compares two. -/
inductive Arity where
  | monadic
  | dyadic
  deriving DecidableEq, Repr, Inhabited

namespace Condition

/-- The byte of a test at a type. -/
def monadic (type : OperandType) (test : Test) : UInt8 :=
  (type.nibble <<< 4) ||| test.nibble

/-- The byte of a comparison at a type. -/
def dyadic (type : OperandType) (relation : Relation) : UInt8 :=
  (type.nibble <<< 4) ||| relation.nibble

/-- The type and test of a byte. -/
def monadic? (byte : UInt8) : Option (OperandType × Test) := do
  let type ← OperandType.ofNibble? (byte >>> 4)
  let test ← Test.ofNibble? (byte &&& 0xf)
  return (type, test)

/-- The type and comparison of a byte. -/
def dyadic? (byte : UInt8) : Option (OperandType × Relation) := do
  let type ← OperandType.ofNibble? (byte >>> 4)
  let relation ← Relation.ofNibble? (byte &&& 0xf)
  if type.isReal && relation.isUnsigned then none else return (type, relation)

/-- The size of the operands under a byte, valid or not: that of its type, and
eight where the high nibble names no type. -/
def operandSize (byte : UInt8) : Nat :=
  match OperandType.ofNibble? (byte >>> 4) with
  | some type => type.size
  | none => 8

end Condition

end BytecodeMachine
