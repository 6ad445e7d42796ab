/-!
# Operand widths

Integer operands are 1, 2, 4 or 8 bytes wide; real operands are single or
double.  A narrow value lives in the low bytes of a 64-bit word.  The functions
here extend such a value to 64 bits, cut a word to a width and replace the low
bytes of a word.
-/

namespace BytecodeMachine

/-- The width of an integer operand. -/
inductive Width where
  | byte
  | word
  | long
  | quad
  deriving DecidableEq, Repr, Inhabited

namespace Width

/-- The widths, narrowest first. -/
def all : List Width := [byte, word, long, quad]

/-- Size in bytes. -/
def bytes : Width → Nat
  | byte => 1
  | word => 2
  | long => 4
  | quad => 8

/-- Size in bits. -/
def bits (w : Width) : Nat := 8 * w.bytes

/-- The two-bit selector used by mode bytes, condition bytes and opcodes. -/
def code : Width → UInt8
  | byte => 0
  | word => 1
  | long => 2
  | quad => 3

/-- The width named by the low two bits of a selector. -/
def ofCode (selector : UInt8) : Width :=
  match (selector &&& 0x3).toNat with
  | 0 => byte
  | 1 => word
  | 2 => long
  | _ => quad

/-- The suffix letter of mnemonics and index registers. -/
def letter : Width → String
  | byte => "b"
  | word => "w"
  | long => "l"
  | quad => "q"

/-- The word whose low `w.bits` bits are set. -/
def mask : Width → UInt64
  | byte => 0xff
  | word => 0xffff
  | long => 0xffffffff
  | quad => 0xffffffffffffffff

/-- The low bytes of a word, the others zero. -/
def truncate (w : Width) (x : UInt64) : UInt64 := x &&& w.mask

/-- The word `x` with its low bytes replaced by those of `v`. -/
def splice (w : Width) (x v : UInt64) : UInt64 :=
  (x &&& ~~~w.mask) ||| (v &&& w.mask)

/-- The low bytes of a word read as a two's complement number. -/
def signExtend (w : Width) (x : UInt64) : Int64 :=
  match w with
  | byte => x.toUInt8.toInt8.toInt64
  | word => x.toUInt16.toInt16.toInt64
  | long => x.toUInt32.toInt32.toInt64
  | quad => x.toInt64

end Width

/-- The format of a real operand. -/
inductive Precision where
  | single
  | double
  deriving DecidableEq, Repr, Inhabited

namespace Precision

/-- The formats, shortest first. -/
def all : List Precision := [single, double]

/-- The width of the bit pattern. -/
def width : Precision → Width
  | single => .long
  | double => .quad

/-- Size in bytes. -/
def bytes (p : Precision) : Nat := p.width.bytes

/-- The one-bit selector used by condition bytes and opcodes. -/
def code : Precision → UInt8
  | single => 0
  | double => 1

/-- The suffix letter of mnemonics. -/
def letter : Precision → String
  | single => "s"
  | double => "d"

end Precision

end BytecodeMachine
