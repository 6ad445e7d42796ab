/-!
# Layout of element buffers

A buffer is a header of sixteen bytes, a bitmap of one bit for each slot in
64-bit words, and the slots.  A request is rounded up to whole bitmap words and
to slots of whole eight bytes; zero stands for the maximum of 65536.
-/

namespace BytecodeMachine.Elements

/-- The number and the size of a buffer's slots. -/
structure BufferLayout where
  count : Nat
  slotSize : Nat
  deriving DecidableEq, Repr, Inhabited

/-- The least multiple of `unit` that is not below `n`. -/
def roundUp (unit n : Nat) : Nat := (n + unit - 1) / unit * unit

namespace BufferLayout

/-- The greatest number of slots and the greatest slot size of a request. -/
def maximum : Nat := 65536

/-- A requested number, where zero stands for the maximum. -/
def requested (n : UInt16) : Nat := if n = 0 then maximum else n.toNat

/-- The layout of a request. -/
def request (count size : UInt16) : BufferLayout :=
  { count := roundUp 64 (requested count), slotSize := roundUp 8 (requested size) }

/-- The number of words of the bitmap. -/
def bitmapWords (l : BufferLayout) : Nat := l.count / 64

/-- The offset of the first slot. -/
def headerSize (l : BufferLayout) : Nat := 16 + 8 * l.bitmapWords

/-- The size of all slots. -/
def storageSize (l : BufferLayout) : Nat := l.count * l.slotSize

/-- The size of the buffer. -/
def totalSize (l : BufferLayout) : Nat := l.headerSize + l.storageSize

end BufferLayout

end BytecodeMachine.Elements
