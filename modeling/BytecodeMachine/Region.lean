/-!
# Regions of the address space

Code and stack each own one contiguous region.  A region answers whether an
access lies inside it and at which offset.  The areas start at fixed addresses.
-/

namespace BytecodeMachine

/-! ## Where the areas of the address space lie -/

namespace AddressSpace

/-- First address of the code region. -/
def codeBase : UInt64 := 0x100000000

/-- First address of the stack region. -/
def stackBase : UInt64 := 0x200000000

/-- First address of the heap. -/
def heapBase : UInt64 := 0x400000000

/-- The address after the heap. -/
def heapEnd : UInt64 := 0x401000000

/-- The greatest length of a region. -/
def regionCapacity : Nat := 0x100000

end AddressSpace

/-- A contiguous range of addresses. -/
structure Region where
  base : UInt64
  length : Nat
  deriving DecidableEq, Repr, Inhabited

namespace Region

/-- A region of the given length, unless it is longer than a region may be. -/
def reserve? (base : UInt64) (length : Nat) : Option Region :=
  if length ≤ AddressSpace.regionCapacity then some { base, length } else none

/-- The address of an offset. -/
def address (r : Region) (offset : Nat) : UInt64 := r.base + UInt64.ofNat offset

/-- The address after the region. -/
def top (r : Region) : UInt64 := r.address r.length

/-- The offset of an address, if `size` bytes from there on lie inside. -/
def offsetOf? (r : Region) (address : UInt64) (size : Nat) : Option Nat :=
  if r.base ≤ address then
    let offset := (address - r.base).toNat
    if offset + size ≤ r.length then some offset else none
  else none

end Region

end BytecodeMachine
