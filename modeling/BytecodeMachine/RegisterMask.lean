import BytecodeMachine.Registers

/-!
# Register masks

A 32-bit mask selects registers for a block transfer: bit `i` below sixteen is
general register `i`, bit `16 + i` is float register `i`.  The block holds the
selected registers in ascending order of their bits, eight bytes each.
-/

namespace BytecodeMachine

/-- A selection of registers. -/
abbrev RegisterMask := UInt32

namespace RegisterMask

/-- The set bits, in ascending order. -/
def bits (mask : RegisterMask) : List Nat := (List.range 32).filter mask.toNat.testBit

/-- The register of a bit. -/
def register (bit : Nat) : Bank × RegisterIndex :=
  if bit < 16 then (.general, .ofNat bit) else (.float, .ofNat (bit - 16))

/-- The selected registers, in the order in which the block holds them. -/
def registers (mask : RegisterMask) : List (Bank × RegisterIndex) := mask.bits.map register

/-- The size of the block in bytes. -/
def blockSize (mask : RegisterMask) : Nat := 8 * mask.bits.length

end RegisterMask

end BytecodeMachine
