import BytecodeMachine.LittleEndian
import BytecodeMachine.Memory.Tree
import BytecodeMachine.Width

/-!
# Memory

One byte for each 64-bit address, all zero at first.  Words are read and written
at any address, aligned or not, little-endian, and addresses wrap around.
-/

namespace BytecodeMachine

/-- The contents of the whole address space. -/
structure Memory where
  tree : ByteTree
  deriving Inhabited

namespace Memory

/-- Every byte zero. -/
def zero : Memory := { tree := .fill 0 }

/-- The byte at an address. -/
def byte (m : Memory) (address : UInt64) : UInt8 := m.tree.get 64 address.toNat

/-- Replace the byte at an address. -/
def setByte (m : Memory) (address : UInt64) (value : UInt8) : Memory :=
  { tree := m.tree.set 64 address.toNat value }

/-- An address is a key of the tree. -/
theorem toNat_mod_size (address : UInt64) :
    address.toNat % ByteTree.size 64 = address.toNat := by
  have whole : ByteTree.size 64 = UInt64.size := by decide
  rw [whole]
  exact Nat.mod_eq_of_lt address.toNat_lt_size

/-- A write is seen at its own address and at no other. -/
theorem byte_setByte (m : Memory) (address address' : UInt64) (value : UInt8) :
    (m.setByte address value).byte address' =
      if address = address' then value else m.byte address' := by
  simp [byte, setByte, ByteTree.get_set, toNat_mod_size, UInt64.toNat_inj]

/-- The `n` bytes from an address on. -/
def bytes (m : Memory) (address : UInt64) : Nat → List UInt8
  | 0 => []
  | n + 1 => m.byte address :: m.bytes (address + 1) n

/-- Write bytes one after the other from an address on. -/
def setBytes (m : Memory) (address : UInt64) : List UInt8 → Memory
  | [] => m
  | value :: rest => (m.setByte address value).setBytes (address + 1) rest

@[simp]
theorem length_bytes (m : Memory) (address : UInt64) (n : Nat) :
    (m.bytes address n).length = n := by
  induction n generalizing address with
  | zero => rfl
  | succ n ih => simp [bytes, ih]

/-- The value of the given width at an address, zero-extended. -/
def read (m : Memory) (address : UInt64) (w : Width) : UInt64 :=
  LittleEndian.word64 (m.bytes address w.bytes)

/-- Write the low bytes of a word at an address. -/
def write (m : Memory) (address : UInt64) (w : Width) (value : UInt64) : Memory :=
  m.setBytes address (LittleEndian.encode w.bytes value.toNat)

/-- Set every byte of `[address, address + length)` to one value; the range ends
at the top of the address space at the latest. -/
def fill (m : Memory) (address : UInt64) (length : Nat) (value : UInt8) : Memory :=
  { tree := m.tree.fillRange 64 0 address.toNat (address.toNat + length) value }

/-- A filled range reads as the filling byte, and every other address as before. -/
theorem byte_fill (m : Memory) (address : UInt64) (length : Nat) (value : UInt8)
    (address' : UInt64) :
    (m.fill address length value).byte address' =
      if address.toNat ≤ address'.toNat ∧ address'.toNat < address.toNat + length then value
      else m.byte address' := by
  simp [byte, fill, ByteTree.get_fillRange, toNat_mod_size]

end Memory

end BytecodeMachine
