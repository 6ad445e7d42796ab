import BytecodeMachine.Width

/-!
# Register file

Sixteen general and sixteen float cells of 64 bits.  A cell is read and written
whole or through a width: a narrow write replaces the low bytes and keeps the
others.  General register 15 is the stack pointer.
-/

namespace BytecodeMachine

/-- The two banks of registers. -/
inductive Bank where
  | general
  | float
  deriving DecidableEq, Repr, Inhabited

/-- A register number within its bank. -/
abbrev RegisterIndex := Fin 16

/-- A number selects the register of its remainder modulo sixteen. -/
def RegisterIndex.ofNat (n : Nat) : RegisterIndex := ⟨n % 16, Nat.mod_lt n (by decide)⟩

/-- The register of the low four bits of a byte. -/
def RegisterIndex.ofByte (b : UInt8) : RegisterIndex := RegisterIndex.ofNat b.toNat

/-- The stack pointer. -/
def RegisterIndex.stackPointer : RegisterIndex := .ofNat 15

/-- The cells of both banks. -/
structure RegisterFile where
  general : Vector UInt64 16
  float : Vector UInt64 16
  deriving DecidableEq

namespace RegisterFile

/-- Every cell zero. -/
def zero : RegisterFile :=
  { general := Vector.replicate 16 0, float := Vector.replicate 16 0 }

instance : Inhabited RegisterFile := ⟨zero⟩

/-- The 64 bits of a cell. -/
def get (f : RegisterFile) (bank : Bank) (r : RegisterIndex) : UInt64 :=
  match bank with
  | .general => f.general[r]
  | .float => f.float[r]

/-- Replace all 64 bits of a cell. -/
def set (f : RegisterFile) (bank : Bank) (r : RegisterIndex) (bits : UInt64) : RegisterFile :=
  match bank with
  | .general => { f with general := f.general.set r bits }
  | .float => { f with float := f.float.set r bits }

/-- A write is seen by its own cell and by no other. -/
theorem get_set (f : RegisterFile) (bank bank' : Bank) (r r' : RegisterIndex) (bits : UInt64) :
    (f.set bank r bits).get bank' r' =
      if bank = bank' ∧ r = r' then bits else f.get bank' r' := by
  cases bank <;> cases bank' <;> simp [get, set, Vector.getElem_set, Fin.ext_iff]

/-- The low bytes of a cell, zero-extended. -/
def read (f : RegisterFile) (bank : Bank) (r : RegisterIndex) (w : Width) : UInt64 :=
  w.truncate (f.get bank r)

/-- Replace the low bytes of a cell and keep the others. -/
def write (f : RegisterFile) (bank : Bank) (r : RegisterIndex) (w : Width) (value : UInt64) :
    RegisterFile :=
  f.set bank r (w.splice (f.get bank r) value)

/-- The stack pointer's value. -/
def sp (f : RegisterFile) : UInt64 := f.get .general .stackPointer

/-- Replace the stack pointer. -/
def setSp (f : RegisterFile) (address : UInt64) : RegisterFile :=
  f.set .general .stackPointer address

end RegisterFile

end BytecodeMachine
