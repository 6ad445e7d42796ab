import BytecodeMachine.Execution.Stream
import BytecodeMachine.Operand.Basic

/-!
# Resolving operands

An operand is fetched and turned into a location.  Registers of stepping modes
move as soon as the operand is resolved, also if it turns out to have no
location.  Address zero is no location.
-/

namespace BytecodeMachine.Exec

/-- The location of an address. -/
def locate (mode : UInt8) (address : UInt64) : Exec Location :=
  if address = 0 then throw (.nullAddress mode) else return .memory address

/-- Move an address register and return the address that the operand uses. -/
def step (how : Stepping) (r : RegisterIndex) (size : Nat) : Exec UInt64 := fun s =>
  let before := s.general r
  let after :=
    match how with
    | .postIncrement | .preIncrement => before + UInt64.ofNat size
    | .postDecrement | .preDecrement => before - UInt64.ofNat size
  let used :=
    match how with
    | .postIncrement | .postDecrement => before
    | .preIncrement | .preDecrement => after
  .ok used (s.setGeneral r after)

/-- The address of base plus scaled index under a descriptor byte. -/
def indexedAddress (c : Core) (descriptor : UInt8) (width : Width) (scale : UInt8) : UInt64 :=
  let base := c.general (.ofByte (descriptor &&& 0xf))
  let index := c.general (.ofByte (descriptor >>> 4))
  base + (width.signExtend index).toUInt64 <<< scale.toUInt64

/-- Fetch the extension of an operand of `size` bytes whose mode byte is given, and
resolve the operand.  A reference to the destination gives `destination`. -/
def resolveMode (size : Nat) (destination : Option Location) (mode : UInt8) :
    Exec Location :=
  match Mode.ofByte mode with
  | .register bank r => return .register bank (.ofByte r)
  | .indirect r => do
      let s ← get
      locate mode (s.general (.ofByte r))
  | .stepped how r => do
      let address ← step how (.ofByte r) size
      locate mode address
  | .displaced r => do
      let d ← fetchDisplacement
      let s ← get
      locate mode (s.general (.ofByte r) + LittleEndian.extend d)
  | .indexed width scale false => do
      let descriptor ← fetchByte
      let s ← get
      locate mode (indexedAddress s.toCore descriptor width scale)
  | .indexed width scale true => do
      let descriptor ← fetchByte
      let d ← fetchDisplacement
      let s ← get
      locate mode (indexedAddress s.toCore descriptor width scale + LittleEndian.extend d)
  | .sameAsDestination =>
      match destination with
      | some l => return l
      | none => throw (.nullAddress mode)
  | .codeRelative => do
      let d ← fetchDisplacement
      let s ← get
      locate mode (s.codeAddress s.cursor + LittleEndian.extend d)
  | .codeIndexed _ far => do
      let _ ← advance (if far then 5 else 1)
      throw (.nullAddress mode)
  | .immediate => do
      let offset ← advance size
      let s ← get
      locate mode (s.codeAddress offset)
  | .absolute => do
      let address ← fetchQuad
      locate mode address
  | .reserved => throw (.nullAddress mode)

/-- Fetch an operand of `size` bytes and resolve it. -/
def resolve (size : Nat) (destination : Option Location) : Exec Location := do
  let mode ← fetchByte
  modify fun s => { s with latch := { s.latch with mode } }
  resolveMode size destination mode

/-- Resolve the destination operand and note its location. -/
def resolveDestination (size : Nat) : Exec Location := do
  let l ← resolve size none
  modify fun s => { s with latch := { s.latch with destination := some l } }
  return l

/-- Resolve a source operand, which may refer to the destination. -/
def resolveSource (size : Nat) : Exec Location := do
  let s ← get
  resolve size s.latch.destination

/-- Resolve the only operand of an instruction. -/
def resolveOnly (size : Nat) : Exec Location := resolve size none

/-- The address of a location; a register has none. -/
def addressOf (l : Location) : Exec UInt64 := do
  match l.address? with
  | some address => return address
  | none =>
      let s ← get
      throw (.nullAddress s.latch.mode)

/-- Resolve the only operand of an instruction, which must be in memory. -/
def resolveAddress (size : Nat) : Exec UInt64 := do
  let l ← resolveOnly size
  addressOf l

end BytecodeMachine.Exec
