import BytecodeMachine.Image
import BytecodeMachine.Listing
import BytecodeMachine.Run

/-!
# Machines

A machine is a state together with the host functions it can call.  It is loaded
with code, entered at an offset, and then run or stepped.
-/

namespace BytecodeMachine

/-- A state and its host functions. -/
structure Machine where
  state : State
  host : HostTable := {}
  deriving Inhabited

namespace Machine

/-- The size of the stack where none is asked for. -/
def defaultStackSize : Nat := 65536

/-- A machine that holds the given code and has a stack of the given size. -/
def load (code : List UInt8) (stackSize : Nat := defaultStackSize) :
    Except MachineError Machine :=
  match Region.reserve? AddressSpace.stackBase stackSize with
  | some stack => .ok { state := State.load code stack }
  | none => .error (.stackAllocation stackSize)

/-- Add or replace a host module. -/
def register (m : Machine) (module : HostModule) : Machine :=
  { m with host := m.host.register module }

/-- Put the cursor at an entry, ready to run. -/
def enter (m : Machine) (entry : Nat) : Except MachineError Machine :=
  (m.state.toCore.enter entry).map fun c => { m with state := { m.state with toCore := c } }

/-- Run until the program stops. -/
def run (m : Machine) (fuel : Nat) : Option Machine :=
  (m.state.run m.host fuel).map fun state => { m with state }

/-- Execute a single instruction. -/
def step (m : Machine) (fuel : Nat) : Option Machine :=
  (m.state.step m.host fuel).map fun state => { m with state }

/-- Run the program from an entry in between. -/
def invoke (m : Machine) (fuel : Nat) (entry : Nat) :
    Option (Except MachineError Status × Machine) :=
  (m.state.invoke (State.loop m.host fuel false) entry).map fun (outcome, state) =>
    (outcome, { m with state })

/-- The status. -/
def status (m : Machine) : Status := m.state.status

/-- The line at the cursor. -/
def currentLine (m : Machine) : Except ListingError PlacedLine :=
  Listing.lineAt m.state.codeBytes m.state.cursor

end Machine

end BytecodeMachine
