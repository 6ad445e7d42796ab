import BytecodeMachine.State

/-!
# Host functions

A host function sees the observable state, changes it, and may ask for nested runs
of the program in between.  Its course is a tree: it either finishes with a
state, or runs the program from an entry and goes on with the outcome.

Functions are registered by module, and modules in a table.  Both are kept in
ascending order of their numbers, one entry for each.
-/

namespace BytecodeMachine

/-- Why a machine refuses a request. -/
inductive MachineError where
  | entryOutOfRange (entry length : Nat)
  | stackAllocation (size : Nat)
  deriving DecidableEq, Repr

/-- The wording of a refusal. -/
def MachineError.message : MachineError → String
  | entryOutOfRange entry length =>
      "entry offset " ++ Text.decimal entry ++ " outside code of " ++ Text.decimal length ++
        " bytes"
  | stackAllocation size => "cannot allocate a stack of " ++ Text.decimal size ++ " bytes"

/-- Put the cursor at an entry, ready to run. -/
def Core.enter (c : Core) (entry : Nat) : Except MachineError Core :=
  if c.code.length ≤ entry then .error (.entryOutOfRange entry c.code.length)
  else .ok { c with cursor := entry, callDepth := 1, status := .initialised, fault := none }

/-- The course of a host function. -/
inductive Routine where
  | finish (c : Core)
  /-- Run the program from `entry`, then go on with the outcome. -/
  | invoke (c : Core) (entry : Nat) (resume : Except MachineError Status → Core → Routine)

/-- A host function.

It reads and writes registers and memory, sets the status, enters the machine and invokes nested
runs.  A function that runs or steps the machine it is called by, or registers modules with it,
has no such course: it is not a host function in the sense of this library. -/
abbrev HostVector := Core → Routine

/-- A host function that only changes the state. -/
def HostVector.pure (change : Core → Core) : HostVector := fun c => .finish (change c)

/-- The host functions of one module, in ascending order of their numbers. -/
structure HostModule where
  id : UInt8
  name : String
  vectors : List (UInt16 × HostVector) := []

namespace HostModule

/-- The function of a number. -/
def vector? (m : HostModule) (function : UInt16) : Option HostVector :=
  m.vectors.lookup function

/-- The numbers of the functions. -/
def functions (m : HostModule) : List UInt16 := m.vectors.map (·.1)

/-- Put an entry in its place among ascending entries. -/
def insert (function : UInt16) (v : HostVector) :
    List (UInt16 × HostVector) → List (UInt16 × HostVector)
  | [] => [(function, v)]
  | (other, w) :: rest =>
      if function < other then (function, v) :: (other, w) :: rest
      else if function = other then (function, v) :: rest
      else (other, w) :: insert function v rest

/-- Add or replace a function. -/
def register (m : HostModule) (function : UInt16) (v : HostVector) : HostModule :=
  { m with vectors := insert function v m.vectors }

end HostModule

/-- The modules of a machine, in ascending order of their numbers. -/
structure HostTable where
  modules : List HostModule := []
  deriving Inhabited

namespace HostTable

/-- The module of a number. -/
def module? (t : HostTable) (id : UInt8) : Option HostModule :=
  t.modules.find? (fun m => m.id == id)

/-- The function of a module and number. -/
def lookup? (t : HostTable) (module : UInt8) (function : UInt16) : Option HostVector := do
  let m ← t.module? module
  m.vector? function

/-- Put a module in its place among ascending modules. -/
def insert (m : HostModule) : List HostModule → List HostModule
  | [] => [m]
  | other :: rest =>
      if m.id < other.id then m :: other :: rest
      else if m.id = other.id then m :: rest
      else other :: insert m rest

/-- Add or replace a module. -/
def register (t : HostTable) (m : HostModule) : HostTable := { modules := insert m t.modules }

end HostTable

end BytecodeMachine
