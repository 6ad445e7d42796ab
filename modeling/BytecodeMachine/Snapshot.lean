import BytecodeMachine.State
import BytecodeMachine.Text.Json

/-!
# Snapshots

A snapshot is the visible state of a machine: status, cursor, call depth, the
bits of all registers and the wording of the last fault.  It is written as JSON,
on one line or indented.
-/

namespace BytecodeMachine

/-- The visible state of a machine. -/
structure Snapshot where
  status : Status
  cursor : Nat
  callDepth : Int
  general : Vector UInt64 16
  float : Vector UInt64 16
  fault : Option String
  deriving DecidableEq

namespace Snapshot

/-- The snapshot of a state. -/
def of (c : Core) : Snapshot :=
  { status := c.status
    cursor := c.cursor
    callDepth := c.callDepth
    general := c.registers.general
    float := c.registers.float
    fault := c.fault.map (·.fault.message) }

/-- The members of the JSON form, with `numbers` writing a bank of registers. -/
def members (s : Snapshot) (numbers : List String → String) : List (String × String) :=
  let bank := fun (cells : Vector UInt64 16) =>
    numbers (cells.toList.map fun bits => Text.decimal bits.toNat)
  [ ("status", Text.Json.quote s.status.name),
    ("cursor", Text.decimal s.cursor),
    ("call_depth", Text.signedDecimal s.callDepth),
    ("gpr", bank s.general),
    ("fpr", bank s.float) ] ++
    match s.fault with
    | some message => [("fault", Text.Json.quote message)]
    | none => []

/-- The JSON form on one line. -/
def compact (s : Snapshot) : String :=
  Text.Json.inline "\x7b" "," "\x7d"
    ((s.members (Text.Json.inline "[" "," "]")).map fun (name, value) =>
      Text.Json.quote name ++ ":" ++ value)

/-- The JSON form over several lines. -/
def pretty (s : Snapshot) : String :=
  Text.Json.object 1
    ((s.members (Text.Json.list 2)).map fun (name, value) => Text.Json.member name value)

end Snapshot

end BytecodeMachine
