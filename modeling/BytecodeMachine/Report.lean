import BytecodeMachine.Floating.Decimal
import BytecodeMachine.Machine
import BytecodeMachine.Snapshot

/-!
# Reports

What people see of a machine: the report of its last fault, the table of its
registers, and one-line descriptions of a cell, a region and a machine.
-/

namespace BytecodeMachine

/-- The last fault with its place and the instruction that raised it, as the code
is now. -/
def Machine.faultReport? (m : Machine) : Option String :=
  m.state.fault.map fun record =>
    let name := (Opcode.ofByte? record.opcode).elim (Text.hex 2 record.opcode.toNat) (·.mnemonic)
    let place :=
      "machine fault: " ++ record.fault.message ++ " [" ++ m.status.text ++ "]\nat offset " ++
        Text.hex 4 record.offset ++ " (" ++ name ++ ")"
    match Listing.lineAt m.state.codeBytes record.offset with
    | .ok line => place ++ "\n  | " ++ line.text
    | .error _ => place

namespace Snapshot

/-- Rows of four cells. -/
def rows : List String → List String
  | a :: b :: c :: d :: rest =>
      ("  " ++ String.intercalate "  " [a, b, c, d]) :: rows rest
  | _ => []

/-- The numbered cells of a bank. -/
def cells (bank : Vector UInt64 16) (cell : Nat → UInt64 → String) : List String :=
  bank.toList.mapIdx cell

/-- A general register. -/
def generalCell (n : Nat) (bits : UInt64) : String :=
  "r" ++ Text.padRight 2 (Text.decimal n) ++ " " ++ Text.hex 16 bits.toNat

/-- A float register. -/
def floatCell (n : Nat) (bits : UInt64) : String :=
  "fp" ++ Text.padRight 2 (Text.decimal n) ++ " " ++ Text.padLeft 18 (Floating.text bits)

/-- The status and the registers as a table. -/
def table (s : Snapshot) : String :=
  let head :=
    "status: " ++ s.status.text ++ "  cursor: " ++ Text.hex 4 s.cursor ++ "  depth: " ++
      Text.signedDecimal s.callDepth
  let body := rows (cells s.general generalCell) ++ rows (cells s.float floatCell)
  String.join ((head :: body).map (· ++ "\n"))

end Snapshot

/-- A register cell in one line. -/
def describeCell (bits : UInt64) : String := "Register(" ++ Text.hex 16 bits.toNat ++ ")"

/-- A region in one line. -/
def Region.describe (r : Region) : String :=
  "Region \x7b base: " ++ Text.hex 0 r.base.toNat ++ ", len: " ++ Text.decimal r.length ++ " \x7d"

/-- A machine in one line. -/
def Machine.describe (m : Machine) : String :=
  "Machine \x7b status: " ++ m.status.name ++ ", cursor: " ++ Text.decimal m.state.cursor ++
    ", call_depth: " ++ Text.signedDecimal m.state.callDepth ++ ", code: " ++
    m.state.code.describe ++ ", stack: " ++ m.state.stack.describe ++ ", .. \x7d"

end BytecodeMachine
