import BytecodeMachine.Instruction.Text

/-!
# Listings

A listing splits code into lines, one for each instruction and one for each byte
that is no opcode, and shows each after its offset.  It fails at an instruction
that the code ends within.
-/

namespace BytecodeMachine

/-- A piece of code that a listing shows on one line. -/
inductive Line where
  | instruction (i : Instruction)
  | byte (value : UInt8)
  deriving DecidableEq, Repr, Inhabited

/-- Why code cannot be listed. -/
inductive ListingError where
  /-- There is no byte at the offset. -/
  | outOfRange (offset : Nat)
  /-- The code ends within the instruction at the offset. -/
  | truncated (offset : Nat) (opcode : Opcode)
  deriving DecidableEq, Repr

/-- The wording of a listing error. -/
def ListingError.message : ListingError → String
  | outOfRange offset => "offset " ++ Text.hex 4 offset ++ " outside code"
  | truncated offset opcode =>
      "truncated " ++ opcode.mnemonic ++ " instruction at offset " ++ Text.hex 4 offset

namespace Line

/-- The line at the front of a byte list that stands at `offset`, with its
length. -/
def read (offset : Nat) : List UInt8 → Except ListingError (Line × Nat)
  | [] => .error (.outOfRange offset)
  | value :: rest =>
      match Opcode.ofByte? value with
      | none => .ok (.byte value, 1)
      | some opcode =>
          match Instruction.read? opcode rest with
          | none => .error (.truncated offset opcode)
          | some (i, length) => .ok (.instruction i, 1 + length)

/-- The line at an offset of the code, with its length. -/
def readAt (code : List UInt8) (offset : Nat) : Except ListingError (Line × Nat) :=
  read offset (code.drop offset)

/-- The text of a line; `next` is the offset after it. -/
def text (next : Nat) : Line → String
  | instruction i => i.text next
  | byte value => ".byte " ++ Text.hex 2 value.toNat

end Line

/-- A line with its place. -/
structure PlacedLine where
  offset : Nat
  length : Nat
  line : Line
  deriving DecidableEq, Repr, Inhabited

namespace PlacedLine

/-- The text of the line alone. -/
def text (l : PlacedLine) : String := l.line.text (l.offset + l.length)

/-- The offset and the text. -/
def render (l : PlacedLine) : String := Text.hexDigits 4 l.offset ++ ": " ++ l.text

end PlacedLine

namespace Listing

/-- The line at an offset of the code. -/
def lineAt (code : List UInt8) (offset : Nat) : Except ListingError PlacedLine :=
  match Line.readAt code offset with
  | .ok (line, length) => .ok { offset, length, line }
  | .error e => .error e

/-- The lines of the code that stands at `offset`, after `skip` bytes that belong
to the line before. -/
def linesFrom : List UInt8 → (offset skip : Nat) → Except ListingError (List PlacedLine)
  | [], _, _ => .ok []
  | _ :: rest, offset, skip + 1 => linesFrom rest (offset + 1) skip
  | value :: rest, offset, 0 =>
      match Line.read offset (value :: rest) with
      | .error e => .error e
      | .ok (line, length) =>
          match linesFrom rest (offset + 1) (length - 1) with
          | .error e => .error e
          | .ok lines => .ok ({ offset, length, line } :: lines)

/-- The lines of the code. -/
def lines (code : List UInt8) : Except ListingError (List PlacedLine) := linesFrom code 0 0

/-- The listing as text, one line each. -/
def render (code : List UInt8) : Except ListingError String :=
  (lines code).map fun all => String.join (all.map fun l => l.render ++ "\n")

end Listing

end BytecodeMachine
