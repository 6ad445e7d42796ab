import BytecodeMachine.Text.Cluster

/-!
# Typed lines

The line editing that the program gives to the stepper.  A line is typed cluster
by cluster, and a backspace takes the last one away.  For this each cluster leaves
its size, in bytes and kept in a single byte, so from a cluster of 256 bytes or
more only a part is taken.
-/

namespace BytecodeMachine.CommandLine

/-- A line while it is typed. -/
structure TypedLine where
  /-- The characters, last one first. -/
  characters : List Char := []
  /-- The sizes of the clusters not yet taken away, last one first. -/
  sizes : List UInt8 := []

namespace TypedLine

/-- The number of bytes that characters take. -/
def byteCount : List Char → Nat
  | [] => 0
  | c :: rest => c.utf8Size + byteCount rest

/-- Drop characters until `n` bytes are gone. -/
def dropBytes : Nat → List Char → List Char
  | _, [] => []
  | 0, characters => characters
  | n + 1, c :: rest => dropBytes (n + 1 - c.utf8Size) rest

/-- Type a cluster. -/
def push (t : TypedLine) (cluster : List Char) : TypedLine :=
  { characters := cluster.reverse ++ t.characters
    sizes := UInt8.ofNat (byteCount cluster) :: t.sizes }

/-- Take the last cluster away; nothing happens if there is none. -/
def erase (t : TypedLine) : TypedLine :=
  match t.sizes with
  | [] => t
  | size :: sizes => { characters := dropBytes size.toNat t.characters, sizes := sizes }

/-- A cluster is typed, or it is a backspace. -/
def accept (t : TypedLine) (cluster : List Char) : TypedLine :=
  if cluster = ['\x08'] then t.erase else t.push cluster

/-- The text as it stands. -/
def text (t : TypedLine) : String :=
  String.ofList t.characters.reverse

/-- What is left of a line after it was typed. -/
def ofLine (line : String) : TypedLine :=
  (Text.clusters line).foldl accept {}

/-- The text that is left of a line after it was typed. -/
def edit (line : String) : String := (ofLine line).text

end TypedLine

end BytecodeMachine.CommandLine
