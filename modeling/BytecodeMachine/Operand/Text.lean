import BytecodeMachine.Operand.Basic
import BytecodeMachine.Text.Radix

/-!
# Operands as text

The form in which listings show an operand.
-/

namespace BytecodeMachine.Operand

/-- The name of a general register. -/
def registerName (r : UInt8) : String :=
  if r = 15 then "sp" else "r" ++ Text.decimal r.toNat

/-- A signed displacement in base ten. -/
def displacementText (d : Int32) : String := Text.signedDecimal d.toInt

/-- Base and scaled index in parentheses. -/
def indexText (base index : UInt8) (width : Width) (scale : UInt8) : String :=
  "(" ++ registerName base ++ ", " ++ registerName index ++ "." ++ width.letter ++ "*" ++
    Text.decimal ((1 : UInt8) <<< scale).toNat ++ ")"

/-- The text of an operand. -/
def text : Operand → String
  | register .general r => registerName r
  | register .float r => "fp" ++ Text.decimal r.toNat
  | indirect r => "(" ++ registerName r ++ ")"
  | stepped .postIncrement r => "(" ++ registerName r ++ ")+"
  | stepped .postDecrement r => "(" ++ registerName r ++ ")-"
  | stepped .preIncrement r => "+(" ++ registerName r ++ ")"
  | stepped .preDecrement r => "-(" ++ registerName r ++ ")"
  | displaced r d => displacementText d ++ "(" ++ registerName r ++ ")"
  | indexed base index width scale none => indexText base index width scale
  | indexed base index width scale (some d) =>
      displacementText d ++ indexText base index width scale
  | sameAsDestination => "="
  | codeRelative d => displacementText d ++ "(pc)"
  | codeLabel label => label ++ "(pc)"
  | codeIndexed detail descriptor none =>
      "<pc-index " ++ Text.hex 0 detail.toNat ++ " " ++ Text.hex 2 descriptor.toNat ++ ">"
  | codeIndexed detail descriptor (some d) =>
      "<pc-index " ++ Text.hex 0 detail.toNat ++ " " ++ Text.hex 2 descriptor.toNat ++ " " ++
        displacementText d ++ ">"
  | immediate value => "#" ++ Text.hex 0 value.toNat
  | absolute address => "[" ++ Text.hex 0 address.toNat ++ "]"
  | reserved byte => "<reserved " ++ Text.hex 2 byte.toNat ++ ">"

end BytecodeMachine.Operand
