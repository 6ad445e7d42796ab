import BytecodeMachine.LittleEndian
import BytecodeMachine.Text.Radix

/-!
# Program images

An image is a header of sixteen bytes, the magic word and a reserved word,
followed by the code.
-/

namespace BytecodeMachine

/-- A program as stored. -/
structure Image where
  reserved : UInt64
  code : List UInt8
  deriving DecidableEq, Repr, Inhabited

/-- Why bytes are no image. -/
inductive ImageError where
  | tooShort (length : Nat)
  | badMagic (found : UInt64)
  deriving DecidableEq, Repr

namespace Image

/-- The length of the header. -/
def headerSize : Nat := 16

/-- The first eight bytes of every image, `MC64000X` read as a word. -/
def magic : UInt64 := 0x583030303436434d

/-- An image of bare code. -/
def ofCode (code : List UInt8) : Image := { reserved := 0, code }

/-- The stored form. -/
def toBytes (i : Image) : List UInt8 :=
  LittleEndian.encode 8 magic.toNat ++ LittleEndian.encode 8 i.reserved.toNat ++ i.code

/-- Read the stored form. -/
def ofBytes (bytes : List UInt8) : Except ImageError Image :=
  if bytes.length < headerSize then .error (.tooShort bytes.length)
  else
    let found := LittleEndian.word64 (bytes.take 8)
    if found ≠ magic then .error (.badMagic found)
    else
      .ok
        { reserved := LittleEndian.word64 ((bytes.drop 8).take 8)
          code := bytes.drop headerSize }

end Image

/-- The wording of an image error. -/
def ImageError.message : ImageError → String
  | tooShort length =>
      "image too short: " ++ Text.decimal length ++ " bytes, header needs " ++
        Text.decimal Image.headerSize
  | badMagic found =>
      "invalid image magic " ++ Text.hex 16 found.toNat ++ ", expected " ++
        Text.hex 16 Image.magic.toNat

end BytecodeMachine
