/-!
# Little-endian numbers

A number becomes a list of bytes, least significant first, and back.  Bits past
the last byte are dropped, and a number too short for its field is followed by
zero bytes.  The main statements: encoding keeps the requested length, and
decoding an encoding gives the number modulo the capacity of `n` bytes.
-/

namespace BytecodeMachine.LittleEndian

/-- The low `n` bytes of a number, least significant first. -/
def encode : Nat → Nat → List UInt8
  | 0, _ => []
  | n + 1, value => UInt8.ofNat value :: encode n (value / 256)

/-- The number whose bytes, least significant first, are given. -/
def decode : List UInt8 → Nat
  | [] => 0
  | byte :: rest => byte.toNat + 256 * decode rest

/-- How many numbers `n` bytes can hold. -/
def capacity : Nat → Nat
  | 0 => 1
  | n + 1 => 256 * capacity n

@[simp]
theorem length_encode (n value : Nat) : (encode n value).length = n := by
  induction n generalizing value with
  | zero => rfl
  | succ n ih => simp [encode, ih]

theorem decode_encode (n value : Nat) : decode (encode n value) = value % capacity n := by
  induction n generalizing value with
  | zero => simp [encode, decode, capacity, Nat.mod_one]
  | succ n ih =>
      have byte : (UInt8.ofNat value).toNat = value % 256 := UInt8.toNat_ofNat'
      rw [encode, decode, ih, byte, capacity, Nat.mod_mul]

theorem decode_lt (bytes : List UInt8) : decode bytes < capacity bytes.length := by
  induction bytes with
  | nil => simp [decode, capacity]
  | cons byte rest ih =>
      have small : byte.toNat < 256 := byte.toNat_lt
      simp only [decode, List.length_cons, capacity]
      omega

/-- A 64-bit word from its bytes. -/
def word64 (bytes : List UInt8) : UInt64 := UInt64.ofNat (decode bytes)

/-- A 32-bit word from its bytes. -/
def word32 (bytes : List UInt8) : UInt32 := UInt32.ofNat (decode bytes)

/-- A signed displacement from its four bytes. -/
def displacement (bytes : List UInt8) : Int32 := (word32 bytes).toInt32

/-- The four bytes of a signed displacement. -/
def ofDisplacement (d : Int32) : List UInt8 := encode 4 d.toUInt32.toNat

/-- A signed displacement as a 64-bit address offset. -/
def extend (d : Int32) : UInt64 := d.toInt64.toUInt64

end BytecodeMachine.LittleEndian
