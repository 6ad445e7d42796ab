import BytecodeMachine.Listing
import BytecodeMachine.Proofs.Instruction.Decoding

/-!
# Reading lines by index

A line is read off the front of a list of bytes.  Here the same line is read by a cursor that goes
through the code, and every byte and every slice is taken by its index.  An index that lies outside
gives nothing at all, which is apart from an answer that says where the code ends too early.

* `Indexed.slice?` and `Indexed.long?` take bytes by index;
* `Indexed.operand?`, `Indexed.field?` and `Indexed.line?` read with a cursor;
* `Indexed.line?_eq_some` says that no index lies outside, and that the line is the same.
-/

namespace BytecodeMachine

/-! ## The line at an offset -/

theorem FieldKind.length_of_take? {bytes front : List UInt8} {n : Nat}
    (htake : take? bytes n = some front) : front.length = n := by
  unfold take? at htake
  dsimp only at htake
  split at htake
  · cases htake
  · cases htake
    rw [List.length_take] at *
    omega

namespace Listing

variable {code rest : List UInt8} {offset : Nat} {value : UInt8}

/-- Behind the end of the code there is no line. -/
theorem lineAt_of_le (hoffset : code.length ≤ offset) :
    lineAt code offset = .error (.outOfRange offset) := by
  rw [lineAt, Line.readAt, List.drop_eq_nil_of_le hoffset]
  rfl

/-- A byte that is no opcode is a line. -/
theorem lineAt_of_none (hahead : code.drop offset = value :: rest)
    (hop : Opcode.ofByte? value = none) :
    lineAt code offset = .ok { offset, length := 1, line := .byte value } := by
  rw [lineAt, Line.readAt, hahead]
  unfold Line.read
  simp only [hop]

/-- An opcode is a line together with its fields. -/
theorem lineAt_of_some {opcode : Opcode} (hahead : code.drop offset = value :: rest)
    (hop : Opcode.ofByte? value = some opcode) :
    lineAt code offset =
      match FieldKind.readAll? opcode.layout.fields 0 rest with
      | none => .error (.truncated offset opcode)
      | some (fields, length) =>
          .ok { offset, length := 1 + length, line := .instruction { opcode, fields } } := by
  rw [lineAt, Line.readAt, hahead]
  unfold Line.read
  simp only [hop, Instruction.read?]
  cases FieldKind.readAll? opcode.layout.fields 0 rest <;> rfl

end Listing

namespace Indexed

/-! ## Bytes by index -/

/-- The bytes from `start` on up to `stop`, if all of them are there. -/
def slice? (bytes : List UInt8) (start stop : Nat) : Option (List UInt8) :=
  if start ≤ stop ∧ stop ≤ bytes.length then some ((bytes.drop start).take (stop - start)) else none

/-- Four bytes from an index on, taken one by one. -/
def long? (bytes : List UInt8) (index : Nat) : Option (List UInt8) := do
  let a ← bytes[index]?
  let b ← bytes[index + 1]?
  let c ← bytes[index + 2]?
  let d ← bytes[index + 3]?
  return [a, b, c, d]

theorem slice?_of_le {bytes : List UInt8} {start stop : Nat} (hstart : start ≤ stop)
    (hstop : stop ≤ bytes.length) :
    slice? bytes start stop = some ((bytes.drop start).take (stop - start)) :=
  if_pos ⟨hstart, hstop⟩

theorem long?_of_le {bytes : List UInt8} {index : Nat} (hlong : index + 4 ≤ bytes.length) :
    long? bytes index = some ((bytes.drop index).take 4) := by
  have hdrop : 4 ≤ (bytes.drop index).length := by
    rw [List.length_drop]
    omega
  have hat : ∀ k, bytes[index + k]? = (bytes.drop index)[k]? := by
    intro k
    rw [List.getElem?_drop]
  have hfirst := hat 0
  rw [Nat.add_zero] at hfirst
  rw [long?, hfirst, hat 1, hat 2, hat 3]
  match hbytes : bytes.drop index with
  | a :: b :: c :: d :: rest => rfl
  | [] | [_] | [_, _] | [_, _, _] =>
      rw [hbytes] at hdrop
      simp at hdrop

/-! ## Operands -/

/-- The descriptor behind a mode byte, with the displacement of a far mode. -/
def descriptor? (bytes : List UInt8) (far : Bool) : Option (UInt8 × Option Int32) := do
  let descriptor ← bytes[1]?
  if far then
    let front ← long? bytes 2
    return (descriptor, some (LittleEndian.displacement front))
  else return (descriptor, none)

/-- The operand of a mode byte at the front of the bytes, its extension taken by index. -/
def extended? (bytes : List UInt8) (size : Nat) (byte : UInt8) : Option Operand :=
  match Mode.ofByte byte with
  | .register bank r => some (.register bank r)
  | .indirect r => some (.indirect r)
  | .stepped s r => some (.stepped s r)
  | .displaced r => do
      let front ← long? bytes 1
      return .displaced r (LittleEndian.displacement front)
  | .indexed width scale far => do
      let (descriptor, d) ← descriptor? bytes far
      return .indexed (descriptor &&& 0xf) (descriptor >>> 4) width scale d
  | .sameAsDestination => some .sameAsDestination
  | .codeRelative => do
      let front ← long? bytes 1
      return .codeRelative (LittleEndian.displacement front)
  | .codeIndexed detail far => do
      let (descriptor, d) ← descriptor? bytes far
      return .codeIndexed detail descriptor d
  | .immediate => do
      let value ← slice? bytes 1 (1 + min size 8)
      return .immediate (LittleEndian.word64 value)
  | .absolute => do
      let address ← slice? bytes 1 9
      return .absolute (LittleEndian.word64 address)
  | .reserved => some (.reserved byte)

/-- The operand at the front of the bytes with its length, or that the bytes end before it does. -/
def operand? (bytes : List UInt8) (size : Nat) : Option (Option (Operand × Nat)) :=
  match bytes.head? with
  | none => some none
  | some byte =>
      let length := 1 + (Mode.ofByte byte).extensionLength size
      if bytes.length < length then some none
      else do
        let o ← extended? bytes size byte
        return some (o, length)

theorem descriptor?_of_le {byte : UInt8} {rest : List UInt8} {far : Bool}
    (hlong : (if far then 5 else 1) ≤ rest.length) :
    descriptor? (byte :: rest) far =
      some ((rest.take (if far then 5 else 1)).headD 0,
        if far then some (LittleEndian.displacement (rest.take (if far then 5 else 1)).tail)
        else none) := by
  cases rest with
  | nil => cases far <;> simp at hlong
  | cons descriptor more =>
      cases far with
      | false => rfl
      | true =>
          have hfour : 2 + 4 ≤ (byte :: descriptor :: more).length := by simpa using hlong
          simp only [descriptor?, long?_of_le hfour]
          rfl

/-- A complete extension is taken without an index outside. -/
theorem extended?_of_le {byte : UInt8} {rest : List UInt8} {size : Nat}
    (hlong : (Mode.ofByte byte).extensionLength size ≤ rest.length) :
    extended? (byte :: rest) size byte =
      some (.ofParts byte (rest.take ((Mode.ofByte byte).extensionLength size))) := by
  have hlength : (byte :: rest).length = rest.length + 1 := List.length_cons
  unfold extended? Operand.ofParts
  cases hmode : Mode.ofByte byte with
  | register bank r => rfl
  | indirect r => rfl
  | stepped s r => rfl
  | displaced r =>
      have hfour : 4 ≤ rest.length := by rwa [hmode] at hlong
      dsimp only
      rw [long?_of_le (by omega)]
      rfl
  | indexed width scale far =>
      rw [hmode] at hlong
      dsimp only
      rw [descriptor?_of_le hlong]
      rfl
  | sameAsDestination => rfl
  | codeRelative =>
      have hfour : 4 ≤ rest.length := by rwa [hmode] at hlong
      dsimp only
      rw [long?_of_le (by omega)]
      rfl
  | codeIndexed detail far =>
      rw [hmode] at hlong
      dsimp only
      rw [descriptor?_of_le hlong]
      rfl
  | immediate =>
      have hsize : size ≤ rest.length := by rwa [hmode] at hlong
      have hplace : 1 + min size 8 - 1 = min 8 size := by omega
      dsimp only
      rw [slice?_of_le (by omega) (by omega), hplace, ← List.take_take]
      rfl
  | absolute =>
      have height : 8 ≤ rest.length := by rwa [hmode] at hlong
      dsimp only
      rw [slice?_of_le (by omega) (by omega)]
      rfl
  | reserved => rfl

theorem operand?_eq_some (bytes : List UInt8) (size : Nat) :
    operand? bytes size = some (Operand.parse? bytes size) := by
  cases bytes with
  | nil => rfl
  | cons byte rest =>
      rw [Operand.parse?_cons]
      simp only [operand?, List.head?_cons, List.length_cons]
      by_cases hshort : rest.length < (Mode.ofByte byte).extensionLength size
      · rw [if_pos (by omega), if_pos hshort]
      · rw [if_neg (by omega), if_neg hshort, extended?_of_le (by omega)]
        rfl

/-! ## Fields -/

/-- The next bytes, or that the code ends before. -/
def next? (code : List UInt8) (cursor n : Nat) : Option (Option (List UInt8)) :=
  if code.length < cursor + n then some none
  else (slice? code cursor (cursor + n)).map some

def byteField? (code : List UInt8) (cursor : Nat) (make : UInt8 → Field) :
    Option (Option (Field × Nat)) := do
  let some front ← next? code cursor 1 | return none
  let byte ← front[0]?
  return some (make byte, 1)

def longField? (code : List UInt8) (cursor : Nat) (make : List UInt8 → Field) :
    Option (Option (Field × Nat)) := do
  let some front ← next? code cursor 4 | return none
  let bytes ← long? front 0
  return some (make bytes, 4)

def operandField? (code : List UInt8) (cursor size : Nat) : Option (Option (Field × Nat)) := do
  let ahead ← slice? code cursor code.length
  let some (o, length) ← operand? ahead size | return none
  return some (.operand o, length)

/-- The field of a kind at a cursor with its length, or that the code ends before it does. -/
def field? (code : List UInt8) (cursor size : Nat) (kind : FieldKind) :
    Option (Option (Field × Nat)) :=
  match kind with
  | .hostModule => byteField? code cursor .hostModule
  | .branch => longField? code cursor (fun front => .branch (LittleEndian.displacement front))
  | .condition arity => byteField? code cursor (.condition arity)
  | .operand fixed => operandField? code cursor fixed
  | .sizedOperand => operandField? code cursor size
  | .registerPair bank => byteField? code cursor (.registerPair bank)
  | .mask => longField? code cursor (fun front => .mask (LittleEndian.word32 front))
  | .frameRegister => byteField? code cursor .frameRegister
  | .displacement =>
      longField? code cursor (fun front => .displacement (LittleEndian.displacement front))

/-- The fields of an instruction from a cursor on with their length, or that the code ends before
them. -/
def fields? (code : List UInt8) :
    List FieldKind → (size cursor : Nat) → Option (Option (List Field × Nat))
  | [], _, _ => some (some ([], 0))
  | kind :: kinds, size, cursor => do
      let some (field, length) ← field? code cursor size kind | return none
      let some (fields, more) ← fields? code kinds (field.operandSize size) (cursor + length)
        | return none
      return some (field :: fields, length + more)

section

variable {code : List UInt8} {cursor : Nat} (hcursor : cursor ≤ code.length)

include hcursor

theorem next?_eq_some (n : Nat) :
    next? code cursor n = some (FieldKind.take? (code.drop cursor) n) := by
  unfold next? FieldKind.take?
  dsimp only
  rw [List.length_take, List.length_drop]
  by_cases hshort : code.length < cursor + n
  · rw [if_pos hshort, if_pos (by omega)]
  · rw [if_neg hshort, if_neg (by omega), slice?_of_le (by omega) (by omega),
      Nat.add_sub_cancel_left]
    rfl

theorem byteField?_eq_some (make : UInt8 → Field) :
    byteField? code cursor make = some (FieldKind.readByte? (code.drop cursor) make) := by
  unfold byteField?
  rw [next?_eq_some hcursor]
  cases code.drop cursor <;> rfl

theorem longField?_eq_some (make : List UInt8 → Field) :
    longField? code cursor make = some (FieldKind.readLong? (code.drop cursor) make) := by
  unfold longField? FieldKind.readLong?
  rw [next?_eq_some hcursor]
  cases htake : FieldKind.take? (code.drop cursor) 4 with
  | none => rfl
  | some front =>
      have hfront : front.length = 4 := FieldKind.length_of_take? htake
      have hbytes : long? front 0 = some front := by
        rw [long?_of_le (by omega), List.drop_zero, List.take_of_length_le (by omega)]
      simp only [Option.bind_eq_bind, Option.bind_some, hbytes]
      rfl

theorem operandField?_eq_some (size : Nat) :
    operandField? code cursor size = some (FieldKind.readOperand? (code.drop cursor) size) := by
  have hahead : slice? code cursor code.length = some (code.drop cursor) := by
    rw [slice?_of_le hcursor (Nat.le_refl _), ← List.length_drop, List.take_length]
  unfold operandField? FieldKind.readOperand?
  rw [hahead]
  simp only [Option.bind_eq_bind, Option.bind_some, operand?_eq_some]
  cases Operand.parse? (code.drop cursor) size <;> rfl

theorem field?_eq_some (size : Nat) (kind : FieldKind) :
    field? code cursor size kind = some (kind.read? size (code.drop cursor)) := by
  cases kind with
  | hostModule => exact byteField?_eq_some hcursor _
  | branch => exact longField?_eq_some hcursor _
  | condition arity => exact byteField?_eq_some hcursor _
  | operand fixed => exact operandField?_eq_some hcursor fixed
  | sizedOperand => exact operandField?_eq_some hcursor size
  | registerPair bank => exact byteField?_eq_some hcursor _
  | mask => exact longField?_eq_some hcursor _
  | frameRegister => exact byteField?_eq_some hcursor _
  | displacement => exact longField?_eq_some hcursor _

/-- The cursor stays within the code from field to field. -/
theorem fields?_eq_some (kinds : List FieldKind) (size : Nat) :
    fields? code kinds size cursor =
      some (FieldKind.readAll? kinds size (code.drop cursor)) := by
  induction kinds generalizing size cursor with
  | nil => rfl
  | cons kind kinds ih =>
      simp only [fields?, FieldKind.readAll?, field?_eq_some hcursor, Option.bind_eq_bind,
        Option.bind_some]
      cases hread : kind.read? size (code.drop cursor) with
      | none => rfl
      | some answer =>
          obtain ⟨field, n⟩ := answer
          have hlength := FieldKind.length_read?_le hread
          rw [List.length_drop] at hlength
          simp only [ih (show cursor + n ≤ code.length by omega), List.drop_drop,
            Option.bind_some]
          cases FieldKind.readAll? kinds (field.operandSize size) (code.drop (cursor + n)) <;> rfl

end

/-! ## Lines -/

/-- The line at an offset, every byte of it taken by index. -/
def line? (code : List UInt8) (offset : Nat) : Option (Except ListingError PlacedLine) :=
  match code[offset]? with
  | none => some (.error (.outOfRange offset))
  | some value =>
      match Opcode.ofByte? value with
      | none => some (.ok { offset, length := 1, line := .byte value })
      | some opcode => do
          let some (fields, length) ← fields? code opcode.layout.fields 0 (offset + 1)
            | return .error (.truncated offset opcode)
          return .ok { offset, length := 1 + length, line := .instruction { opcode, fields } }

/-- A line is read without an index outside of the code. -/
theorem line?_eq_some (code : List UInt8) (offset : Nat) :
    line? code offset = some (Listing.lineAt code offset) := by
  unfold line?
  by_cases hinside : offset < code.length
  · have hahead := List.drop_eq_getElem_cons hinside
    rw [List.getElem?_eq_getElem hinside]
    dsimp only
    cases hop : Opcode.ofByte? code[offset] with
    | none => rw [Listing.lineAt_of_none hahead hop]
    | some opcode =>
        rw [Listing.lineAt_of_some hahead hop]
        simp only [fields?_eq_some hinside, Option.bind_eq_bind, Option.bind_some]
        cases FieldKind.readAll? opcode.layout.fields 0 (code.drop (offset + 1)) <;> rfl
  · rw [List.getElem?_eq_none (by omega), Listing.lineAt_of_le (by omega)]

end Indexed

end BytecodeMachine
