import BytecodeMachine.Proofs.Instruction.Confinement
import BytecodeMachine.Proofs.Instruction.Places

/-!
# An instruction stands in its own bytes

Reading an instruction looks at no byte behind it: two lists that begin with the same `n` bytes
give the same field of length `n`, and so the same fields.  The main statement,
`State.instruction?_of_same`, draws the conclusion for a machine: a listed instruction stays
listed while the bytes of its window stay, whatever is written elsewhere.
-/

namespace BytecodeMachine

/-! ## Readings of the same front -/

theorem Operand.parse?_of_take {bytes other : List UInt8} {size n : Nat} {o : Operand}
    (hparse : parse? bytes size = some (o, n)) (hsame : other.take n = bytes.take n) :
    parse? other size = some (o, n) := by
  obtain ⟨byte, rest, rfl, hlong, rfl, rfl⟩ := exists_of_parse?_some hparse
  rw [Nat.add_comm 1, List.take_succ_cons] at hsame
  cases other with
  | nil => cases hsame
  | cons byte' rest' =>
      rw [List.take_succ_cons] at hsame
      injection hsame with hbyte hrest
      subst hbyte
      have hlength := congrArg List.length hrest
      rw [List.length_take, List.length_take] at hlength
      rw [parse?_cons, if_neg (by omega), hrest]

namespace FieldKind

variable {bytes other : List UInt8} {size n : Nat}

theorem readByte?_of_take {field : Field} {make : UInt8 → Field}
    (hread : readByte? bytes make = some (field, n)) (hsame : other.take n = bytes.take n) :
    readByte? other make = some (field, n) := by
  cases bytes with
  | nil => cases hread
  | cons byte rest =>
      cases hread
      cases other with
      | nil => cases hsame
      | cons byte' rest' =>
          cases hsame
          rfl

theorem readLong?_of_take {field : Field} {make : List UInt8 → Field}
    (hread : readLong? bytes make = some (field, n)) (hsame : other.take n = bytes.take n) :
    readLong? other make = some (field, n) := by
  obtain ⟨front, hfront, hpair⟩ := Option.map_eq_some_iff.mp hread
  cases hpair
  -- The four bytes are all that the reading depends on.
  have htake : take? other 4 = take? bytes 4 := by
    unfold take?
    rw [hsame]
  unfold readLong?
  rw [htake, hfront]
  rfl

theorem readOperand?_of_take {field : Field}
    (hread : readOperand? bytes size = some (field, n)) (hsame : other.take n = bytes.take n) :
    readOperand? other size = some (field, n) := by
  obtain ⟨⟨o, length⟩, hparse, hpair⟩ := Option.map_eq_some_iff.mp hread
  cases hpair
  unfold readOperand?
  rw [Operand.parse?_of_take hparse hsame]
  rfl

/-- A field is read from its own bytes. -/
theorem read?_of_take {kind : FieldKind} {field : Field}
    (hread : kind.read? size bytes = some (field, n)) (hsame : other.take n = bytes.take n) :
    kind.read? size other = some (field, n) := by
  cases kind with
  | hostModule => exact readByte?_of_take hread hsame
  | branch => exact readLong?_of_take hread hsame
  | condition arity => exact readByte?_of_take hread hsame
  | operand fixed => exact readOperand?_of_take hread hsame
  | sizedOperand => exact readOperand?_of_take hread hsame
  | registerPair bank => exact readByte?_of_take hread hsame
  | mask => exact readLong?_of_take hread hsame
  | frameRegister => exact readByte?_of_take hread hsame
  | displacement => exact readLong?_of_take hread hsame

/-- The fields of an instruction are read from its own bytes. -/
theorem readAll?_of_take {kinds : List FieldKind} {fields : List Field}
    (hread : readAll? kinds size bytes = some (fields, n)) (hsame : other.take n = bytes.take n) :
    readAll? kinds size other = some (fields, n) := by
  induction kinds generalizing size bytes other fields n with
  | nil => exact hread
  | cons kind kinds ih =>
      obtain ⟨field, m, others, more, hfield, hrest, rfl, rfl⟩ := exists_of_readAll?_cons hread
      have hfront : other.take m = bytes.take m := by
        have hfirst := congrArg (List.take m) hsame
        rwa [List.take_take, List.take_take, Nat.min_eq_left (by omega)] at hfirst
      have hback : (other.drop m).take more = (bytes.drop m).take more := by
        have hlast := congrArg (List.drop m) hsame
        rwa [List.drop_take, List.drop_take, Nat.add_sub_cancel_left] at hlast
      exact readAll?_cons_of_some (read?_of_take hfield hfront) (ih hrest hback)

end FieldKind

/-! ## The instruction of a machine -/

/-- An address at a distance below its length lies in a window. -/
theorem Window.holds_add {w : Window} {k : Nat} (hk : k < w.length) :
    w.Holds (w.start + UInt64.ofNat k) := by
  unfold Holds
  rw [UInt64.add_comm, UInt64.add_sub_cancel, UInt64.toNat_ofNat']
  exact Nat.lt_of_le_of_lt (Nat.mod_le _ _) hk

/-- Memories that hold the same bytes in a window hold the same list of bytes there. -/
theorem Memory.bytes_of_window {m m' : Memory} {a : UInt64} {n : Nat}
    (hsame : ∀ b, Window.Holds ⟨a, n⟩ b → m.byte b = m'.byte b) : m.bytes a n = m'.bytes a n :=
  bytes_congr fun _ hi => hsame _ (Window.holds_add (w := ⟨a, n⟩) hi)

namespace State

variable {s t : State} {i : Instruction} {n : Nat}

/-- The addresses of an instruction of `n` bytes at the cursor. -/
def instructionWindow (s : State) (n : Nat) : Window := ⟨s.codeAddress s.cursor, n⟩

/-- An instruction that is listed at the cursor is listed in every machine that has the same bytes
at its addresses. -/
theorem instruction?_of_same (hlisted : s.instruction? = some (i, n)) (hcode : t.code = s.code)
    (hcursor : t.cursor = s.cursor)
    (hmemory : ∀ a, (s.instructionWindow n).Holds a → t.memory.byte a = s.memory.byte a) :
    t.instruction? = some (i, n) := by
  have hle := instruction?_le hlisted
  have hfront : t.ahead.take n = s.ahead.take n := by
    rw [← bytes_codeAddress t n (by rw [hcode, hcursor]; exact hle), ← bytes_codeAddress s n hle]
    have hplace : t.codeAddress t.cursor = s.codeAddress s.cursor := by
      rw [Core.codeAddress, hcode, hcursor]
      rfl
    rw [hplace]
    exact Memory.bytes_of_window hmemory
  obtain ⟨byte, rest, m, hahead, hop, hfields, rfl⟩ := exists_of_instruction? hlisted
  rw [hahead, Nat.add_comm 1, List.take_succ_cons] at hfront
  cases hother : t.ahead with
  | nil =>
      rw [hother] at hfront
      cases hfront
  | cons byte' rest' =>
      rw [hother, List.take_succ_cons] at hfront
      obtain ⟨rfl, hrest⟩ := List.cons.inj hfront
      rw [instruction?_of_opcode hother hop, FieldKind.readAll?_of_take hfields hrest]
      rfl

end State

end BytecodeMachine
