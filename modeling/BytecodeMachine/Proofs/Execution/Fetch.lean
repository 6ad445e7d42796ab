import BytecodeMachine.Execution.Stream

/-!
# Fetches as readings of the code

An instruction part is run on a state and either goes on or faults; the two `bind` lemmas
below let a proof follow it one part at a time.

A fetch takes its bytes from memory at the cursor's address.  Here it is tied to the list
of code bytes that is still ahead of the cursor, which is what listings and operand
parsers read: a fetch of `n` bytes gives the first `n` bytes ahead, or faults where fewer
are left.
-/

namespace BytecodeMachine

namespace Exec

variable {α β : Type}

/-- A part that goes on hands its value and its state to the rest. -/
theorem bind_of_ok {x : Exec α} {k : α → Exec β} {s t : State} {a : α}
    (hx : x s = .ok a t) : (x >>= k) s = k a t := by
  show EStateM.bind x k s = k a t
  simp only [EStateM.bind, hx]

/-- A part that faults leaves the rest out. -/
theorem bind_of_error {x : Exec α} {k : α → Exec β} {s t : State} {f : Fault}
    (hx : x s = .error f t) : (x >>= k) s = .error f t := by
  show EStateM.bind x k s = .error f t
  simp only [EStateM.bind, hx]

@[simp]
theorem pure_apply (a : α) (s : State) : (pure a : Exec α) s = .ok a s := rfl

@[simp]
theorem bind_get (k : State → Exec α) (s : State) : ((get : Exec State) >>= k) s = k s s := rfl

@[simp]
theorem bind_modify (g : State → State) (k : PUnit → Exec α) (s : State) :
    ((modify g : Exec PUnit) >>= k) s = k ⟨⟩ (g s) := rfl

@[simp]
theorem bind_throw (f : Fault) (k : α → Exec β) (s : State) :
    ((throw f : Exec α) >>= k) s = .error f s := rfl

end Exec

/-! ## Bytes of memory as one list -/

namespace Memory

theorem drop_bytes (m : Memory) (address : UInt64) (n k : Nat) :
    (m.bytes address n).drop k = m.bytes (address + UInt64.ofNat k) (n - k) := by
  induction k generalizing address n with
  | zero => simp
  | succ k ih =>
      cases n with
      | zero => simp [bytes]
      | succ n =>
          have hstep : address + UInt64.ofNat (k + 1) = address + 1 + UInt64.ofNat k := by
            rw [Nat.add_comm k 1, UInt64.ofNat_add, ← UInt64.add_assoc]
            rfl
          rw [bytes, List.drop_succ_cons, ih, hstep, Nat.add_sub_add_right]

theorem take_bytes (m : Memory) (address : UInt64) (n k : Nat) (hk : k ≤ n) :
    (m.bytes address n).take k = m.bytes address k := by
  induction k generalizing address n with
  | zero => simp [bytes]
  | succ k ih =>
      cases n with
      | zero => omega
      | succ n => rw [bytes, List.take_succ_cons, ih _ _ (by omega), bytes]

end Memory

/-! ## The code ahead of the cursor -/

namespace State

/-- The code bytes from the cursor on. -/
def ahead (s : State) : List UInt8 := s.codeBytes.drop s.cursor

@[simp]
theorem length_codeBytes (s : State) : s.codeBytes.length = s.code.length := by
  simp [Core.codeBytes]

@[simp]
theorem length_ahead (s : State) : s.ahead.length = s.code.length - s.cursor := by
  simp [ahead]

/-- Moving the cursor on passes the first bytes ahead.  Registers and latch have no part
in it. -/
theorem ahead_skip (s : State) (n : Nat) (f : RegisterFile) (latch : Latch) :
    State.ahead { s with cursor := s.cursor + n, registers := f, latch := latch } =
      s.ahead.drop n := by
  simp only [ahead, Core.codeBytes, List.drop_drop]

/-- The bytes at the cursor's address are the first ones ahead. -/
theorem bytes_codeAddress (s : State) (n : Nat) (hn : s.cursor + n ≤ s.code.length) :
    s.memory.bytes (s.codeAddress s.cursor) n = s.ahead.take n := by
  rw [ahead, Core.codeBytes, Memory.drop_bytes, Memory.take_bytes _ _ _ _ (by omega)]
  rfl

end State

/-! ## Fetching -/

namespace Exec

variable {α : Type}

theorem advance_of_le (s : State) (n : Nat) (hn : s.cursor + n ≤ s.code.length) :
    advance n s = .ok s.cursor { s with cursor := s.cursor + n } := by
  rw [advance, if_neg (by omega)]

theorem advance_of_lt (s : State) (n : Nat) (hn : s.code.length < s.cursor + n) :
    advance n s = .error (.cursorOutOfRange (s.codeAddress (s.cursor + n))) s := by
  rw [advance, if_pos hn]

theorem fetch_of_le (s : State) (n : Nat) (hn : s.cursor + n ≤ s.code.length) :
    fetch n s = .ok (s.ahead.take n) { s with cursor := s.cursor + n } := by
  rw [fetch, bind_of_ok (advance_of_le s n hn), bind_get, pure_apply]
  rw [← State.bytes_codeAddress s n hn]
  rfl

theorem fetch_of_lt (s : State) (n : Nat) (hn : s.code.length < s.cursor + n) :
    fetch n s = .error (.cursorOutOfRange (s.codeAddress (s.cursor + n))) s := by
  rw [fetch, bind_of_error (advance_of_lt s n hn)]

theorem fetchByte_of_cons (s : State) {byte : UInt8} {rest : List UInt8}
    (hahead : s.ahead = byte :: rest) :
    fetchByte s = .ok byte { s with cursor := s.cursor + 1 } := by
  have hlength := s.length_ahead
  rw [hahead, List.length_cons] at hlength
  rw [fetchByte, bind_of_ok (fetch_of_le s 1 (by omega)), hahead]
  rfl

theorem fetchByte_of_nil (s : State) (hahead : s.ahead = []) :
    fetchByte s = .error (.cursorOutOfRange (s.codeAddress (s.cursor + 1))) s := by
  have hlength := s.length_ahead
  rw [hahead, List.length_nil] at hlength
  rw [fetchByte, bind_of_error (fetch_of_lt s 1 (by omega))]

/-- The fetches of numbers read a fixed count of bytes and decode them. -/
theorem fetch_decoded_of_le (decode : List UInt8 → α) (s : State) (n : Nat)
    (hn : s.cursor + n ≤ s.code.length) :
    (fetch n >>= fun bytes => pure (decode bytes)) s =
      .ok (decode (s.ahead.take n)) { s with cursor := s.cursor + n } := by
  rw [bind_of_ok (fetch_of_le s n hn), pure_apply]

theorem fetch_decoded_of_lt (decode : List UInt8 → α) (s : State) (n : Nat)
    (hn : s.code.length < s.cursor + n) :
    (fetch n >>= fun bytes => pure (decode bytes)) s =
      .error (.cursorOutOfRange (s.codeAddress (s.cursor + n))) s := by
  rw [bind_of_error (fetch_of_lt s n hn)]

theorem fetchQuad_of_le (s : State) (hn : s.cursor + 8 ≤ s.code.length) :
    fetchQuad s =
      .ok (LittleEndian.word64 (s.ahead.take 8)) { s with cursor := s.cursor + 8 } :=
  fetch_decoded_of_le _ s 8 hn

theorem fetchDisplacement_of_le (s : State) (hn : s.cursor + 4 ≤ s.code.length) :
    fetchDisplacement s =
      .ok (LittleEndian.displacement (s.ahead.take 4)) { s with cursor := s.cursor + 4 } :=
  fetch_decoded_of_le _ s 4 hn

theorem fetchQuad_of_lt (s : State) (hn : s.code.length < s.cursor + 8) :
    fetchQuad s = .error (.cursorOutOfRange (s.codeAddress (s.cursor + 8))) s :=
  fetch_decoded_of_lt _ s 8 hn

theorem fetchDisplacement_of_lt (s : State) (hn : s.code.length < s.cursor + 4) :
    fetchDisplacement s = .error (.cursorOutOfRange (s.codeAddress (s.cursor + 4))) s :=
  fetch_decoded_of_lt _ s 4 hn

end Exec

end BytecodeMachine
