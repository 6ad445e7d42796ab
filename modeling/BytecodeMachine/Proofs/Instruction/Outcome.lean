import BytecodeMachine.Proofs.Instruction.Boundary
import BytecodeMachine.Proofs.Instruction.Effect

/-!
# What comes of the instruction at the cursor

The two descriptions of an instruction, where it ends (`Instruction.Answers`) and what it does
(`Instruction.Effect` and `Instruction.Failure`), are brought together for the instruction that
the listing shows at the cursor.

* `State.instruction?` is that instruction with its length.
* `State.handled_ok` says what a step without a fault has done.
* `State.handled_error` says in which of four ways a step stops with a fault.

All facts about single steps follow from these two by cases.
-/

namespace BytecodeMachine

namespace State

/-- The instruction at the cursor and its length, where the listing shows a whole one. -/
def instruction? (s : State) : Option (Instruction × Nat) :=
  match Listing.lineAt s.codeBytes s.cursor with
  | .ok ⟨_, n, .instruction i⟩ => some (i, n)
  | _ => none

/-- What programs can observe once the opcode byte is fetched. -/
def started (s : State) : Core :=
  { s.toCore with status := .running, cursor := s.cursor + 1 }

variable {host : HostTable} {s t : State} {byte : UInt8} {rest : List UInt8} {i : Instruction}
  {n : Nat}

theorem instruction?_of_nil (hahead : s.ahead = []) : s.instruction? = none := by
  unfold instruction?
  rw [Listing.lineAt_of_nil hahead]

theorem instruction?_of_byte (hahead : s.ahead = byte :: rest)
    (hop : Opcode.ofByte? byte = none) : s.instruction? = none := by
  unfold instruction?
  rw [Listing.lineAt_of_byte hahead hop]

theorem instruction?_of_opcode {op : Opcode} (hahead : s.ahead = byte :: rest)
    (hop : Opcode.ofByte? byte = some op) :
    s.instruction? =
      (FieldKind.readAll? op.layout.fields 0 rest).map
        fun parsed => (⟨op, parsed.1⟩, 1 + parsed.2) := by
  unfold instruction?
  rw [Listing.lineAt_of_opcode hahead hop]
  cases FieldKind.readAll? op.layout.fields 0 rest <;> rfl

/-- What a listed instruction says about the bytes ahead of the cursor. -/
theorem exists_of_instruction? (hlisted : s.instruction? = some (i, n)) :
    ∃ byte rest m, s.ahead = byte :: rest ∧ Opcode.ofByte? byte = some i.opcode ∧
      FieldKind.readAll? i.opcode.layout.fields 0 rest = some (i.fields, m) ∧ n = 1 + m := by
  cases hahead : s.ahead with
  | nil =>
      rw [instruction?_of_nil hahead] at hlisted
      cases hlisted
  | cons byte rest =>
      cases hop : Opcode.ofByte? byte with
      | none =>
          rw [instruction?_of_byte hahead hop] at hlisted
          cases hlisted
      | some op =>
          rw [instruction?_of_opcode hahead hop] at hlisted
          obtain ⟨⟨fields, m⟩, hfields, hpair⟩ := Option.map_eq_some_iff.mp hlisted
          cases hpair
          exact ⟨byte, rest, m, rfl, hop, hfields, rfl⟩

theorem cursor_lt_of_ahead (hahead : s.ahead = byte :: rest) : s.cursor < s.code.length := by
  have hlength := s.length_ahead
  rw [hahead, List.length_cons] at hlength
  omega

/-- A listed instruction lies within the code. -/
theorem instruction?_le (hlisted : s.instruction? = some (i, n)) :
    s.cursor + n ≤ s.code.length := by
  obtain ⟨byte, rest, m, hahead, -, hfields, rfl⟩ := exists_of_instruction? hlisted
  have hlength := s.length_ahead
  have hm := FieldKind.length_readAll?_le hfields
  rw [hahead, List.length_cons] at hlength
  omega

/-- The fields of the instruction behind the opcode byte. -/
theorem readAll?_behindOpcode {op : Opcode} (hahead : s.ahead = byte :: rest) :
    FieldKind.readAll? op.layout.fields 0 (s.behindOpcode byte).ahead =
      FieldKind.readAll? op.layout.fields 0 rest := by
  rw [ahead_behindOpcode hahead]

theorem handled_of_running (hrunning : s.status = .running) :
    s.handled host = Exec.instruction host s := by
  unfold handled
  rw [← hrunning]

/-! ## Without a fault -/

/-- Control has gone where the instruction sends it: to its target, inside the code, or behind
the instruction. -/
def Arrives (s : State) (i : Instruction) (n : Nat) (t : State) : Prop :=
  match i.transfer? s.toCore (s.cursor + 1) (s.cursor + n) with
  | none => t.cursor = s.cursor + n
  | some a => t.cursor < s.code.length ∧ s.codeAddress t.cursor = a

/-- A step without a fault has had the effect of the instruction that is listed at the cursor,
and control is where it should be. -/
theorem handled_ok {flow : Flow} (hhandled : s.handled host = .ok flow t) :
    ∃ i n, s.instruction? = some (i, n) ∧
      i.Effect host s.started (s.cursor + 1) (s.cursor + n) flow t.toCore ∧
      s.Arrives i n t := by
  cases hahead : s.ahead with
  | nil =>
      obtain ⟨f, u, hfault⟩ := handled_of_nil host hahead
      rw [hhandled] at hfault
      cases hfault
  | cons byte rest =>
      have hperform := handled_of_cons host hahead
      rw [hhandled] at hperform
      cases hop : Opcode.ofByte? byte with
      | none =>
          rw [hop] at hperform
          cases hperform
      | some op =>
          rw [hop] at hperform
          simp only at hperform
          have hreads := Exec.perform_endsAsListed host op (s.behindOpcode byte)
          unfold Exec.Reads at hreads
          rw [← hperform] at hreads
          obtain ⟨f, u, hfault, -⟩ | ⟨fields, m, hfields, hbehaves⟩ :=
            Exec.perform_performsAs host op (s.behindOpcode byte)
          · rw [← hperform] at hfault
            cases hfault
          · rw [← hperform] at hbehaves
            rw [hfields] at hreads
            rw [readAll?_behindOpcode hahead] at hfields
            refine ⟨⟨op, fields⟩, 1 + m, ?_, ?_, ?_⟩
            · rw [instruction?_of_opcode hahead hop, hfields]
              rfl
            · rw [← Nat.add_assoc]
              exact hbehaves
            · have hplace := hreads.1
              rw [Instruction.transfer?_moved] at hplace
              unfold Arrives
              rw [← Nat.add_assoc]
              exact hplace

/-- The same for the instruction that is known to be listed. -/
theorem effect_of_handled {flow : Flow} (hlisted : s.instruction? = some (i, n))
    (hhandled : s.handled host = .ok flow t) :
    i.Effect host s.started (s.cursor + 1) (s.cursor + n) flow t.toCore ∧ s.Arrives i n t := by
  obtain ⟨j, m, hother, heffect, harrives⟩ := handled_ok hhandled
  rw [hlisted] at hother
  cases hother
  exact ⟨heffect, harrives⟩

/-- An instruction whose handler goes through once the fields are there has its effect in a step,
however much fuel there is, and control is where it should be. -/
theorem exists_effect (host : HostTable) (hactive : s.status.isActive = true)
    (hlisted : s.instruction? = some (i, n))
    (hgoes : ∀ (u : State) (m : Nat),
      FieldKind.readAll? i.opcode.layout.fields 0 u.ahead = some (i.fields, m) →
      n = 1 + m → u.toCore = s.started → ∃ t, Exec.perform host i.opcode u = .ok .next t) :
    ∃ t, (∀ fuel, s.step host fuel = some t) ∧
      i.Effect host s.started (s.cursor + 1) (s.cursor + n) .next t.toCore ∧
      s.Arrives i n t := by
  obtain ⟨byte, rest, m, hahead, hbyte, hfields, hn⟩ := exists_of_instruction? hlisted
  rw [← readAll?_behindOpcode hahead] at hfields
  obtain ⟨t, hperform⟩ := hgoes (s.behindOpcode byte) m hfields hn rfl
  have hhandled : s.handled host = .ok .next t := by
    rw [handled_of_cons host hahead, hbyte]
    exact hperform
  exact ⟨t, step_of_handled hactive hhandled, effect_of_handled hlisted hhandled⟩

/-! ## With a fault -/

/-- How a step from `s` stops with a fault: there is no byte at the cursor, the byte is no
opcode, the instruction stops while its fields are decoded, or it fails when they are. -/
inductive Stops (s : State) : Fault → State → Prop
  | atEnd {a : UInt64} {t : State} (hnone : s.instruction? = none)
      (ht : t.toCore = { s.toCore with status := .running }) : Stops s (.cursorOutOfRange a) t
  | unknown {byte : UInt8} {t : State} (hnone : s.instruction? = none)
      (hinside : s.cursor < s.code.length) (ht : t.toCore = s.started) :
      Stops s (.invalidOpcode byte) t
  | decoding {byte : UInt8} {rest : List UInt8} {op : Opcode} {f : Fault} {t : State}
      (hahead : s.ahead = byte :: rest) (hop : Opcode.ofByte? byte = some op)
      (hdecoding : (s.behindOpcode byte).Decoding op.layout.fields 0 t)
      (hf : f.isOfCode = true)
      (hwhole : ∀ i n, s.instruction? = some (i, n) →
        (∀ a, f ≠ .cursorOutOfRange a) ∧ i.opcode ≠ .rts ∧ i.opcode ≠ .unlk) :
      Stops s f t
  | failing {i : Instruction} {n : Nat} {f : Fault} {t : State}
      (hlisted : s.instruction? = some (i, n))
      (hfailure : i.Failure s.started (s.cursor + 1) (s.cursor + n) f t.toCore) : Stops s f t

/-- A return that is listed at the cursor is not stopped by its fields. -/
theorem stops_rts {f : Fault} (hahead : s.ahead = byte :: rest)
    (hop : Opcode.ofByte? byte = some .rts)
    (hrts : Exec.rts (s.behindOpcode byte) = .error f t) : s.Stops f t := by
  have hbehaves := Exec.behaves_rts {} (s.behindOpcode byte)
  rw [hrts] at hbehaves
  exact .failing (i := ⟨.rts, []⟩) (n := 1) (instruction?_of_opcode hahead hop) hbehaves

/-- The end of a frame is stopped by its field only where the code is cut off. -/
theorem stops_unlk {f : Fault} (hahead : s.ahead = byte :: rest)
    (hop : Opcode.ofByte? byte = some .unlk)
    (hunlk : Exec.unlk (s.behindOpcode byte) = .error f t) : s.Stops f t := by
  cases rest with
  | nil =>
      have hfetch := Exec.fetchByte_of_nil (s.behindOpcode byte) (ahead_behindOpcode hahead)
      have hstop := hunlk.symm.trans (Exec.bind_of_error hfetch)
      cases hstop
      refine .decoding hahead hop (decoding_of_moved (Onward.refl _) rfl) rfl ?_
      intro i n hlisted
      rw [instruction?_of_opcode hahead hop] at hlisted
      cases hlisted
  | cons frame rest =>
      have hfetch := Exec.fetchByte_of_cons (s.behindOpcode byte) (ahead_behindOpcode hahead)
      have hbehaves := Exec.behaves_unlink {} frame (s.behindOpcode byte)
      have hgoes := hunlk.symm.trans (Exec.bind_of_ok hfetch)
      rw [← hgoes] at hbehaves
      exact .failing (i := ⟨.unlk, [.frameRegister frame]⟩) (n := 1 + 1)
        (instruction?_of_opcode hahead hop) hbehaves

/-- A step with a fault stops in one of the four ways. -/
theorem handled_error {f : Fault} (hhandled : s.handled host = .error f t) : s.Stops f t := by
  cases hahead : s.ahead with
  | nil =>
      have hfault : s.handled host = .error (.cursorOutOfRange (s.codeAddress (s.cursor + 1)))
          { s with status := .running, latch := { s.latch with offset := s.cursor } } := by
        unfold handled Exec.instruction Exec.fetchOpcode
        rw [bind_assoc, Exec.bind_modify, bind_assoc]
        exact Exec.bind_of_error (Exec.fetchByte_of_nil _ hahead)
      rw [hhandled] at hfault
      cases hfault
      exact .atEnd (instruction?_of_nil hahead) rfl
  | cons byte rest =>
      have hperform := handled_of_cons host hahead
      rw [hhandled] at hperform
      cases hop : Opcode.ofByte? byte with
      | none =>
          rw [hop] at hperform
          cases hperform
          exact .unknown (instruction?_of_byte hahead hop) (cursor_lt_of_ahead hahead) rfl
      | some op =>
          rw [hop] at hperform
          simp only at hperform
          by_cases hrts : op = .rts
          · subst hrts
            exact stops_rts hahead hop hperform.symm
          by_cases hunlk : op = .unlk
          · subst hunlk
            exact stops_unlk hahead hop hperform.symm
          have hlisted := instruction?_of_opcode hahead hop
          obtain ⟨g, u, hfault, hdecoding, hof, hwhole⟩ | ⟨fields, m, hfields, hbehaves⟩ :=
            Exec.perform_performsAs host op (s.behindOpcode byte)
          · rw [← hperform] at hfault
            cases hfault
            refine .decoding hahead hop hdecoding hof ?_
            intro i n hsome
            rw [hlisted] at hsome
            obtain ⟨parsed, hparsed, hpair⟩ := Option.map_eq_some_iff.mp hsome
            cases hpair
            refine ⟨hwhole ?_, hrts, hunlk⟩
            rw [readAll?_behindOpcode hahead, hparsed]
            simp
          · rw [← hperform] at hbehaves
            rw [readAll?_behindOpcode hahead] at hfields
            rw [hfields] at hlisted
            refine .failing hlisted ?_
            rw [← Nat.add_assoc]
            exact hbehaves

end State

end BytecodeMachine
