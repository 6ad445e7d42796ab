import BytecodeMachine.Proofs.Instruction.Outcome

/-!
# Calls and returns

What calls, returns and pushes of an address do to the stack is a matter of one word.  Where they
can fault, the statements here say when they do: a call whose target lies in the code faults
exactly if there is no room for the return address, and a return inside a call faults exactly if
the address it pops lies outside the code.
-/

namespace BytecodeMachine

/-! ## What is pushed and popped -/

namespace Instruction

/-- The word that a call or a push of an address puts on the stack. -/
def pushed? (i : Instruction) (c : Core) (start next : Nat) : Option UInt64 :=
  match i.opcode with
  | .bsr | .jsr => some (c.codeAddress next)
  | .pea => i.address? c.registers c.code.base start next
  | _ => none

variable {table : HostTable} {i : Instruction} {c d : Core} {start next : Nat} {flow : Flow}

theorem Effect.push (heffect : i.Effect table c start next flow d)
    (hpushes : i.opcode = .bsr ∨ i.opcode = .jsr ∨ i.opcode = .pea) :
    ∃ a, i.pushed? c start next = some a ∧ (i.resolved c).CanPush ∧
      d.registers = ((i.resolved c).pushed a).registers ∧
      d.memory = ((i.resolved c).pushed a).memory := by
  cases heffect with
  | call hop hroom hinside =>
      refine ⟨_, ?_, hroom, rfl, rfl⟩
      rcases hop with hop | hop <;> simp only [pushed?, hop]
  | pushAddress hop haddress hroom =>
      refine ⟨_, ?_, hroom, rfl, rfl⟩
      simp only [pushed?, hop, haddress]
  | store value htarget =>
      have hwidth := width_of_target? htarget
      rcases hpushes with hop | hop | hop <;> simp [hop, Opcode.destinationWidth?] at hwidth
  | _ => rcases hpushes with hpush | hpush | hpush <;> simp_all

/-- A return that does not complete the run pops a word. -/
theorem Effect.pop (heffect : i.Effect table c start next flow d) (hrts : i.opcode = .rts)
    (hdepth : 1 < c.callDepth) :
    d.registers = c.registers.setSp (c.registers.sp + 8) ∧ d.memory = c.memory := by
  cases heffect with
  | giveBack hop hdeep hinside => exact ⟨rfl, rfl⟩
  | complete hop hshallow => exact absurd hdepth (Int.not_lt.mpr hshallow)
  | store value htarget =>
      have hwidth := width_of_target? htarget
      simp [hrts, Opcode.destinationWidth?] at hwidth
  | _ => simp_all

end Instruction

/-! ## When calls and returns fault -/

/-- The state after a return has popped its address. -/
def State.givenBack (s : State) : State :=
  { s with
    callDepth := s.callDepth - 1
    registers := s.registers.setSp (s.registers.sp + 8) }

namespace Exec

variable {table : HostTable} {s t : State} {fields : List Field} {n : Nat} {a : UInt64}

theorem targetOf_of_codeOffset? {k : Nat} (hoffset : s.codeOffset? a = some k) :
    targetOf a s = .ok k s := by
  unfold targetOf
  simp only [bind_get, hoffset]
  rfl

theorem targetOf_of_outside (houtside : s.codeOffset? a = none) :
    targetOf a s = .error (.cursorOutOfRange a) s := by
  unfold targetOf
  simp only [bind_get, houtside]
  rfl

/-- A call of an address outside the code pushes nothing. -/
theorem call_of_outside (htarget : targetOf a s = .error (.cursorOutOfRange a) s) :
    call a s = .error (.cursorOutOfRange a) s := bind_of_error htarget

theorem rts_of_deep (hdepth : 1 < s.callDepth) (hsp : s.registers.sp ≠ 0) :
    rts s =
      match s.codeOffset? (s.memory.read s.registers.sp .quad) with
      | some k => .ok .next { s.givenBack with cursor := k }
      | none => .error (.cursorOutOfRange (s.memory.read s.registers.sp .quad)) s.givenBack := by
  let a : UInt64 := s.memory.read s.registers.sp .quad
  have hpop : pop { s with callDepth := s.callDepth - 1 } = .ok a s.givenBack :=
    pop_of_ne_zero (s := { s with callDepth := s.callDepth - 1 }) hsp
  unfold rts
  simp only [bind_modify, bind_get]
  rw [if_neg (by omega), bind_of_ok hpop]
  show (jump a >>= fun _ => pure Flow.next) s.givenBack = match s.codeOffset? a with
    | some k => _
    | none => _
  cases hoffset : s.codeOffset? a with
  | none =>
      have hjump : jump a s.givenBack = .error (.cursorOutOfRange a) s.givenBack :=
        bind_of_error (targetOf_of_outside hoffset)
      exact bind_of_error hjump
  | some k =>
      have hjump : jump a s.givenBack = .ok () { s.givenBack with cursor := k } :=
        bind_of_ok (targetOf_of_codeOffset? hoffset)
      exact bind_of_ok hjump

open Instruction (Decoded)

/-- A relative call whose fields are there calls its target. -/
theorem bsr_calls (hread : FieldKind.readAll? Opcode.bsr.layout.fields 0 s.ahead = some (fields, n))
    (htransfer : Instruction.transfer? ⟨.bsr, fields⟩ s.toCore s.cursor (s.cursor + n) = some a) :
    ∃ t, Decoded ⟨.bsr, fields⟩ s (s.cursor + n) t ∧
      bsr s = (call a >>= fun _ => pure Flow.next) t := by
  have hreads : Reads Opcode.bsr.layout.fields 0 bsr s (fun fields next answer =>
      ∀ a, Instruction.transfer? ⟨.bsr, fields⟩ s.toCore s.cursor next = some a →
        ∃ t, Decoded ⟨.bsr, fields⟩ s next t ∧
          answer = (call a >>= fun _ => pure Flow.next) t) := by
    refine reads_long .branch rfl fun d => reads_nil ?_
    intro a htarget
    refine ⟨{ s with cursor := s.cursor + 4 }, rfl, ?_⟩
    rw [bind_get, Core.codeAddress_eq_ofInt, LittleEndian.extend_eq_ofInt, ← UInt64.ofInt_add]
    cases htarget
    rfl
  unfold Reads at hreads
  rw [hread] at hreads
  exact hreads a htransfer

/-- An operand is resolved to its address, unless that is zero. -/
theorem resolveAddress_of_parse?_some {o : Operand} {size length : Nat}
    (hparse : Operand.parse? s.ahead size = some (o, length))
    (haddress : o.address? size s.registers s.code.base s.cursor (s.cursor + length) = some a)
    (hplace : a ≠ 0) :
    ∃ mode, resolveAddress size s = .ok a (s.past o size length mode) := by
  obtain ⟨mode, -, hresolve⟩ := resolve_of_parse?_some s size none hparse
  rw [Operand.location?_of_address? haddress, if_neg hplace] at hresolve
  exact ⟨mode, bind_of_ok hresolve⟩

/-- The operand of a jump or of a call of an address, once its fields are there. -/
theorem exists_resolveAddress {op : Opcode} (hop : op = .jmp ∨ op = .jsr)
    (hread : FieldKind.readAll? op.layout.fields 0 s.ahead = some (fields, n))
    (htransfer : Instruction.transfer? ⟨op, fields⟩ s.toCore s.cursor (s.cursor + n) = some a)
    (hplace : a ≠ 0) :
    ∃ t, Decoded ⟨op, fields⟩ s (s.cursor + n) t ∧ resolveAddress 8 s = .ok a t := by
  have hlayout : op.layout = .target := by rcases hop with rfl | rfl <;> rfl
  rw [hlayout] at hread
  cases hparse : Operand.parse? s.ahead 8 with
  | none =>
      simp only [Layout.fields, FieldKind.readAll?, FieldKind.read?, FieldKind.readOperand?,
        hparse] at hread
      cases hread
  | some parsed =>
      obtain ⟨o, length⟩ := parsed
      simp only [Layout.fields, FieldKind.readAll?, FieldKind.read?, FieldKind.readOperand?,
        hparse] at hread
      cases hread
      have haddress : o.address? 8 s.registers s.code.base s.cursor (s.cursor + length) =
          some a := by
        rcases hop with rfl | rfl <;> exact htransfer
      obtain ⟨mode, haddressed⟩ := resolveAddress_of_parse?_some hparse haddress hplace
      refine ⟨s.past o 8 length mode, ?_, haddressed⟩
      rcases hop with rfl | rfl <;> rfl

/-- A call of an operand's address, unless that is zero. -/
theorem jsr_calls (hread : FieldKind.readAll? Opcode.jsr.layout.fields 0 s.ahead = some (fields, n))
    (htransfer : Instruction.transfer? ⟨.jsr, fields⟩ s.toCore s.cursor (s.cursor + n) = some a)
    (hplace : a ≠ 0) :
    ∃ t, Decoded ⟨.jsr, fields⟩ s (s.cursor + n) t ∧
      jsr s = (call a >>= fun _ => pure Flow.next) t := by
  obtain ⟨t, ht, haddressed⟩ := exists_resolveAddress (Or.inr rfl) hread htransfer hplace
  exact ⟨t, ht, bind_of_ok haddressed⟩

/-- A jump to an operand's address, unless that is zero. -/
theorem jmp_jumps (hread : FieldKind.readAll? Opcode.jmp.layout.fields 0 s.ahead = some (fields, n))
    (htransfer : Instruction.transfer? ⟨.jmp, fields⟩ s.toCore s.cursor (s.cursor + n) = some a)
    (hplace : a ≠ 0) :
    ∃ t, Decoded ⟨.jmp, fields⟩ s (s.cursor + n) t ∧
      jmp s = (jump a >>= fun _ => pure Flow.next) t := by
  obtain ⟨t, ht, haddressed⟩ := exists_resolveAddress (Or.inl rfl) hread htransfer hplace
  exact ⟨t, ht, bind_of_ok haddressed⟩

end Exec

namespace State

variable {host : HostTable} {s t : State} {i : Instruction} {n k : Nat} {a : UInt64}

/-- A return inside a call, with something on the stack. -/
theorem handled_rts (host : HostTable) (hlisted : s.instruction? = some (i, n))
    (hop : i.opcode = .rts) (hdepth : 1 < s.callDepth) (hsp : s.registers.sp ≠ 0) :
    ∃ u : State, u.toCore = s.started ∧
      s.handled host =
        match s.codeOffset? (s.memory.read s.registers.sp .quad) with
        | some k => .ok .next { u.givenBack with cursor := k }
        | none => .error (.cursorOutOfRange (s.memory.read s.registers.sp .quad)) u.givenBack := by
  obtain ⟨byte, rest, m, hahead, hbyte, -, -⟩ := exists_of_instruction? hlisted
  have hperform := handled_of_cons host hahead
  rw [hbyte, hop] at hperform
  refine ⟨s.behindOpcode byte, rfl, hperform.trans ?_⟩
  exact Exec.rts_of_deep hdepth hsp

/-- A transfer whose handler comes to `x` once the fields are decoded. -/
theorem handled_transfer {x : Exec Flow} (hlisted : s.instruction? = some (i, n))
    (htransfer : i.transfer? s.toCore (s.cursor + 1) (s.cursor + n) = some a)
    (hcomes : ∀ (u : State) (m : Nat),
      FieldKind.readAll? i.opcode.layout.fields 0 u.ahead = some (i.fields, m) →
      i.transfer? u.toCore u.cursor (u.cursor + m) = some a →
      ∃ t, i.Decoded u (u.cursor + m) t ∧ Exec.perform host i.opcode u = x t) :
    ∃ u : State, u.toCore = { i.resolved s.started with cursor := s.cursor + n } ∧
      s.handled host = x u := by
  obtain ⟨byte, rest, m, hahead, hbyte, hfields, rfl⟩ := exists_of_instruction? hlisted
  have hperform := handled_of_cons host hahead
  rw [hbyte] at hperform
  rw [← readAll?_behindOpcode hahead] at hfields
  have htarget : i.transfer? (s.behindOpcode byte).toCore (s.cursor + 1)
      (s.cursor + 1 + m) = some a := by
    rw [Nat.add_assoc]
    exact (Instruction.transfer?_moved _ _ _ _ _ _).trans htransfer
  obtain ⟨u, hu, hcall⟩ := hcomes _ _ hfields htarget
  refine ⟨u, ?_, hperform.trans hcall⟩
  rw [← Nat.add_assoc]
  exact hu

/-- A call comes to calling its target once its operand is resolved. -/
theorem handled_call (host : HostTable) (hlisted : s.instruction? = some (i, n))
    (hop : i.opcode = .bsr ∨ i.opcode = .jsr)
    (htransfer : i.transfer? s.toCore (s.cursor + 1) (s.cursor + n) = some a) (hplace : a ≠ 0) :
    ∃ u : State, u.toCore = { i.resolved s.started with cursor := s.cursor + n } ∧
      s.handled host = (Exec.call a >>= fun _ => pure Flow.next) u := by
  refine handled_transfer hlisted htransfer fun u m hread htarget => ?_
  obtain ⟨op, fields⟩ := i
  rcases hop with hop | hop
  · cases hop
    exact Exec.bsr_calls hread htarget
  · cases hop
    exact Exec.jsr_calls hread htarget hplace

/-- A jump comes to jumping to its target once its operand is resolved. -/
theorem handled_jump (host : HostTable) (hlisted : s.instruction? = some (i, n))
    (hop : i.opcode = .jmp)
    (htransfer : i.transfer? s.toCore (s.cursor + 1) (s.cursor + n) = some a) (hplace : a ≠ 0) :
    ∃ u : State, u.toCore = { i.resolved s.started with cursor := s.cursor + n } ∧
      s.handled host = (Exec.jump a >>= fun _ => pure Flow.next) u := by
  refine handled_transfer hlisted htransfer fun u m hread htarget => ?_
  obtain ⟨op, fields⟩ := i
  cases hop
  exact Exec.jmp_jumps hread htarget hplace

/-- A call into the code for which there is room goes through. -/
theorem handled_call_of_canPush (host : HostTable) (hlisted : s.instruction? = some (i, n))
    (hop : i.opcode = .bsr ∨ i.opcode = .jsr)
    (htransfer : i.transfer? s.toCore (s.cursor + 1) (s.cursor + n) = some a) (hplace : a ≠ 0)
    (hoffset : s.codeOffset? a = some k) (hroom : (i.resolved s.started).CanPush) :
    ∃ t, s.handled host = .ok .next t ∧ t.cursor = k := by
  obtain ⟨u, hu, hhandled⟩ := handled_call host hlisted hop htransfer hplace
  have htarget : u.codeOffset? a = some k := by
    rw [hu]
    exact hoffset
  have hpush : u.CanPush := by
    rw [hu]
    exact hroom
  rw [Exec.bind_of_ok (Exec.call_of_canPush (Exec.targetOf_of_codeOffset? htarget) hpush)]
    at hhandled
  exact ⟨_, hhandled, rfl⟩

/-- A call into the code for which there is no room overflows the stack, and has done nothing
but resolve its operand. -/
theorem handled_call_of_overflows (host : HostTable) (hlisted : s.instruction? = some (i, n))
    (hop : i.opcode = .bsr ∨ i.opcode = .jsr)
    (htransfer : i.transfer? s.toCore (s.cursor + 1) (s.cursor + n) = some a) (hplace : a ≠ 0)
    (hoffset : s.codeOffset? a = some k)
    (hfull : Exec.overflows s.stack (i.resolved s.started).registers.sp = true) :
    ∃ t, s.handled host = .error (.stackOverflow (i.resolved s.started).registers.sp) t ∧
      t.toCore = { i.resolved s.started with cursor := s.cursor + n } := by
  obtain ⟨u, hu, hhandled⟩ := handled_call host hlisted hop htransfer hplace
  have htarget : u.codeOffset? a = some k := by
    rw [hu]
    exact hoffset
  have hpush : Exec.push (u.codeAddress u.cursor) u = .error (.stackOverflow u.registers.sp) u := by
    refine if_pos ?_
    rw [hu]
    exact hfull
  rw [Exec.bind_of_error (Exec.call_of_push_error (Exec.targetOf_of_codeOffset? htarget) hpush)]
    at hhandled
  refine ⟨u, ?_, hu⟩
  rw [hhandled, hu]

end State

end BytecodeMachine
