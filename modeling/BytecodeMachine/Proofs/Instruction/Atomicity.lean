import BytecodeMachine.Proofs.Instruction.Outcome

/-!
# What a fault leaves behind

An instruction that faults has in general done nothing but decode its operands: memory, the
float registers and the call depth are as they were, and general registers have moved only
where operands stepped them.  Three instructions act before they fault:

* a counter that is counted down is stored before the branch is checked;
* a return lowers the call depth and pops before the jump is checked;
* the end of a frame moves the stack pointer before it pops.

`State.OnlyDecoded` states the rule, `State.LeavesMore` the three exceptions, and the main
statement says which of the two holds.
-/

namespace BytecodeMachine

namespace FieldKind

/-- Fewer fields, read from the same bytes, hold the first of the operands. -/
theorem operands_prefix {part kinds : List FieldKind} {size n m : Nat} {bytes : List UInt8}
    {fields others : List Field} (hpart : part <+: kinds)
    (hfields : readAll? part size bytes = some (fields, n))
    (hothers : readAll? kinds size bytes = some (others, m)) :
    operands part size fields <+: operands kinds size others := by
  induction part generalizing kinds size bytes fields others n m with
  | nil => exact List.nil_prefix
  | cons kind part ih =>
      cases kinds with
      | nil => exact absurd hpart (by simp)
      | cons kind' kinds =>
          obtain ⟨rfl, hrest⟩ := List.cons_prefix_cons.mp hpart
          cases hread : kind.read? size bytes with
          | none => simp [readAll?, hread] at hfields
          | some parsed =>
              obtain ⟨field, length⟩ := parsed
              simp only [readAll?, hread] at hfields hothers
              split at hfields
              · cases hfields
              · rename_i fields' more hfields'
                split at hothers
                · cases hothers
                · rename_i others' more' hothers'
                  cases hfields
                  cases hothers
                  have htail := ih hrest hfields' hothers'
                  cases field with
                  | operand o => exact List.cons_prefix_cons.mpr ⟨rfl, htail⟩
                  | _ => exact htail

end FieldKind

namespace State

/-! ## The rule -/

/-- These are the first operands of the instruction at the cursor: those of an initial part of
its fields that the code holds. -/
def FirstOperands (s : State) (operands : List (Operand × Nat)) : Prop :=
  operands = [] ∨
    ∃ byte rest op part fields n, s.ahead = byte :: rest ∧ Opcode.ofByte? byte = some op ∧
      part <+: op.layout.fields ∧ FieldKind.readAll? part 0 rest = some (fields, n) ∧
      operands = FieldKind.operands part 0 fields

/-- From `s` to `t` nothing has happened but the decoding of these operands. -/
structure OnlyDecoded (s : State) (operands : List (Operand × Nat)) (t : State) : Prop where
  memory : t.memory = s.memory
  heap : t.heap = s.heap
  code : t.code = s.code
  stack : t.stack = s.stack
  depth : t.callDepth = s.callDepth
  floats : ∀ r, t.registers.get .float r = s.registers.get .float r
  registers : t.registers = s.registers.stepped operands

variable {host : HostTable} {s t : State} {i : Instruction} {n : Nat} {f : Fault}
  {operands : List (Operand × Nat)}

theorem firstOperands_whole (hlisted : s.instruction? = some (i, n)) :
    s.FirstOperands i.operands := by
  obtain ⟨byte, rest, m, hahead, hop, hfields, -⟩ := exists_of_instruction? hlisted
  exact Or.inr ⟨byte, rest, i.opcode, _, i.fields, m, hahead, hop, List.prefix_rfl, hfields, rfl⟩

theorem FirstOperands.prefix_whole (hfirst : s.FirstOperands operands)
    (hlisted : s.instruction? = some (i, n)) : operands <+: i.operands := by
  obtain rfl | ⟨byte, rest, op, part, fields, m, hahead, hop, hpart, hfields, rfl⟩ := hfirst
  · exact List.nil_prefix
  · obtain ⟨byte', rest', m', hahead', hop', hfields', -⟩ := exists_of_instruction? hlisted
    rw [hahead] at hahead'
    cases hahead'
    rw [hop] at hop'
    cases hop'
    exact FieldKind.operands_prefix hpart hfields hfields'

/-- A state that differs from `s` in cursor, status and stepped registers alone. -/
theorem onlyDecoded_of_eq {k : Nat} {status : Status}
    (ht : t.toCore = { s.toCore with
      cursor := k
      status := status
      registers := s.registers.stepped operands }) : s.OnlyDecoded operands t := by
  constructor
  case floats =>
    intro r
    rw [ht]
    exact RegisterFile.get_stepped_float _ _ r
  all_goals rw [ht]

theorem onlyDecoded_of_decoding {byte : UInt8} {rest : List UInt8} {op : Opcode}
    (hahead : s.ahead = byte :: rest) (hop : Opcode.ofByte? byte = some op)
    (hdecoding : (s.behindOpcode byte).Decoding op.layout.fields 0 t) :
    ∃ operands, s.FirstOperands operands ∧ s.OnlyDecoded operands t := by
  obtain ⟨part, fields, m, hpart, hfields, -, -, ht⟩ := hdecoding
  rw [ahead_behindOpcode hahead] at hfields
  exact ⟨_, Or.inr ⟨byte, rest, op, part, fields, m, hahead, hop, hpart, hfields, rfl⟩,
    onlyDecoded_of_eq ht⟩

theorem onlyDecoded_of_resolved {k : Nat}
    (ht : t.toCore = { i.resolved s.started with cursor := k }) : s.OnlyDecoded i.operands t :=
  onlyDecoded_of_eq ht

/-! ## The exceptions -/

/-- What the three instructions that act before they fault leave behind. -/
inductive LeavesMore (s : State) : Instruction → Nat → Fault → State → Prop
  | counter {n : Nat} {o : Operand} {d : Int32} {l : Location} {a : UInt64} {count : UInt32}
      {t : State}
      (hleaves : ((s.cursor + n : Nat) : Int) + d.toInt < 0 ∨
        s.code.length ≤ ((s.cursor + n : Nat) : Int) + d.toInt)
      (hlocation : o.location? 4 s.registers s.code.base (s.cursor + 1)
        (s.cursor + 1 + o.extent 4) none = some l)
      (hcount : count =
        (Core.read { s.toCore with registers := o.moved 4 s.registers } l .long).toUInt32 - 1)
      (hstays : count ≠ 0)
      (ht : t.toCore =
        { Core.write { s.toCore with registers := o.moved 4 s.registers } l .long
            count.toUInt64 with
          cursor := s.cursor + n
          status := .running }) :
      LeavesMore s ⟨.dbnz, [.operand o, .branch d]⟩ n (.cursorOutOfRange a) t
  | giveBack {n : Nat} {f : Fault} {t : State} (hdepth : 1 < s.callDepth)
      (hf : f = if s.registers.sp = 0 then .nullAddress Exec.popMode
        else .cursorOutOfRange (s.memory.read s.registers.sp .quad))
      (ht : t.toCore =
        { s.toCore with
          callDepth := s.callDepth - 1
          registers := if s.registers.sp = 0 then s.registers
            else s.registers.setSp (s.registers.sp + 8)
          cursor := s.cursor + n
          status := .running }) :
      LeavesMore s ⟨.rts, []⟩ n f t
  | unlink {n : Nat} {byte : UInt8} {t : State}
      (hframe : s.general (.ofByte (byte &&& 0xf)) = 0)
      (ht : t.toCore =
        { s.toCore with
          registers := s.registers.setSp 0
          cursor := s.cursor + n
          status := .running }) :
      LeavesMore s ⟨.unlk, [.frameRegister byte]⟩ n (.nullAddress Exec.popMode) t

end State

/-- The instruction acts before it faults in this way. -/
def Instruction.ActsBefore (i : Instruction) (f : Fault) : Prop :=
  (i.opcode = .dbnz ∧ ∃ a, f = .cursorOutOfRange a) ∨ i.opcode = .rts ∨ i.opcode = .unlk

namespace State

variable {host : HostTable} {s t : State} {i : Instruction} {n : Nat} {f : Fault}

theorem not_actsBefore_of_fault (hop : i.opcode ≠ .rts ∧ i.opcode ≠ .unlk)
    (hf : i.opcode = .dbnz → ∀ a, f ≠ .cursorOutOfRange a) : ¬i.ActsBefore f := by
  rintro (⟨hdbnz, a, ha⟩ | hrts | hunlk)
  · exact hf hdbnz a ha
  · exact hop.1 hrts
  · exact hop.2 hunlk

/-- The fields of a counter instruction stand at the front of its target. -/
theorem location?_of_counter {o : Operand} {d : Int32} {l : Location} {file : RegisterFile}
    {code : UInt64} {start : Nat}
    (htarget : Instruction.target? ⟨.dbnz, [.operand o, .branch d]⟩ file code start =
      some (.long, l)) :
    o.location? 4 file code start (start + o.extent 4) none = some l := by
  obtain ⟨l', hl, hpair⟩ := Option.bind_eq_some_iff.mp htarget
  cases hpair
  exact hl

theorem fields_of_rts {fields : List Field}
    (hlisted : s.instruction? = some (⟨.rts, fields⟩, n)) : fields = [] := by
  obtain ⟨byte, rest, m, -, -, hfields, -⟩ := exists_of_instruction? hlisted
  cases hfields
  rfl

/-- A failure after the fields either is nothing but decoding, or is one of the exceptions. -/
theorem leavesMore_or_onlyDecoded (hlisted : s.instruction? = some (i, n))
    (hfailure : i.Failure s.started (s.cursor + 1) (s.cursor + n) f t.toCore) :
    (i.ActsBefore f ∧ s.LeavesMore i n f t) ∨
      (¬i.ActsBefore f ∧ s.OnlyDecoded i.operands t) := by
  obtain ⟨op, fields⟩ := i
  generalize ht : t.toCore = d at hfailure
  cases hfailure with
  | refused hop hf =>
      exact Or.inr ⟨not_actsBefore_of_fault hop.2 fun h => absurd h hop.1,
        onlyDecoded_of_resolved ht⟩
  | division htarget =>
      refine Or.inr ⟨not_actsBefore_of_fault ?_ (by simp), onlyDecoded_of_resolved ht⟩
      have hwidth := Instruction.width_of_target? htarget
      constructor <;> rintro rfl <;> cases hwidth
  | hostCall hop hfields =>
      cases hop
      cases hfields
      exact Or.inr ⟨not_actsBefore_of_fault (by simp) (by simp), onlyDecoded_of_eq ht⟩
  | counter hop hfields hleaves htarget hcount hstays =>
      cases hop
      cases hfields
      refine Or.inl ⟨Or.inl ⟨rfl, _, rfl⟩, ?_⟩
      have hlocation := location?_of_counter htarget
      refine .counter hleaves hlocation ?_ hstays ?_
      · rw [hcount]
        exact congrArg (fun x : UInt64 => x.toUInt32 - 1) (Core.read_of_same rfl rfl _ _)
      · rw [ht]
        rename_i l _ _ _ _
        cases l <;> rfl
  | returnNull hop hdepth hsp =>
      cases hop
      cases fields_of_rts hlisted
      have hzero : s.registers.sp = 0 := hsp
      refine Or.inl ⟨Or.inr (Or.inl rfl), .giveBack hdepth ?_ ?_⟩
      · rw [if_pos hzero]
      · rw [if_pos hzero]
        exact ht
  | returnAstray hop hdepth hsp =>
      cases hop
      cases fields_of_rts hlisted
      have hplace : ¬s.registers.sp = 0 := hsp
      refine Or.inl ⟨Or.inr (Or.inl rfl), .giveBack hdepth ?_ ?_⟩
      · rw [if_neg hplace]
        rfl
      · rw [if_neg hplace]
        exact ht
  | unlinkNull hop hfields hframe =>
      cases hop
      cases hfields
      exact Or.inl ⟨Or.inr (Or.inr rfl), .unlink hframe ht⟩

/-! ## Every fault -/

/-- What a step from `s` that stops with the fault `f` in the state `t` leaves behind. -/
structure FaultsCleanly (s : State) (f : Fault) (t : State) : Prop where
  /-- Unless the instruction acts before it faults, it has only decoded its first operands. -/
  decoded : (∀ i n, s.instruction? = some (i, n) → ¬i.ActsBefore f) →
    ∃ operands, s.FirstOperands operands ∧ s.OnlyDecoded operands t
  exceptions : ∀ i n, s.instruction? = some (i, n) → i.ActsBefore f → s.LeavesMore i n f t
  /-- A division by zero has resolved its operands and stored nothing.  Its destination is as it
  was, but for a register that an operand steps. -/
  zeroDivide : f = .zeroDivide → ∃ i n w l, s.instruction? = some (i, n) ∧
    i.target? s.registers s.code.base (s.cursor + 1) = some (w, l) ∧
    s.OnlyDecoded i.operands t ∧
    ((∀ r, l = .register .general r → ∀ entry ∈ i.operands, ¬entry.1.Steps r) →
      t.read l w = s.read l w)
  unknownHostCall : ∀ module function, f = .unknownHostCall module function →
    t.registers = s.registers
  /-- A call or push that faults has pushed nothing. -/
  push : ∀ i n, s.instruction? = some (i, n) →
    i.opcode = .bsr ∨ i.opcode = .jsr ∨ i.opcode = .pea ∨ i.opcode = .link →
    t.memory = s.memory ∧ t.callDepth = s.callDepth ∧
      ((∀ entry ∈ i.operands, ¬entry.1.Steps .stackPointer) → t.registers.sp = s.registers.sp)

theorem OnlyDecoded.read {operands : List (Operand × Nat)} (honly : s.OnlyDecoded operands t)
    {l : Location} {w : Width}
    (hstays : ∀ r, l = .register .general r → ∀ entry ∈ operands, ¬entry.1.Steps r) :
    t.read l w = s.read l w := by
  cases l with
  | memory a =>
      show t.memory.read a w = s.memory.read a w
      rw [honly.memory]
  | register bank r =>
      show w.truncate (t.registers.get bank r) = w.truncate (s.registers.get bank r)
      rw [honly.registers, RegisterFile.get_stepped]
      rintro rfl
      exact hstays r rfl

/-- A step that stops is either one of the exceptions or nothing but decoding. -/
theorem Stops.leaves (hstops : s.Stops f t) :
    (∃ i n, s.instruction? = some (i, n) ∧ i.ActsBefore f ∧ s.LeavesMore i n f t) ∨
      ((∀ i n, s.instruction? = some (i, n) → ¬i.ActsBefore f) ∧
        ∃ operands, s.FirstOperands operands ∧ s.OnlyDecoded operands t) := by
  cases hstops with
  | atEnd hnone ht =>
      exact Or.inr ⟨by simp [hnone], [], Or.inl rfl, onlyDecoded_of_eq ht⟩
  | unknown hnone hinside ht =>
      exact Or.inr ⟨by simp [hnone], [], Or.inl rfl, onlyDecoded_of_eq ht⟩
  | decoding hahead hop hdecoding hf hwhole =>
      refine Or.inr ⟨fun i n hlisted => ?_, onlyDecoded_of_decoding hahead hop hdecoding⟩
      obtain ⟨hcursor, hopcode⟩ := hwhole i n hlisted
      exact not_actsBefore_of_fault hopcode fun _ => hcursor
  | @failing i n _ _ hlisted hfailure =>
      obtain ⟨hacts, hmore⟩ | ⟨hnot, honly⟩ := leavesMore_or_onlyDecoded hlisted hfailure
      · exact Or.inl ⟨i, n, hlisted, hacts, hmore⟩
      · refine Or.inr ⟨?_, i.operands, firstOperands_whole hlisted, honly⟩
        intro j k hother
        rw [hlisted] at hother
        cases hother
        exact hnot

/-- A fault that does not come from the code is a failure after the fields. -/
theorem Stops.failure (hstops : s.Stops f t) (hf : f.isOfCode = false)
    (hbyte : ∀ byte, f ≠ .invalidOpcode byte) :
    ∃ i n, s.instruction? = some (i, n) ∧
      i.Failure s.started (s.cursor + 1) (s.cursor + n) f t.toCore := by
  cases hstops with
  | atEnd => cases hf
  | unknown => exact absurd rfl (hbyte _)
  | decoding hahead hop hdecoding hof =>
      rw [hof] at hf
      cases hf
  | failing hlisted hfailure => exact ⟨_, _, hlisted, hfailure⟩

theorem Stops.zeroDivide (hstops : s.Stops .zeroDivide t) :
    ∃ i n w l, s.instruction? = some (i, n) ∧
      i.target? s.registers s.code.base (s.cursor + 1) = some (w, l) ∧
      s.OnlyDecoded i.operands t := by
  obtain ⟨i, n, hlisted, hfailure⟩ := hstops.failure rfl (by simp)
  generalize ht : t.toCore = d at hfailure
  cases hfailure with
  | refused hop hf => simp [Fault.isOfCode] at hf
  | division htarget => exact ⟨i, n, _, _, hlisted, htarget, onlyDecoded_of_resolved ht⟩

theorem Stops.unknownHostCall {module : UInt8} {function : UInt16}
    (hstops : s.Stops (.unknownHostCall module function) t) : t.registers = s.registers := by
  obtain ⟨i, n, -, hfailure⟩ := hstops.failure rfl (by simp)
  generalize ht : t.toCore = d at hfailure
  cases hfailure with
  | refused hop hf => simp [Fault.isOfCode] at hf
  | hostCall hop hfields => rfl

/-- Whatever it is that stops a step, the state is left clean. -/
theorem Stops.faultsCleanly (hstops : s.Stops f t) : s.FaultsCleanly f t := by
  constructor
  case decoded =>
    intro hnever
    obtain ⟨i, n, hlisted, hacts, -⟩ | ⟨-, honly⟩ := hstops.leaves
    · exact absurd hacts (hnever i n hlisted)
    · exact honly
  case exceptions =>
    intro i n hlisted hacts
    obtain ⟨j, k, hlisted', -, hmore⟩ | ⟨hnever, -⟩ := hstops.leaves
    · rw [hlisted] at hlisted'
      cases hlisted'
      exact hmore
    · exact absurd hacts (hnever i n hlisted)
  case zeroDivide =>
    rintro rfl
    obtain ⟨i, n, w, l, hlisted, htarget, honly⟩ := hstops.zeroDivide
    exact ⟨i, n, w, l, hlisted, htarget, honly, honly.read⟩
  case unknownHostCall =>
    rintro module function rfl
    exact hstops.unknownHostCall
  case push =>
    intro i n hlisted hop
    have hnot : ¬i.ActsBefore f := by
      rcases hop with hop | hop | hop | hop <;> simp [Instruction.ActsBefore, hop]
    obtain ⟨j, k, hlisted', hacts, -⟩ | ⟨-, operands, hfirst, honly⟩ := hstops.leaves
    · rw [hlisted] at hlisted'
      cases hlisted'
      exact absurd hacts hnot
    · refine ⟨honly.memory, honly.depth, fun hstays => ?_⟩
      have hdecoded := hfirst.prefix_whole hlisted
      rw [honly.registers]
      exact RegisterFile.get_stepped _ fun _ entry hentry =>
        hstays entry (hdecoded.subset hentry)

end State

/-- A step that faults records the fault, keeps the host functions, and leaves the state as it
was but for the operands that it decoded; the exceptions are a counter that has been counted
down, a return, and the end of a frame. -/
theorem fault_leaves_state_clean (m : Machine) (f : Fault) (t : State)
    (hactive : m.status.isActive = true) (hfault : m.state.handled m.host = .error f t) :
    (∀ fuel, m.step fuel = some { m with state := t.raise f }) ∧ m.state.FaultsCleanly f t := by
  refine ⟨fun fuel => ?_, (State.handled_error hfault).faultsCleanly⟩
  obtain ⟨u, hu, hstep⟩ := State.raises_of_handled hactive hfault
  rw [hfault] at hu
  cases hu
  rw [Machine.step, hstep fuel]
  rfl

/-- A machine inside a call that is about to return with nothing on its stack. -/
def Machine.returnsAstray : Machine :=
  { state :=
      { State.load [6] ⟨AddressSpace.stackBase, 64⟩ with status := .running, callDepth := 2 } }

/-- The return pops an address outside the code: it has lowered the call depth and moved the
stack pointer, and memory is as it was. -/
theorem returnsAstray_leaves_state_clean :
    ∃ t : State, (∀ fuel, Machine.returnsAstray.step fuel =
        some { Machine.returnsAstray with state := t.raise (.cursorOutOfRange 0) }) ∧
      t.callDepth = 1 ∧ t.registers.sp = AddressSpace.stackBase + 72 ∧
      t.memory = Machine.returnsAstray.state.memory := by
  have hlisted : Machine.returnsAstray.state.instruction? = some (⟨.rts, []⟩, 1) := by
    decide +kernel
  have hstops : (match Machine.returnsAstray.state.handled {} with
      | .error f _ => some f
      | .ok _ _ => none) = some (.cursorOutOfRange 0) := by decide +kernel
  cases hhandled : Machine.returnsAstray.state.handled {} with
  | ok flow t =>
      rw [hhandled] at hstops
      cases hstops
  | error f t =>
      rw [hhandled] at hstops
      cases hstops
      obtain ⟨hstep, hclean⟩ := fault_leaves_state_clean Machine.returnsAstray _ t rfl hhandled
      refine ⟨t, hstep, ?_⟩
      cases hclean.exceptions _ 1 hlisted (Or.inr (Or.inl rfl)) with
      | giveBack hdepth hf ht =>
          rw [ht]
          exact ⟨rfl, by decide +kernel, rfl⟩

end BytecodeMachine
