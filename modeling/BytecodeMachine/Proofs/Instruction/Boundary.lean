import BytecodeMachine.Proofs.Host.Conduct
import BytecodeMachine.Proofs.Instruction.Handlers

/-!
# Where an instruction ends

A listing and the executor each know where an instruction ends: the listing adds up the
lengths of its fields, the executor moves the cursor while it fetches and resolves them.
The main statement says that they agree on every code and in every state: the executor
faults where the listing finds the code cut off, and otherwise ends behind the listed
instruction or at the target of a transfer of control that is taken.
-/

namespace BytecodeMachine

/-! ## One step -/

namespace State

/-- What the instruction at the cursor comes to in a step from an active status. -/
def handled (host : HostTable) (s : State) : EStateM.Result Fault State Flow :=
  Exec.instruction host { s with status := .running }

/-- A step raises a fault: its instruction stops with the fault, and the step records it
however much fuel there is. -/
def Raises (host : HostTable) (s : State) (f : Fault) : Prop :=
  ∃ t, s.handled host = .error f t ∧ ∀ fuel, s.step host fuel = some (t.raise f)

variable {host : HostTable} {s t : State}

theorem raises_of_handled {f : Fault} (hactive : s.status.isActive = true)
    (hhandled : s.handled host = .error f t) : s.Raises host f := by
  refine ⟨t, hhandled, fun fuel => ?_⟩
  unfold handled at hhandled
  unfold step execute
  rw [if_pos hactive, hhandled]
  rfl

/-- After an instruction without a fault, a step has done what the instruction did, and
carried out the host function that it called. -/
theorem step_of_handled {flow : Flow} (hactive : s.status.isActive = true)
    (hhandled : s.handled host = .ok flow t) (fuel : Nat) :
    s.step host fuel =
      match flow with
      | .call v =>
          ((v t.toCore).perform (loop host fuel false) t.latch).map
            fun c => { t with toCore := c }
      | _ => some t := by
  unfold handled at hhandled
  unfold step execute
  rw [if_pos hactive, hhandled]
  cases flow with
  | call v =>
      simp only [Option.map_map]
      rfl
  | _ => rfl

/-- The state in which the fields of an instruction are read: the opcode byte is fetched
and noted. -/
def behindOpcode (s : State) (byte : UInt8) : State :=
  { s with
    status := .running
    cursor := s.cursor + 1
    latch := { s.latch with offset := s.cursor, opcode := byte } }

theorem handled_of_nil (host : HostTable) (hahead : s.ahead = []) :
    ∃ f t, s.handled host = .error f t := by
  unfold handled Exec.instruction Exec.fetchOpcode
  rw [bind_assoc, Exec.bind_modify, bind_assoc]
  exact ⟨_, _, Exec.bind_of_error (Exec.fetchByte_of_nil _ hahead)⟩

theorem handled_of_cons (host : HostTable) {byte : UInt8} {rest : List UInt8}
    (hahead : s.ahead = byte :: rest) :
    s.handled host =
      (match Opcode.ofByte? byte with
        | some op => Exec.perform host op
        | none => throw (.invalidOpcode byte) : Exec Flow) (s.behindOpcode byte) := by
  have hfetch : Exec.fetchOpcode { s with status := .running } =
      .ok byte (s.behindOpcode byte) := by
    have hbyte := Exec.fetchByte_of_cons
      { s with status := .running, latch := { s.latch with offset := s.cursor } } hahead
    unfold Exec.fetchOpcode
    rw [Exec.bind_modify]
    exact Exec.bind_of_ok hbyte
  unfold handled Exec.instruction
  refine (Exec.bind_of_ok hfetch).trans ?_
  cases Opcode.ofByte? byte <;> rfl

theorem ahead_behindOpcode {byte : UInt8} {rest : List UInt8} (hahead : s.ahead = byte :: rest) :
    (s.behindOpcode byte).ahead = rest := by
  have hskip := ahead_skip s 1 s.registers s.latch
  rw [hahead] at hskip
  exact hskip

/-- Without a fault, a step ends where its instruction did, and apart from a host function
it leaves the registers and memory of the instruction. -/
theorem step_of_answers {i : Instruction} {flow : Flow} {fuel next : Nat} {u t' : State}
    (hhost : host.Keeps Core.cursor) (hactive : s.status.isActive = true)
    (hhandled : s.handled host = .ok flow t) (hanswers : i.Answers host u next (.ok flow t))
    (hstep : s.step host fuel = some t') :
    t'.cursor = t.cursor ∧ (i.opcode ≠ .host → t' = t) := by
  rw [step_of_handled hactive hhandled] at hstep
  cases flow with
  | call v =>
      obtain ⟨hop, module, function, hlookup⟩ := hanswers.2.2 v rfl
      obtain ⟨c, hperform, hc⟩ := Option.map_eq_some_iff.mp hstep
      refine ⟨?_, fun hnot => absurd hop hnot⟩
      rw [← hc]
      exact Routine.perform_related (Core.Same Core.cursor) (fun h h' => h'.trans h) id
        (fun hinvoke => (given_back_of_invoke hinvoke).1) (hhost module function v hlookup t.toCore)
        hperform
  | halt =>
      injection hstep with ht
      exact ⟨by rw [ht], fun _ => ht.symm⟩
  | next =>
      injection hstep with ht
      exact ⟨by rw [ht], fun _ => ht.symm⟩

end State

/-! ## The listing at the cursor -/

namespace Listing

variable {s : State} {byte : UInt8} {rest : List UInt8}

theorem lineAt_eq (s : State) :
    lineAt s.codeBytes s.cursor =
      match Line.read s.cursor s.ahead with
      | .ok (line, length) => .ok ⟨s.cursor, length, line⟩
      | .error e => .error e := rfl

theorem lineAt_of_nil (hahead : s.ahead = []) :
    lineAt s.codeBytes s.cursor = .error (.outOfRange s.cursor) := by
  rw [lineAt_eq, hahead]
  rfl

theorem lineAt_of_byte (hahead : s.ahead = byte :: rest) (hop : Opcode.ofByte? byte = none) :
    lineAt s.codeBytes s.cursor = .ok ⟨s.cursor, 1, .byte byte⟩ := by
  rw [lineAt_eq, hahead]
  unfold Line.read
  simp only [hop]

theorem lineAt_of_opcode {op : Opcode} (hahead : s.ahead = byte :: rest)
    (hop : Opcode.ofByte? byte = some op) :
    lineAt s.codeBytes s.cursor =
      match FieldKind.readAll? op.layout.fields 0 rest with
      | none => .error (.truncated s.cursor op)
      | some (fields, n) => .ok ⟨s.cursor, 1 + n, .instruction ⟨op, fields⟩⟩ := by
  rw [lineAt_eq, hahead]
  unfold Line.read
  simp only [hop, Instruction.read?]
  cases FieldKind.readAll? op.layout.fields 0 rest <;> rfl

end Listing

/-! ## Agreement -/

/-- A step from `s` agrees with an instruction of `n` bytes that is listed at the cursor.  A
fault of the cursor names the target of a transfer of control and is raised behind the
instruction.  Without a fault the cursor ends behind the instruction, or at the target of the
transfer if there is one, and a call has pushed the address behind the instruction. -/
def State.StepsOver (host : HostTable) (s : State) (i : Instruction) (n : Nat) : Prop :=
  let next := s.cursor + n
  let transfer := i.transfer? s.toCore (s.cursor + 1) next
  (transfer ≠ none → i.opcode.transfersControl = true) ∧
  (∀ f t, s.handled host = .error f t →
    (∀ fuel, s.step host fuel = some (t.raise f)) ∧
    ∀ a, f = .cursorOutOfRange a → t.cursor = next ∧ transfer = some a) ∧
  ∀ flow t, s.handled host = .ok flow t →
    (i.opcode ≠ .host → ∀ fuel, s.step host fuel = some t) ∧
    ∀ fuel t', s.step host fuel = some t' →
      (match transfer with
        | none => t'.cursor = next
        | some a => t'.cursor < s.code.length ∧ s.codeAddress t'.cursor = a) ∧
      (i.opcode = .bsr ∨ i.opcode = .jsr →
        t'.registers = (i.calling s.registers).setSp ((i.calling s.registers).sp - 8) ∧
        t'.memory = s.memory.write t'.registers.sp .quad (s.codeAddress next))

theorem State.stepsOver_of_answers {host : HostTable} {s : State} {i : Instruction} {n : Nat}
    (byte : UInt8) (hhost : host.Keeps Core.cursor) (hactive : s.status.isActive = true)
    (hanswers : i.Answers host (s.behindOpcode byte) (s.cursor + n) (s.handled host)) :
    s.StepsOver host i n := by
  -- The fields are read in a state that differs in cursor, status and latch alone.
  have hbehind : i.transfer? (s.behindOpcode byte).toCore (s.behindOpcode byte).cursor
      (s.cursor + n) = i.transfer? s.toCore (s.cursor + 1) (s.cursor + n) :=
    Instruction.transfer?_moved i s.toCore _ _ _ _
  refine ⟨?_, ?_, ?_⟩
  · intro htransfer
    cases hop : i.opcode.transfersControl with
    | true => rfl
    | false => exact absurd (Instruction.transfer?_of_sequential hop _ _ _) htransfer
  · intro f t hhandled
    obtain ⟨t', ht', hstep⟩ := raises_of_handled hactive hhandled
    rw [hhandled] at ht' hanswers
    cases ht'
    refine ⟨hstep, ?_⟩
    rintro a rfl
    exact ⟨hanswers.1, hbehind.symm.trans hanswers.2⟩
  · intro flow t hhandled
    have hok := hanswers
    rw [hhandled] at hok
    refine ⟨?_, ?_⟩
    · intro hop fuel
      rw [step_of_handled hactive hhandled]
      cases flow with
      | call v => exact absurd (hok.2.2 v rfl).1 hop
      | _ => rfl
    · intro fuel t' hstep
      obtain ⟨hcursor, hsame⟩ := step_of_answers hhost hactive hhandled hok hstep
      refine ⟨?_, ?_⟩
      · have hplace := hok.1
        rw [hbehind] at hplace
        rw [hcursor]
        exact hplace
      · intro hcalls
        have hnot : i.opcode ≠ .host := by
          obtain hbsr | hjsr := hcalls
          · simp [hbsr]
          · simp [hjsr]
        rw [hsame hnot]
        exact hok.2.1 hcalls

/-- A step from `s` agrees with what a listing shows at the cursor: it raises a fault where
the listing fails, the fault that names the byte where it shows one that is no opcode, and
steps over an instruction. -/
def State.StepsAsListed (host : HostTable) (s : State) : Except ListingError PlacedLine → Prop
  | .error _ => ∃ f, s.Raises host f
  | .ok ⟨_, _, .byte value⟩ => s.Raises host (.invalidOpcode value)
  | .ok ⟨_, n, .instruction i⟩ => s.StepsOver host i n

/-- A step and the listing of the code agree on where the instruction at the cursor ends. -/
theorem step_ends_where_listed (host : HostTable) (hhost : host.Keeps Core.cursor) (s : State)
    (hactive : s.status.isActive = true) :
    s.StepsAsListed host (Listing.lineAt s.codeBytes s.cursor) := by
  cases hahead : s.ahead with
  | nil =>
      rw [Listing.lineAt_of_nil hahead]
      obtain ⟨f, t, hhandled⟩ := State.handled_of_nil host hahead
      exact ⟨f, State.raises_of_handled hactive hhandled⟩
  | cons byte rest =>
      have hhandled := State.handled_of_cons host hahead
      cases hop : Opcode.ofByte? byte with
      | none =>
          rw [Listing.lineAt_of_byte hahead hop]
          rw [hop] at hhandled
          exact State.raises_of_handled hactive hhandled
      | some op =>
          rw [Listing.lineAt_of_opcode hahead hop]
          rw [hop] at hhandled
          simp only at hhandled
          have hreads := Exec.perform_endsAsListed host op (s.behindOpcode byte)
          unfold Exec.Reads at hreads
          rw [State.ahead_behindOpcode hahead, ← hhandled] at hreads
          cases hfields : FieldKind.readAll? op.layout.fields 0 rest with
          | none =>
              rw [hfields] at hreads
              obtain ⟨f, t, hfault⟩ := hreads
              exact ⟨f, State.raises_of_handled hactive hfault⟩
          | some parsed =>
              obtain ⟨fields, n⟩ := parsed
              rw [hfields] at hreads
              refine State.stepsOver_of_answers byte hhost hactive ?_
              rw [← Nat.add_assoc]
              exact hreads

/-- A machine whose code calls itself. -/
def State.selfCall : State :=
  { State.load [3, 0xfb, 0xff, 0xff, 0xff] ⟨AddressSpace.stackBase, 64⟩ with
    status := .initialised }

theorem Listing.lineAt_selfCall :
    lineAt State.selfCall.codeBytes State.selfCall.cursor =
      .ok ⟨0, 5, .instruction ⟨.bsr, [.branch (-5)]⟩⟩ := by
  have hahead : State.selfCall.ahead = [3, 0xfb, 0xff, 0xff, 0xff] := by decide +kernel
  have hop : Opcode.ofByte? 3 = some .bsr := by decide +kernel
  have hfields : FieldKind.readAll? Opcode.bsr.layout.fields 0 [0xfb, 0xff, 0xff, 0xff] =
      some ([.branch (-5)], 4) := by decide +kernel
  rw [lineAt_of_opcode hahead hop, hfields]
  rfl

set_option maxRecDepth 1500 in
/-- With the module of element buffers, the machine that calls itself steps over its only
instruction of five bytes. -/
theorem step_selfCall_ends_where_listed :
    HostTable.Keeps Core.cursor (.register {} ElementModule.module) ∧
      State.selfCall.status.isActive = true ∧
      State.selfCall.StepsOver (.register {} ElementModule.module) ⟨.bsr, [.branch (-5)]⟩ 5 := by
  have hcontrol : HostTable.Keeps Core.control (.register {} ElementModule.module) :=
    HostTable.conforms_register HostTable.conforms_empty ElementModule.keeps_control
  have hcursor : HostTable.Keeps Core.cursor (.register {} ElementModule.module) :=
    hcontrol.mono fun h => congrArg Control.cursor h
  have hagrees := step_ends_where_listed (.register {} ElementModule.module) hcursor State.selfCall
    rfl
  rw [Listing.lineAt_selfCall] at hagrees
  exact ⟨hcursor, rfl, hagrees⟩

end BytecodeMachine
