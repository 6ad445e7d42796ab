import BytecodeMachine.Proofs.Instruction.Reading

/-!
# Where control goes

`Instruction.transfer?` says from an instruction in symbolic form alone whether control
leaves the sequence and for which address.  `Instruction.Answers` says how the executor may
answer in an instruction, given where its fields end.

The parts of the executor that move control are described once: a branch or jump goes to its
target or faults, a push or pop faults or moves the stack pointer, a call does both.
-/

namespace BytecodeMachine

/-! ## Operands are read from the registers and from memory alone -/

theorem Core.read_of_same {c d : Core} (hregisters : c.registers = d.registers)
    (hmemory : c.memory = d.memory) (l : Location) (w : Width) : c.read l w = d.read l w := by
  cases l with
  | register bank r => rw [Core.read, Core.read, hregisters]
  | memory a => rw [Core.read, Core.read, hmemory]

theorem Core.passes_of_same {c d : Core} (hregisters : c.registers = d.registers)
    (hmemory : c.memory = d.memory) (type : OperandType) (test : Test) (l : Location) :
    c.passes type test l = d.passes type test l := by
  simp only [Core.passes, Core.read_of_same hregisters hmemory]

theorem Core.compares?_of_same {c d : Core} (hregisters : c.registers = d.registers)
    (hmemory : c.memory = d.memory) (type : OperandType) (relation : Relation)
    (a b : Location) : c.compares? type relation a b = d.compares? type relation a b := by
  simp only [Core.compares?, Core.read_of_same hregisters hmemory]

/-! ## Conditions, read off their operands -/

namespace Core

/-- Whether a test passes on the operand that stands at `start`; nothing if the byte is no
such condition or the operand has no location. -/
def testPasses? (c : Core) (byte : UInt8) (o : Operand) (start : Nat) : Option Bool := do
  let (type, test) ← Condition.monadic? byte
  let l ← o.location? type.size c.registers c.code.base start (start + o.extent type.size) none
  let c := { c with registers := o.moved type.size c.registers }
  return c.passes type test l

/-- Whether a relation holds between the two operands of which the first stands at `start`. -/
def relationHolds? (c : Core) (byte : UInt8) (a b : Operand) (start : Nat) : Option Bool := do
  let (type, relation) ← Condition.dyadic? byte
  let next := start + a.extent type.size
  let l ← a.location? type.size c.registers c.code.base start next none
  let c := { c with registers := a.moved type.size c.registers }
  let m ← b.location? type.size c.registers c.code.base next (next + b.extent type.size) (some l)
  let c := { c with registers := b.moved type.size c.registers }
  c.compares? type relation l m

/-- Whether the counter that stands at `start` is not used up by one more round. -/
def counterStays? (c : Core) (o : Operand) (start : Nat) : Option Bool := do
  let l ← o.location? 4 c.registers c.code.base start (start + o.extent 4) none
  let c := { c with registers := o.moved 4 c.registers }
  return (c.read l .long).toUInt32 != 1

/-! The cursor and the status of the state have no part in it. -/

theorem testPasses?_moved (c : Core) (cursor : Nat) (status : Status) :
    testPasses? { c with cursor, status } = c.testPasses? := by
  have hpasses : ∀ f type test l,
      passes { c with registers := f, cursor, status } type test l =
        passes { c with registers := f } type test l :=
    fun _ => passes_of_same rfl rfl
  funext byte o start
  simp only [testPasses?, hpasses]

theorem relationHolds?_moved (c : Core) (cursor : Nat) (status : Status) :
    relationHolds? { c with cursor, status } = c.relationHolds? := by
  have hcompares : ∀ f type relation a b,
      compares? { c with registers := f, cursor, status } type relation a b =
        compares? { c with registers := f } type relation a b :=
    fun _ => compares?_of_same rfl rfl
  funext byte a b start
  simp only [relationHolds?, hcompares]

theorem counterStays?_moved (c : Core) (cursor : Nat) (status : Status) :
    counterStays? { c with cursor, status } = c.counterStays? := by
  have hread : ∀ f l w,
      read { c with registers := f, cursor, status } l w = read { c with registers := f } l w :=
    fun _ => read_of_same rfl rfl
  funext o start
  simp only [counterStays?, hread]

end Core

/-! ## Transfers of control, read off the instruction -/

/-- The opcodes that can send control out of the sequence. -/
def Opcode.transfersControl : Opcode → Bool
  | bra | bsr | jmp | jsr | rts | bmc | bdc | dbnz => true
  | _ => false

namespace Instruction

/-- The address to which an instruction sends control, if it does.  Its fields stand at the
code offsets from `start` to `next`, and `c` is the state before they are resolved. -/
def transfer? (i : Instruction) (c : Core) (start next : Nat) : Option UInt64 :=
  let target := fun (d : Int32) => UInt64.ofInt (c.code.base.toNat + next + d.toInt)
  let branchIf := fun (taken : Option Bool) (d : Int32) =>
    if taken = some true then some (target d) else none
  match i.opcode, i.fields with
  | .bra, [.branch d] => some (target d)
  | .bsr, [.branch d] => some (target d)
  | .jmp, [.operand o] => o.address? 8 c.registers c.code.base start next
  | .jsr, [.operand o] => o.address? 8 c.registers c.code.base start next
  | .rts, [] =>
      if c.callDepth ≤ 1 then none else some (c.memory.read c.registers.sp .quad)
  | .bmc, [.condition _ byte, .operand o, .branch d] =>
      branchIf (c.testPasses? byte o (start + 1)) d
  | .bdc, [.condition _ byte, .operand a, .operand b, .branch d] =>
      branchIf (c.relationHolds? byte a b (start + 1)) d
  | .dbnz, [.operand o, .branch d] => branchIf (c.counterStays? o start) d
  | _, _ => none

/-- The registers after the operand of a call has been resolved. -/
def calling (i : Instruction) (f : RegisterFile) : RegisterFile :=
  match i.fields with
  | [.operand o] => o.moved 8 f
  | _ => f

theorem transfer?_of_sequential {i : Instruction} (hop : i.opcode.transfersControl = false)
    (c : Core) (start next : Nat) : i.transfer? c start next = none := by
  obtain ⟨op, fields⟩ := i
  cases op <;> first | rfl | cases hop

theorem transfer?_moved (i : Instruction) (c : Core) (cursor : Nat) (status : Status)
    (start next : Nat) :
    i.transfer? { c with cursor, status } start next = i.transfer? c start next := by
  unfold transfer?
  rw [Core.testPasses?_moved, Core.relationHolds?_moved, Core.counterStays?_moved]

end Instruction

/-- How an instruction whose fields end at `next` may answer from `s`.  A fault of the
cursor names the target of a transfer and leaves the cursor behind the instruction; without
a fault the cursor is there too, or at the target.  A call pushes the address behind the
instruction, and only host functions of the table are called. -/
def Instruction.Answers (table : HostTable) (i : Instruction) (s : State) (next : Nat) :
    EStateM.Result Fault State Flow → Prop
  | .error (.cursorOutOfRange a) t =>
      t.cursor = next ∧ i.transfer? s.toCore s.cursor next = some a
  | .error _ _ => True
  | .ok flow t =>
      (match i.transfer? s.toCore s.cursor next with
        | none => t.cursor = next
        | some a => t.cursor < s.code.length ∧ s.codeAddress t.cursor = a) ∧
      (i.opcode = .bsr ∨ i.opcode = .jsr →
        t.registers = (i.calling s.registers).setSp ((i.calling s.registers).sp - 8) ∧
        t.memory = s.memory.write t.registers.sp .quad (s.codeAddress next)) ∧
      (∀ v, flow = .call v →
        i.opcode = .host ∧ ∃ module function, table.lookup? module function = some v)

theorem RegisterFile.sp_setSp (f : RegisterFile) (a : UInt64) : (f.setSp a).sp = a := by
  rw [sp, setSp, get_set, if_pos ⟨rfl, rfl⟩]

namespace Exec

/-! ## What the parts that move control do -/

/-- Control goes to an address: the cursor moves to its offset in the code, or nothing
changes and the fault names the address. -/
def Goes (x : Exec Unit) (a : UInt64) (s : State) : Prop :=
  x s = .error (.cursorOutOfRange a) s ∨
  ∃ k, k < s.code.length ∧ s.codeAddress k = a ∧ x s = .ok () { s with cursor := k }

theorem goes_branch (d : Int32) (s : State) :
    Goes (branch d) (UInt64.ofInt (s.code.base.toNat + s.cursor + d.toInt)) s := by
  have haddress : s.codeAddress s.cursor + LittleEndian.extend d =
      UInt64.ofInt (s.code.base.toNat + s.cursor + d.toInt) := by
    rw [Core.codeAddress_eq_ofInt, LittleEndian.extend_eq_ofInt, ← UInt64.ofInt_add]
  unfold Goes branch
  simp only [bind_get]
  split
  · exact Or.inl (by rw [haddress]; rfl)
  · rename_i hinside
    refine Or.inr ⟨((s.cursor : Int) + d.toInt).toNat, by omega, ?_, rfl⟩
    rw [Core.codeAddress_eq_ofInt]
    congr 1
    omega

theorem codeAddress_of_codeOffset? {c : Core} {a : UInt64} {k : Nat}
    (hoffset : c.codeOffset? a = some k) : k < c.code.length ∧ c.codeAddress k = a := by
  unfold Core.codeOffset? Region.offsetOf? at hoffset
  split at hoffset
  · simp only at hoffset
    split at hoffset
    · rename_i hbase hlength
      injection hoffset with hk
      refine ⟨by omega, ?_⟩
      show c.code.base + UInt64.ofNat k = a
      rw [← hk, UInt64.ofNat_toNat, UInt64.add_comm, UInt64.sub_add_cancel]
    · cases hoffset
  · cases hoffset

theorem targetOf_cases (a : UInt64) (s : State) :
    targetOf a s = .error (.cursorOutOfRange a) s ∨
    ∃ k, k < s.code.length ∧ s.codeAddress k = a ∧ targetOf a s = .ok k s := by
  unfold targetOf
  simp only [bind_get]
  cases hoffset : s.codeOffset? a with
  | none => exact Or.inl rfl
  | some k =>
      obtain ⟨hlength, haddress⟩ := codeAddress_of_codeOffset? hoffset
      exact Or.inr ⟨k, hlength, haddress, rfl⟩

theorem goes_jump (a : UInt64) (s : State) : Goes (jump a) a s := by
  unfold Goes jump
  obtain herror | ⟨k, hlength, haddress, hok⟩ := targetOf_cases a s
  · exact Or.inl (bind_of_error herror)
  · exact Or.inr ⟨k, hlength, haddress, bind_of_ok hok⟩

/-- A push faults and changes nothing, or writes below the stack pointer. -/
theorem push_cases (value : UInt64) (s : State) :
    (∃ f, (∀ a, f ≠ .cursorOutOfRange a) ∧ push value s = .error f s) ∨
    push value s =
      .ok ()
        { s with
          registers := s.registers.setSp (s.registers.sp - 8)
          memory := s.memory.write (s.registers.sp - 8) .quad value } := by
  unfold push
  simp only
  split
  · exact Or.inl ⟨_, by simp, rfl⟩
  · split
    · exact Or.inl ⟨_, by simp, rfl⟩
    · exact Or.inr rfl

/-- A pop faults and changes nothing, or reads at the stack pointer. -/
theorem pop_cases (s : State) :
    pop s = .error (.nullAddress popMode) s ∨
    pop s =
      .ok (s.memory.read s.registers.sp .quad)
        { s with registers := s.registers.setSp (s.registers.sp + 8) } := by
  unfold pop
  simp only
  split
  · exact Or.inl rfl
  · exact Or.inr rfl

/-- A call faults and changes nothing, or pushes the cursor's address and goes. -/
theorem call_cases (a : UInt64) (s : State) :
    call a s = .error (.cursorOutOfRange a) s ∨
    (∃ f, (∀ a, f ≠ .cursorOutOfRange a) ∧ call a s = .error f s) ∨
    ∃ k, k < s.code.length ∧ s.codeAddress k = a ∧
      call a s =
        .ok ()
          { s with
            registers := s.registers.setSp (s.registers.sp - 8)
            memory := s.memory.write (s.registers.sp - 8) .quad (s.codeAddress s.cursor)
            callDepth := s.callDepth + 1
            cursor := k } := by
  unfold call
  obtain herror | ⟨k, hlength, haddress, hok⟩ := targetOf_cases a s
  · exact Or.inl (bind_of_error herror)
  · right
    rw [bind_of_ok hok, bind_get]
    obtain ⟨f, hf, hpush⟩ | hpush := push_cases (s.codeAddress s.cursor) s
    · exact Or.inl ⟨f, hf, bind_of_error hpush⟩
    · refine Or.inr ⟨k, hlength, haddress, ?_⟩
      rw [bind_of_ok hpush]
      rfl

end Exec

end BytecodeMachine
