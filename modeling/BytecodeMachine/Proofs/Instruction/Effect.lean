import BytecodeMachine.Execution.Dispatch
import BytecodeMachine.Proofs.Instruction.Control
import BytecodeMachine.Proofs.Instruction.Decoding

/-!
# What an instruction does

`Instruction.Effect` lists everything an instruction can do when it ends without a fault,
and `Instruction.Failure` everything a fault can leave behind once the fields are decoded.
Both are read off the instruction in symbolic form: which operand is the destination, where
it is, what is pushed, and which registers the operands step.

The main statement, `Exec.perform_performsAs`, is that every handler decodes the fields of its
opcode's layout and then behaves in one of the listed ways.  Facts about single steps are
derived from it by cases.
-/

namespace BytecodeMachine

/-! ## Blocks of registers -/

/-- The memory after registers have been stored one after the other from an address on. -/
def Memory.storing (m : Memory) (f : RegisterFile) (a : UInt64) :
    List (Bank × RegisterIndex) → Memory
  | [] => m
  | (bank, r) :: rest => Memory.storing (m.write a .quad (f.get bank r)) f (a + 8) rest

/-- The registers after some of them have been loaded one after the other from an address
on. -/
def RegisterFile.loading (f : RegisterFile) (m : Memory) (a : UInt64) :
    List (Bank × RegisterIndex) → RegisterFile
  | [] => f
  | (bank, r) :: rest => RegisterFile.loading (f.set bank r (m.read a .quad)) m (a + 8) rest

namespace Core

theorem saveBlock_eq (c : Core) (a : UInt64) (registers : List (Bank × RegisterIndex)) :
    c.saveBlock a registers =
      { c with memory := c.memory.storing c.registers a registers } := by
  induction registers generalizing c a with
  | nil => rfl
  | cons entry rest ih =>
      rw [saveBlock, ih]
      rfl

theorem loadBlock_eq (c : Core) (a : UInt64) (registers : List (Bank × RegisterIndex)) :
    c.loadBlock a registers =
      { c with registers := c.registers.loading c.memory a registers } := by
  induction registers generalizing c a with
  | nil => rfl
  | cons entry rest ih =>
      rw [loadBlock, ih]
      rfl

/-! ## The stack -/

/-- A word can be pushed. -/
def CanPush (c : Core) : Prop :=
  Exec.overflows c.stack c.registers.sp = false ∧ c.registers.sp - 8 ≠ 0

/-- The state after a word has been pushed. -/
def pushed (c : Core) (value : UInt64) : Core :=
  { c with
    registers := c.registers.setSp (c.registers.sp - 8)
    memory := c.memory.write (c.registers.sp - 8) .quad value }

/-- A store leaves the cursor alone. -/
theorem write_cursor (c : Core) (k : Nat) (l : Location) (w : Width) (value : UInt64) :
    write { c with cursor := k } l w value = { c.write l w value with cursor := k } := by
  cases l <;> rfl

end Core

/-! ## The destination -/

/-- The width of what an opcode stores at its destination operand, if it has one. -/
def Opcode.destinationWidth? : Opcode → Option Width
  | dbnz => some .long
  | smc | sdc => some .byte
  | move w | clr w => some w
  | fmove p => some p.width
  | lea => some .quad
  | ext e => some e.target
  | realOfInteger _ p => some p.width
  | integerOfReal _ w => some w
  | convert p => some (otherPrecision p).width
  | integerBinary _ w | integerUnary _ w | shift _ w => some w
  | realBinary _ p | realUnary _ p => some p.width
  | _ => none

namespace Instruction

/-- The operands of an instruction, each with its size. -/
def operands (i : Instruction) : List (Operand × Nat) :=
  FieldKind.operands i.opcode.layout.fields 0 i.fields

/-- The state once the operands of an instruction have stepped their registers. -/
def resolved (i : Instruction) (c : Core) : Core :=
  { c with registers := c.registers.stepped i.operands }

/-- The destination operand and the code offset at which it stands, for fields that begin at
`start`: the first operand, with at most a condition byte before it. -/
def destination? (i : Instruction) (start : Nat) : Option (Operand × Nat) :=
  match i.fields with
  | .operand o :: _ => some (o, start)
  | .condition _ _ :: .operand o :: _ => some (o, start + 1)
  | _ => none

/-- Where an instruction stores, and how many bytes: the location of its destination
operand. -/
def target? (i : Instruction) (f : RegisterFile) (code : UInt64) (start : Nat) :
    Option (Width × Location) := do
  let w ← i.opcode.destinationWidth?
  let (o, place) ← i.destination? start
  let l ← o.location? w.bytes f code place (place + o.extent w.bytes) none
  return (w, l)

/-- What an instruction stores is as wide as its opcode says. -/
theorem width_of_target? {i : Instruction} {f : RegisterFile} {code : UInt64} {start : Nat}
    {w : Width} {l : Location} (htarget : i.target? f code start = some (w, l)) :
    i.opcode.destinationWidth? = some w := by
  unfold target? at htarget
  cases hwidth : i.opcode.destinationWidth? with
  | none => simp [hwidth] at htarget
  | some w' =>
      simp only [hwidth, Option.bind_eq_bind, Option.bind_some] at htarget
      obtain ⟨place, -, hrest⟩ := Option.bind_eq_some_iff.mp htarget
      obtain ⟨l', -, hpair⟩ := Option.bind_eq_some_iff.mp hrest
      cases hpair
      rfl

/-- The address of the only operand of an instruction, which may follow a register mask. -/
def address? (i : Instruction) (f : RegisterFile) (code : UInt64) (start next : Nat) :
    Option UInt64 :=
  match i.fields with
  | [.operand o] => o.address? 8 f code start next
  | [.mask m, .operand o] => o.address? m.blockSize f code (start + 4) next
  | _ => none

/-! ## Effects and failures -/

/-- What an instruction does when it ends without a fault.  Its fields stand at the code
offsets from `start` to `next`, and `c` is the state before they are decoded.  Where control
goes is left open, apart from this: a branch, jump, call or return that must be taken stays in
the code. -/
inductive Effect (table : HostTable) (i : Instruction) (c : Core) (start next : Nat) :
    Flow → Core → Prop
  | stop {k : Nat} (hop : i.opcode = .stop) :
      Effect table i c start next .halt { c with status := .completed, cursor := k }
  | host {k : Nat} {module : UInt8} {function : UInt16} {v : HostVector}
      (hop : i.opcode = .host) (hfields : i.fields = [.hostModule module])
      (hlookup : table.lookup? module function = some v) :
      Effect table i c start next (.call v) { c with cursor := k }
  | go {k : Nat}
      (hop : i.opcode = .bra ∨ i.opcode = .jmp ∨ i.opcode = .bmc ∨ i.opcode = .bdc)
      (hinside : i.opcode = .bra ∨ i.opcode = .jmp → k < c.code.length) :
      Effect table i c start next .next { i.resolved c with cursor := k }
  | call {k : Nat} (hop : i.opcode = .bsr ∨ i.opcode = .jsr)
      (hroom : (i.resolved c).CanPush) (hinside : k < c.code.length) :
      Effect table i c start next .next
        { (i.resolved c).pushed (c.codeAddress next) with
          callDepth := c.callDepth + 1
          cursor := k }
  | complete {k : Nat} (hop : i.opcode = .rts) (hdepth : c.callDepth ≤ 1) :
      Effect table i c start next .halt
        { c with callDepth := c.callDepth - 1, status := .completed, cursor := k }
  | giveBack {k : Nat} (hop : i.opcode = .rts) (hdepth : 1 < c.callDepth)
      (hinside : k < c.code.length) :
      Effect table i c start next .next
        { c with
          callDepth := c.callDepth - 1
          registers := c.registers.setSp (c.registers.sp + 8)
          cursor := k }
  | store {k : Nat} {w : Width} {l : Location} (value : UInt64)
      (htarget : i.target? c.registers c.code.base start = some (w, l)) :
      Effect table i c start next .next { (i.resolved c).write l w value with cursor := k }
  | exchange {k : Nat} {bank : Bank} {byte : UInt8}
      (hop : i.opcode = .exg ∨ i.opcode = .fexg) (hfields : i.fields = [.registerPair bank byte]) :
      Effect table i c start next .next
        { c with
          registers := c.registers.exchange bank (.ofByte (byte >>> 4)) (.ofByte (byte &&& 0xf))
          cursor := k }
  | save {k : Nat} {m : RegisterMask} {o : Operand} {a : UInt64} (hop : i.opcode = .savem)
      (hfields : i.fields = [.mask m, .operand o])
      (haddress : i.address? c.registers c.code.base start next = some a) :
      Effect table i c start next .next
        { i.resolved c with
          memory := c.memory.storing (i.resolved c).registers a m.registers
          cursor := k }
  | load {k : Nat} {m : RegisterMask} {o : Operand} {a : UInt64} (hop : i.opcode = .loadm)
      (hfields : i.fields = [.mask m, .operand o])
      (haddress : i.address? c.registers c.code.base start next = some a) :
      Effect table i c start next .next
        { i.resolved c with
          registers := (i.resolved c).registers.loading c.memory a m.registers
          cursor := k }
  | link {k : Nat} {byte : UInt8} {d : Int32} (hop : i.opcode = .link)
      (hfields : i.fields = [.frameRegister byte, .displacement d]) (hroom : c.CanPush) :
      Effect table i c start next .next
        { (((c.pushed (c.general (.ofByte (byte &&& 0xf)))).setGeneral (.ofByte (byte &&& 0xf))
            (c.registers.sp - 8)).setGeneral .stackPointer
            (c.registers.sp - 8 + LittleEndian.extend d)) with cursor := k }
  | unlink {k : Nat} {byte : UInt8} (hop : i.opcode = .unlk)
      (hfields : i.fields = [.frameRegister byte]) :
      Effect table i c start next .next
        { ((c.setGeneral .stackPointer (c.general (.ofByte (byte &&& 0xf)) + 8)).setGeneral
            (.ofByte (byte &&& 0xf))
            (c.memory.read (c.general (.ofByte (byte &&& 0xf))) .quad)) with cursor := k }
  | pushAddress {k : Nat} {a : UInt64} (hop : i.opcode = .pea)
      (haddress : i.address? c.registers c.code.base start next = some a)
      (hroom : (i.resolved c).CanPush) :
      Effect table i c start next .next { (i.resolved c).pushed a with cursor := k }

/-- What a fault leaves behind once all fields are decoded.  Apart from the last four ways,
nothing has happened but the decoding. -/
inductive Failure (i : Instruction) (c : Core) (start next : Nat) : Fault → Core → Prop
  | refused {f : Fault}
      (hop : i.opcode ≠ .dbnz ∧ i.opcode ≠ .rts ∧ i.opcode ≠ .unlk)
      (hf : f.isOfCode = true ∨ ∃ sp, f = .stackOverflow sp) :
      Failure i c start next f { i.resolved c with cursor := next }
  | division {w : Width} {l : Location}
      (htarget : i.target? c.registers c.code.base start = some (w, l)) :
      Failure i c start next .zeroDivide { i.resolved c with cursor := next }
  | hostCall {module : UInt8} {function : UInt16} (hop : i.opcode = .host)
      (hfields : i.fields = [.hostModule module]) :
      Failure i c start next (.unknownHostCall module function) { c with cursor := next }
  | counter {l : Location} {a : UInt64} {count : UInt32} {o : Operand} {d : Int32}
      (hop : i.opcode = .dbnz) (hfields : i.fields = [.operand o, .branch d])
      (hleaves : (next : Int) + d.toInt < 0 ∨ c.code.length ≤ (next : Int) + d.toInt)
      (htarget : i.target? c.registers c.code.base start = some (.long, l))
      (hcount : count = ((i.resolved c).read l .long).toUInt32 - 1) (hstays : count ≠ 0) :
      Failure i c start next (.cursorOutOfRange a)
        { (i.resolved c).write l .long count.toUInt64 with cursor := next }
  | returnNull (hop : i.opcode = .rts) (hdepth : 1 < c.callDepth) (hsp : c.registers.sp = 0) :
      Failure i c start next (.nullAddress Exec.popMode)
        { c with callDepth := c.callDepth - 1, cursor := next }
  | returnAstray (hop : i.opcode = .rts) (hdepth : 1 < c.callDepth)
      (hsp : c.registers.sp ≠ 0) :
      Failure i c start next (.cursorOutOfRange (c.memory.read c.registers.sp .quad))
        { c with
          callDepth := c.callDepth - 1
          registers := c.registers.setSp (c.registers.sp + 8)
          cursor := next }
  | unlinkNull {byte : UInt8} (hop : i.opcode = .unlk)
      (hfields : i.fields = [.frameRegister byte])
      (hframe : c.general (.ofByte (byte &&& 0xf)) = 0) :
      Failure i c start next (.nullAddress Exec.popMode)
        { c with registers := c.registers.setSp 0, cursor := next }

/-- An answer from `s` is one of the effects or failures of the instruction. -/
def Behaves (table : HostTable) (i : Instruction) (s : State) (next : Nat) :
    EStateM.Result Fault State Flow → Prop
  | .ok flow t => i.Effect table s.toCore s.cursor next flow t.toCore
  | .error f t => i.Failure s.toCore s.cursor next f t.toCore

/-- All fields of the instruction have been decoded, and nothing else has happened. -/
def Decoded (i : Instruction) (s : State) (next : Nat) (t : State) : Prop :=
  t.toCore = { i.resolved s.toCore with cursor := next }

end Instruction

namespace Exec

/-- The handler decodes the fields of its opcode's layout, and then behaves as the instruction
should. -/
def PerformsAs (table : HostTable) (op : Opcode) (x : Exec Flow) : Prop :=
  ∀ s, Decodes op.layout.fields 0 x s
    (fun fields next answer => Instruction.Behaves table ⟨op, fields⟩ s next answer)

/-! ## How the parts after the fields end -/

theorem push_of_canPush {s : State} (value : UInt64) (hroom : s.CanPush) :
    push value s = .ok () { s with toCore := s.toCore.pushed value } := by
  unfold push
  simp only [hroom.1, Bool.false_eq_true, if_false, if_neg hroom.2]
  rfl

/-- A push for which there is no room changes nothing. -/
theorem push_of_not_canPush {s : State} (value : UInt64) (hfull : ¬s.CanPush) :
    ∃ f, push value s = .error f s ∧ (f.isOfCode = true ∨ ∃ sp, f = .stackOverflow sp) := by
  unfold push
  simp only
  by_cases hoverflow : overflows s.stack s.registers.sp = true
  · rw [if_pos hoverflow]
    exact ⟨_, rfl, Or.inr ⟨_, rfl⟩⟩
  · rw [if_neg hoverflow]
    by_cases hnull : s.registers.sp - 8 = 0
    · rw [if_pos hnull]
      exact ⟨_, rfl, Or.inl rfl⟩
    · exact absurd ⟨Bool.eq_false_iff.mpr hoverflow, hnull⟩ hfull

theorem pop_of_zero {s : State} (hsp : s.registers.sp = 0) :
    pop s = .error (.nullAddress popMode) s := if_pos hsp

theorem pop_of_ne_zero {s : State} (hsp : s.registers.sp ≠ 0) :
    pop s = .ok (s.memory.read s.registers.sp .quad)
      { s with registers := s.registers.setSp (s.registers.sp + 8) } := if_neg hsp

variable {table : HostTable} {i : Instruction} {s t : State} {next : Nat}

open Instruction (Decoded)

/-- A fault once the fields are decoded, in an instruction that has done nothing yet. -/
theorem behaves_refused {f : Fault} (ht : Decoded i s next t)
    (hop : i.opcode ≠ .dbnz ∧ i.opcode ≠ .rts ∧ i.opcode ≠ .unlk)
    (hf : f.isOfCode = true ∨ ∃ sp, f = .stackOverflow sp) :
    i.Behaves table s next (.error f t) := by
  show i.Failure s.toCore s.cursor next f t.toCore
  rw [ht]
  exact .refused hop hf

theorem behaves_goes {x : Exec Unit} {a : UInt64} (hgoes : Goes x a t) (ht : Decoded i s next t)
    (hop : i.opcode = .bra ∨ i.opcode = .jmp ∨ i.opcode = .bmc ∨ i.opcode = .bdc) :
    i.Behaves table s next ((x >>= fun _ => pure Flow.next) t) := by
  obtain hfault | ⟨k, hinside, -, hok⟩ := hgoes
  · rw [bind_of_error hfault]
    refine behaves_refused ht ?_ (Or.inl rfl)
    rcases hop with hop | hop | hop | hop <;> simp [hop]
  · rw [bind_of_ok hok, pure_apply]
    show i.Effect table s.toCore s.cursor next .next { t.toCore with cursor := k }
    rw [ht] at hinside ⊢
    exact .go hop fun _ => hinside

/-- A conditional branch that is not taken. -/
theorem behaves_passes (ht : Decoded i s next t) (hop : i.opcode = .bmc ∨ i.opcode = .bdc) :
    i.Behaves table s next (.ok .next t) := by
  show i.Effect table s.toCore s.cursor next .next t.toCore
  rw [ht]
  refine .go (Or.inr (Or.inr hop)) ?_
  rcases hop with hop | hop <;> simp [hop]

theorem behaves_store {w : Width} {l : Location} (value : UInt64) (ht : Decoded i s next t)
    (htarget : i.target? s.registers s.code.base s.cursor = some (w, l)) :
    i.Behaves table s next (.ok .next (t.write l w value)) := by
  show i.Effect table s.toCore s.cursor next .next (t.toCore.write l w value)
  rw [ht, Core.write_cursor]
  exact .store value htarget

theorem call_of_canPush {a : UInt64} {k : Nat} (htarget : targetOf a t = .ok k t)
    (hroom : t.CanPush) :
    call a t =
      .ok () { t with
        toCore := { t.toCore.pushed (t.codeAddress t.cursor) with
          callDepth := t.callDepth + 1
          cursor := k } } := by
  unfold call
  rw [bind_of_ok htarget, bind_get, bind_of_ok (push_of_canPush _ hroom)]
  rfl

theorem call_of_push_error {a : UInt64} {k : Nat} {f : Fault} (htarget : targetOf a t = .ok k t)
    (hpush : push (t.codeAddress t.cursor) t = .error f t) : call a t = .error f t := by
  unfold call
  rw [bind_of_ok htarget, bind_get, bind_of_error hpush]

/-- The two calls end alike once their target is known. -/
theorem behaves_call (a : UInt64) (ht : Decoded i s next t)
    (hop : i.opcode = .bsr ∨ i.opcode = .jsr) :
    i.Behaves table s next ((call a >>= fun _ => pure Flow.next) t) := by
  have hothers : i.opcode ≠ .dbnz ∧ i.opcode ≠ .rts ∧ i.opcode ≠ .unlk := by
    rcases hop with hop | hop <;> simp [hop]
  obtain hfault | ⟨k, hinside, -, hok⟩ := targetOf_cases a t
  · have hcall : call a t = .error (.cursorOutOfRange a) t := bind_of_error hfault
    rw [bind_of_error hcall]
    exact behaves_refused ht hothers (Or.inl rfl)
  · by_cases hroom : t.CanPush
    · rw [bind_of_ok (call_of_canPush hok hroom), pure_apply]
      show i.Effect table s.toCore s.cursor next .next
        { t.toCore.pushed (t.codeAddress t.cursor) with
          callDepth := t.callDepth + 1
          cursor := k }
      rw [ht] at hroom hinside ⊢
      exact .call hop hroom hinside
    · obtain ⟨f, hpush, hf⟩ := push_of_not_canPush (t.codeAddress t.cursor) hroom
      rw [bind_of_error (call_of_push_error hok hpush)]
      exact behaves_refused ht hothers hf

/-! ## Transfers of control -/

theorem stop_performsAs : PerformsAs table .stop stop :=
  fun _ => decodes_nil (.stop rfl)

theorem host_performsAs : PerformsAs table .host (host table) := by
  intro s
  refine decodes_byte _ rfl (fun _ => rfl) fun module => decodes_nil ?_
  simp only [bind_get]
  generalize hlookup : table.lookup? module _ = found
  cases found with
  | none => exact Instruction.Failure.hostCall rfl rfl
  | some v => exact Instruction.Effect.host rfl rfl hlookup

theorem bra_performsAs : PerformsAs table .bra bra := by
  intro s
  refine decodes_long .branch rfl (fun _ => rfl) fun d => decodes_nil ?_
  exact behaves_goes (goes_branch d _) rfl (by simp)

theorem bsr_performsAs : PerformsAs table .bsr bsr := by
  intro s
  refine decodes_long .branch rfl (fun _ => rfl) fun d => decodes_nil ?_
  rw [bind_get]
  exact behaves_call _ rfl (by simp)

theorem jmp_performsAs : PerformsAs table .jmp jmp := by
  intro s
  refine decodes_address rfl rfl fun o mode a haddress => decodes_nil ?_
  exact behaves_goes (goes_jump a _) rfl (by simp)

theorem jsr_performsAs : PerformsAs table .jsr jsr := by
  intro s
  refine decodes_address rfl rfl fun o mode a haddress => decodes_nil ?_
  exact behaves_call a rfl (by simp)

/-- A return has no fields, so nothing stops it before it acts. -/
theorem behaves_rts (table : HostTable) (s : State) :
    Instruction.Behaves table ⟨.rts, []⟩ s s.cursor (rts s) := by
  unfold rts
  simp only [bind_modify, bind_get]
  by_cases hdepth : s.callDepth ≤ 1
  · rw [if_pos (by omega)]
    exact Instruction.Effect.complete rfl hdepth
  · rw [if_neg (by omega)]
    -- The call depth is lowered before the return address is popped.
    let t : State := { s with callDepth := s.callDepth - 1 }
    by_cases hsp : s.registers.sp = 0
    · have hpop : pop t = .error (.nullAddress popMode) t := pop_of_zero hsp
      rw [bind_of_error hpop]
      exact Instruction.Failure.returnNull rfl (by omega) hsp
    · have hpop := pop_of_ne_zero (s := t) hsp
      rw [bind_of_ok hpop]
      obtain hfault | ⟨k, hinside, -, hok⟩ := goes_jump (t.memory.read t.registers.sp .quad)
        { t with registers := t.registers.setSp (t.registers.sp + 8) }
      · rw [bind_of_error hfault]
        exact Instruction.Failure.returnAstray rfl (by omega) hsp
      · rw [bind_of_ok hok]
        exact Instruction.Effect.giveBack rfl (by omega) hinside

theorem rts_performsAs : PerformsAs table .rts rts := fun s => decodes_nil (behaves_rts table s)

/-- The end of a conditional branch: the displacement, then the branch if it is taken. -/
theorem decodes_branchIf {op : Opcode} (front : List Field) {size : Nat} {taken : Bool}
    (hop : op = .bmc ∨ op = .bdc)
    (ht : ∀ d, Decoded ⟨op, front ++ [.branch d]⟩ s (t.cursor + 4)
      { t with cursor := t.cursor + 4 }) :
    Decodes [.branch] size (branchIf taken) t
      (fun fields next answer =>
        Instruction.Behaves table ⟨op, front ++ fields⟩ s next answer) := by
  refine decodes_long .branch rfl (fun _ => rfl) fun d => decodes_nil ?_
  cases taken with
  | false => exact behaves_passes (ht d) hop
  | true => exact behaves_goes (goes_branch d _) (ht d) (Or.inr (Or.inr hop))

theorem bmc_performsAs : PerformsAs table .bmc bmc := by
  intro s
  refine decodes_test fun byte type test hcondition => ?_
  refine decodes_destination rfl rfl fun o mode l hlocation => ?_
  refine decodes_congr (bind_get _ _) ?_
  refine decodes_branchIf [.condition .monadic byte, .operand o] (by simp) fun d => ?_
  unfold Instruction.Decoded
  have hoperands : Instruction.operands
      ⟨.bmc, [.condition .monadic byte, .operand o] ++ [.branch d]⟩ = [(o, type.size)] := by
    rw [← Condition.operandSize_of_monadic? hcondition]
    rfl
  rw [Instruction.resolved, hoperands]
  rfl

/-- Between the operands and the rest of a comparison, a condition without a meaning
faults. -/
theorem decodes_compare {kinds : List FieldKind} {size : Nat} {byte : UInt8}
    {type : OperandType} {relation : Relation} {a b : Location} {k : Bool → Exec Flow}
    {post : List Field → Nat → EStateM.Result Fault State Flow → Prop}
    (hrest : ∀ holds, Decodes kinds size (k holds) s post) :
    Decodes kinds size (compare byte type relation a b >>= k) s post := by
  cases hholds : s.compares? type relation a b with
  | none =>
      have hcompare : compare byte type relation a b s = .error (.badCondition byte) s := by
        unfold compare
        simp only [bind_get, hholds]
        rfl
      exact decodes_of_fault rfl (by simp) (bind_of_error hcompare) (State.Onward.refl s) rfl
  | some holds =>
      have hcompare : compare byte type relation a b s = .ok holds s := by
        unfold compare
        simp only [bind_get, hholds]
        rfl
      exact decodes_congr (bind_of_ok hcompare) (hrest holds)

theorem bdc_performsAs : PerformsAs table .bdc bdc := by
  intro s
  refine decodes_relation fun byte type relation hcondition => ?_
  refine decodes_destination rfl rfl fun a mode l hl => ?_
  refine decodes_source rfl rfl fun b mode' m hm => ?_
  refine decodes_compare fun taken => ?_
  refine decodes_branchIf [.condition .dyadic byte, .operand a, .operand b] (by simp)
    fun d => ?_
  unfold Instruction.Decoded
  have hoperands : Instruction.operands
      ⟨.bdc, [.condition .dyadic byte, .operand a, .operand b] ++ [.branch d]⟩ =
        [(a, type.size), (b, type.size)] := by
    rw [← Condition.operandSize_of_dyadic? hcondition]
    rfl
  rw [Instruction.resolved, hoperands]
  rfl

/-- A branch that faults has left the code. -/
theorem leaves_of_branch {d : Int32} {f : Fault} {u : State} (hbranch : branch d s = .error f u) :
    (s.cursor : Int) + d.toInt < 0 ∨ s.code.length ≤ (s.cursor : Int) + d.toInt := by
  unfold branch at hbranch
  rw [bind_get] at hbranch
  by_cases hleaves : (s.cursor : Int) + d.toInt < 0 ∨ s.code.length ≤ (s.cursor : Int) + d.toInt
  · exact hleaves
  · rw [if_neg hleaves] at hbranch
    cases hbranch

/-- Counting down and branching until the counter is zero. -/
theorem behaves_countDown {l : Location} {o : Operand} {d : Int32} (hop : i.opcode = .dbnz)
    (hfields : i.fields = [.operand o, .branch d]) (ht : Decoded i s next t)
    (htarget : i.target? s.registers s.code.base s.cursor = some (.long, l)) :
    i.Behaves table s next ((do
      let u ← get
      let count := (u.read l .long).toUInt32 - 1
      modify fun v => v.write l .long count.toUInt64
      if count ≠ 0 then branch d
      return Flow.next : Exec Flow) t) := by
  have hread : t.read l .long = (i.resolved s.toCore).read l .long :=
    Core.read_of_same (by rw [ht]) (by rw [ht]) l .long
  rw [bind_get, bind_modify]
  by_cases hlast : (t.read l .long).toUInt32 - 1 = 0
  · rw [if_neg (fun h => h hlast)]
    exact behaves_store _ ht htarget
  · rw [if_pos hlast]
    let u : State := t.write l .long ((t.read l .long).toUInt32 - 1).toUInt64
    have hu : u.toCore = { (i.resolved s.toCore).write l .long
        ((t.read l .long).toUInt32 - 1).toUInt64 with cursor := next } := by
      show t.toCore.write _ _ _ = _
      rw [ht, Core.write_cursor]
    obtain hfault | ⟨k, -, -, hok⟩ := goes_branch d u
    · have hleaves := leaves_of_branch hfault
      have hcode : u.code = s.code := by
        rw [hu]
        cases l <;> rfl
      rw [hcode, show u.cursor = next by rw [hu]] at hleaves
      rw [bind_of_error hfault]
      show i.Failure s.toCore s.cursor next _ u.toCore
      rw [hu]
      rw [hread] at hlast ⊢
      exact .counter hop hfields hleaves htarget rfl hlast
    · rw [bind_of_ok hok]
      show i.Effect table s.toCore s.cursor next .next { u.toCore with cursor := k }
      rw [hu]
      exact .store _ htarget

/-- The target of an instruction whose first field is its destination operand. -/
theorem target?_of_operand {op : Opcode} {w : Width} {o : Operand} {fields : List Field}
    {l : Location} {f : RegisterFile} {code : UInt64} {start : Nat}
    (hwidth : op.destinationWidth? = some w)
    (hlocation : o.location? w.bytes f code start (start + o.extent w.bytes) none = some l) :
    Instruction.target? ⟨op, .operand o :: fields⟩ f code start = some (w, l) := by
  simp only [Instruction.target?, Instruction.destination?, hwidth, hlocation,
    Option.bind_eq_bind, Option.bind_some, Option.pure_def]

/-- The target of an instruction whose destination operand follows a condition. -/
theorem target?_of_condition {op : Opcode} {w : Width} {arity : Arity} {byte : UInt8}
    {o : Operand} {fields : List Field} {l : Location} {f : RegisterFile} {code : UInt64}
    {start : Nat} (hwidth : op.destinationWidth? = some w)
    (hlocation : o.location? w.bytes f code (start + 1) (start + 1 + o.extent w.bytes) none =
      some l) :
    Instruction.target? ⟨op, .condition arity byte :: .operand o :: fields⟩ f code start =
      some (w, l) := by
  simp only [Instruction.target?, Instruction.destination?, hwidth, hlocation,
    Option.bind_eq_bind, Option.bind_some, Option.pure_def]

theorem dbnz_performsAs : PerformsAs table .dbnz dbnz := by
  intro s
  refine decodes_operand rfl rfl fun o mode l hlocation => ?_
  refine decodes_long .branch rfl (fun _ => rfl) fun d => decodes_nil ?_
  exact behaves_countDown rfl rfl rfl (target?_of_operand rfl hlocation)

/-! ## Stores -/

theorem smc_performsAs : PerformsAs table .smc smc := by
  intro s
  refine decodes_test fun byte type test hcondition => ?_
  refine decodes_destination rfl rfl fun o mode l hl => ?_
  refine decodes_source rfl rfl fun o' mode' l' hl' => decodes_nil ?_
  have hoperands : Instruction.operands
      ⟨.smc, [.condition .monadic byte, .operand o, .operand o']⟩ =
        [(o, 1), (o', type.size)] := by
    rw [← Condition.operandSize_of_monadic? hcondition]
    rfl
  refine behaves_store _ ?_ (target?_of_condition rfl hl)
  unfold Instruction.Decoded
  rw [Instruction.resolved, hoperands]
  rfl

theorem sdc_performsAs : PerformsAs table .sdc sdc := by
  intro s
  refine decodes_relation fun byte type relation hcondition => ?_
  refine decodes_destination rfl rfl fun o mode l hl => ?_
  refine decodes_source rfl rfl fun a mode' la ha => ?_
  refine decodes_source rfl rfl fun b mode'' lb hb => ?_
  refine decodes_compare fun holds => decodes_nil ?_
  have hoperands : Instruction.operands
      ⟨.sdc, [.condition .dyadic byte, .operand o, .operand a, .operand b]⟩ =
        [(o, 1), (a, type.size), (b, type.size)] := by
    rw [← Condition.operandSize_of_dyadic? hcondition]
    rfl
  refine behaves_store _ ?_ (target?_of_condition rfl hl)
  unfold Instruction.Decoded
  rw [Instruction.resolved, hoperands]
  rfl

/-- Every instruction that stores a computed value. -/
theorem compute_performsAs {op : Opcode} (destination source : Width)
    (value : UInt64 → UInt64 → Option UInt64)
    (hlayout : op.layout = .binary destination.bytes source.bytes)
    (hwidth : op.destinationWidth? = some destination) :
    PerformsAs table op (compute destination source value) := by
  intro s
  rw [hlayout]
  refine decodes_destination rfl rfl fun o mode target htarget => ?_
  refine decodes_source rfl rfl fun o' mode' l hl => decodes_nil ?_
  have hdecoded : ∀ t : State, t.toCore =
      { s.toCore with
        cursor := t.cursor
        registers := o'.moved source.bytes (o.moved destination.bytes s.registers) } →
      Decoded ⟨op, [.operand o, .operand o']⟩ s t.cursor t := by
    intro t ht
    unfold Instruction.Decoded Instruction.resolved Instruction.operands
    rw [hlayout, ht]
    rfl
  rw [bind_get]
  generalize value _ _ = result
  cases result with
  | none =>
      show Instruction.Failure _ _ _ _ _ _
      have hresolved := hdecoded
        (((s.past o destination.bytes (o.extent destination.bytes) mode).noting target).past o'
          source.bytes (o'.extent source.bytes) mode') rfl
      rw [hresolved]
      exact .division (target?_of_operand hwidth htarget)
  | some x => exact behaves_store _ (hdecoded _ rfl) (target?_of_operand hwidth htarget)

theorem clr_performsAs (w : Width) : PerformsAs table (.clr w) (clr w) := by
  intro s
  refine decodes_operand rfl rfl fun o mode l hlocation => decodes_nil ?_
  exact behaves_store _ rfl (target?_of_operand rfl hlocation)

theorem lea_performsAs : PerformsAs table .lea lea := by
  intro s
  refine decodes_destination rfl rfl fun o mode target htarget => ?_
  refine decodes_source rfl rfl fun o' mode' l hl => decodes_nil ?_
  cases l with
  | register bank r => exact behaves_refused rfl (by simp) (Or.inl rfl)
  | memory a => exact behaves_store _ rfl (target?_of_operand (w := .quad) rfl htarget)

/-! ## Registers, blocks and frames -/

theorem exchange_performsAs {op : Opcode} (bank : Bank)
    (hlayout : op.layout = .registerPair bank) (hop : op = .exg ∨ op = .fexg) :
    PerformsAs table op (exchange bank) := by
  intro s
  rw [hlayout]
  refine decodes_byte _ rfl (fun _ => rfl) fun byte => decodes_nil ?_
  exact Instruction.Effect.exchange hop rfl

theorem savem_performsAs : PerformsAs table .savem savem := by
  intro s
  refine decodes_long .mask rfl (fun _ => rfl) fun mask => ?_
  refine decodes_address rfl rfl fun o mode a haddress => decodes_nil ?_
  show Instruction.Effect _ _ _ _ _ _ (Core.saveBlock _ a mask.registers)
  rw [Core.saveBlock_eq]
  exact .save rfl rfl haddress

theorem loadm_performsAs : PerformsAs table .loadm loadm := by
  intro s
  refine decodes_long .mask rfl (fun _ => rfl) fun mask => ?_
  refine decodes_address rfl rfl fun o mode a haddress => decodes_nil ?_
  show Instruction.Effect _ _ _ _ _ _ (Core.loadBlock _ a mask.registers)
  rw [Core.loadBlock_eq]
  exact .load rfl rfl haddress

end Exec

namespace RegisterFile

/-- Of two writes to one cell the second counts. -/
theorem set_set (f : RegisterFile) (bank : Bank) (r : RegisterIndex) (a b : UInt64) :
    (f.set bank r a).set bank r b = f.set bank r b := by
  cases bank <;> simp [set]

/-- A copy of the stack pointer in a register, which may be itself, leaves it as it is. -/
theorem sp_set_general_sp (f : RegisterFile) (r : RegisterIndex) :
    (f.set .general r f.sp).sp = f.sp := by
  rw [sp, get_set]
  split
  · rfl
  · rfl

end RegisterFile

namespace Exec

variable {table : HostTable} {i : Instruction} {s t : State} {next : Nat}

theorem link_performsAs : PerformsAs table .link link := by
  intro s
  refine decodes_byte _ rfl (fun _ => rfl) fun byte => ?_
  refine decodes_long .displacement rfl (fun _ => rfl) fun d => decodes_nil ?_
  simp only [bind_get]
  let r : RegisterIndex := .ofByte (byte &&& 0xf)
  let u : State := { s with cursor := s.cursor + 1 + 4 }
  by_cases hroom : u.CanPush
  · rw [bind_of_ok (push_of_canPush (u.general r) hroom)]
    -- The frame register may be the stack pointer itself; the copy leaves it where it is.
    let p : Core := u.toCore.pushed (u.general r)
    have hsp : p.registers.sp = s.registers.sp - 8 := RegisterFile.sp_setSp _ _
    have hcopy : (p.setGeneral r p.registers.sp).registers.sp = s.registers.sp - 8 :=
      (RegisterFile.sp_set_general_sp p.registers r).trans hsp
    show Instruction.Effect _ _ _ _ _ _
      ((p.setGeneral r p.registers.sp).setGeneral .stackPointer
        ((p.setGeneral r p.registers.sp).registers.sp + LittleEndian.extend d))
    rw [hcopy, hsp]
    exact .link rfl rfl hroom
  · obtain ⟨f, hpush, hf⟩ := push_of_not_canPush (u.general r) hroom
    rw [bind_of_error hpush]
    exact behaves_refused rfl (by simp) hf

/-- Once its register is known, nothing stops the end of a frame before it acts. -/
theorem behaves_unlink (table : HostTable) (byte : UInt8) (s : State) :
    Instruction.Behaves table ⟨.unlk, [.frameRegister byte]⟩ s (s.cursor + 1) ((do
      modify fun u => u.setGeneral .stackPointer (u.general (.ofByte (byte &&& 0xf)))
      let saved ← pop
      modify fun u => u.setGeneral (.ofByte (byte &&& 0xf)) saved
      return Flow.next : Exec Flow) { s with cursor := s.cursor + 1 }) := by
  rw [bind_modify]
  let r : RegisterIndex := .ofByte (byte &&& 0xf)
  let u : State := State.setGeneral { s with cursor := s.cursor + 1 } .stackPointer (s.general r)
  show Instruction.Behaves _ _ _ _ ((pop >>= fun saved => _) u)
  have hsp : u.registers.sp = s.general r := RegisterFile.sp_setSp _ _
  by_cases hframe : s.general r = 0
  · rw [bind_of_error (pop_of_zero (hsp.trans hframe))]
    show Instruction.Failure _ _ _ _ _ { s.toCore with
      cursor := s.cursor + 1
      registers := s.registers.setSp (s.general r) }
    rw [hframe]
    exact .unlinkNull rfl rfl hframe
  · rw [bind_of_ok (pop_of_ne_zero (by rw [hsp]; exact hframe)), hsp, bind_modify, pure_apply]
    show Instruction.Effect _ _ _ _ _ _
      (Core.setGeneral { s.toCore with
          cursor := s.cursor + 1
          registers := (s.registers.setSp (s.general r)).setSp (s.general r + 8) } r
        (s.memory.read (s.general r) .quad))
    rw [RegisterFile.setSp, RegisterFile.setSp, RegisterFile.set_set]
    exact .unlink rfl rfl

theorem unlk_performsAs : PerformsAs table .unlk unlk := fun s =>
  decodes_byte _ rfl (fun _ => rfl) fun byte => decodes_nil (behaves_unlink table byte s)

theorem pea_performsAs : PerformsAs table .pea pea := by
  intro s
  refine decodes_address rfl rfl fun o mode a haddress => decodes_nil ?_
  let u : State := s.past o 8 (o.extent 8) mode
  by_cases hroom : u.CanPush
  · rw [bind_of_ok (push_of_canPush a hroom)]
    exact Instruction.Effect.pushAddress rfl haddress hroom
  · obtain ⟨f, hpush, hf⟩ := push_of_not_canPush a hroom
    rw [bind_of_error hpush]
    exact behaves_refused rfl (by simp) hf

/-! ## All opcodes -/

/-- Every handler behaves as its instruction should. -/
theorem perform_performsAs (table : HostTable) (op : Opcode) :
    PerformsAs table op (perform table op) := by
  cases op with
  | stop => exact stop_performsAs
  | host => exact host_performsAs
  | bra => exact bra_performsAs
  | bsr => exact bsr_performsAs
  | jmp => exact jmp_performsAs
  | jsr => exact jsr_performsAs
  | rts => exact rts_performsAs
  | bmc => exact bmc_performsAs
  | bdc => exact bdc_performsAs
  | dbnz => exact dbnz_performsAs
  | smc => exact smc_performsAs
  | sdc => exact sdc_performsAs
  | clr w => exact clr_performsAs w
  | exg => exact exchange_performsAs .general rfl (Or.inl rfl)
  | fexg => exact exchange_performsAs .float rfl (Or.inr rfl)
  | savem => exact savem_performsAs
  | loadm => exact loadm_performsAs
  | link => exact link_performsAs
  | unlk => exact unlk_performsAs
  | lea => exact lea_performsAs
  | pea => exact pea_performsAs
  | convert p =>
      simp only [perform, transform]
      cases p <;> exact compute_performsAs _ _ _ rfl rfl
  | _ =>
      simp only [perform, transform]
      exact compute_performsAs _ _ _ rfl rfl

end Exec

end BytecodeMachine
