import BytecodeMachine.Proofs.Execution.Standing
import BytecodeMachine.Proofs.Instruction.Outcome
import BytecodeMachine.Proofs.Memory.Window

/-!
# What an instruction can change

Which bytes of memory and which registers an instruction may change is read off the
instruction in symbolic form:

* `Instruction.written?` is the window of memory that it writes, if it writes any;
* `Instruction.named` are the registers that it sets besides its destination;
* `Instruction.operands` are the operands, whose registers may be stepped.

`State.Confined` says that a step has changed nothing else.  The main statement is that this
holds of every step without a fault, apart from host calls.  `State.ComesTo` lists what executing
an instruction can come to, host calls included.
-/

namespace BytecodeMachine

/-! ## Windows -/

/-- Addresses that follow one another; after the last address comes the first. -/
structure Window where
  start : UInt64
  length : Nat
  deriving DecidableEq, Repr

/-- The address lies in the window. -/
def Window.Holds (w : Window) (a : UInt64) : Prop := (a - w.start).toNat < w.length

instance (w : Window) (a : UInt64) : Decidable (w.Holds a) :=
  inferInstanceAs (Decidable (_ < _))

theorem Window.length_le {w : Window} {a : UInt64} (houtside : ¬w.Holds a) :
    w.length ≤ (a - w.start).toNat := Nat.le_of_not_lt houtside

/-- A block of registers is stored in the window of its size. -/
theorem Memory.byte_storing (m : Memory) (f : RegisterFile) {a b : UInt64}
    {registers : List (Bank × RegisterIndex)} (hbeyond : 8 * registers.length ≤ (b - a).toNat) :
    (m.storing f a registers).byte b = m.byte b := by
  induction registers generalizing m a with
  | nil => rfl
  | cons entry rest ih =>
      obtain ⟨bank, r⟩ := entry
      rw [List.length_cons] at hbeyond
      -- The rest of the block starts eight addresses further on.
      have hfurther : (b - (a + 8)).toNat = (b - a).toNat - 8 := by
        have hsum : (a + 8).toNat = (a.toNat + 8) % 2 ^ 64 := UInt64.toNat_add a 8
        have ha := a.toNat_lt
        have hb := b.toNat_lt
        rw [UInt64.toNat_sub] at hbeyond
        rw [UInt64.toNat_sub, UInt64.toNat_sub, hsum]
        omega
      rw [storing, ih _ (by omega)]
      exact m.byte_write_of_le _ (show 8 ≤ _ by omega)

theorem RegisterMask.length_registers (m : RegisterMask) :
    8 * m.registers.length = m.blockSize := by
  rw [registers, List.length_map, blockSize]

/-! ## Cells -/

namespace RegisterFile

theorem get_set_of_ne (f : RegisterFile) {bank bank' : Bank} {r r' : RegisterIndex}
    (value : UInt64) (hne : (bank, r) ≠ (bank', r')) :
    (f.set bank' r' value).get bank r = f.get bank r := by
  rw [get_set, if_neg]
  rintro ⟨rfl, rfl⟩
  exact hne rfl

theorem get_exchange_of_ne (f : RegisterFile) {bank bank' : Bank} {r a b : RegisterIndex}
    (ha : (bank, r) ≠ (bank', a)) (hb : (bank, r) ≠ (bank', b)) :
    (f.exchange bank' a b).get bank r = f.get bank r := by
  rw [exchange, get_set_of_ne _ _ hb, get_set_of_ne _ _ ha]

theorem get_loading_of_not_mem (f : RegisterFile) (m : Memory) {a : UInt64}
    {registers : List (Bank × RegisterIndex)} {bank : Bank} {r : RegisterIndex}
    (hother : (bank, r) ∉ registers) : (f.loading m a registers).get bank r = f.get bank r := by
  induction registers generalizing f a with
  | nil => rfl
  | cons entry rest ih =>
      obtain ⟨bank', r'⟩ := entry
      rw [List.mem_cons, not_or] at hother
      rw [loading, ih _ hother.2, get_set_of_ne _ _ hother.1]

end RegisterFile

/-- The bytes above the width survive a narrow write. -/
theorem Width.splice_and_not_mask (w : Width) (x v : UInt64) :
    w.splice x v &&& ~~~w.mask = x &&& ~~~w.mask := by
  rw [splice, ← UInt64.toBitVec_inj]
  simp only [UInt64.toBitVec_and, UInt64.toBitVec_or, UInt64.toBitVec_not]
  ext k hk
  simp only [BitVec.getElem_and, BitVec.getElem_or, BitVec.getElem_not]
  cases w.mask.toBitVec[k] <;> simp

/-! ## What an instruction may change -/

namespace Instruction

/-- The window of memory that an instruction writes: the word that it pushes, the block of
registers that it stores, or its destination. -/
def written? (i : Instruction) (c : Core) (start next : Nat) : Option Window :=
  match i.opcode with
  | .bsr | .jsr | .pea | .link => some ⟨(i.resolved c).registers.sp - 8, 8⟩
  | .savem =>
      match i.fields with
      | .mask m :: _ =>
          (i.address? c.registers c.code.base start next).map fun a => ⟨a, m.blockSize⟩
      | _ => none
  | _ =>
      match i.target? c.registers c.code.base start with
      | some (w, .memory a) => some ⟨a, w.bytes⟩
      | _ => none

/-- The registers that an instruction sets whole: the stack pointer, a frame register, a pair or
the registers of a mask. -/
def named (i : Instruction) : List (Bank × RegisterIndex) :=
  match i.opcode, i.fields with
  | .bsr, _ | .jsr, _ | .pea, _ | .rts, _ => [(.general, .stackPointer)]
  | .link, .frameRegister byte :: _ | .unlk, .frameRegister byte :: _ =>
      [(.general, .stackPointer), (.general, .ofByte (byte &&& 0xf))]
  | .exg, .registerPair bank byte :: _ | .fexg, .registerPair bank byte :: _ =>
      [(bank, .ofByte (byte >>> 4)), (bank, .ofByte (byte &&& 0xf))]
  | .loadm, .mask m :: _ => m.registers
  | _, _ => []

/-- By how much an instruction changes the call depth. -/
def depthChange (i : Instruction) : Int :=
  match i.opcode with
  | .bsr | .jsr => 1
  | .rts => -1
  | _ => 0

/-- The instruction completes the run. -/
def Completes (i : Instruction) (c : Core) : Prop :=
  i.opcode = .stop ∨ i.opcode = .rts ∧ c.callDepth ≤ 1

instance (i : Instruction) (c : Core) : Decidable (i.Completes c) :=
  inferInstanceAs (Decidable (_ ∨ _))

variable {table : HostTable} {i : Instruction} {c d : Core} {start next : Nat} {flow : Flow}
  {w : Width} {l : Location} {f : RegisterFile} {code : UInt64}

theorem operands_of_bare (hop : i.opcode = .stop ∨ i.opcode = .rts) : i.operands = [] := by
  rcases hop with hop | hop <;> simp only [operands, hop] <;> rfl

/-! An instruction with a destination is none of those that call, return or complete the run. -/

theorem depthChange_of_width (hwidth : i.opcode.destinationWidth? = some w) :
    i.depthChange = 0 := by
  obtain ⟨op, fields⟩ := i
  cases op <;> first | rfl | cases hwidth

theorem not_completes_of_width (hwidth : i.opcode.destinationWidth? = some w) :
    ¬i.Completes c := by
  rintro (hop | ⟨hop, -⟩)
  all_goals
    rw [hop] at hwidth
    cases hwidth

theorem written?_of_target? {a : UInt64}
    (htarget : i.target? c.registers c.code.base start = some (w, .memory a)) :
    i.written? c start next = some ⟨a, w.bytes⟩ := by
  have hwidth := width_of_target? htarget
  obtain ⟨op, fields⟩ := i
  cases op <;> cases hwidth <;> simp only [written?, htarget]

/-! ## What an effect keeps -/

namespace Effect

/-- Memory changes inside the written window only. -/
theorem memory (heffect : i.Effect table c start next flow d) {b : UInt64}
    (houtside : ∀ window, i.written? c start next = some window → ¬window.Holds b) :
    d.memory.byte b = c.memory.byte b := by
  have hpush : ∀ (a value : UInt64), i.written? c start next = some ⟨a, 8⟩ →
      (c.memory.write a .quad value).byte b = c.memory.byte b := by
    intro a value hwritten
    apply c.memory.byte_write_of_le value
    exact Window.length_le (houtside _ hwritten)
  cases heffect with
  | stop hop => rfl
  | host hop hfields hlookup => rfl
  | go hop hinside => rfl
  | call hop hroom hinside =>
      refine hpush _ _ ?_
      rcases hop with hop | hop <;> simp only [written?, hop]
  | complete hop hdepth => rfl
  | giveBack hop hdepth hinside => rfl
  | @store k w l value htarget =>
      cases l with
      | register bank r => rfl
      | memory a =>
          have hwritten : i.written? c start next = some ⟨a, w.bytes⟩ := written?_of_target? htarget
          apply c.memory.byte_write_of_le value
          exact Window.length_le (houtside _ hwritten)
  | exchange hop hfields => rfl
  | @save k m o a hop hfields haddress =>
      have hwritten : i.written? c start next = some ⟨a, m.blockSize⟩ := by
        simp only [written?, hop, hfields, haddress, Option.map_some]
      refine c.memory.byte_storing _ ?_
      rw [m.length_registers]
      exact Window.length_le (houtside _ hwritten)
  | load hop hfields haddress => rfl
  | link hop hfields hroom =>
      refine hpush _ _ ?_
      simp only [written?, hop, resolved, operands, hfields]
      rfl
  | unlink hop hfields => rfl
  | pushAddress hop haddress hroom =>
      refine hpush _ _ ?_
      simp only [written?, hop]

/-- A cell that is neither named nor the destination has at most been stepped. -/
theorem cells (heffect : i.Effect table c start next flow d) {bank : Bank} {r : RegisterIndex}
    (hnamed : (bank, r) ∉ i.named)
    (helsewhere : ∀ w, i.target? c.registers c.code.base start ≠ some (w, .register bank r)) :
    d.registers.get bank r = (c.registers.stepped i.operands).get bank r := by
  cases heffect with
  | stop hop => simp only [operands_of_bare (Or.inl hop), RegisterFile.stepped_nil]
  | host hop hfields hlookup =>
      have hnone : i.operands = [] := by
        simp only [operands, hop, hfields]
        rfl
      simp only [hnone, RegisterFile.stepped_nil]
  | go hop hinside => rfl
  | call hop hroom hinside =>
      refine RegisterFile.get_set_of_ne _ _ ?_
      rcases hop with hop | hop <;> simpa [named, hop] using hnamed
  | complete hop hdepth => simp only [operands_of_bare (Or.inr hop), RegisterFile.stepped_nil]
  | giveBack hop hdepth hinside =>
      rw [operands_of_bare (Or.inr hop)]
      refine RegisterFile.get_set_of_ne _ _ ?_
      simpa [named, hop] using hnamed
  | @store k w l value htarget =>
      cases l with
      | memory a => rfl
      | register bank' r' =>
          refine RegisterFile.get_set_of_ne _ _ ?_
          rintro ⟨⟩
          exact helsewhere w htarget
  | @exchange k bank' byte hop hfields =>
      have hnone : i.operands = [] := by
        rcases hop with hop | hop <;> simp only [operands, hop, hfields] <;> rfl
      have hpair : i.named = [(bank', .ofByte (byte >>> 4)), (bank', .ofByte (byte &&& 0xf))] := by
        rcases hop with hop | hop <;> simp only [named, hop, hfields]
      rw [hpair, List.mem_cons, List.mem_singleton, not_or] at hnamed
      rw [hnone]
      exact c.registers.get_exchange_of_ne hnamed.1 hnamed.2
  | save hop hfields haddress => rfl
  | @load k m o a hop hfields haddress =>
      refine RegisterFile.get_loading_of_not_mem _ _ ?_
      simpa only [named, hop, hfields] using hnamed
  | @link k byte displacement hop hfields hroom =>
      have hnone : i.operands = [] := by
        simp only [operands, hop, hfields]
        rfl
      simp only [named, hop, hfields, List.mem_cons, List.not_mem_nil, or_false, not_or] at hnamed
      rw [hnone]
      refine (RegisterFile.get_set_of_ne _ _ hnamed.1).trans ?_
      refine (RegisterFile.get_set_of_ne _ _ hnamed.2).trans ?_
      exact RegisterFile.get_set_of_ne _ _ hnamed.1
  | @unlink k byte hop hfields =>
      have hnone : i.operands = [] := by
        simp only [operands, hop, hfields]
        rfl
      simp only [named, hop, hfields, List.mem_cons, List.not_mem_nil, or_false, not_or] at hnamed
      rw [hnone]
      refine (RegisterFile.get_set_of_ne _ _ hnamed.2).trans ?_
      exact RegisterFile.get_set_of_ne _ _ hnamed.1
  | pushAddress hop haddress hroom =>
      refine RegisterFile.get_set_of_ne _ _ ?_
      simpa [named, hop] using hnamed

/-- An instruction with a destination stores there and does nothing else. -/
theorem store_of_width (heffect : i.Effect table c start next flow d)
    (hwidth : i.opcode.destinationWidth? = some w) :
    ∃ k l value, i.target? c.registers c.code.base start = some (w, l) ∧
      d = { (i.resolved c).write l w value with cursor := k } := by
  cases heffect with
  | @store k w' l value htarget =>
      have hsame := (width_of_target? htarget).symm.trans hwidth
      cases hsame
      exact ⟨k, l, value, htarget, rfl⟩
  | go hop =>
      rcases hop with hop | hop | hop | hop <;> simp [hop, Opcode.destinationWidth?] at hwidth
  | call hop | exchange hop =>
      rcases hop with hop | hop <;> simp [hop, Opcode.destinationWidth?] at hwidth
  | stop hop | host hop | complete hop | giveBack hop | save hop | load hop | link hop | unlink hop
  | pushAddress hop =>
      simp [hop, Opcode.destinationWidth?] at hwidth

/-- The bytes of a register destination above its width are kept. -/
theorem upper (heffect : i.Effect table c start next flow d) {bank : Bank} {r : RegisterIndex}
    (htarget : i.target? c.registers c.code.base start = some (w, .register bank r)) :
    d.registers.get bank r &&& ~~~w.mask =
      (c.registers.stepped i.operands).get bank r &&& ~~~w.mask := by
  obtain ⟨k, l, value, hstored, rfl⟩ := heffect.store_of_width (width_of_target? htarget)
  rw [htarget] at hstored
  cases hstored
  show ((c.registers.stepped i.operands).set bank r (w.splice _ value)).get bank r &&& _ = _
  rw [RegisterFile.get_set, if_pos ⟨rfl, rfl⟩]
  exact w.splice_and_not_mask _ value

theorem depth (heffect : i.Effect table c start next flow d) :
    d.callDepth = c.callDepth + i.depthChange := by
  cases heffect with
  | @store k w l value htarget =>
      rw [depthChange_of_width (width_of_target? htarget)]
      cases l <;> exact (Int.add_zero _).symm
  | stop hop => simp [depthChange, hop]
  | host hop => simp [depthChange, hop]
  | go hop => rcases hop with hop | hop | hop | hop <;> simp [depthChange, hop, resolved]
  | call hop => rcases hop with hop | hop <;> simp [depthChange, hop]
  | complete hop => simp [depthChange, hop, Int.sub_eq_add_neg]
  | giveBack hop => simp [depthChange, hop, Int.sub_eq_add_neg]
  | exchange hop => rcases hop with hop | hop <;> simp [depthChange, hop]
  | save hop => simp [depthChange, hop, resolved]
  | load hop => simp [depthChange, hop, resolved]
  | link hop => simp [depthChange, hop, Core.setGeneral, Core.pushed]
  | unlink hop => simp [depthChange, hop, Core.setGeneral]
  | pushAddress hop => simp [depthChange, hop, resolved, Core.pushed]

theorem status (heffect : i.Effect table c start next flow d) :
    d.status = if i.Completes c then .completed else c.status := by
  cases heffect with
  | @store k w l value htarget =>
      rw [if_neg (not_completes_of_width (width_of_target? htarget))]
      cases l <;> rfl
  | stop hop => simp [Completes, hop]
  | host hop => simp [Completes, hop]
  | go hop => rcases hop with hop | hop | hop | hop <;> simp [Completes, hop, resolved]
  | call hop => rcases hop with hop | hop <;> simp [Completes, hop, Core.pushed, resolved]
  | complete hop hdepth => simp [Completes, hop, hdepth]
  | giveBack hop hdepth => simp [Completes, hop, Int.not_le.mpr hdepth]
  | exchange hop => rcases hop with hop | hop <;> simp [Completes, hop]
  | save hop => simp [Completes, hop, resolved]
  | load hop => simp [Completes, hop, resolved]
  | link hop => simp [Completes, hop, Core.setGeneral, Core.pushed]
  | unlink hop => simp [Completes, hop, Core.setGeneral]
  | pushAddress hop => simp [Completes, hop, resolved, Core.pushed]

/-- Only a host call hands over to a host function. -/
theorem opcode_of_call {v : HostVector} (heffect : i.Effect table c start next (.call v) d) :
    i.opcode = .host := by
  cases heffect with
  | host hop => exact hop

theorem lookup_of_call {v : HostVector} (heffect : i.Effect table c start next (.call v) d) :
    ∃ module function, table.lookup? module function = some v := by
  cases heffect with
  | host hop hfields hlookup => exact ⟨_, _, hlookup⟩

end Effect

end Instruction

/-! ## A whole step -/

/-- From `s` to `t` nothing has changed but what the instruction of `n` bytes at the cursor of
`s` may change. -/
structure State.Confined (s : State) (i : Instruction) (n : Nat) (t : State) : Prop where
  memory : ∀ b,
    (∀ window, i.written? s.toCore (s.cursor + 1) (s.cursor + n) = some window →
      ¬window.Holds b) →
    t.memory.byte b = s.memory.byte b
  /-- Cells that are neither named nor the destination nor stepped by an operand. -/
  kept : ∀ bank r, (bank, r) ∉ i.named →
    (∀ w, i.target? s.registers s.code.base (s.cursor + 1) ≠ some (w, .register bank r)) →
    (bank = .general → ∀ entry ∈ i.operands, ¬entry.1.Steps r) →
    t.registers.get bank r = s.registers.get bank r
  /-- Cells that are neither named nor the destination. -/
  stepped : ∀ bank r, (bank, r) ∉ i.named →
    (∀ w, i.target? s.registers s.code.base (s.cursor + 1) ≠ some (w, .register bank r)) →
    t.registers.get bank r = (s.registers.stepped i.operands).get bank r
  /-- The bytes of a register destination above its width. -/
  upper : ∀ w bank r,
    i.target? s.registers s.code.base (s.cursor + 1) = some (w, .register bank r) →
    t.registers.get bank r &&& ~~~w.mask =
      (s.registers.stepped i.operands).get bank r &&& ~~~w.mask
  depth : t.callDepth = s.callDepth + i.depthChange
  status : t.status = if i.Completes s.toCore then .completed else .running
  heap : t.heap = s.heap
  code : t.code = s.code
  stack : t.stack = s.stack
  fault : t.fault = s.fault

theorem State.confined_of_handled {host : HostTable} {s t : State} {i : Instruction} {n : Nat}
    {flow : Flow} (hlisted : s.instruction? = some (i, n))
    (hhandled : s.handled host = .ok flow t) : s.Confined i n t := by
  obtain ⟨heffect, -⟩ := effect_of_handled hlisted hhandled
  have hsettles := Exec.settles_instruction host { s with status := .running }
  unfold handled at hhandled
  rw [hhandled] at hsettles
  constructor
  case memory => exact fun b houtside => heffect.memory houtside
  case kept =>
    intro bank r hnamed helsewhere hstays
    rw [heffect.cells hnamed helsewhere]
    exact RegisterFile.get_stepped _ hstays
  case stepped => exact fun bank r hnamed helsewhere => heffect.cells hnamed helsewhere
  case upper => exact fun w bank r htarget => heffect.upper htarget
  case depth => exact heffect.depth
  case status => exact heffect.status
  all_goals cases flow
  case heap.halt | heap.next | heap.call => exact hsettles.heap
  case code.halt | code.next | code.call => exact hsettles.code
  case stack.halt | stack.next | stack.call => exact hsettles.stack
  case fault.halt | fault.next | fault.call => exact hsettles.fault

/-- All that the execution of one instruction can come to: it raises a fault, or it is over, or it
has called a host function that has run its course. -/
inductive State.ComesTo (host : HostTable) (nested : State → Option State) (s : State) :
    State → Prop
  | raised {f : Fault} {u : State} (hhandled : s.handled host = .error f u)
      (hstands : s.Standing u) : ComesTo host nested s (u.raise f)
  | done {i : Instruction} {n : Nat} {flow : Flow} {u : State}
      (hhandled : s.handled host = .ok flow u) (hconfined : s.Confined i n u) :
      ComesTo host nested s u
  | called {i : Instruction} {n : Nat} {v : HostVector} {u : State} {c : Core}
      {module : UInt8} {function : UInt16} (hop : i.opcode = .host)
      (hhandled : s.handled host = .ok (.call v) u) (hconfined : s.Confined i n u)
      (hlookup : host.lookup? module function = some v)
      (hperform : (v u.toCore).perform nested u.latch = some c) :
      ComesTo host nested s { u with toCore := c }

theorem State.comesTo_of_execute {host : HostTable} {nested : State → Option State}
    {s t : State} {straight : Bool} (hrunning : s.status = .running)
    (hexecute : s.execute host nested = some (straight, t)) : s.ComesTo host nested t := by
  have hsettles := Exec.settles_instruction host s
  unfold execute at hexecute
  rw [← handled_of_running hrunning] at hexecute hsettles
  cases hhandled : s.handled host with
  | error f u =>
      rw [hhandled] at hexecute hsettles
      cases hexecute
      exact .raised hhandled hsettles
  | ok flow u =>
      rw [hhandled] at hexecute
      obtain ⟨i, n, hlisted, heffect, -⟩ := handled_ok hhandled
      have hconfined := confined_of_handled hlisted hhandled
      cases flow with
      | halt =>
          cases hexecute
          exact .done hhandled hconfined
      | next =>
          cases hexecute
          exact .done hhandled hconfined
      | call v =>
          obtain ⟨c, hperform, hpair⟩ := Option.map_eq_some_iff.mp hexecute
          cases hpair
          obtain ⟨module, function, hlookup⟩ := heffect.lookup_of_call
          exact .called heffect.opcode_of_call hhandled hconfined hlookup hperform

theorem Status.isFault_of_isActive {status : Status} (hactive : status.isActive = true) :
    status.isFault = false := by
  cases status <;> first | rfl | cases hactive

theorem Fault.isFault_status (f : Fault) : f.status.isFault = true := by
  cases f <;> rfl

/-- A step over an instruction other than a host call always ends, with the host functions as
they were.  Unless it faults, it has changed only what the instruction may change. -/
theorem step_is_confined (m : Machine) (i : Instruction) (n : Nat)
    (hactive : m.status.isActive = true) (hlisted : m.state.instruction? = some (i, n))
    (hop : i.opcode ≠ .host) :
    ∃ t, (∀ fuel, m.step fuel = some { m with state := t }) ∧
      (t.status.isFault = false → m.state.Confined i n t) := by
  cases hhandled : m.state.handled m.host with
  | error f t =>
      obtain ⟨u, hu, hstep⟩ := State.raises_of_handled hactive hhandled
      refine ⟨u.raise f, ?_, ?_⟩
      · intro fuel
        rw [Machine.step, hstep fuel]
        rfl
      · intro hgoes
        have hfault : (u.raise f).status.isFault = true := f.isFault_status
        rw [hfault] at hgoes
        cases hgoes
  | ok flow t =>
      refine ⟨t, ?_, fun _ => State.confined_of_handled hlisted hhandled⟩
      intro fuel
      rw [Machine.step, State.step_of_handled hactive hhandled]
      cases flow with
      | halt => rfl
      | next => rfl
      | call v =>
          obtain ⟨heffect, -⟩ := State.effect_of_handled hlisted hhandled
          exact absurd heffect.opcode_of_call hop

/-- A machine that clears the lowest byte of its stack pointer. -/
def Machine.clearsByte : Machine :=
  { state :=
      { State.load [18, 0x0f] ⟨AddressSpace.stackBase, 255⟩ with status := .initialised } }

/-- Of the stack pointer only the lowest byte changes, and memory not at all. -/
theorem step_clearsByte_is_confined :
    ∃ t, (∀ fuel, Machine.clearsByte.step fuel = some { Machine.clearsByte with state := t }) ∧
      t.status = .running ∧
      t.registers.sp &&& ~~~Width.byte.mask = AddressSpace.stackBase ∧
      ∀ b, t.memory.byte b = Machine.clearsByte.state.memory.byte b := by
  have hlisted : Machine.clearsByte.state.instruction? =
      some (⟨.clr .byte, [.operand (.register .general 15)]⟩, 2) := by decide +kernel
  obtain ⟨t, hstep, hconfined⟩ := step_is_confined Machine.clearsByte _ 2 rfl hlisted (by simp)
  have hstatus : (Machine.clearsByte.step 0).map (fun m => m.status) = some .running := by
    decide +kernel
  rw [hstep 0] at hstatus
  have hrunning : t.status = .running := by injection hstatus
  have hframe := hconfined (by rw [hrunning]; rfl)
  refine ⟨t, hstep, hrunning, ?_, ?_⟩
  · have hupper := hframe.upper .byte .general .stackPointer rfl
    refine Eq.trans hupper ?_
    decide +kernel
  · refine fun b => hframe.memory b ?_
    intro window hwindow
    cases hwindow

end BytecodeMachine
