import BytecodeMachine.Execution.Dispatch
import BytecodeMachine.Proofs.Execution.Fetch

/-!
# What instructions leave standing

No instruction touches the bookkeeping of the heap, the bounds of the code and the stack or
the record of the last fault, and the status changes only where an instruction completes
the run.  `State.Standing` says that two states agree in all of this.  Behind the opcode byte the
latch goes on naming the instruction, which `State.Kept` adds.

`Exec.Leaves` states it for the parts of instructions and is closed under sequencing, so the
proof for a part follows its text.  `Exec.Settles` states it for handlers, whose answer tells
whether the status has changed.  Whole instructions come last, as `Exec.settles_instruction`.
-/

namespace BytecodeMachine

namespace State

/-- The two states agree in what instructions leave standing. -/
structure Standing (s t : State) : Prop where
  heap : t.heap = s.heap
  code : t.code = s.code
  stack : t.stack = s.stack
  status : t.status = s.status
  fault : t.fault = s.fault

theorem Standing.trans {s t u : State} (hst : s.Standing t) (htu : t.Standing u) :
    s.Standing u where
  heap := htu.heap.trans hst.heap
  code := htu.code.trans hst.code
  stack := htu.stack.trans hst.stack
  status := htu.status.trans hst.status
  fault := htu.fault.trans hst.fault

/-- The two states agree in what the parts behind the opcode byte leave standing: their latches
also name the same instruction. -/
structure Kept (s t : State) : Prop extends Standing s t where
  opcode : t.latch.opcode = s.latch.opcode
  offset : t.latch.offset = s.latch.offset

namespace Kept

theorem refl (s : State) : s.Kept s := ⟨⟨rfl, rfl, rfl, rfl, rfl⟩, rfl, rfl⟩

theorem trans {s t u : State} (hst : s.Kept t) (htu : t.Kept u) : s.Kept u where
  toStanding := hst.toStanding.trans htu.toStanding
  opcode := htu.opcode.trans hst.opcode
  offset := htu.offset.trans hst.offset

theorem write (s : State) (l : Location) (w : Width) (value : UInt64) :
    s.Kept (s.write l w value) := by
  cases l <;> exact ⟨⟨rfl, rfl, rfl, rfl, rfl⟩, rfl, rfl⟩

theorem saveBlock (s : State) (a : UInt64) (registers : List (Bank × RegisterIndex)) :
    s.Kept { s with toCore := s.toCore.saveBlock a registers } := by
  induction registers generalizing s a with
  | nil => exact refl s
  | cons entry rest ih =>
      obtain ⟨bank, r⟩ := entry
      have hrest := ih
        { s with memory := s.memory.write a .quad (s.registers.get bank r) } (a + 8)
      exact ⟨⟨hrest.heap, hrest.code, hrest.stack, hrest.status, hrest.fault⟩, rfl, rfl⟩

theorem loadBlock (s : State) (a : UInt64) (registers : List (Bank × RegisterIndex)) :
    s.Kept { s with toCore := s.toCore.loadBlock a registers } := by
  induction registers generalizing s a with
  | nil => exact refl s
  | cons entry rest ih =>
      obtain ⟨bank, r⟩ := entry
      have hrest := ih
        { s with registers := s.registers.set bank r (s.memory.read a .quad) } (a + 8)
      exact ⟨⟨hrest.heap, hrest.code, hrest.stack, hrest.status, hrest.fault⟩, rfl, rfl⟩

end Kept

end State

namespace Exec

variable {α β : Type}

/-! ## Parts of instructions -/

/-- However the part ends, it has left everything standing. -/
def Leaves (x : Exec α) : Prop :=
  ∀ s, match x s with
    | .ok _ t => s.Kept t
    | .error _ t => s.Kept t

theorem leaves_pure (a : α) : Leaves (pure a) := State.Kept.refl

theorem leaves_throw (f : Fault) : Leaves (throw f : Exec α) := State.Kept.refl

theorem leaves_get : Leaves (get : Exec State) := State.Kept.refl

theorem leaves_modify {g : State → State} (hg : ∀ s : State, s.Kept (g s)) :
    Leaves (modify g : Exec PUnit) := hg

theorem leaves_bind {x : Exec α} {k : α → Exec β} (hx : Leaves x) (hk : ∀ a, Leaves (k a)) :
    Leaves (x >>= k) := by
  intro s
  have hfirst := hx s
  cases hanswer : x s with
  | error f t =>
      rw [hanswer] at hfirst
      rw [bind_of_error hanswer]
      exact hfirst
  | ok a t =>
      rw [hanswer] at hfirst
      rw [bind_of_ok hanswer]
      have hsecond := hk a t
      cases hrest : k a t with
      | error f u =>
          rw [hrest] at hsecond
          exact hfirst.trans hsecond
      | ok b u =>
          rw [hrest] at hsecond
          exact hfirst.trans hsecond

theorem leaves_ite {p : Prop} [Decidable p] {x y : Exec α} (hx : Leaves x) (hy : Leaves y) :
    Leaves (if p then x else y) := by
  by_cases hp : p
  · rw [if_pos hp]
    exact hx
  · rw [if_neg hp]
    exact hy

theorem leaves_advance (n : Nat) : Leaves (advance n) := by
  intro s
  unfold advance
  by_cases hlong : s.code.length < s.cursor + n
  · simp only [hlong, if_true]
    exact State.Kept.refl s
  · simp only [hlong, if_false]
    exact ⟨⟨rfl, rfl, rfl, rfl, rfl⟩, rfl, rfl⟩

theorem leaves_fetch (n : Nat) : Leaves (fetch n) :=
  leaves_bind (leaves_advance n) fun _ => leaves_bind leaves_get fun _ => leaves_pure _

theorem leaves_fetchByte : Leaves fetchByte :=
  leaves_bind (leaves_fetch 1) fun _ => leaves_pure _

theorem leaves_fetchLong : Leaves fetchLong :=
  leaves_bind (leaves_fetch 4) fun _ => leaves_pure _

theorem leaves_fetchQuad : Leaves fetchQuad :=
  leaves_bind (leaves_fetch 8) fun _ => leaves_pure _

theorem leaves_fetchDisplacement : Leaves fetchDisplacement :=
  leaves_bind (leaves_fetch 4) fun _ => leaves_pure _

theorem leaves_locate (mode : UInt8) (a : UInt64) : Leaves (locate mode a) :=
  leaves_ite (leaves_throw _) (leaves_pure _)

theorem leaves_step (how : Stepping) (r : RegisterIndex) (size : Nat) :
    Leaves (step how r size) := fun _ => ⟨⟨rfl, rfl, rfl, rfl, rfl⟩, rfl, rfl⟩

theorem leaves_resolveMode (size : Nat) (destination : Option Location) (mode : UInt8) :
    Leaves (resolveMode size destination mode) := by
  unfold resolveMode
  cases Mode.ofByte mode with
  | register bank r => exact leaves_pure _
  | indirect r => exact leaves_bind leaves_get fun _ => leaves_locate _ _
  | stepped how r => exact leaves_bind (leaves_step _ _ _) fun _ => leaves_locate _ _
  | displaced r =>
      exact leaves_bind leaves_fetchDisplacement fun _ =>
        leaves_bind leaves_get fun _ => leaves_locate _ _
  | indexed width scale far =>
      cases far with
      | false =>
          exact leaves_bind leaves_fetchByte fun _ =>
            leaves_bind leaves_get fun _ => leaves_locate _ _
      | true =>
          exact leaves_bind leaves_fetchByte fun _ =>
            leaves_bind leaves_fetchDisplacement fun _ =>
              leaves_bind leaves_get fun _ => leaves_locate _ _
  | sameAsDestination =>
      cases destination with
      | none => exact leaves_throw _
      | some l => exact leaves_pure l
  | codeRelative =>
      exact leaves_bind leaves_fetchDisplacement fun _ =>
        leaves_bind leaves_get fun _ => leaves_locate _ _
  | codeIndexed detail far => exact leaves_bind (leaves_advance _) fun _ => leaves_throw _
  | immediate =>
      exact leaves_bind (leaves_advance _) fun _ =>
        leaves_bind leaves_get fun _ => leaves_locate _ _
  | absolute => exact leaves_bind leaves_fetchQuad fun _ => leaves_locate _ _
  | reserved => exact leaves_throw _

theorem leaves_resolve (size : Nat) (destination : Option Location) :
    Leaves (resolve size destination) :=
  leaves_bind leaves_fetchByte fun mode =>
    leaves_bind (leaves_modify fun _ => ⟨⟨rfl, rfl, rfl, rfl, rfl⟩, rfl, rfl⟩) fun _ =>
      leaves_resolveMode size destination mode

theorem leaves_resolveDestination (size : Nat) : Leaves (resolveDestination size) :=
  leaves_bind (leaves_resolve size none) fun l =>
    leaves_bind (leaves_modify fun _ => ⟨⟨rfl, rfl, rfl, rfl, rfl⟩, rfl, rfl⟩) fun _ => leaves_pure l

theorem leaves_resolveSource (size : Nat) : Leaves (resolveSource size) :=
  leaves_bind leaves_get fun s => leaves_resolve size s.latch.destination

theorem leaves_resolveOnly (size : Nat) : Leaves (resolveOnly size) := leaves_resolve size none

theorem leaves_addressOf (l : Location) : Leaves (addressOf l) := by
  cases l with
  | register bank r => exact leaves_bind leaves_get fun _ => leaves_throw _
  | memory a => exact leaves_pure a

theorem leaves_resolveAddress (size : Nat) : Leaves (resolveAddress size) :=
  leaves_bind (leaves_resolveOnly size) leaves_addressOf

theorem leaves_push (value : UInt64) : Leaves (push value) := by
  intro s
  unfold push
  simp only
  by_cases hoverflow : overflows s.stack s.registers.sp = true
  · simp only [hoverflow, if_true]
    exact State.Kept.refl s
  · by_cases hnull : s.registers.sp - 8 = 0
    · simp only [hoverflow, hnull, if_true]
      exact State.Kept.refl s
    · simp only [hoverflow, hnull, if_false]
      exact ⟨⟨rfl, rfl, rfl, rfl, rfl⟩, rfl, rfl⟩

theorem leaves_pop : Leaves pop := by
  intro s
  unfold pop
  simp only
  by_cases hnull : s.registers.sp = 0
  · simp only [hnull, if_true]
    exact State.Kept.refl s
  · simp only [hnull, if_false]
    exact ⟨⟨rfl, rfl, rfl, rfl, rfl⟩, rfl, rfl⟩

theorem leaves_moveTo (offset : Nat) : Leaves (moveTo offset) :=
  leaves_modify fun _ => ⟨⟨rfl, rfl, rfl, rfl, rfl⟩, rfl, rfl⟩

theorem leaves_branch (d : Int32) : Leaves (branch d) :=
  leaves_bind leaves_get fun _ => leaves_ite (leaves_throw _) (leaves_moveTo _)

theorem leaves_targetOf (a : UInt64) : Leaves (targetOf a) := by
  refine leaves_bind leaves_get fun s => ?_
  split
  · exact leaves_pure _
  · exact leaves_throw _

theorem leaves_jump (a : UInt64) : Leaves (jump a) :=
  leaves_bind (leaves_targetOf a) leaves_moveTo

theorem leaves_call (a : UInt64) : Leaves (call a) :=
  leaves_bind (leaves_targetOf a) fun offset =>
    leaves_bind leaves_get fun s =>
      leaves_bind (leaves_push (s.codeAddress s.cursor)) fun _ =>
        leaves_bind (leaves_modify fun _ => ⟨⟨rfl, rfl, rfl, rfl, rfl⟩, rfl, rfl⟩) fun _ =>
          leaves_moveTo offset

theorem leaves_fetchTest : Leaves fetchTest := by
  refine leaves_bind leaves_fetchByte fun byte => ?_
  split
  · exact leaves_pure _
  · exact leaves_throw _

theorem leaves_fetchRelation : Leaves fetchRelation := by
  refine leaves_bind leaves_fetchByte fun byte => ?_
  split
  · exact leaves_pure _
  · exact leaves_throw _

theorem leaves_compare (byte : UInt8) (type : OperandType) (relation : Relation)
    (a b : Location) : Leaves (compare byte type relation a b) := by
  refine leaves_bind leaves_get fun s => ?_
  split
  · exact leaves_pure _
  · exact leaves_throw _

/-! ## Whole instructions -/

/-- The state whose status is as the answer of an instruction tells. -/
def settled (s : State) : Flow → State
  | .halt => { s with status := .completed }
  | .next | .call _ => s

/-- The instruction leaves everything standing, apart from a status that it reports. -/
def Settles (x : Exec Flow) : Prop :=
  ∀ s, match x s with
    | .ok flow t => (settled s flow).Kept t
    | .error _ t => s.Kept t

theorem settles_next : Settles (pure .next) := State.Kept.refl

theorem settles_call (v : HostVector) : Settles (pure (.call v)) := State.Kept.refl

theorem settles_throw (f : Fault) : Settles (throw f) := State.Kept.refl

theorem settles_completed : Settles (finish .completed) :=
  fun s => State.Kept.refl { s with status := .completed }

theorem Standing.settled {s t : State} (hst : s.Standing t) (flow : Flow) :
    (settled s flow).Standing (settled t flow) := by
  cases flow with
  | halt => exact ⟨hst.heap, hst.code, hst.stack, rfl, hst.fault⟩
  | next => exact hst
  | call v => exact hst

theorem Kept.settled {s t : State} (hst : s.Kept t) (flow : Flow) :
    (settled s flow).Kept (settled t flow) where
  toStanding := Standing.settled hst.toStanding flow
  opcode := by cases flow <;> exact hst.opcode
  offset := by cases flow <;> exact hst.offset

/-- A part that leaves everything standing may come before. -/
theorem settles_bind {x : Exec α} {k : α → Exec Flow} (hx : Leaves x)
    (hk : ∀ a, Settles (k a)) : Settles (x >>= k) := by
  intro s
  have hfirst := hx s
  cases hanswer : x s with
  | error f t =>
      rw [hanswer] at hfirst
      rw [bind_of_error hanswer]
      exact hfirst
  | ok a t =>
      rw [hanswer] at hfirst
      rw [bind_of_ok hanswer]
      have hsecond := hk a t
      cases hrest : k a t with
      | error f u =>
          rw [hrest] at hsecond
          exact hfirst.trans hsecond
      | ok flow u =>
          rw [hrest] at hsecond
          exact (Kept.settled hfirst flow).trans hsecond

theorem settles_ite {p : Prop} [Decidable p] {x y : Exec Flow} (hx : Settles x)
    (hy : Settles y) : Settles (if p then x else y) := by
  by_cases hp : p
  · rw [if_pos hp]
    exact hx
  · rw [if_neg hp]
    exact hy

theorem settles_write (l : Location) (w : Width) (value : UInt64) :
    Settles (do
      modify fun s => s.write l w value
      return .next) :=
  settles_bind (leaves_modify fun s => State.Kept.write s l w value) fun _ => settles_next

theorem settles_host (table : HostTable) : Settles (host table) := by
  refine settles_bind leaves_fetchByte fun module => settles_bind leaves_get fun s => ?_
  simp only
  split
  · exact settles_call _
  · exact settles_throw _

theorem settles_bra : Settles bra :=
  settles_bind leaves_fetchDisplacement fun d =>
    settles_bind (leaves_branch d) fun _ => settles_next

theorem settles_bsr : Settles bsr :=
  settles_bind leaves_fetchDisplacement fun _ =>
    settles_bind leaves_get fun _ =>
      settles_bind (leaves_call _) fun _ => settles_next

theorem settles_jmp : Settles jmp :=
  settles_bind (leaves_resolveAddress 8) fun a =>
    settles_bind (leaves_jump a) fun _ => settles_next

theorem settles_jsr : Settles jsr :=
  settles_bind (leaves_resolveAddress 8) fun a =>
    settles_bind (leaves_call a) fun _ => settles_next

theorem settles_rts : Settles rts :=
  settles_bind (leaves_modify fun _ => ⟨⟨rfl, rfl, rfl, rfl, rfl⟩, rfl, rfl⟩) fun _ =>
    settles_bind leaves_get fun _ =>
      settles_ite settles_completed
        (settles_bind leaves_pop fun a => settles_bind (leaves_jump a) fun _ => settles_next)

theorem settles_branchIf (taken : Bool) : Settles (branchIf taken) :=
  settles_bind leaves_fetchDisplacement fun d =>
    settles_ite (settles_bind (leaves_branch d) fun _ => settles_next) settles_next

theorem settles_bmc : Settles bmc :=
  settles_bind leaves_fetchTest fun condition =>
    settles_bind (leaves_resolveDestination condition.1.size) fun _ =>
      settles_bind leaves_get fun _ => settles_branchIf _

theorem settles_bdc : Settles bdc :=
  settles_bind leaves_fetchRelation fun condition =>
    settles_bind (leaves_resolveDestination condition.2.1.size) fun _ =>
      settles_bind (leaves_resolveSource condition.2.1.size) fun _ =>
        settles_bind (leaves_compare _ _ _ _ _) fun taken => settles_branchIf taken

theorem settles_dbnz : Settles dbnz :=
  settles_bind (leaves_resolveOnly 4) fun l =>
    settles_bind leaves_fetchDisplacement fun d =>
      settles_bind leaves_get fun _ =>
        settles_bind (leaves_modify fun s => State.Kept.write s l _ _) fun _ =>
          settles_ite (settles_bind (leaves_branch d) fun _ => settles_next) settles_next

theorem settles_smc : Settles smc :=
  settles_bind leaves_fetchTest fun condition =>
    settles_bind (leaves_resolveDestination 1) fun l =>
      settles_bind (leaves_resolveSource condition.1.size) fun _ =>
        settles_bind leaves_get fun _ => settles_write l _ _

theorem settles_sdc : Settles sdc :=
  settles_bind leaves_fetchRelation fun condition =>
    settles_bind (leaves_resolveDestination 1) fun l =>
      settles_bind (leaves_resolveSource condition.2.1.size) fun _ =>
        settles_bind (leaves_resolveSource condition.2.1.size) fun _ =>
          settles_bind (leaves_compare _ _ _ _ _) fun _ => settles_write l _ _

theorem settles_compute (destination source : Width)
    (value : UInt64 → UInt64 → Option UInt64) : Settles (compute destination source value) := by
  refine settles_bind (leaves_resolveDestination _) fun target =>
    settles_bind (leaves_resolveSource _) fun l => settles_bind leaves_get fun s => ?_
  split
  · exact settles_throw _
  · exact settles_write target _ _

theorem settles_clr (w : Width) : Settles (clr w) :=
  settles_bind (leaves_resolveOnly w.bytes) fun l => settles_write l w 0

theorem settles_exchange (bank : Bank) : Settles (exchange bank) :=
  settles_bind leaves_fetchByte fun _ =>
    settles_bind (leaves_modify fun _ => ⟨⟨rfl, rfl, rfl, rfl, rfl⟩, rfl, rfl⟩) fun _ => settles_next

theorem settles_savem : Settles savem :=
  settles_bind leaves_fetchLong fun mask =>
    settles_bind (leaves_resolveAddress (RegisterMask.blockSize mask)) fun a =>
      settles_bind (leaves_modify fun s => State.Kept.saveBlock s a _) fun _ => settles_next

theorem settles_loadm : Settles loadm :=
  settles_bind leaves_fetchLong fun mask =>
    settles_bind (leaves_resolveAddress (RegisterMask.blockSize mask)) fun a =>
      settles_bind (leaves_modify fun s => State.Kept.loadBlock s a _) fun _ => settles_next

theorem settles_link : Settles link :=
  settles_bind leaves_fetchByte fun _ =>
    settles_bind leaves_fetchDisplacement fun _ =>
      settles_bind leaves_get fun _ =>
        settles_bind (leaves_push _) fun _ =>
          settles_bind (leaves_modify fun _ => ⟨⟨rfl, rfl, rfl, rfl, rfl⟩, rfl, rfl⟩) fun _ =>
            settles_bind (leaves_modify fun _ => ⟨⟨rfl, rfl, rfl, rfl, rfl⟩, rfl, rfl⟩) fun _ => settles_next

theorem settles_unlk : Settles unlk :=
  settles_bind leaves_fetchByte fun _ =>
    settles_bind (leaves_modify fun _ => ⟨⟨rfl, rfl, rfl, rfl, rfl⟩, rfl, rfl⟩) fun _ =>
      settles_bind leaves_pop fun _ =>
        settles_bind (leaves_modify fun _ => ⟨⟨rfl, rfl, rfl, rfl, rfl⟩, rfl, rfl⟩) fun _ => settles_next

theorem settles_lea : Settles lea :=
  settles_bind (leaves_resolveDestination 8) fun l =>
    settles_bind (leaves_resolveSource 8) fun source =>
      settles_bind (leaves_addressOf source) fun a => settles_write l .quad a

theorem settles_pea : Settles pea :=
  settles_bind (leaves_resolveAddress 8) fun a =>
    settles_bind (leaves_push a) fun _ => settles_next

/-- Every handler changes the status only where it reports so. -/
theorem settles_perform (table : HostTable) (op : Opcode) : Settles (perform table op) := by
  cases op with
  | stop => exact settles_completed
  | host => exact settles_host table
  | bra => exact settles_bra
  | bsr => exact settles_bsr
  | jmp => exact settles_jmp
  | jsr => exact settles_jsr
  | rts => exact settles_rts
  | bmc => exact settles_bmc
  | bdc => exact settles_bdc
  | dbnz => exact settles_dbnz
  | smc => exact settles_smc
  | sdc => exact settles_sdc
  | clr w => exact settles_clr w
  | exg => exact settles_exchange .general
  | fexg => exact settles_exchange .float
  | savem => exact settles_savem
  | loadm => exact settles_loadm
  | link => exact settles_link
  | unlk => exact settles_unlk
  | lea => exact settles_lea
  | pea => exact settles_pea
  | _ =>
      simp only [perform, transform]
      exact settles_compute _ _ _

/-- Fetching the opcode byte changes the latch, and leaves everything else standing. -/
theorem standing_fetchOpcode (s : State) :
    match fetchOpcode s with
    | .ok _ t => s.Standing t
    | .error _ t => s.Standing t := by
  have hbyte := leaves_fetchByte { s with latch := { s.latch with offset := s.cursor } }
  unfold fetchOpcode
  rw [bind_modify]
  cases hanswer : fetchByte { s with latch := { s.latch with offset := s.cursor } } with
  | error f t =>
      rw [hanswer] at hbyte
      rw [bind_of_error hanswer]
      exact ⟨hbyte.heap, hbyte.code, hbyte.stack, hbyte.status, hbyte.fault⟩
  | ok byte t =>
      rw [hanswer] at hbyte
      rw [bind_of_ok hanswer, bind_modify]
      exact ⟨hbyte.heap, hbyte.code, hbyte.stack, hbyte.status, hbyte.fault⟩

/-- A whole instruction leaves everything standing, apart from a status that it reports. -/
theorem settles_instruction (table : HostTable) (s : State) :
    match instruction table s with
    | .ok flow t => (settled s flow).Standing t
    | .error _ t => s.Standing t := by
  have hfetch := standing_fetchOpcode s
  unfold instruction
  cases hanswer : fetchOpcode s with
  | error f t =>
      rw [hanswer] at hfetch
      rw [bind_of_error hanswer]
      exact hfetch
  | ok byte t =>
      rw [hanswer] at hfetch
      rw [bind_of_ok hanswer]
      cases Opcode.ofByte? byte with
      | none => exact hfetch
      | some op =>
          have hrest := settles_perform table op t
          simp only
          cases hperform : perform table op t with
          | error f u =>
              rw [hperform] at hrest
              exact hfetch.trans hrest.toStanding
          | ok flow u =>
              rw [hperform] at hrest
              exact (Standing.settled hfetch flow).trans hrest.toStanding

end Exec

end BytecodeMachine
