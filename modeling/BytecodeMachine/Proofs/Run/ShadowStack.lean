import BytecodeMachine.Machine
import BytecodeMachine.Proofs.Host.Conduct
import BytecodeMachine.Proofs.Instruction.Calls
import BytecodeMachine.Proofs.Instruction.Confinement
import BytecodeMachine.Proofs.Memory.Window
import BytecodeMachine.Proofs.Run.Stepping

/-!
# The stack as a list of words

The stack pointer, the bytes above it and the call depth are changed by different instructions.
Beside a run we keep a list, the shadow of the stack: calls and pushes of an address put a word
on it, returns take one off.  As long as nothing else moves the stack pointer or writes above it,

* the words in memory from the stack pointer up to the top of the stack are the list,
* the call depth counts the calls that have not returned,
* the stack pointer stays inside the stack, which bounds the call depth.

`State.Holds` is the first of these, `Shadow.Counts` the second, and `State.Shadowed` are the
states of such runs with their shadows.
-/

namespace BytecodeMachine

/-! ## The words on the stack -/

/-- Without an operand that steps it, the stack pointer is where it was. -/
theorem Instruction.sp_resolved {i : Instruction} {c : Core}
    (hstays : ∀ entry ∈ i.operands, ¬entry.1.Steps .stackPointer) :
    (i.resolved c).registers.sp = c.registers.sp :=
  RegisterFile.get_stepped _ fun _ => hstays

/-- A word below an address that has room for it. -/
theorem Word.toNat_sub_eight {a : UInt64} (ha : 8 ≤ a.toNat) : (a - 8).toNat = a.toNat - 8 :=
  UInt64.toNat_sub_of_le _ _ (UInt64.le_iff_toNat_le.mpr ha)

theorem Exec.overflows_iff {size : Nat} {sp : UInt64}
    (hbase : AddressSpace.stackBase.toNat ≤ sp.toNat)
    (htop : sp.toNat ≤ AddressSpace.stackBase.toNat + size) :
    overflows ⟨AddressSpace.stackBase, size⟩ sp = true ↔
      sp.toNat < AddressSpace.stackBase.toNat + 8 := by
  have hle : AddressSpace.stackBase ≤ sp := UInt64.le_iff_toNat_le.mpr hbase
  have hoffset : (sp - AddressSpace.stackBase).toNat =
      sp.toNat - AddressSpace.stackBase.toNat := UInt64.toNat_sub_of_le _ _ hle
  unfold overflows Region.offsetOf?
  simp only [hle, if_true, hoffset]
  rw [if_pos (by omega)]
  simp only [decide_eq_true_eq]
  omega

/-- With the stack pointer inside the stack, a word can be pushed exactly if it stays inside. -/
theorem Core.canPush_iff {c : Core} {size : Nat} (hstack : c.stack = ⟨AddressSpace.stackBase, size⟩)
    (habove : AddressSpace.stackBase.toNat ≤ c.registers.sp.toNat)
    (hbelow : c.registers.sp.toNat ≤ AddressSpace.stackBase.toNat + size) :
    c.CanPush ↔ AddressSpace.stackBase.toNat + 8 ≤ c.registers.sp.toNat := by
  have hiff := Exec.overflows_iff habove hbelow
  unfold CanPush
  rw [hstack]
  constructor
  · rintro ⟨hfits, -⟩
    refine Nat.le_of_not_lt fun hshort => ?_
    rw [hiff.mpr hshort] at hfits
    cases hfits
  · intro hroom
    refine ⟨?_, ?_⟩
    · refine Bool.eq_false_iff.mpr fun hover => ?_
      have hshort := hiff.mp hover
      omega
    · intro hzero
      have hvalue : c.registers.sp = 8 := by
        have hadd := congrArg (· + 8) hzero
        simpa using hadd
      rw [hvalue] at hroom
      exact absurd hroom (by decide)

namespace State

/-- The stack of the given size holds exactly these words, innermost first. -/
structure Holds (size : Nat) (words : List UInt64) (s : State) : Prop where
  stack : s.stack = ⟨AddressSpace.stackBase, size⟩
  pointer : s.registers.sp.toNat + 8 * words.length = AddressSpace.stackBase.toNat + size
  above : AddressSpace.stackBase.toNat ≤ s.registers.sp.toNat
  words : s.memory.words s.registers.sp words.length = words

variable {size : Nat} {words : List UInt64} {s t : State} {a : UInt64}

theorem toNat_stackBase : AddressSpace.stackBase.toNat = 0x200000000 := rfl

/-- A stack ends well before the address space does. -/
theorem stack_fits (hsize : size ≤ AddressSpace.regionCapacity) :
    AddressSpace.stackBase.toNat + size + 8 ≤ UInt64.size := by
  have hcapacity : AddressSpace.regionCapacity = 0x100000 := rfl
  have hspace : UInt64.size = 0x10000000000000000 := rfl
  have hbase := toNat_stackBase
  omega

theorem toNat_top (hsize : size ≤ AddressSpace.regionCapacity) :
    (Region.top ⟨AddressSpace.stackBase, size⟩).toNat = AddressSpace.stackBase.toNat + size := by
  have hfits := stack_fits hsize
  show (AddressSpace.stackBase + UInt64.ofNat size).toNat = _
  exact Memory.toNat_add_ofNat (by omega)

theorem Holds.sp_le (hs : s.Holds size words) :
    s.registers.sp.toNat ≤ AddressSpace.stackBase.toNat + size := by
  have hpointer := hs.pointer
  omega

theorem Holds.push (hs : s.Holds size words) (hsize : size ≤ AddressSpace.regionCapacity)
    (hroom : AddressSpace.stackBase.toNat + 8 ≤ s.registers.sp.toNat) (hstack : t.stack = s.stack)
    (hsp : t.registers.sp = s.registers.sp - 8)
    (hmemory : t.memory = s.memory.write (s.registers.sp - 8) .quad a) :
    t.Holds size (a :: words) := by
  have hpointer := hs.pointer
  have hfits := stack_fits hsize
  have hlower := Word.toNat_sub_eight (a := s.registers.sp) (by omega)
  refine ⟨hstack.trans hs.stack, ?_, ?_, ?_⟩
  · rw [hsp, hlower, List.length_cons]
    omega
  · rw [hsp, hlower]
    omega
  · -- The new word lies below the others, which stay as they are.
    have hagree : t.memory.AgreeOn s.memory s.registers.sp.toNat
        (AddressSpace.stackBase.toNat + size) := by
      rw [hmemory]
      refine Memory.AgreeOn.write _ _ ?_ (Or.inl ?_)
      · show (s.registers.sp - 8).toNat + 8 ≤ UInt64.size
        omega
      · show (s.registers.sp - 8).toNat + 8 ≤ s.registers.sp.toNat
        omega
    have hothers := hagree.words (n := words.length) (Nat.le_refl _) (by omega) (by omega)
    rw [hsp, List.length_cons, Memory.words, UInt64.sub_add_cancel, hothers, hs.words, hmemory,
      Memory.read_write_quad]

theorem Holds.pop (hs : s.Holds size (a :: words)) (hsize : size ≤ AddressSpace.regionCapacity)
    (hstack : t.stack = s.stack) (hsp : t.registers.sp = s.registers.sp + 8)
    (hmemory : t.memory = s.memory) : t.Holds size words := by
  have hpointer := hs.pointer
  have hwords := hs.words
  have hfits := stack_fits hsize
  rw [List.length_cons] at hpointer hwords
  have hhigher : (s.registers.sp + 8).toNat = s.registers.sp.toNat + 8 :=
    Memory.toNat_add_ofNat (n := 8) (by omega)
  refine ⟨hstack.trans hs.stack, ?_, ?_, ?_⟩
  · rw [hsp, hhigher]
    omega
  · have habove := hs.above
    rw [hsp, hhigher]
    omega
  · rw [Memory.words] at hwords
    rw [hsp, hmemory]
    injection hwords

/-- The innermost word is at the stack pointer. -/
theorem Holds.read (hs : s.Holds size (a :: words)) :
    s.memory.read s.registers.sp .quad = a := by
  have hwords := hs.words
  rw [List.length_cons, Memory.words] at hwords
  injection hwords

theorem Holds.same (hs : s.Holds size words) (hsize : size ≤ AddressSpace.regionCapacity)
    (hstack : t.stack = s.stack) (hsp : t.registers.sp = s.registers.sp)
    (hmemory : t.memory.AgreeOn s.memory s.registers.sp.toNat s.stack.top.toNat) :
    t.Holds size words := by
  have hpointer := hs.pointer
  have hfits := stack_fits hsize
  rw [hs.stack, toNat_top hsize] at hmemory
  have hwords := hmemory.words (n := words.length) (Nat.le_refl _) (by omega) (by omega)
  refine ⟨hstack.trans hs.stack, ?_, ?_, ?_⟩
  · rw [hsp]
    exact hpointer
  · rw [hsp]
    exact hs.above
  · rw [hsp, hwords]
    exact hs.words

theorem Holds.sp_ne_zero (hs : s.Holds size words) : s.registers.sp ≠ 0 := by
  have habove := hs.above
  rw [toNat_stackBase] at habove
  intro hzero
  rw [hzero] at habove
  simp at habove

/-- There is room for one more word exactly if the push does not overflow. -/
theorem Holds.canPush_iff (hs : s.Holds size words) {i : Instruction}
    (hstays : ∀ entry ∈ i.operands, ¬entry.1.Steps .stackPointer) :
    (i.resolved s.started).CanPush ↔
      AddressSpace.stackBase.toNat + 8 ≤ s.registers.sp.toNat := by
  have hsp : (i.resolved s.started).registers.sp = s.registers.sp := Instruction.sp_resolved hstays
  rw [← hsp]
  refine Core.canPush_iff hs.stack ?_ ?_
  · rw [hsp]
    exact hs.above
  · rw [hsp]
    exact hs.sp_le

end State

/-! ## The regions and the call depth over a host call -/

/-- The regions and the call depth.  The one way in which a host function can change them is to
enter the machine, which sets the call depth; functions that keep them do not do that. -/
def Core.bounds (c : Core) : Region × Region × Int := (c.code, c.stack, c.callDepth)

namespace State

variable {host : HostTable} {nested : State → Option State} {s t : State}

/-- Runs of this kind leave the regions as they are. -/
def KeepsRegions (nested : State → Option State) : Prop :=
  ∀ s t, s.status = .running → nested s = some t → t.code = s.code ∧ t.stack = s.stack

/-- A nested run gives the call depth back. -/
theorem bounds_of_invoke (hnested : KeepsRegions nested) {entry : Nat}
    {outcome : Except MachineError Status} (hinvoke : s.invoke nested entry = some (outcome, t)) :
    t.bounds = s.bounds := by
  unfold invoke at hinvoke
  split at hinvoke
  · cases hinvoke
    rfl
  · split at hinvoke
    · cases hinvoke
    · rename_i u hu
      cases hinvoke
      obtain ⟨hcode, hstack⟩ := hnested _ u rfl hu
      show (u.code, u.stack, s.callDepth) = (s.code, s.stack, s.callDepth)
      rw [hcode, hstack]

/-- An instruction that calls a host function leaves the bounds to it, and the function gives
them back. -/
theorem bounds_of_perform (hhost : host.Keeps Core.bounds) (hnested : KeepsRegions nested)
    {v : HostVector} {c : Core} (hhandled : s.handled host = .ok (.call v) t)
    (hperform : (v t.toCore).perform nested t.latch = some c) : c.bounds = t.bounds := by
  obtain ⟨i, n, -, heffect, -⟩ := handled_ok hhandled
  obtain ⟨module, function, hlookup⟩ := heffect.lookup_of_call
  exact Routine.perform_related (fun c d => d.bounds = c.bounds) (fun h h' => h'.trans h) id
    (bounds_of_invoke hnested) (hhost module function v hlookup t.toCore) hperform

theorem regions_of_execute (hhost : host.Keeps Core.bounds) (hnested : KeepsRegions nested)
    {straight : Bool} (hrunning : s.status = .running)
    (hexecute : s.execute host nested = some (straight, t)) :
    t.code = s.code ∧ t.stack = s.stack := by
  cases comesTo_of_execute hrunning hexecute with
  | raised hhandled hstands => exact ⟨hstands.code, hstands.stack⟩
  | done hhandled hconfined => exact ⟨hconfined.code, hconfined.stack⟩
  | @called i n v u c module function hop hhandled hconfined hlookup hperform =>
      have hbounds := bounds_of_perform hhost hnested hhandled hperform
      have hcode : c.code = u.code := congrArg Prod.fst hbounds
      have hstack : c.stack = u.stack := congrArg (fun b => b.2.1) hbounds
      exact ⟨hcode.trans hconfined.code, hstack.trans hconfined.stack⟩

theorem keepsRegions_loop (hhost : host.Keeps Core.bounds) (fuel : Nat) (straight : Bool) :
    KeepsRegions (loop host fuel straight) := by
  intro s t hrunning hloop
  refine loop_induction (motive := fun s t => t.code = s.code ∧ t.stack = s.stack) ?_ hrunning
    hloop
  intro fuel hnested s u straight hs hexecute
  obtain ⟨hcode, hstack⟩ := regions_of_execute hhost hnested hs hexecute
  exact ⟨fun _ => ⟨hcode, hstack⟩, fun t _ hrest => ⟨hrest.1.trans hcode, hrest.2.trans hstack⟩⟩

/-- A step after which the machine can go on has carried out its instruction.  A host call keeps
the bounds, and every other instruction ends the step. -/
theorem exists_handled_of_step (hhost : host.Keeps Core.bounds) {fuel : Nat}
    (hactive : s.status.isActive = true) (hstep : s.step host fuel = some t)
    (hgoes : t.status.isActive = true) :
    ∃ i n flow u, s.instruction? = some (i, n) ∧ s.handled host = .ok flow u ∧
      t.bounds = u.bounds ∧ (i.opcode ≠ .host → t = u) := by
  cases hhandled : s.handled host with
  | error f u =>
      obtain ⟨v, -, hraise⟩ := raises_of_handled hactive hhandled
      rw [hraise fuel] at hstep
      cases hstep
      have hfault : (v.raise f).status.isFault = true := f.isFault_status
      rw [Status.isFault_of_isActive hgoes] at hfault
      cases hfault
  | ok flow u =>
      obtain ⟨i, n, hlisted, heffect, -⟩ := handled_ok hhandled
      refine ⟨i, n, flow, u, hlisted, rfl, ?_⟩
      rw [step_of_handled hactive hhandled] at hstep
      cases flow with
      | halt =>
          cases hstep
          exact ⟨rfl, fun _ => rfl⟩
      | next =>
          cases hstep
          exact ⟨rfl, fun _ => rfl⟩
      | call v =>
          obtain ⟨c, hperform, hc⟩ := Option.map_eq_some_iff.mp hstep
          cases hc
          refine ⟨?_, fun hop => absurd heffect.opcode_of_call hop⟩
          exact bounds_of_perform hhost (keepsRegions_loop hhost fuel false) hhandled hperform

end State

/-! ## The shadow -/

/-- The words that should be on the stack, and how many calls and returns there were. -/
structure Shadow where
  words : List UInt64 := []
  calls : Nat := 0
  returns : Nat := 0
  deriving DecidableEq, Repr

/-- The instructions that are meant to move the stack pointer. -/
def Opcode.movesStack : Opcode → Bool
  | bsr | jsr | pea | rts => true
  | _ => false

theorem Opcode.movesStack_of_ne {op : Opcode} (hbsr : op ≠ .bsr) (hjsr : op ≠ .jsr)
    (hpea : op ≠ .pea) (hrts : op ≠ .rts) : op.movesStack = false := by
  cases op <;> first | rfl | contradiction

theorem Instruction.depthChange_of_movesStack {i : Instruction}
    (hop : i.opcode.movesStack = false) : i.depthChange = 0 := by
  obtain ⟨op, fields⟩ := i
  cases op <;> first | rfl | cases hop

namespace Shadow

/-- The shadow after the instruction at the cursor of `s`: a call puts its return address on the
list, a push its address, and a return that does not complete the run takes a word off. -/
def after (h : Shadow) (s : State) : Shadow :=
  match s.instruction? with
  | none => h
  | some (i, n) =>
      match i.opcode with
      | .bsr | .jsr =>
          { h with words := s.codeAddress (s.cursor + n) :: h.words, calls := h.calls + 1 }
      | .pea =>
          match i.address? s.registers s.code.base (s.cursor + 1) (s.cursor + n) with
          | some a => { h with words := a :: h.words }
          | none => h
      | .rts =>
          if 1 < s.callDepth then { h with words := h.words.tail, returns := h.returns + 1 } else h
      | _ => h

variable {h : Shadow} {s : State} {i : Instruction} {n : Nat}

theorem after_of_call (hlisted : s.instruction? = some (i, n))
    (hop : i.opcode = .bsr ∨ i.opcode = .jsr) :
    h.after s =
      { h with words := s.codeAddress (s.cursor + n) :: h.words, calls := h.calls + 1 } := by
  rcases hop with hop | hop <;> simp only [after, hlisted, hop]

theorem after_of_pea {a : UInt64} (hlisted : s.instruction? = some (i, n))
    (hop : i.opcode = .pea)
    (haddress : i.address? s.registers s.code.base (s.cursor + 1) (s.cursor + n) = some a) :
    h.after s = { h with words := a :: h.words } := by
  simp only [after, hlisted, hop, haddress]

theorem after_of_rts (hlisted : s.instruction? = some (i, n)) (hop : i.opcode = .rts)
    (hdepth : 1 < s.callDepth) :
    h.after s = { h with words := h.words.tail, returns := h.returns + 1 } := by
  simp only [after, hlisted, hop, if_pos hdepth]

theorem after_of_other (hlisted : s.instruction? = some (i, n))
    (hop : i.opcode.movesStack = false) : h.after s = h := by
  unfold after
  rw [hlisted]
  obtain ⟨op, fields⟩ := i
  cases op <;> first | rfl | cases hop

/-- The call depth counts the calls that have not returned, and each of them has a word. -/
structure Counts (h : Shadow) (depth : Int) : Prop where
  depth : depth - 1 = (h.calls : Int) - h.returns
  covered : h.calls ≤ h.returns + h.words.length

variable {depth : Int} {a : UInt64}

theorem Counts.call (hcounts : h.Counts depth) :
    { h with words := a :: h.words, calls := h.calls + 1 }.Counts (depth + 1) := by
  obtain ⟨hdepth, hcovered⟩ := hcounts
  constructor
  · simp only
    omega
  · simp only [List.length_cons]
    omega

theorem Counts.push (hcounts : h.Counts depth) :
    { h with words := a :: h.words }.Counts depth := by
  obtain ⟨hdepth, hcovered⟩ := hcounts
  refine ⟨hdepth, ?_⟩
  simp only [List.length_cons]
  omega

/-- Inside a call there is a word. -/
theorem Counts.exists_word (hcounts : h.Counts depth) (hdeep : 1 < depth) :
    ∃ a rest, h.words = a :: rest := by
  obtain ⟨hdepth, hcovered⟩ := hcounts
  cases hwords : h.words with
  | nil =>
      rw [hwords, List.length_nil] at hcovered
      omega
  | cons a rest => exact ⟨a, rest, rfl⟩

theorem Counts.giveBack (hcounts : h.Counts depth) (hdeep : 1 < depth) :
    { h with words := h.words.tail, returns := h.returns + 1 }.Counts (depth - 1) := by
  obtain ⟨a, rest, hwords⟩ := hcounts.exists_word hdeep
  obtain ⟨hdepth, hcovered⟩ := hcounts
  rw [hwords, List.length_cons] at hcovered
  constructor
  · simp only
    omega
  · simp only [hwords, List.tail_cons]
    omega

end Shadow

namespace State

/-- Apart from calls, returns and pushes of an address, the step from `s` to `t` leaves the stack
pointer and the bytes from there to the top of the stack as they are, and no operand of its
instruction steps the stack pointer. -/
structure Quiet (s t : State) : Prop where
  operands : ∀ i n, s.instruction? = some (i, n) →
    ∀ entry ∈ i.operands, ¬entry.1.Steps .stackPointer
  others : ∀ i n, s.instruction? = some (i, n) → i.opcode.movesStack = false →
    t.registers.sp = s.registers.sp ∧
      t.memory.AgreeOn s.memory s.registers.sp.toNat s.stack.top.toNat

/-- The states of the runs that start in `start` and keep the stack quiet, with their shadows. -/
inductive Shadowed (host : HostTable) (start : State) : State → Shadow → Prop
  | start : Shadowed host start start {}
  | step {s t : State} {h : Shadow} {fuel : Nat} (hs : Shadowed host start s h)
      (hstep : s.step host fuel = some t) (hgoes : t.status.isActive = true)
      (hquiet : s.Quiet t) : Shadowed host start t (h.after s)

/-! ## What a quiet step keeps -/

/-- The shadow is right about the stack and the call depth of a machine that can go on. -/
structure Tracked (size : Nat) (s : State) (h : Shadow) : Prop where
  active : s.status.isActive = true
  code : s.code.base = AddressSpace.codeBase
  holds : s.Holds size h.words
  counts : h.Counts s.callDepth

variable {host : HostTable} {size n : Nat} {s t : State} {h : Shadow} {i : Instruction}

/-- A call or a push of an address has put its word on the stack. -/
theorem Tracked.push {flow : Flow} (hs : s.Tracked size h)
    (hsize : size ≤ AddressSpace.regionCapacity) (hlisted : s.instruction? = some (i, n))
    (hhandled : s.handled host = .ok flow t)
    (hstays : ∀ entry ∈ i.operands, ¬entry.1.Steps .stackPointer)
    (hpushes : i.opcode = .bsr ∨ i.opcode = .jsr ∨ i.opcode = .pea) :
    ∃ a, i.pushed? s.started (s.cursor + 1) (s.cursor + n) = some a ∧
      t.Holds size (a :: h.words) := by
  obtain ⟨heffect, -⟩ := effect_of_handled hlisted hhandled
  have hconfined := confined_of_handled hlisted hhandled
  obtain ⟨a, hpushed, hroom, hregisters, hmemory⟩ := heffect.push hpushes
  have hsp : (i.resolved s.started).registers.sp = s.registers.sp := Instruction.sp_resolved hstays
  refine ⟨a, hpushed, hs.holds.push hsize ((hs.holds.canPush_iff hstays).mp hroom)
    hconfined.stack ?_ ?_⟩
  · rw [hregisters, Core.pushed, RegisterFile.sp_setSp, hsp]
  · rw [hmemory, Core.pushed, hsp]
    rfl

/-- A return that does not complete the run has taken the innermost word off the stack. -/
theorem Tracked.pop {flow : Flow} (hs : s.Tracked size h)
    (hsize : size ≤ AddressSpace.regionCapacity) (hlisted : s.instruction? = some (i, n))
    (hhandled : s.handled host = .ok flow t) (hop : i.opcode = .rts)
    (hdepth : 1 < s.callDepth) : t.Holds size h.words.tail := by
  obtain ⟨heffect, -⟩ := effect_of_handled hlisted hhandled
  have hconfined := confined_of_handled hlisted hhandled
  obtain ⟨hregisters, hmemory⟩ := heffect.pop hop hdepth
  obtain ⟨a, rest, hwords⟩ := hs.counts.exists_word hdepth
  have hholds := hs.holds
  rw [hwords] at hholds ⊢
  refine hholds.pop hsize hconfined.stack ?_ hmemory
  rw [hregisters, RegisterFile.sp_setSp]
  rfl

/-- One quiet step keeps the shadow right. -/
theorem Tracked.step (hs : s.Tracked size h) (hsize : size ≤ AddressSpace.regionCapacity)
    (hhost : host.Keeps Core.bounds) {fuel : Nat} (hstep : s.step host fuel = some t)
    (hgoes : t.status.isActive = true) (hquiet : s.Quiet t) : t.Tracked size (h.after s) := by
  obtain ⟨i, n, flow, u, hlisted, hhandled, hbounds, hsame⟩ :=
    exists_handled_of_step hhost hs.active hstep hgoes
  have hconfined := confined_of_handled hlisted hhandled
  have hstays := hquiet.operands i n hlisted
  have hcode : t.code = s.code := (congrArg Prod.fst hbounds).trans hconfined.code
  have hstack : t.stack = s.stack := (congrArg (fun b => b.2.1) hbounds).trans hconfined.stack
  have hchange : t.callDepth = s.callDepth + i.depthChange :=
    (congrArg (fun b => b.2.2) hbounds).trans hconfined.depth
  suffices hkept : t.Holds size (h.after s).words ∧ (h.after s).Counts t.callDepth from
    ⟨hgoes, by rw [hcode]; exact hs.code, hkept.1, hkept.2⟩
  rw [hchange]
  -- The four ways in which an instruction can change the shadow.
  by_cases hcall : i.opcode = .bsr ∨ i.opcode = .jsr
  · obtain rfl : t = u := hsame (by rcases hcall with hop | hop <;> simp [hop])
    obtain ⟨a, hpushed, hholds⟩ :=
      hs.push hsize hlisted hhandled hstays (hcall.imp_right Or.inl)
    have hone : i.depthChange = 1 := by
      rcases hcall with hop | hop <;> simp only [Instruction.depthChange, hop]
    have hword : some (s.codeAddress (s.cursor + n)) = some a := by
      rw [← hpushed]
      rcases hcall with hop | hop <;> simp only [Instruction.pushed?, hop] <;> rfl
    cases hword
    rw [Shadow.after_of_call hlisted hcall, hone]
    exact ⟨hholds, hs.counts.call⟩
  by_cases hpea : i.opcode = .pea
  · obtain rfl : t = u := hsame (by simp [hpea])
    obtain ⟨a, hpushed, hholds⟩ :=
      hs.push hsize hlisted hhandled hstays (Or.inr (Or.inr hpea))
    have hzero : i.depthChange = 0 := by simp only [Instruction.depthChange, hpea]
    simp only [Instruction.pushed?, hpea] at hpushed
    rw [Shadow.after_of_pea hlisted hpea hpushed, hzero, Int.add_zero]
    exact ⟨hholds, hs.counts.push⟩
  by_cases hrts : i.opcode = .rts
  · obtain rfl : t = u := hsame (by simp [hrts])
    have hdeep : 1 < s.callDepth := by
      refine Int.not_le.mp fun hshallow => ?_
      have hcompletes : i.Completes s.toCore := Or.inr ⟨hrts, hshallow⟩
      have hstatus := hconfined.status
      rw [if_pos hcompletes] at hstatus
      rw [hstatus] at hgoes
      cases hgoes
    have hminus : i.depthChange = -1 := by simp only [Instruction.depthChange, hrts]
    rw [Shadow.after_of_rts hlisted hrts hdeep, hminus, ← Int.sub_eq_add_neg]
    exact ⟨hs.pop hsize hlisted hhandled hrts hdeep, hs.counts.giveBack hdeep⟩
  · have hother : i.opcode.movesStack = false :=
      Opcode.movesStack_of_ne (fun hop => hcall (Or.inl hop)) (fun hop => hcall (Or.inr hop))
        hpea hrts
    -- This may be a host call, of which only the bounds are known and that it was quiet.
    obtain ⟨hsp, hagree⟩ := hquiet.others i n hlisted hother
    rw [Shadow.after_of_other hlisted hother, Instruction.depthChange_of_movesStack hother,
      Int.add_zero]
    exact ⟨hs.holds.same hsize hstack hsp hagree, hs.counts⟩

theorem Shadowed.tracked {start : State} (hstart : start.Tracked size {})
    (hsize : size ≤ AddressSpace.regionCapacity) (hhost : host.Keeps Core.bounds)
    (hs : Shadowed host start s h) : s.Tracked size h := by
  induction hs with
  | start => exact hstart
  | step _ hstep hgoes hquiet ih => exact ih.step hsize hhost hstep hgoes hquiet

/-! ## What the shadow tells about the next step -/

/-- Whatever the fuel, the step ends with the machine running at the cursor `k`. -/
def LeadsTo (host : HostTable) (s : State) (k : Nat) : Prop :=
  ∃ t, (∀ fuel, s.step host fuel = some t) ∧ t.status = .running ∧ t.cursor = k

/-- Whatever the fuel, the step overflows the stack and leaves it as it was. -/
def Overflows (host : HostTable) (s : State) : Prop :=
  ∃ t : State, (∀ fuel, s.step host fuel = some (t.raise (.stackOverflow s.registers.sp))) ∧
    t.memory = s.memory ∧ t.registers.sp = s.registers.sp ∧ t.callDepth = s.callDepth

theorem leadsTo_of_handled (hactive : s.status.isActive = true)
    (hhandled : s.handled host = .ok .next t) (hrunning : t.status = .running) :
    s.LeadsTo host t.cursor :=
  ⟨t, step_of_handled hactive hhandled, hrunning, rfl⟩

/-- A return goes to the innermost word, if that lies in the code. -/
theorem Tracked.returns (hs : s.Tracked size h) (host : HostTable)
    (hlisted : s.instruction? = some (i, n)) (hop : i.opcode = .rts) (hdepth : 1 < s.callDepth) :
    ∃ a rest, h.words = a :: rest ∧
      match s.codeOffset? a with
      | some k => s.LeadsTo host k
      | none => s.Raises host (.cursorOutOfRange a) := by
  obtain ⟨a, rest, hwords⟩ := hs.counts.exists_word hdepth
  have hholds := hs.holds
  rw [hwords] at hholds
  obtain ⟨u, hu, hhandled⟩ := handled_rts host hlisted hop hdepth hs.holds.sp_ne_zero
  rw [hholds.read] at hhandled
  refine ⟨a, rest, hwords, ?_⟩
  cases hoffset : s.codeOffset? a with
  | none =>
      rw [hoffset] at hhandled
      exact raises_of_handled hs.active hhandled
  | some k =>
      rw [hoffset] at hhandled
      refine leadsTo_of_handled hs.active hhandled ?_
      show u.status = .running
      rw [hu]
      rfl

/-- A call into the code goes through exactly if there is room for one more word. -/
theorem Tracked.calls {a : UInt64} {k : Nat} (hs : s.Tracked size h) (host : HostTable)
    (hlisted : s.instruction? = some (i, n)) (hop : i.opcode = .bsr ∨ i.opcode = .jsr)
    (hstays : ∀ entry ∈ i.operands, ¬entry.1.Steps .stackPointer)
    (htransfer : i.transfer? s.toCore (s.cursor + 1) (s.cursor + n) = some a)
    (hoffset : s.codeOffset? a = some k) :
    if s.registers.sp.toNat < s.stack.base.toNat + 8 then s.Overflows host
    else s.LeadsTo host k := by
  have hplace : a ≠ 0 := by
    -- The code does not begin at address zero.
    rintro rfl
    have hbelow : ¬s.code.base ≤ 0 := by
      rw [hs.code]
      decide
    have houtside : s.codeOffset? 0 = none := if_neg hbelow
    rw [houtside] at hoffset
    cases hoffset
  have hsp : (i.resolved s.started).registers.sp = s.registers.sp := Instruction.sp_resolved hstays
  have hbase : s.stack.base = AddressSpace.stackBase := congrArg Region.base hs.holds.stack
  rw [hbase]
  split
  · rename_i hshort
    have hfull : Exec.overflows s.stack (i.resolved s.started).registers.sp = true := by
      rw [hsp, hs.holds.stack]
      exact (Exec.overflows_iff hs.holds.above hs.holds.sp_le).mpr hshort
    obtain ⟨t, hhandled, ht⟩ :=
      handled_call_of_overflows host hlisted hop htransfer hplace hoffset hfull
    obtain ⟨u, hu, hstep⟩ := raises_of_handled hs.active hhandled
    rw [hhandled] at hu
    cases hu
    rw [hsp] at hstep
    refine ⟨t, hstep, ?_, ?_, ?_⟩
    · rw [ht]
      rfl
    · rw [ht]
      exact hsp
    · rw [ht]
      rfl
  · rename_i hroom
    have hpush := (hs.holds.canPush_iff hstays).mpr (Nat.le_of_not_lt hroom)
    obtain ⟨t, hhandled, rfl⟩ :=
      handled_call_of_canPush host hlisted hop htransfer hplace hoffset hpush
    refine leadsTo_of_handled hs.active hhandled ?_
    have hgoes : ¬i.Completes s.toCore := by
      rcases hop with hop | hop <;> simp [Instruction.Completes, hop]
    rw [(confined_of_handled hlisted hhandled).status, if_neg hgoes]

/-- The stack of the given size and the call depth are as the shadow says, and so is what
returns and calls do next. -/
structure Simulates (host : HostTable) (size : Nat) (s : State) (h : Shadow) : Prop where
  stack : s.stack = ⟨AddressSpace.stackBase, size⟩
  pointer : s.registers.sp.toNat + 8 * h.words.length = s.stack.top.toNat
  words : s.memory.words s.registers.sp h.words.length = h.words
  depth : s.callDepth - 1 = (h.calls : Int) - h.returns
  inside : s.stack.base ≤ s.registers.sp ∧ s.registers.sp ≤ s.stack.top
  bounded : s.callDepth ≤ 1 + (size / 8 : Nat)
  returns : ∀ i n, s.instruction? = some (i, n) → i.opcode = .rts → 1 < s.callDepth →
    ∃ a rest, h.words = a :: rest ∧
      match s.codeOffset? a with
      | some k => s.LeadsTo host k
      | none => s.Raises host (.cursorOutOfRange a)
  calls : ∀ i n a k, s.instruction? = some (i, n) → i.opcode = .bsr ∨ i.opcode = .jsr →
    (∀ entry ∈ i.operands, ¬entry.1.Steps .stackPointer) →
    i.transfer? s.toCore (s.cursor + 1) (s.cursor + n) = some a → s.codeOffset? a = some k →
    if s.registers.sp.toNat < s.stack.base.toNat + 8 then s.Overflows host else s.LeadsTo host k

theorem Tracked.simulates (hs : s.Tracked size h) (hsize : size ≤ AddressSpace.regionCapacity)
    (host : HostTable) : s.Simulates host size h := by
  have hstack := hs.holds.stack
  have hpointer := hs.holds.pointer
  have htop : s.stack.top.toNat = AddressSpace.stackBase.toNat + size := by
    rw [hstack]
    exact toNat_top hsize
  constructor
  case stack => exact hstack
  case pointer =>
    rw [htop]
    exact hpointer
  case words => exact hs.holds.words
  case depth => exact hs.counts.depth
  case inside =>
    refine ⟨UInt64.le_iff_toNat_le.mpr ?_, UInt64.le_iff_toNat_le.mpr ?_⟩
    · rw [hstack]
      exact hs.holds.above
    · rw [htop]
      exact hs.holds.sp_le
  case bounded =>
    -- Each call that has not returned has a word, and the words fit into the stack.
    have hdepth := hs.counts.depth
    have hcovered := hs.counts.covered
    have habove := hs.holds.above
    have hwords : h.words.length ≤ size / 8 := by
      rw [Nat.le_div_iff_mul_le (by decide)]
      omega
    omega
  case returns => exact fun i n => hs.returns host
  case calls => exact fun i n a k => hs.calls host

theorem tracked_of_enter {code : List UInt8} {m₀ m m' : Machine} {entry : Nat}
    (hload : Machine.load code size = .ok m₀) (hcode : m.state.code = m₀.state.code)
    (hstack : m.state.stack = m₀.state.stack)
    (hsp : m.state.registers.sp = m₀.state.registers.sp) (henter : m.enter entry = .ok m') :
    size ≤ AddressSpace.regionCapacity ∧ m'.state.Tracked size {} ∧ m'.host = m.host := by
  obtain ⟨-, rfl⟩ := Machine.enter_eq_ok_iff.mp henter
  unfold Machine.load Region.reserve? at hload
  by_cases hsize : size ≤ AddressSpace.regionCapacity
  · rw [if_pos hsize] at hload
    cases hload
    have hpointer : m.state.registers.sp.toNat = AddressSpace.stackBase.toNat + size := by
      rw [hsp]
      show ((State.load code ⟨AddressSpace.stackBase, size⟩).registers.sp).toNat = _
      rw [State.load, RegisterFile.sp_setSp]
      exact toNat_top hsize
    refine ⟨hsize, ⟨rfl, congrArg Region.base hcode, ⟨hstack, ?_, ?_, rfl⟩, ⟨rfl, ?_⟩⟩, rfl⟩
    · exact hpointer
    · show AddressSpace.stackBase.toNat ≤ m.state.registers.sp.toNat
      omega
    · exact Nat.le_refl 0
  · rw [if_neg hsize] at hload
    cases hload

end State

/-- Take a machine with the regions and the stack pointer it was loaded with, whatever else has
happened to it, and enter it.  In every state of a run that keeps the stack quiet, the stack
simulates the shadow. -/
theorem stack_simulates_shadow (code : List UInt8) (size entry : Nat) (m₀ m m' : Machine)
    (hload : Machine.load code size = .ok m₀) (hcode : m.state.code = m₀.state.code)
    (hstack : m.state.stack = m₀.state.stack)
    (hsp : m.state.registers.sp = m₀.state.registers.sp) (hhost : m.host.Keeps Core.bounds)
    (henter : m.enter entry = .ok m') (s : State) (h : Shadow)
    (hs : State.Shadowed m'.host m'.state s h) : s.Simulates m'.host size h := by
  obtain ⟨hsize, hstart, hsame⟩ := State.tracked_of_enter hload hcode hstack hsp henter
  rw [hsame] at hs ⊢
  exact (hs.tracked hstart hsize hhost).simulates hsize m.host

/-- A program that calls a routine, which returns at once, and then stops. -/
def Machine.callsOnce : Machine :=
  { state := State.load [3, 1, 0, 0, 0, 0, 6] ⟨AddressSpace.stackBase, 20⟩ }

/-- After the call of its only routine, the machine has the return address on its stack, and the
return leads there. -/
theorem callsOnce_simulates_shadow :
    ∃ m s h, Machine.callsOnce.enter 0 = .ok m ∧ State.Shadowed {} m.state s h ∧
      h.words = [AddressSpace.codeBase + 5] ∧ s.Simulates {} 20 h ∧ s.LeadsTo {} 5 := by
  let m : Machine :=
    { state := { Machine.callsOnce.state with callDepth := 1, status := .initialised } }
  have hlisted : m.state.instruction? = some (⟨.bsr, [.branch 1]⟩, 5) := by decide +kernel
  have hcalls : (m.state.step {} 0).map
      (fun s => (s.status, s.callDepth, s.instruction?, s.codeOffset? (AddressSpace.codeBase + 5)))
        = some (.running, 2, some (⟨.rts, []⟩, 1), some 5) := by decide +kernel
  obtain ⟨s, hstep, hs⟩ := Option.map_eq_some_iff.mp hcalls
  simp only [Prod.mk.injEq] at hs
  obtain ⟨hrunning, hdepth, hreturn, hoffset⟩ := hs
  have hquiet : m.state.Quiet s := by
    constructor
    · intro i n hi entry hentry
      rw [hlisted] at hi
      cases hi
      cases hentry
    · intro i n hi hop
      rw [hlisted] at hi
      cases hi
      cases hop
  have hshadowed : State.Shadowed {} m.state s (Shadow.after {} m.state) :=
    .step .start hstep (State.active_of_running hrunning) hquiet
  have hwords : (Shadow.after {} m.state).words = [AddressSpace.codeBase + 5] := by
    rw [Shadow.after_of_call hlisted (Or.inl rfl)]
    rfl
  have hsimulates : s.Simulates {} 20 (Shadow.after {} m.state) :=
    stack_simulates_shadow [3, 1, 0, 0, 0, 0, 6] 20 0 Machine.callsOnce Machine.callsOnce m rfl rfl
      rfl rfl HostTable.conforms_empty rfl s _ hshadowed
  refine ⟨m, s, _, rfl, hshadowed, hwords, hsimulates, ?_⟩
  obtain ⟨a, rest, hhead, hleads⟩ := hsimulates.returns _ 1 hreturn rfl (by rw [hdepth]; decide)
  rw [hwords] at hhead
  cases hhead
  rw [hoffset] at hleads
  exact hleads

end BytecodeMachine
