import BytecodeMachine.Execution.Dispatch
import BytecodeMachine.Proofs.Instruction.Control

/-!
# Every handler reads its layout

The layout of an opcode says which fields follow the opcode byte; its handler fetches and
resolves them in its own code.  The statement for each handler is `Exec.EndsAsListed`: it
reads the fields of the layout, and then answers as the instruction should.
-/

namespace BytecodeMachine

namespace Exec

/-- The handler reads the fields of its opcode's layout and answers as the instruction
should. -/
def EndsAsListed (table : HostTable) (op : Opcode) (x : Exec Flow) : Prop :=
  ∀ s, Reads op.layout.fields 0 x s
    (fun fields next answer => Instruction.Answers table ⟨op, fields⟩ s next answer)

variable {table : HostTable} {i : Instruction} {s t : State} {next : Nat}

theorem answers_error {f : Fault} (hf : ∀ a, f ≠ .cursorOutOfRange a) :
    i.Answers table s next (.error f t) := by
  cases f with
  | cursorOutOfRange a => exact absurd rfl (hf a)
  | _ => trivial

theorem admits_answers (op : Opcode) (front : List Field → List Field) :
    Admits (fun fields next answer => Instruction.Answers table ⟨op, front fields⟩ s next answer) :=
  fun _ _ _ _ hf => answers_error hf

/-- An instruction that leaves control in sequence ends behind its fields. -/
theorem answers_next {flow : Flow} (hflow : ∀ v, flow ≠ .call v)
    (hcall : i.opcode ≠ .bsr ∧ i.opcode ≠ .jsr)
    (htransfer : i.transfer? s.toCore s.cursor next = none) (hcursor : t.cursor = next) :
    i.Answers table s next (.ok flow t) := by
  refine ⟨?_, ?_, fun v hv => absurd hv (hflow v)⟩
  · rw [htransfer]
    exact hcursor
  · rintro (hbsr | hjsr)
    · exact absurd hbsr hcall.1
    · exact absurd hjsr hcall.2

/-- An instruction of an opcode that cannot transfer control ends behind its fields. -/
theorem answers_sequential {flow : Flow} (hflow : ∀ v, flow ≠ .call v)
    (hop : i.opcode.transfersControl = false) (hcursor : t.cursor = next) :
    i.Answers table s next (.ok flow t) := by
  refine answers_next hflow ⟨?_, ?_⟩ (Instruction.transfer?_of_sequential hop _ _ _) hcursor
  · intro hbsr
    rw [hbsr] at hop
    cases hop
  · intro hjsr
    rw [hjsr] at hop
    cases hop

/-- An instruction that sends control to its target. -/
theorem answers_goes {x : Exec Unit} {a : UInt64} (hgoes : Goes x a t)
    (hcall : i.opcode ≠ .bsr ∧ i.opcode ≠ .jsr)
    (htransfer : i.transfer? s.toCore s.cursor next = some a) (hcursor : t.cursor = next)
    (hcode : t.code = s.code) :
    i.Answers table s next ((x >>= fun _ => pure Flow.next) t) := by
  obtain hfault | ⟨k, hlength, haddress, hok⟩ := hgoes
  · rw [bind_of_error hfault]
    exact ⟨hcursor, htransfer⟩
  · rw [bind_of_ok hok, pure_apply]
    refine ⟨?_, ?_, by simp⟩
    · rw [htransfer]
      refine ⟨by rw [← hcode]; exact hlength, ?_⟩
      rw [← haddress]
      show s.code.address k = t.code.address k
      rw [hcode]
    · rintro (hbsr | hjsr)
      · exact absurd hbsr hcall.1
      · exact absurd hjsr hcall.2

/-! ## Transfers of control -/

theorem stop_endsAsListed : EndsAsListed table .stop stop := by
  intro s
  exact reads_nil (answers_sequential (by simp) rfl rfl)

theorem host_endsAsListed : EndsAsListed table .host (host table) := by
  intro s
  refine reads_byte _ rfl (fun module => reads_nil ?_)
  simp only [bind_get]
  generalize hlookup : table.lookup? module _ = found
  cases found with
  | none => trivial
  | some v =>
      refine ⟨rfl, by simp, ?_⟩
      intro w hw
      injection hw with hvw
      exact ⟨rfl, module, _, hvw ▸ hlookup⟩

theorem bra_endsAsListed : EndsAsListed table .bra bra := by
  intro s
  refine reads_long .branch rfl (fun d => reads_nil ?_)
  exact answers_goes (goes_branch d _) (by simp) rfl rfl rfl

/-- The two calls end alike once their target is known. -/
theorem answers_call {a : UInt64}
    (htransfer : i.transfer? s.toCore s.cursor next = some a) (hcursor : t.cursor = next)
    (hcode : t.code = s.code) (hmemory : t.memory = s.memory)
    (hregisters : t.registers = i.calling s.registers) :
    i.Answers table s next ((call a >>= fun _ => pure Flow.next) t) := by
  have haddressOf : ∀ k, t.codeAddress k = s.codeAddress k := by
    intro k
    show t.code.address k = s.code.address k
    rw [hcode]
  obtain hfault | ⟨f, hf, hfault⟩ | ⟨k, hlength, haddress, hok⟩ := call_cases a t
  · rw [bind_of_error hfault]
    exact ⟨hcursor, htransfer⟩
  · rw [bind_of_error hfault]
    exact answers_error hf
  · rw [bind_of_ok hok, pure_apply]
    refine ⟨?_, fun _ => ⟨?_, ?_⟩, by simp⟩
    · rw [htransfer]
      exact ⟨by rw [← hcode]; exact hlength, (haddressOf k).symm.trans haddress⟩
    · rw [← hregisters]
    · show t.memory.write (t.registers.sp - 8) .quad (t.codeAddress t.cursor) = _
      rw [hmemory, haddressOf, hcursor, RegisterFile.sp_setSp]

theorem bsr_endsAsListed : EndsAsListed table .bsr bsr := by
  intro s
  refine reads_long .branch rfl (fun d => reads_nil ?_)
  simp only [bind_get]
  rw [Core.codeAddress_eq_ofInt, LittleEndian.extend_eq_ofInt, ← UInt64.ofInt_add]
  exact answers_call rfl rfl rfl rfl rfl

theorem jmp_endsAsListed : EndsAsListed table .jmp jmp := by
  intro s
  refine reads_address rfl (admits_answers _ id) ?_
  intro o mode a haddress
  exact reads_nil (answers_goes (goes_jump a _) (by simp) haddress rfl rfl)

theorem jsr_endsAsListed : EndsAsListed table .jsr jsr := by
  intro s
  refine reads_address rfl (admits_answers _ id) ?_
  intro o mode a haddress
  exact reads_nil (answers_call haddress rfl rfl rfl rfl)

theorem rts_endsAsListed : EndsAsListed table .rts rts := by
  intro s
  refine reads_nil ?_
  unfold rts
  simp only [bind_modify, bind_get]
  by_cases hdepth : s.callDepth ≤ 1
  · -- The outermost return completes the run and sends control nowhere.
    rw [if_pos (by omega)]
    refine answers_next (by simp) (by simp) ?_ rfl
    exact if_pos hdepth
  · rw [if_neg (by omega)]
    have htransfer : Instruction.transfer? ⟨.rts, []⟩ s.toCore s.cursor s.cursor =
        some (s.memory.read s.registers.sp .quad) := if_neg hdepth
    obtain hfault | hpop := pop_cases { s with callDepth := s.callDepth - 1 }
    · rw [bind_of_error hfault]
      exact answers_error (by simp)
    · rw [bind_of_ok hpop]
      exact answers_goes (goes_jump _ _) (by simp) htransfer rfl rfl

/-- The end of a conditional branch: the displacement, then the branch if it is taken. -/
theorem reads_branchIf {op : Opcode} (front : List Field) {size : Nat} {taken : Bool}
    (hcall : op ≠ .bsr ∧ op ≠ .jsr) (hcode : t.code = s.code)
    (htransfer : ∀ d,
      Instruction.transfer? ⟨op, front ++ [.branch d]⟩ s.toCore s.cursor (t.cursor + 4) =
        if some taken = some true then
          some (UInt64.ofInt (s.code.base.toNat + (t.cursor + 4 : Nat) + d.toInt))
        else none) :
    Reads [.branch] size (branchIf taken) t
      (fun fields next answer =>
        Instruction.Answers table ⟨op, front ++ fields⟩ s next answer) := by
  refine reads_long .branch rfl (fun d => reads_nil ?_)
  have hd := htransfer d
  cases taken with
  | false => exact answers_next (by simp) hcall hd rfl
  | true =>
      rw [← hcode] at hd
      exact answers_goes (goes_branch d _) hcall hd rfl hcode

/-- Between its operand and the rest of a test, nothing changes. -/
theorem reads_passes {kinds : List FieldKind} {size : Nat} {type : OperandType} {test : Test}
    {l : Location} {k : Bool → Exec Flow}
    {post : List Field → Nat → EStateM.Result Fault State Flow → Prop}
    (hrest : ∀ holds, s.passes type test l = holds → Reads kinds size (k holds) s post) :
    Reads kinds size (get >>= fun t => k (t.passes type test l)) s post :=
  reads_congr (y := k (s.passes type test l)) (bind_get _ s) (hrest _ rfl)

theorem bmc_endsAsListed : EndsAsListed table .bmc bmc := by
  intro s
  refine reads_test (admits_answers _ id) ?_
  intro byte type test hcondition
  refine reads_destination rfl (admits_answers _ (fun fields => _ :: fields)) ?_
  intro o mode l hlocation
  refine reads_passes ?_
  intro holds hholds
  refine reads_branchIf [.condition .monadic byte, .operand o] (by simp) rfl ?_
  intro d
  simp only at hlocation
  have hpasses : Core.passes { s.toCore with registers := o.moved type.size s.registers }
      type test l = holds := hholds
  have htest : s.testPasses? byte o (s.cursor + 1) = some holds := by
    simp only [Core.testPasses?, hcondition, hlocation, hpasses, Option.bind_eq_bind,
      Option.bind_some, Option.pure_def]
  show (if s.testPasses? byte o (s.cursor + 1) = some true then _ else _) = _
  rw [htest]

/-- Between the operands and the rest of a comparison, a condition without a meaning
faults. -/
theorem reads_compare {kinds : List FieldKind} {size : Nat} {byte : UInt8} {type : OperandType}
    {relation : Relation} {a b : Location} {k : Bool → Exec Flow}
    {post : List Field → Nat → EStateM.Result Fault State Flow → Prop} (hpost : Admits post)
    (hrest : ∀ holds, s.compares? type relation a b = some holds →
      Reads kinds size (k holds) s post) :
    Reads kinds size (compare byte type relation a b >>= k) s post := by
  cases hholds : s.compares? type relation a b with
  | none =>
      have hcompare : compare byte type relation a b s = .error (.badCondition byte) s := by
        unfold compare
        simp only [bind_get, hholds]
        rfl
      exact reads_of_error hpost (by simp) (bind_of_error hcompare)
  | some holds =>
      have hcompare : compare byte type relation a b s = .ok holds s := by
        unfold compare
        simp only [bind_get, hholds]
        rfl
      exact reads_congr (y := k holds) (bind_of_ok hcompare) (hrest holds hholds)

theorem bdc_endsAsListed : EndsAsListed table .bdc bdc := by
  intro s
  refine reads_relation (admits_answers _ id) ?_
  intro byte type relation hcondition
  refine reads_destination rfl (admits_answers _ (fun fields => _ :: fields)) ?_
  intro a mode l hl
  refine reads_source rfl (admits_answers _ (fun fields => _ :: _ :: fields)) ?_
  intro b mode' m hm
  simp only at hl
  simp only [State.noting, State.past] at hm
  refine reads_compare (admits_answers _ (fun fields => _ :: _ :: _ :: fields)) ?_
  intro holds hholds
  refine reads_branchIf [.condition .dyadic byte, .operand a, .operand b]
    (by simp) rfl ?_
  intro d
  have hcompares : Core.compares?
      { s.toCore with registers := b.moved type.size (a.moved type.size s.registers) }
      type relation l m = some holds := hholds
  have hrelation : s.relationHolds? byte a b (s.cursor + 1) = some holds := by
    simp only [Core.relationHolds?, hcondition, hl, hm, hcompares, Option.bind_eq_bind,
      Option.bind_some]
  show (if s.relationHolds? byte a b (s.cursor + 1) = some true then _ else _) = _
  rw [hrelation]

/-- Only a counter of one is used up by one more round. -/
theorem counter_ne_zero {count : UInt32} (hcount : count ≠ 1) : count - 1 ≠ 0 := by
  intro hzero
  have hone := congrArg (· + 1) hzero
  simp only [UInt32.sub_add_cancel] at hone
  exact hcount hone

/-- Counting down and branching until the counter is zero. -/
theorem countDown_answers {l : Location} {d : Int32} (hcall : i.opcode ≠ .bsr ∧ i.opcode ≠ .jsr)
    (hcode : t.code = s.code) (hcursor : t.cursor = next)
    (htransfer : i.transfer? s.toCore s.cursor next =
      if some ((t.read l .long).toUInt32 != 1) = some true then
        some (UInt64.ofInt (t.code.base.toNat + t.cursor + d.toInt))
      else none) :
    i.Answers table s next ((do
      let u ← get
      let count := (u.read l .long).toUInt32 - 1
      modify fun v => v.write l .long count.toUInt64
      if count ≠ 0 then branch d
      return Flow.next : Exec Flow) t) := by
  rw [bind_get, bind_modify]
  have hwritten : ∀ value, (t.write l .long value).cursor = t.cursor ∧
      (t.write l .long value).code = t.code := by
    intro value
    cases l <;> exact ⟨rfl, rfl⟩
  obtain ⟨hcursor', hcode'⟩ := hwritten ((t.read l .long).toUInt32 - 1).toUInt64
  -- The executor looks at the counter after the round, `htransfer` at the one before.
  by_cases hlast : (t.read l .long).toUInt32 = 1
  · rw [if_neg (by rw [hlast]; decide)] at htransfer
    rw [if_neg (by rw [hlast]; decide)]
    exact answers_next (by simp) hcall htransfer (hcursor'.trans hcursor)
  · rw [if_pos (by simp [hlast]), ← hcursor', ← hcode'] at htransfer
    rw [if_pos (counter_ne_zero hlast)]
    exact answers_goes (goes_branch d _) hcall htransfer (hcursor'.trans hcursor)
      (hcode'.trans hcode)

theorem dbnz_endsAsListed : EndsAsListed table .dbnz dbnz := by
  intro s
  refine reads_operand rfl (admits_answers _ id) ?_
  intro o mode l hlocation
  refine reads_long .branch rfl (fun d => reads_nil ?_)
  refine countDown_answers (l := l) (d := d) (by simp) rfl rfl ?_
  have hread : Core.read { s.toCore with registers := o.moved 4 s.registers } l .long =
      (s.past o 4 (o.extent 4) mode).read l .long := Core.read_of_same rfl rfl l .long
  have hcounter : s.counterStays? o s.cursor =
      some (((s.past o 4 (o.extent 4) mode).read l .long).toUInt32 != 1) := by
    simp only [Core.counterStays?, hlocation, hread, Option.bind_eq_bind, Option.bind_some,
      Option.pure_def]
  show (if s.counterStays? o s.cursor = some true then _ else _) = _
  rw [hcounter]
  rfl

/-! ## Stores -/

theorem storeTruth_answers {l : Location} {holds : Bool}
    (hop : i.opcode.transfersControl = false) (hcursor : t.cursor = next) :
    i.Answers table s next (storeTruth l holds t) := by
  refine answers_sequential (by simp) hop ?_
  cases l <;> exact hcursor

theorem smc_endsAsListed : EndsAsListed table .smc smc := by
  intro s
  refine reads_test (admits_answers _ id) ?_
  intro byte type test hcondition
  refine reads_destination rfl (admits_answers _ (fun fields => _ :: fields)) ?_
  intro o mode l hlocation
  refine reads_source rfl (admits_answers _ (fun fields => _ :: _ :: fields)) ?_
  intro o' mode' l' hlocation'
  exact reads_nil (storeTruth_answers rfl rfl)

theorem sdc_endsAsListed : EndsAsListed table .sdc sdc := by
  intro s
  refine reads_relation (admits_answers _ id) ?_
  intro byte type relation hcondition
  refine reads_destination rfl (admits_answers _ (fun fields => _ :: fields)) ?_
  intro o mode l hlocation
  refine reads_source rfl (admits_answers _ (fun fields => _ :: _ :: fields)) ?_
  intro a mode' la ha
  refine reads_source rfl (admits_answers _ (fun fields => _ :: _ :: _ :: fields)) ?_
  intro b mode'' lb hb
  refine reads_compare (admits_answers _ (fun fields => _ :: _ :: _ :: _ :: fields)) ?_
  intro holds hholds
  exact reads_nil (storeTruth_answers rfl rfl)

/-- Every instruction that stores a computed value ends behind its two operands. -/
theorem compute_endsAsListed {op : Opcode} (destination source : Width)
    (value : UInt64 → UInt64 → Option UInt64)
    (hlayout : op.layout = .binary destination.bytes source.bytes)
    (hop : op.transfersControl = false) :
    EndsAsListed table op (compute destination source value) := by
  intro s
  rw [hlayout]
  refine reads_destination rfl (admits_answers _ id) ?_
  intro o mode target htarget
  refine reads_source rfl (admits_answers _ (fun fields => _ :: fields)) ?_
  intro o' mode' l hl
  refine reads_nil ?_
  rw [bind_get]
  generalize value _ _ = result
  cases result with
  | none => exact answers_error (by simp)
  | some x =>
      refine answers_sequential (by simp) hop ?_
      cases target <;> rfl

theorem transform_endsAsListed {op : Opcode} (destination source : Width)
    (value : UInt64 → UInt64)
    (hlayout : op.layout = .binary destination.bytes source.bytes)
    (hop : op.transfersControl = false) :
    EndsAsListed table op (transform destination source value) :=
  compute_endsAsListed destination source _ hlayout hop

theorem clr_endsAsListed (w : Width) : EndsAsListed table (.clr w) (clr w) := by
  intro s
  refine reads_operand rfl (admits_answers _ id) ?_
  intro o mode l hlocation
  refine reads_nil (answers_sequential (by simp) rfl ?_)
  cases l <;> rfl

theorem exchange_endsAsListed {op : Opcode} (bank : Bank)
    (hlayout : op.layout = .registerPair bank) (hop : op.transfersControl = false) :
    EndsAsListed table op (exchange bank) := by
  intro s
  rw [hlayout]
  refine reads_byte _ rfl (fun pair => reads_nil ?_)
  exact answers_sequential (by simp) hop rfl

/-! ## Blocks, frames and addresses -/

end Exec

theorem Core.cursor_saveBlock (c : Core) (a : UInt64) (registers : List (Bank × RegisterIndex)) :
    (c.saveBlock a registers).cursor = c.cursor := by
  induction registers generalizing c a with
  | nil => rfl
  | cons entry rest ih => exact ih _ _

theorem Core.cursor_loadBlock (c : Core) (a : UInt64) (registers : List (Bank × RegisterIndex)) :
    (c.loadBlock a registers).cursor = c.cursor := by
  induction registers generalizing c a with
  | nil => rfl
  | cons entry rest ih => exact ih _ _

namespace Exec

variable {table : HostTable} {i : Instruction} {s t : State} {next : Nat}

theorem savem_endsAsListed : EndsAsListed table .savem savem := by
  intro s
  refine reads_long .mask rfl (fun mask => ?_)
  refine reads_address rfl (admits_answers _ (fun fields => _ :: fields)) ?_
  intro o mode a haddress
  exact reads_nil
    (answers_sequential (by simp) rfl (Core.cursor_saveBlock _ a mask.registers))

theorem loadm_endsAsListed : EndsAsListed table .loadm loadm := by
  intro s
  refine reads_long .mask rfl (fun mask => ?_)
  refine reads_address rfl (admits_answers _ (fun fields => _ :: fields)) ?_
  intro o mode a haddress
  exact reads_nil
    (answers_sequential (by simp) rfl (Core.cursor_loadBlock _ a mask.registers))

/-- An instruction whose last part is a push, and what can follow it without a fault. -/
theorem push_answers {value : UInt64} {k : Unit → Exec Flow}
    (hk : ∀ f m, ∃ u, k () { t with registers := f, memory := m } = .ok .next u ∧
      u.cursor = t.cursor)
    (hop : i.opcode.transfersControl = false) (hcursor : t.cursor = next) :
    i.Answers table s next ((push value >>= k) t) := by
  obtain ⟨f, hf, hpush⟩ | hpush := push_cases value t
  · rw [bind_of_error hpush]
    exact answers_error hf
  · obtain ⟨u, hu, hucursor⟩ := hk (t.registers.setSp (t.registers.sp - 8))
      (t.memory.write (t.registers.sp - 8) .quad value)
    rw [bind_of_ok hpush, hu]
    exact answers_sequential (by simp) hop (hucursor.trans hcursor)

theorem link_endsAsListed : EndsAsListed table .link link := by
  intro s
  refine reads_byte _ rfl (fun byte => ?_)
  refine reads_long .displacement rfl (fun d => reads_nil ?_)
  rw [bind_get]
  exact push_answers (fun f m => ⟨_, rfl, rfl⟩) rfl rfl

/-- An instruction whose last part is a pop, and what can follow it without a fault. -/
theorem pop_answers {k : UInt64 → Exec Flow}
    (hk : ∀ value f, ∃ u, k value { t with registers := f } = .ok .next u ∧ u.cursor = t.cursor)
    (hop : i.opcode.transfersControl = false) (hcursor : t.cursor = next) :
    i.Answers table s next ((pop >>= k) t) := by
  obtain hfault | hpop := pop_cases t
  · rw [bind_of_error hfault]
    exact answers_error (by simp)
  · obtain ⟨u, hu, hucursor⟩ := hk (t.memory.read t.registers.sp .quad)
      (t.registers.setSp (t.registers.sp + 8))
    rw [bind_of_ok hpop, hu]
    exact answers_sequential (by simp) hop (hucursor.trans hcursor)

theorem unlk_endsAsListed : EndsAsListed table .unlk unlk := by
  intro s
  refine reads_byte _ rfl (fun byte => reads_nil ?_)
  rw [bind_modify]
  exact pop_answers (fun value f => ⟨_, rfl, rfl⟩) rfl rfl

theorem lea_endsAsListed : EndsAsListed table .lea lea := by
  intro s
  refine reads_destination rfl (admits_answers _ id) ?_
  intro o mode target htarget
  refine reads_source rfl (admits_answers _ (fun fields => _ :: fields)) ?_
  intro o' mode' l hl
  refine reads_nil ?_
  cases l with
  | register bank r => exact answers_error (by simp)
  | memory a =>
      refine answers_sequential (by simp) rfl ?_
      cases target <;> rfl

theorem pea_endsAsListed : EndsAsListed table .pea pea := by
  intro s
  refine reads_address rfl (admits_answers _ id) ?_
  intro o mode a haddress
  exact reads_nil (push_answers (fun f m => ⟨_, rfl, rfl⟩) rfl rfl)

/-! ## All opcodes -/

/-- Every handler ends its instruction where the listing does. -/
theorem perform_endsAsListed (table : HostTable) (op : Opcode) :
    EndsAsListed table op (perform table op) := by
  cases op with
  | stop => exact stop_endsAsListed
  | host => exact host_endsAsListed
  | bra => exact bra_endsAsListed
  | bsr => exact bsr_endsAsListed
  | jmp => exact jmp_endsAsListed
  | jsr => exact jsr_endsAsListed
  | rts => exact rts_endsAsListed
  | bmc => exact bmc_endsAsListed
  | bdc => exact bdc_endsAsListed
  | dbnz => exact dbnz_endsAsListed
  | smc => exact smc_endsAsListed
  | sdc => exact sdc_endsAsListed
  | move w => exact transform_endsAsListed w w _ rfl rfl
  | fmove p => exact transform_endsAsListed _ _ _ rfl rfl
  | clr w => exact clr_endsAsListed w
  | exg => exact exchange_endsAsListed .general rfl rfl
  | fexg => exact exchange_endsAsListed .float rfl rfl
  | savem => exact savem_endsAsListed
  | loadm => exact loadm_endsAsListed
  | link => exact link_endsAsListed
  | unlk => exact unlk_endsAsListed
  | lea => exact lea_endsAsListed
  | pea => exact pea_endsAsListed
  | ext e => exact transform_endsAsListed _ _ _ rfl rfl
  | realOfInteger w p => exact transform_endsAsListed _ _ _ rfl rfl
  | integerOfReal p w => exact transform_endsAsListed _ _ _ rfl rfl
  | convert p => cases p <;> exact transform_endsAsListed _ _ _ rfl rfl
  | integerBinary op w => exact compute_endsAsListed w w _ rfl rfl
  | integerUnary op w => exact transform_endsAsListed w w _ rfl rfl
  | shift op w =>
      exact compute_endsAsListed w .byte (fun a n => some (op.eval w a n)) rfl rfl
  | realBinary op p =>
      exact compute_endsAsListed p.width p.width (fun a b => some (op.eval p a b)) rfl rfl
  | realUnary op p => exact transform_endsAsListed _ _ _ rfl rfl

end Exec

end BytecodeMachine
