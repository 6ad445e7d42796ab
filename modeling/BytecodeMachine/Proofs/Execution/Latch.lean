import BytecodeMachine.Execution.Dispatch
import BytecodeMachine.Proofs.Execution.Fetch

/-!
# What the latch decides

The latch is never cleared, so an instruction finds in it what the instruction before has left
there.  Nothing of that is read: the opcode and its offset are noted when the opcode is fetched,
a mode byte before a fault can name it, and the destination before a source can refer to it.

Two states are compared that hold the same but for their latches.  `Exec.Agrees` says that an
instruction part gives the same answer in both.  A part that leaves the latch alone is `Blind`:
it agrees whatever the latches have in common.  The parts that note something make the latches
have more in common, and once the destination is noted, the states are the same.
-/

namespace BytecodeMachine

namespace Latch

/-- The latches name the same instruction. -/
def SameOpcode (a b : Latch) : Prop := a.opcode = b.opcode ∧ a.offset = b.offset

/-- The latches name the same instruction and the same mode byte. -/
def SameMode (a b : Latch) : Prop := SameOpcode a b ∧ a.mode = b.mode

end Latch

/-- The states hold the same, and their latches are related. -/
structure State.Alike (same : Latch → Latch → Prop) (s t : State) : Prop where
  core : s.toCore = t.toCore
  latch : same s.latch t.latch

theorem State.Alike.mono {same coarser : Latch → Latch → Prop} {s t : State}
    (halike : State.Alike same s t) (hle : ∀ a b, same a b → coarser a b) :
    State.Alike coarser s t :=
  ⟨halike.core, hle _ _ halike.latch⟩

namespace Exec

open Latch (SameOpcode SameMode)

variable {α β : Type} {same next : Latch → Latch → Prop} {s t : State}

/-! ## Answers that agree -/

/-- The same answer with latches that are related, or the same fault of the same
instruction. -/
def Agrees (same : Latch → Latch → Prop) :
    EStateM.Result Fault State α → EStateM.Result Fault State α → Prop
  | .ok a s, .ok b t => a = b ∧ State.Alike same s t
  | .error f s, .error g t => f = g ∧ State.Alike SameOpcode s t
  | _, _ => False

theorem Agrees.mono {r r' : EStateM.Result Fault State α} (hagrees : Agrees same r r')
    (hle : ∀ a b, same a b → next a b) : Agrees next r r' := by
  cases r with
  | error f s => cases r' <;> exact hagrees
  | ok a s =>
      cases r' with
      | error g t => exact hagrees
      | ok b t => exact ⟨hagrees.1, hagrees.2.mono hle⟩

/-- Parts that agree one after the other. -/
theorem agrees_bind {x : Exec α} {k : α → Exec β} (hx : Agrees same (x s) (x t))
    (hk : ∀ a s' t', State.Alike same s' t' → Agrees next (k a s') (k a t')) :
    Agrees next ((x >>= k) s) ((x >>= k) t) := by
  cases hs : x s with
  | error f s' =>
      cases ht : x t with
      | error g t' =>
          rw [hs, ht] at hx
          rw [bind_of_error hs, bind_of_error ht]
          exact hx
      | ok b t' =>
          rw [hs, ht] at hx
          exact hx.elim
  | ok a s' =>
      cases ht : x t with
      | error g t' =>
          rw [hs, ht] at hx
          exact hx.elim
      | ok b t' =>
          rw [hs, ht] at hx
          obtain ⟨rfl, halike⟩ := hx
          rw [bind_of_ok hs, bind_of_ok ht]
          exact hk a s' t' halike

/-- From states that are the same, everything agrees. -/
theorem agrees_of_eq (x : Exec α) (halike : State.Alike Eq s t) :
    Agrees SameOpcode (x s) (x t) := by
  obtain ⟨c, latch⟩ := s
  obtain ⟨c', latch'⟩ := t
  obtain ⟨rfl, rfl⟩ := halike
  cases x ⟨c, latch⟩ with
  | error f u => exact ⟨rfl, rfl, rfl, rfl⟩
  | ok a u => exact ⟨rfl, rfl, rfl, rfl⟩

/-! ## Parts that leave the latch alone -/

/-- The part agrees in all states that hold the same, and keeps whatever their latches have in
common. -/
def Blind (x : Exec α) : Prop :=
  ∀ (same : Latch → Latch → Prop), (∀ a b, same a b → SameOpcode a b) →
    ∀ s t, State.Alike same s t → Agrees same (x s) (x t)

theorem blind_pure (a : α) : Blind (pure a) := fun _ _ _ _ halike => ⟨rfl, halike⟩

theorem blind_throw (f : Fault) : Blind (throw f : Exec α) :=
  fun _ hopcode _ _ halike => ⟨rfl, halike.mono hopcode⟩

theorem blind_bind {x : Exec α} {k : α → Exec β} (hx : Blind x) (hk : ∀ a, Blind (k a)) :
    Blind (x >>= k) := by
  intro same hopcode s t halike
  exact agrees_bind (hx same hopcode s t halike)
    fun a s' t' hnext => hk a same hopcode s' t' hnext

/-- What is read of a state is not its latch. -/
theorem blind_get {k : State → Exec α} (hcore : ∀ s t : State, s.toCore = t.toCore → k s = k t)
    (hk : ∀ s, Blind (k s)) : Blind (get >>= k) := by
  intro same hopcode s t halike
  rw [bind_get, bind_get, hcore s t halike.core]
  exact hk t same hopcode s t halike

/-- What is changed of a state is not its latch. -/
theorem blind_modify {g : Core → Core} :
    Blind (modify fun s => { s with toCore := g s.toCore } : Exec PUnit) := by
  intro same hopcode s t halike
  exact ⟨rfl, congrArg g halike.core, halike.latch⟩

theorem blind_ite {p : Prop} [Decidable p] {x y : Exec α} (hx : Blind x) (hy : Blind y) :
    Blind (if p then x else y) := by
  by_cases hp : p
  · rw [if_pos hp]
    exact hx
  · rw [if_neg hp]
    exact hy

theorem blind_advance (n : Nat) : Blind (advance n) := by
  rintro same hopcode ⟨c, latch⟩ ⟨c', latch'⟩ ⟨rfl, hlatch⟩
  unfold advance
  by_cases hlong : c.code.length < c.cursor + n
  · simp only [hlong, if_true]
    exact ⟨rfl, rfl, hopcode _ _ hlatch⟩
  · simp only [hlong, if_false]
    exact ⟨rfl, rfl, hlatch⟩

theorem blind_fetch (n : Nat) : Blind (fetch n) :=
  blind_bind (blind_advance n) fun _ =>
    blind_get (fun s t h => by simp only [h]) fun _ => blind_pure _

theorem blind_fetchByte : Blind fetchByte := blind_bind (blind_fetch 1) fun _ => blind_pure _

theorem blind_fetchLong : Blind fetchLong := blind_bind (blind_fetch 4) fun _ => blind_pure _

theorem blind_fetchQuad : Blind fetchQuad := blind_bind (blind_fetch 8) fun _ => blind_pure _

theorem blind_fetchDisplacement : Blind fetchDisplacement :=
  blind_bind (blind_fetch 4) fun _ => blind_pure _

theorem blind_locate (mode : UInt8) (a : UInt64) : Blind (locate mode a) :=
  blind_ite (blind_throw _) (blind_pure _)

theorem blind_step (how : Stepping) (r : RegisterIndex) (size : Nat) :
    Blind (step how r size) := by
  rintro same hopcode ⟨c, latch⟩ ⟨c', latch'⟩ ⟨rfl, hlatch⟩
  exact ⟨rfl, rfl, hlatch⟩

theorem blind_resolveMode (size : Nat) (destination : Option Location) (mode : UInt8) :
    Blind (resolveMode size destination mode) := by
  have hlocate : ∀ address : State → UInt64,
      (∀ s t : State, s.toCore = t.toCore → address s = address t) →
      Blind (get >>= fun s => locate mode (address s)) := by
    intro address hcore
    refine blind_get (fun s t h => ?_) fun _ => blind_locate _ _
    rw [hcore s t h]
  unfold resolveMode
  cases Mode.ofByte mode with
  | register bank r => exact blind_pure _
  | indirect r => exact hlocate _ fun s t h => by simp only [h]
  | stepped how r => exact blind_bind (blind_step _ _ _) fun _ => blind_locate _ _
  | displaced r =>
      exact blind_bind blind_fetchDisplacement fun _ => hlocate _ fun s t h => by simp only [h]
  | indexed width scale far =>
      cases far with
      | false => exact blind_bind blind_fetchByte fun _ => hlocate _ fun s t h => by simp only [h]
      | true =>
          exact blind_bind blind_fetchByte fun _ =>
            blind_bind blind_fetchDisplacement fun _ => hlocate _ fun s t h => by simp only [h]
  | sameAsDestination =>
      cases destination with
      | none => exact blind_throw _
      | some l => exact blind_pure l
  | codeRelative =>
      exact blind_bind blind_fetchDisplacement fun _ => hlocate _ fun s t h => by simp only [h]
  | codeIndexed detail far => exact blind_bind (blind_advance _) fun _ => blind_throw _
  | immediate => exact blind_bind (blind_advance _) fun _ => hlocate _ fun s t h => by simp only [h]
  | absolute => exact blind_bind blind_fetchQuad fun _ => blind_locate _ _
  | reserved => exact blind_throw _

theorem blind_push (value : UInt64) : Blind (push value) := by
  rintro same hopcode ⟨c, latch⟩ ⟨c', latch'⟩ ⟨rfl, hlatch⟩
  unfold push
  simp only
  by_cases hoverflow : overflows c.stack c.registers.sp = true
  · simp only [hoverflow, if_true]
    exact ⟨rfl, rfl, hopcode _ _ hlatch⟩
  · by_cases hnull : c.registers.sp - 8 = 0
    · simp only [hoverflow, hnull, if_true]
      exact ⟨rfl, rfl, hopcode _ _ hlatch⟩
    · simp only [hoverflow, hnull, if_false]
      exact ⟨rfl, rfl, hlatch⟩

theorem blind_pop : Blind pop := by
  rintro same hopcode ⟨c, latch⟩ ⟨c', latch'⟩ ⟨rfl, hlatch⟩
  unfold pop
  simp only
  by_cases hnull : c.registers.sp = 0
  · simp only [hnull, if_true]
    exact ⟨rfl, rfl, hopcode _ _ hlatch⟩
  · simp only [hnull, if_false]
    exact ⟨rfl, rfl, hlatch⟩

theorem blind_moveTo (offset : Nat) : Blind (moveTo offset) :=
  blind_modify (g := fun c => { c with cursor := offset })

theorem blind_write (l : Location) (w : Width) (value : UInt64) :
    Blind (modify fun s => s.write l w value : Exec PUnit) :=
  blind_modify (g := fun c => c.write l w value)

theorem blind_finish (status : Status) : Blind (finish status) :=
  blind_bind (blind_modify (g := fun c => { c with status })) fun _ => blind_pure _

theorem blind_branch (d : Int32) : Blind (branch d) :=
  blind_get (fun s t h => by simp only [h]) fun _ =>
    blind_ite (blind_throw _) (blind_moveTo _)

theorem blind_targetOf (a : UInt64) : Blind (targetOf a) := by
  refine blind_get (fun s t h => by simp only [h]) fun s => ?_
  split
  · exact blind_pure _
  · exact blind_throw _

theorem blind_jump (a : UInt64) : Blind (jump a) := blind_bind (blind_targetOf a) blind_moveTo

theorem blind_call (a : UInt64) : Blind (call a) := by
  refine blind_bind (blind_targetOf a) fun offset => ?_
  refine blind_get (fun s t h => by simp only [h]) fun s => ?_
  refine blind_bind (blind_push _) fun _ => ?_
  exact blind_bind (blind_modify (g := fun c => { c with callDepth := c.callDepth + 1 }))
    fun _ => blind_moveTo offset

theorem blind_fetchTest : Blind fetchTest := by
  refine blind_bind blind_fetchByte fun byte => ?_
  split
  · exact blind_pure _
  · exact blind_throw _

theorem blind_fetchRelation : Blind fetchRelation := by
  refine blind_bind blind_fetchByte fun byte => ?_
  split
  · exact blind_pure _
  · exact blind_throw _

/-! ## Parts that note something -/

theorem opcode_of_mode (a b : Latch) (hsame : SameMode a b) : SameOpcode a b := hsame.1

/-- A resolved operand has noted its mode byte. -/
theorem agrees_resolve (size : Nat) (destination : Option Location)
    (halike : State.Alike SameOpcode s t) :
    Agrees SameMode (resolve size destination s) (resolve size destination t) := by
  refine agrees_bind (blind_fetchByte SameOpcode (fun _ _ h => h) s t halike) ?_
  intro mode s' t' hnext
  rw [bind_modify, bind_modify]
  exact blind_resolveMode size destination mode SameMode opcode_of_mode _ _
    ⟨hnext.core, hnext.latch, rfl⟩

/-- An operand that must be in memory names its own mode byte if it is not. -/
theorem agrees_resolveAddress (size : Nat) (halike : State.Alike SameOpcode s t) :
    Agrees SameMode (resolveAddress size s) (resolveAddress size t) := by
  refine agrees_bind (agrees_resolve size none halike) ?_
  intro l s' t' hnext
  cases l with
  | memory a => exact ⟨rfl, hnext⟩
  | register bank r =>
      -- The fault names the mode byte, which `resolve` has noted in both states.
      refine ⟨?_, hnext.core, hnext.latch.1⟩
      rw [hnext.latch.2]

/-- Once the destination is noted, the states are the same. -/
theorem agrees_resolveDestination (size : Nat) (halike : State.Alike SameOpcode s t) :
    Agrees Eq (resolveDestination size s) (resolveDestination size t) := by
  refine agrees_bind (agrees_resolve size none halike) ?_
  intro l s' t' hnext
  obtain ⟨⟨hopcode, hoffset⟩, hmode⟩ := hnext.latch
  refine ⟨rfl, hnext.core, ?_⟩
  show ({ s'.latch with destination := some l } : Latch) = { t'.latch with destination := some l }
  simp only [hopcode, hoffset, hmode]

/-! ## Whole instructions -/

/-- The part agrees in all states whose latches name the same instruction. -/
def Forgets (x : Exec α) : Prop :=
  ∀ s t, State.Alike SameOpcode s t → Agrees SameOpcode (x s) (x t)

theorem Blind.forgets {x : Exec α} (hx : Blind x) : Forgets x :=
  hx SameOpcode fun _ _ h => h

theorem forgets_bind {x : Exec α} {k : α → Exec β} (hx : Forgets x)
    (hk : ∀ a, Forgets (k a)) : Forgets (x >>= k) :=
  fun s t halike => agrees_bind (hx s t halike) fun a s' t' hnext => hk a s' t' hnext

/-- Whatever comes after the destination, nothing else is left of the latch. -/
theorem forgets_destination (size : Nat) (k : Location → Exec α) :
    Forgets (resolveDestination size >>= k) :=
  fun _ _ halike => agrees_bind (agrees_resolveDestination size halike)
    fun a _ _ hnext => agrees_of_eq (k a) hnext

theorem forgets_only (size : Nat) {k : Location → Exec α} (hk : ∀ l, Blind (k l)) :
    Forgets (resolveOnly size >>= k) :=
  fun _ _ halike => agrees_bind (agrees_resolve size none halike) fun l s' t' hnext =>
    (hk l SameMode opcode_of_mode s' t' hnext).mono opcode_of_mode

theorem forgets_address (size : Nat) {k : UInt64 → Exec α} (hk : ∀ a, Blind (k a)) :
    Forgets (resolveAddress size >>= k) :=
  fun _ _ halike => agrees_bind (agrees_resolveAddress size halike) fun a s' t' hnext =>
    (hk a SameMode opcode_of_mode s' t' hnext).mono opcode_of_mode

theorem forgets_host (table : HostTable) : Forgets (host table) := by
  refine Blind.forgets (blind_bind blind_fetchByte fun module => ?_)
  refine blind_get (fun s t h => by simp only [h]) fun s => ?_
  simp only
  split
  · exact blind_pure _
  · exact blind_throw _

theorem forgets_bra : Forgets bra :=
  Blind.forgets (blind_bind blind_fetchDisplacement fun d =>
    blind_bind (blind_branch d) fun _ => blind_pure _)

theorem forgets_bsr : Forgets bsr :=
  Blind.forgets (blind_bind blind_fetchDisplacement fun _ =>
    blind_get (fun s t h => by simp only [h]) fun _ =>
      blind_bind (blind_call _) fun _ => blind_pure _)

theorem forgets_jmp : Forgets jmp :=
  forgets_address 8 fun a => blind_bind (blind_jump a) fun _ => blind_pure _

theorem forgets_jsr : Forgets jsr :=
  forgets_address 8 fun a => blind_bind (blind_call a) fun _ => blind_pure _

theorem forgets_rts : Forgets rts := by
  refine Blind.forgets (blind_bind
    (blind_modify (g := fun c => { c with callDepth := c.callDepth - 1 })) fun _ => ?_)
  refine blind_get (fun s t h => by simp only [h]) fun _ => ?_
  exact blind_ite (blind_finish _)
    (blind_bind blind_pop fun a => blind_bind (blind_jump a) fun _ => blind_pure _)

theorem forgets_bmc : Forgets bmc :=
  forgets_bind blind_fetchTest.forgets fun _ => forgets_destination _ _

theorem forgets_bdc : Forgets bdc :=
  forgets_bind blind_fetchRelation.forgets fun _ => forgets_destination _ _

theorem forgets_dbnz : Forgets dbnz := by
  refine forgets_only 4 fun l => blind_bind blind_fetchDisplacement fun d => ?_
  refine blind_get (fun s t h => by simp only [h]) fun s => ?_
  refine blind_bind (blind_write l _ _) fun _ => ?_
  exact blind_ite (blind_bind (blind_branch d) fun _ => blind_pure _) (blind_pure _)

theorem forgets_smc : Forgets smc :=
  forgets_bind blind_fetchTest.forgets fun _ => forgets_destination _ _

theorem forgets_sdc : Forgets sdc :=
  forgets_bind blind_fetchRelation.forgets fun _ => forgets_destination _ _

theorem forgets_clr (w : Width) : Forgets (clr w) :=
  forgets_only _ fun l => blind_bind (blind_write l w 0) fun _ => blind_pure _

theorem forgets_exchange (bank : Bank) : Forgets (exchange bank) :=
  Blind.forgets (blind_bind blind_fetchByte fun pair =>
    blind_bind
      (blind_modify (g := fun c =>
        { c with
          registers :=
            c.registers.exchange bank (.ofByte (pair >>> 4)) (.ofByte (pair &&& 0xf)) }))
      fun _ => blind_pure _)

theorem forgets_savem : Forgets savem :=
  forgets_bind blind_fetchLong.forgets fun mask =>
    forgets_address _ fun a =>
      blind_bind
        (blind_modify (g := fun c => c.saveBlock a (RegisterMask.registers mask)))
        fun _ => blind_pure _

theorem forgets_loadm : Forgets loadm :=
  forgets_bind blind_fetchLong.forgets fun mask =>
    forgets_address _ fun a =>
      blind_bind
        (blind_modify (g := fun c => c.loadBlock a (RegisterMask.registers mask)))
        fun _ => blind_pure _

theorem forgets_link : Forgets link := by
  refine Blind.forgets (blind_bind blind_fetchByte fun byte =>
    blind_bind blind_fetchDisplacement fun d => ?_)
  refine blind_get (fun s t h => by simp only [h]) fun s => ?_
  refine blind_bind (blind_push _) fun _ => ?_
  refine blind_bind (blind_modify (g := fun c =>
    c.setGeneral (.ofByte (byte &&& 0xf)) c.registers.sp)) fun _ => ?_
  exact blind_bind (blind_modify (g := fun c =>
    c.setGeneral .stackPointer (c.registers.sp + LittleEndian.extend d))) fun _ => blind_pure _

theorem forgets_unlk : Forgets unlk := by
  refine Blind.forgets (blind_bind blind_fetchByte fun byte => ?_)
  refine blind_bind (blind_modify (g := fun c =>
    c.setGeneral .stackPointer (c.general (.ofByte (byte &&& 0xf))))) fun _ => ?_
  refine blind_bind blind_pop fun saved => ?_
  exact blind_bind (blind_modify (g := fun c =>
    c.setGeneral (.ofByte (byte &&& 0xf)) saved)) fun _ => blind_pure _

theorem forgets_lea : Forgets lea := forgets_destination _ _

theorem forgets_pea : Forgets pea :=
  forgets_address 8 fun a => blind_bind (blind_push a) fun _ => blind_pure _

theorem forgets_compute (destination source : Width)
    (value : UInt64 → UInt64 → Option UInt64) : Forgets (compute destination source value) :=
  forgets_destination _ _

theorem forgets_perform (table : HostTable) (op : Opcode) : Forgets (perform table op) := by
  cases op with
  | stop => exact (blind_finish _).forgets
  | host => exact forgets_host table
  | bra => exact forgets_bra
  | bsr => exact forgets_bsr
  | jmp => exact forgets_jmp
  | jsr => exact forgets_jsr
  | rts => exact forgets_rts
  | bmc => exact forgets_bmc
  | bdc => exact forgets_bdc
  | dbnz => exact forgets_dbnz
  | smc => exact forgets_smc
  | sdc => exact forgets_sdc
  | clr w => exact forgets_clr w
  | exg => exact forgets_exchange _
  | fexg => exact forgets_exchange _
  | savem => exact forgets_savem
  | loadm => exact forgets_loadm
  | link => exact forgets_link
  | unlk => exact forgets_unlk
  | lea => exact forgets_lea
  | pea => exact forgets_pea
  | _ =>
      simp only [perform, transform]
      exact forgets_compute _ _ _

/-- An opcode that is there is noted, whatever the latch held. -/
theorem fetchOpcode_of_cons {byte : UInt8} {rest : List UInt8} (hahead : s.ahead = byte :: rest) :
    fetchOpcode s =
      .ok byte
        { s with
          cursor := s.cursor + 1
          latch := { s.latch with offset := s.cursor, opcode := byte } } :=
  bind_of_ok (fetchByte_of_cons { s with latch := { s.latch with offset := s.cursor } } hahead)

theorem fetchOpcode_of_nil (hahead : s.ahead = []) :
    fetchOpcode s =
      .error (.cursorOutOfRange (s.codeAddress (s.cursor + 1)))
        { s with latch := { s.latch with offset := s.cursor } } := by
  have hbyte := fetchByte_of_nil { s with latch := { s.latch with offset := s.cursor } } hahead
  unfold fetchOpcode
  rw [bind_modify]
  exact bind_of_error hbyte

/-- Where the code ends, the fault names the place and an opcode of before. -/
theorem instruction_of_nil (table : HostTable) (hahead : s.ahead = []) :
    instruction table s =
      .error (.cursorOutOfRange (s.codeAddress (s.cursor + 1)))
        { s with latch := { s.latch with offset := s.cursor } } :=
  bind_of_error (fetchOpcode_of_nil hahead)

/-- An instruction whose opcode is there depends on nothing that the latch held. -/
theorem agrees_instruction (table : HostTable) (hcore : s.toCore = t.toCore)
    (hopcode : s.ahead ≠ [] ∨ SameOpcode s.latch t.latch) :
    Agrees SameOpcode (instruction table s) (instruction table t) := by
  have hsame : s.ahead = t.ahead := by
    simp only [State.ahead, hcore]
  cases hahead : s.ahead with
  | nil =>
      -- The opcode of the latch is not overwritten here, so it must agree beforehand.
      have hnamed := hopcode.resolve_left fun hne => hne hahead
      rw [hahead] at hsame
      rw [instruction_of_nil table hahead, instruction_of_nil table hsame.symm]
      refine ⟨by rw [hcore], hcore, hnamed.1, ?_⟩
      exact congrArg Core.cursor hcore
  | cons byte rest =>
      rw [hahead] at hsame
      have halike : State.Alike SameOpcode
          { s with
            cursor := s.cursor + 1
            latch := { s.latch with offset := s.cursor, opcode := byte } }
          { t with
            cursor := t.cursor + 1
            latch := { t.latch with offset := t.cursor, opcode := byte } } := by
        refine ⟨?_, rfl, congrArg Core.cursor hcore⟩
        simp only [hcore]
      unfold instruction
      rw [bind_of_ok (fetchOpcode_of_cons hahead),
        bind_of_ok (fetchOpcode_of_cons hsame.symm)]
      cases Opcode.ofByte? byte with
      | none => exact ⟨rfl, halike⟩
      | some op => exact forgets_perform table op _ _ halike

end Exec

end BytecodeMachine
