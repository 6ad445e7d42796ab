import BytecodeMachine.Proofs.Instruction.Calls
import BytecodeMachine.Proofs.Instruction.Places
import BytecodeMachine.Proofs.Memory.Window

/-!
# Branches that are taken

The instructions that branch by a displacement are two that always do, the relative call among
them, and three that do so under a condition.  `Instruction.Taken` says when one of them sends
control to its target.  Its displacement is the last field of the instruction and counts from the
end of that field.

The main statement, `State.headsFor_of_taken`, is that such a step puts the cursor at the target,
or faults if the target lies outside the code.  It says that the step succeeds, where the
description of a step by its answers (`Instruction.Answers`) leaves faults open.
-/

namespace BytecodeMachine

/-- An instruction branches by its displacement, where its fields begin at the code offset `start`
and `c` is the state before they are resolved.  A call needs room for the return address. -/
inductive Instruction.Taken (c : Core) (start : Nat) : Instruction → Prop
  | bra (d : Int32) : Taken c start ⟨.bra, [.branch d]⟩
  | bsr (d : Int32) (hroom : c.CanPush) : Taken c start ⟨.bsr, [.branch d]⟩
  | bmc {byte : UInt8} {o : Operand} (d : Int32)
      (hpasses : c.testPasses? byte o (start + 1) = some true) :
      Taken c start ⟨.bmc, [.condition .monadic byte, .operand o, .branch d]⟩
  | bdc {byte : UInt8} {a b : Operand} (d : Int32)
      (hholds : c.relationHolds? byte a b (start + 1) = some true) :
      Taken c start ⟨.bdc, [.condition .dyadic byte, .operand a, .operand b, .branch d]⟩
  | dbnz {o : Operand} (d : Int32) (hstays : c.counterStays? o start = some true) :
      Taken c start ⟨.dbnz, [.operand o, .branch d]⟩

/-- A step sends control to a code offset: the cursor is there and the run goes on, or the offset
is outside the code and the step faults for its address. -/
def State.LandsAt (host : HostTable) (s : State) (target : Nat) : Prop :=
  if target < s.code.length then
    ∃ t, (∀ fuel, s.step host fuel = some t) ∧ t.cursor = target ∧ t.status = .running
  else s.Raises host (.cursorOutOfRange (s.codeAddress target))

/-- A step sends control to a place counted from the start of the code, which may lie before it or
behind it: the cursor is there and the run goes on, or the step faults for the address. -/
def State.HeadsFor (host : HostTable) (s : State) (target : Int) : Prop :=
  if 0 ≤ target ∧ target < s.code.length then
    ∃ t, (∀ fuel, s.step host fuel = some t) ∧ t.cursor = target.toNat ∧ t.status = .running
  else s.Raises host (.cursorOutOfRange (UInt64.ofInt (s.code.base.toNat + target)))

/-! ## Code offsets and their addresses -/

/-- The region begins behind address zero and ends before the addresses do. -/
structure Region.Proper (r : Region) : Prop where
  base_ne : r.base ≠ 0
  fits : r.base.toNat + r.length < UInt64.size

namespace Core

variable {c : Core} {k : Nat}

theorem toNat_codeAddress (hproper : c.code.Proper) (hk : k ≤ c.code.length) :
    (c.codeAddress k).toNat = c.code.base.toNat + k := by
  apply Memory.toNat_add_ofNat
  have hfits := hproper.fits
  omega

theorem codeAddress_ne_zero (hproper : c.code.Proper) (hk : k ≤ c.code.length) :
    c.codeAddress k ≠ 0 := by
  intro hzero
  have hsum := toNat_codeAddress hproper hk
  have hbase : c.code.base.toNat ≠ 0 := fun h => hproper.base_ne (UInt64.toNat_inj.mp h)
  rw [hzero] at hsum
  have hnull : (0 : UInt64).toNat = 0 := rfl
  omega

/-- An address, counted from the start of the code, is found there exactly if it lies in it. -/
theorem codeOffset?_of_toNat {a : UInt64} {target : Int}
    (ha : (a.toNat : Int) = c.code.base.toNat + target) :
    c.codeOffset? a =
      if 0 ≤ target ∧ target < c.code.length then some target.toNat else none := by
  unfold codeOffset? Region.offsetOf?
  by_cases hbefore : 0 ≤ target
  · have hbase : c.code.base ≤ a := by
      rw [UInt64.le_iff_toNat_le]
      omega
    have hdistance : (a - c.code.base).toNat = target.toNat := by
      rw [UInt64.toNat_sub_of_le _ _ hbase]
      omega
    rw [if_pos hbase]
    simp only [hdistance]
    by_cases hbehind : target < c.code.length
    · rw [if_pos (by omega), if_pos ⟨hbefore, hbehind⟩]
    · rw [if_neg (by omega), if_neg (fun h => hbehind h.2)]
  · have hbase : ¬c.code.base ≤ a := by
      rw [UInt64.le_iff_toNat_le]
      omega
    rw [if_neg hbase, if_neg (fun h => hbefore h.1)]

end Core

/-! ## The field of the displacement -/

/-- A layout that ends with a branch displacement has it in its last four bytes. -/
theorem FieldKind.exists_last_branch {kinds : List FieldKind} {size n : Nat}
    {bytes : List UInt8} {fields : List Field}
    (hread : readAll? (kinds ++ [.branch]) size bytes = some (fields, n)) :
    4 ≤ n ∧ ∃ front,
      fields = front ++ [.branch (LittleEndian.displacement ((bytes.drop (n - 4)).take 4))] := by
  induction kinds generalizing size bytes fields n with
  | nil =>
      obtain ⟨-, rfl, rfl⟩ := exists_branch hread
      exact ⟨Nat.le_refl 4, [], rfl⟩
  | cons kind kinds ih =>
      obtain ⟨field, m, others, more, -, hrest, rfl, rfl⟩ := exists_of_readAll?_cons hread
      obtain ⟨hmore, front, rfl⟩ := ih hrest
      refine ⟨by omega, field :: front, ?_⟩
      rw [List.drop_drop, show m + (more - 4) = m + more - 4 by omega]
      rfl

/-- The layouts of the branches end with the displacement. -/
theorem Instruction.Taken.layout_ends {c : Core} {start : Nat} {i : Instruction}
    (htaken : i.Taken c start) : ∃ kinds, i.opcode.layout.fields = kinds ++ [.branch] := by
  cases htaken with
  | bra d => exact ⟨[], rfl⟩
  | bsr d hroom => exact ⟨[], rfl⟩
  | bmc d hpasses => exact ⟨[.condition .monadic, .sizedOperand], rfl⟩
  | bdc d hholds => exact ⟨[.condition .dyadic, .sizedOperand, .sizedOperand], rfl⟩
  | dbnz d hstays => exact ⟨[.operand 4], rfl⟩

/-- The last field of a branch that is taken is its displacement. -/
theorem Instruction.Taken.exists_getLast? {c : Core} {start : Nat} {i : Instruction}
    (htaken : i.Taken c start) : ∃ d, i.fields.getLast? = some (.branch d) := by
  cases htaken with
  | bra d => exact ⟨d, rfl⟩
  | bsr d hroom => exact ⟨d, rfl⟩
  | bmc d hpasses => exact ⟨d, rfl⟩
  | bdc d hholds => exact ⟨d, rfl⟩
  | dbnz d hstays => exact ⟨d, rfl⟩

/-- The displacement of a listed instruction that ends with one. -/
theorem State.displacement_of_listed {s : State} {i : Instruction} {n : Nat} {d : Int32}
    (hlisted : s.instruction? = some (i, n))
    (hlayout : ∃ kinds, i.opcode.layout.fields = kinds ++ [.branch])
    (hlast : i.fields.getLast? = some (.branch d)) :
    d = LittleEndian.displacement ((s.codeBytes.drop (s.cursor + n - 4)).take 4) := by
  obtain ⟨byte, rest, m, hahead, -, hread, rfl⟩ := exists_of_instruction? hlisted
  obtain ⟨kinds, hkinds⟩ := hlayout
  rw [hkinds] at hread
  obtain ⟨hm, front, hfields⟩ := FieldKind.exists_last_branch hread
  have hbytes : rest.drop (m - 4) = s.codeBytes.drop (s.cursor + (1 + m) - 4) := by
    have hbehind : rest = s.codeBytes.drop (s.cursor + 1) := by
      rw [← List.drop_drop]
      show rest = s.ahead.drop 1
      rw [hahead]
      rfl
    rw [hbehind, List.drop_drop]
    congr 1
    omega
  rw [hfields, hbytes, List.getLast?_concat] at hlast
  injection hlast with hbranch
  injection hbranch with hdisplacement
  exact hdisplacement.symm

/-! ## Handlers that come to a branch -/

namespace Exec

/-- The part `x`, started in `s`, comes to a branch by `d` from the code offset `next`, and has
changed neither the place of the code nor the status by then. -/
def Branches (x : Exec Flow) (s : State) (next : Nat) (d : Int32) : Prop :=
  ∃ t : State, t.cursor = next ∧ t.code = s.code ∧ t.status = s.status ∧
    x s = (branch d >>= fun _ => pure Flow.next) t

variable {α : Type} {s t : State} {next n : Nat} {d : Int32} {fields : List Field}

/-- A part that succeeds comes before the others. -/
theorem branches_bind {x : Exec α} {a : α} {k : α → Exec Flow} (hx : x s = .ok a t)
    (hcode : t.code = s.code) (hstatus : t.status = s.status) (hk : Branches (k a) t next d) :
    Branches (x >>= k) s next d := by
  obtain ⟨u, hcursor, hcode', hstatus', hbranch⟩ := hk
  exact ⟨u, hcursor, hcode'.trans hcode, hstatus'.trans hstatus, (bind_of_ok hx).trans hbranch⟩

theorem branches_get {k : State → Exec Flow} (hk : Branches (k s) s next d) :
    Branches (get >>= k) s next d :=
  branches_bind (x := get) rfl rfl rfl hk

/-- An operand that has a location is resolved to it. -/
theorem exists_resolve {o : Operand} {size : Nat} {destination : Option Location} {l : Location}
    (hparse : Operand.parse? s.ahead size = some (o, o.extent size))
    (hlocation : o.location? size s.registers s.code.base s.cursor (s.cursor + o.extent size)
      destination = some l) :
    ∃ mode, resolve size destination s = .ok l (s.past o size (o.extent size) mode) := by
  obtain ⟨mode, -, hresolve⟩ := resolve_of_parse?_some s size destination hparse
  rw [hlocation] at hresolve
  exact ⟨mode, hresolve⟩

theorem branches_destination {o : Operand} {size : Nat} {l : Location} {k : Location → Exec Flow}
    (hparse : Operand.parse? s.ahead size = some (o, o.extent size))
    (hlocation : o.location? size s.registers s.code.base s.cursor (s.cursor + o.extent size)
      none = some l)
    (hk : ∀ mode, Branches (k l) ((s.past o size (o.extent size) mode).noting l) next d) :
    Branches (resolveDestination size >>= k) s next d := by
  obtain ⟨mode, hresolve⟩ := exists_resolve hparse hlocation
  have hnoted : resolveDestination size s =
      .ok l ((s.past o size (o.extent size) mode).noting l) := bind_of_ok hresolve
  exact branches_bind hnoted rfl rfl (hk mode)

theorem branches_source {o : Operand} {size : Nat} {l : Location} {k : Location → Exec Flow}
    (hparse : Operand.parse? s.ahead size = some (o, o.extent size))
    (hlocation : o.location? size s.registers s.code.base s.cursor (s.cursor + o.extent size)
      s.latch.destination = some l)
    (hk : ∀ mode, Branches (k l) (s.past o size (o.extent size) mode) next d) :
    Branches (resolveSource size >>= k) s next d := by
  obtain ⟨mode, hresolve⟩ := exists_resolve hparse hlocation
  exact branches_bind (x := resolveSource size) hresolve rfl rfl (hk mode)

/-- After the operands, a displacement is fetched before the branch. -/
theorem branches_branchIf {bytes : List UInt8} {taken : Bool} (htaken : taken = true)
    (hahead : s.ahead = bytes) (hlong : 4 ≤ bytes.length) (hnext : s.cursor + 4 = next) :
    Branches (branchIf taken) s next (LittleEndian.displacement (bytes.take 4)) := by
  subst htaken hahead
  exact ⟨{ s with cursor := s.cursor + 4 }, hnext, rfl, rfl, branchIf_of_le true hlong⟩

theorem bra_branches
    (hread : FieldKind.readAll? Opcode.bra.layout.fields 0 s.ahead = some ([.branch d], n)) :
    Branches bra s (s.cursor + n) d := by
  obtain ⟨hlong, hfields, rfl⟩ := FieldKind.exists_branch hread
  cases hfields
  rw [State.length_ahead] at hlong
  exact branches_bind (fetchDisplacement_of_le s (by omega)) rfl rfl ⟨_, rfl, rfl, rfl, rfl⟩

theorem bmc_branches {byte : UInt8} {o : Operand}
    (hread : FieldKind.readAll? Opcode.bmc.layout.fields 0 s.ahead =
      some ([.condition .monadic byte, .operand o, .branch d], n))
    (hpasses : s.testPasses? byte o (s.cursor + 1) = some true) :
    Branches bmc s (s.cursor + n) d := by
  -- What the test says of the state: a valid condition, an operand with a place, and a pass.
  obtain ⟨⟨type, test⟩, hcondition, hpasses⟩ := Option.bind_eq_some_iff.mp hpasses
  obtain ⟨l, hlocation, hpasses⟩ := Option.bind_eq_some_iff.mp hpasses
  obtain ⟨byte', rest, others, more, hahead, hfields, rfl, hrest⟩ :=
    FieldKind.exists_condition hread
  cases hfields
  rw [Condition.operandSize_of_monadic? hcondition, ← ahead_of_cons hahead] at hrest
  obtain ⟨o', others, more, hfields, rfl, hparse, hrest⟩ :=
    FieldKind.exists_operand type.size (fun _ => rfl) hrest
  cases hfields
  obtain ⟨hlong, hfields, rfl⟩ := FieldKind.exists_branch hrest
  cases hfields
  refine branches_bind (fetchTest_of_cons hahead hcondition) rfl rfl ?_
  refine branches_destination hparse hlocation fun mode => branches_get ?_
  refine branches_branchIf ?_ (State.ahead_skip _ _ _ _) hlong ?_
  · exact (Core.passes_of_same rfl rfl ..).trans (Option.some.inj hpasses)
  · show s.cursor + 1 + o.extent type.size + 4 = _
    omega

theorem bdc_branches {byte : UInt8} {a b : Operand}
    (hread : FieldKind.readAll? Opcode.bdc.layout.fields 0 s.ahead =
      some ([.condition .dyadic byte, .operand a, .operand b, .branch d], n))
    (hholds : s.relationHolds? byte a b (s.cursor + 1) = some true) :
    Branches bdc s (s.cursor + n) d := by
  obtain ⟨⟨type, relation⟩, hcondition, hholds⟩ := Option.bind_eq_some_iff.mp hholds
  obtain ⟨l, hl, hholds⟩ := Option.bind_eq_some_iff.mp hholds
  obtain ⟨m, hm, hholds⟩ := Option.bind_eq_some_iff.mp hholds
  obtain ⟨byte', rest, others, more, hahead, hfields, rfl, hrest⟩ :=
    FieldKind.exists_condition hread
  cases hfields
  rw [Condition.operandSize_of_dyadic? hcondition, ← ahead_of_cons hahead] at hrest
  obtain ⟨a', others, more, hfields, rfl, hparse, hrest⟩ :=
    FieldKind.exists_operand type.size (fun _ => rfl) hrest
  cases hfields
  obtain ⟨b', others, more, hfields, rfl, hparse', hrest⟩ :=
    FieldKind.exists_operand type.size (fun _ => rfl) hrest
  cases hfields
  obtain ⟨hlong, hfields, rfl⟩ := FieldKind.exists_branch hrest
  cases hfields
  refine branches_bind (fetchRelation_of_cons hahead hcondition) rfl rfl ?_
  refine branches_destination hparse hl fun mode => ?_
  refine branches_source ?_ hm fun mode' => ?_
  · exact (congrArg (Operand.parse? · type.size) (State.ahead_skip _ _ _ _)).trans hparse'
  · refine branches_bind (compare_of_some ((Core.compares?_of_same rfl rfl ..).trans hholds))
      rfl rfl ?_
    refine branches_branchIf rfl ?_ hlong ?_
    · exact (State.ahead_skip _ _ _ _).trans
        (congrArg (List.drop _) (State.ahead_skip _ _ _ _))
    · show s.cursor + 1 + a.extent type.size + b.extent type.size + 4 = _
      omega

theorem dbnz_branches {o : Operand}
    (hread : FieldKind.readAll? Opcode.dbnz.layout.fields 0 s.ahead =
      some ([.operand o, .branch d], n))
    (hstays : s.counterStays? o s.cursor = some true) : Branches dbnz s (s.cursor + n) d := by
  obtain ⟨l, hlocation, hstays⟩ := Option.bind_eq_some_iff.mp hstays
  obtain ⟨o', others, more, hfields, rfl, hparse, hrest⟩ :=
    FieldKind.exists_operand 4 (fun _ => rfl) hread
  cases hfields
  obtain ⟨hlong, hfields, rfl⟩ := FieldKind.exists_branch hrest
  cases hfields
  obtain ⟨mode, hresolve⟩ := exists_resolve hparse hlocation
  let t : State := s.past o 4 (o.extent 4) mode
  have hahead : t.ahead = s.ahead.drop (o.extent 4) := State.ahead_skip _ _ _ _
  have hroom : t.cursor + 4 ≤ t.code.length := by
    have hlength := t.length_ahead
    rw [hahead] at hlength
    omega
  refine branches_bind (x := resolveOnly 4) hresolve rfl rfl ?_
  refine branches_bind (fetchDisplacement_of_le t hroom) rfl rfl ?_
  rw [hahead]
  refine branches_get ?_
  -- The displacement has been fetched, so the counter may well lie over it.
  let u : State := { t with cursor := t.cursor + 4 }
  have hcount : (u.read l .long).toUInt32 ≠ 1 := by
    have hread : u.read l .long = Core.read { s.toCore with registers := o.moved 4 s.registers }
        l .long := Core.read_of_same rfl rfl l .long
    rw [hread]
    simpa using hstays
  refine ⟨u.write l .long ((u.read l .long).toUInt32 - 1).toUInt64, ?_, ?_, ?_, ?_⟩
  · cases l <;> exact Nat.add_assoc _ _ _
  · cases l <;> rfl
  · cases l <;> rfl
  · rw [bind_modify, if_pos (counter_ne_zero hcount)]

end Exec

/-! ## Steps -/

namespace State

variable {host : HostTable} {s u : State} {i : Instruction} {n : Nat} {d : Int32} {target : Int}

/-- Control goes to a target if the instruction does inside the code and faults outside. -/
theorem headsFor_of_handled (hactive : s.status.isActive = true)
    (hinside : 0 ≤ target ∧ target < s.code.length →
      ∃ t, s.handled host = .ok .next t ∧ t.cursor = target.toNat ∧ t.status = .running)
    (houtside : ¬(0 ≤ target ∧ target < s.code.length) →
      ∃ t, s.handled host =
        .error (.cursorOutOfRange (UInt64.ofInt (s.code.base.toNat + target))) t) :
    s.HeadsFor host target := by
  unfold HeadsFor
  split
  · rename_i htarget
    obtain ⟨t, hhandled, hcursor, hstatus⟩ := hinside htarget
    exact ⟨t, fun fuel => step_of_handled hactive hhandled fuel, hcursor, hstatus⟩
  · rename_i htarget
    obtain ⟨t, hhandled⟩ := houtside htarget
    exact raises_of_handled hactive hhandled

/-- A branch goes where its displacement leads. -/
theorem headsFor_of_branch (hactive : s.status.isActive = true)
    (hhandled : s.handled host = (Exec.branch d >>= fun _ => pure Flow.next) u)
    (hcode : u.code = s.code) (hstatus : u.status = .running) :
    s.HeadsFor host (u.cursor + d.toInt) := by
  refine headsFor_of_handled hactive ?_ ?_
  · intro hinside
    have hbranch : Exec.branch d u =
        .ok () { u with cursor := ((u.cursor : Int) + d.toInt).toNat } := by
      unfold Exec.branch
      simp only [Exec.bind_get]
      rw [if_neg (by rw [hcode]; omega)]
      rfl
    rw [Exec.bind_of_ok hbranch] at hhandled
    exact ⟨_, hhandled, rfl, hstatus⟩
  · intro houtside
    have haddress : u.codeAddress u.cursor + LittleEndian.extend d =
        UInt64.ofInt (s.code.base.toNat + (u.cursor + d.toInt)) := by
      rw [Core.codeAddress_eq_ofInt, LittleEndian.extend_eq_ofInt, ← UInt64.ofInt_add, hcode,
        Int.add_assoc]
    have hbranch : Exec.branch d u =
        .error (.cursorOutOfRange (u.codeAddress u.cursor + LittleEndian.extend d)) u := by
      unfold Exec.branch
      simp only [Exec.bind_get]
      rw [if_pos (by rw [hcode]; omega)]
      rfl
    rw [Exec.bind_of_error hbranch, haddress] at hhandled
    exact ⟨u, hhandled⟩

/-- A call of an address goes there if there is room for the return address. -/
theorem headsFor_of_call (hactive : s.status.isActive = true)
    (hlisted : s.instruction? = some (i, n)) (hop : i.opcode = .bsr ∨ i.opcode = .jsr)
    (htransfer : i.transfer? s.toCore (s.cursor + 1) (s.cursor + n) =
      some (UInt64.ofInt (s.code.base.toNat + target)))
    (hroom : (i.resolved s.started).CanPush) (hstart : 0 < s.code.base.toNat + target)
    (hstop : s.code.base.toNat + target < UInt64.size) : s.HeadsFor host target := by
  obtain ⟨u, hu, hhandled⟩ := handled_call host hlisted hop htransfer
    (Word.ofInt_ne_zero hstart hstop)
  have hoffset := Core.codeOffset?_of_toNat (c := s.toCore) (Word.toNat_ofInt (by omega) hstop)
  have hsame : u.codeOffset? = s.codeOffset? := by
    rw [hu]
    rfl
  have hpush : u.CanPush := by
    rw [hu]
    exact hroom
  have hstatus : u.status = .running := by
    rw [hu]
    rfl
  refine headsFor_of_handled hactive ?_ ?_
  · intro hinside
    rw [if_pos hinside, ← hsame] at hoffset
    rw [Exec.bind_of_ok (Exec.call_of_canPush (Exec.targetOf_of_codeOffset? hoffset) hpush)]
      at hhandled
    exact ⟨_, hhandled, rfl, hstatus⟩
  · intro houtside
    rw [if_neg houtside, ← hsame] at hoffset
    have hcall := Exec.bind_of_error (k := fun _ => pure Flow.next)
      (Exec.call_of_outside (Exec.targetOf_of_outside hoffset))
    exact ⟨u, hhandled.trans hcall⟩

/-- A branch that is taken goes where the displacement in its last field leads.  Only the call
goes by way of an address, which the target must have. -/
theorem headsFor_of_taken (host : HostTable) (hactive : s.status.isActive = true)
    (hlisted : s.instruction? = some (i, n)) (htaken : i.Taken s.toCore (s.cursor + 1))
    (hlast : i.fields.getLast? = some (.branch d))
    (hstart : 0 < s.code.base.toNat + ((s.cursor + n : Nat) + d.toInt))
    (hstop : s.code.base.toNat + ((s.cursor + n : Nat) + d.toInt) < UInt64.size) :
    s.HeadsFor host ((s.cursor + n : Nat) + d.toInt) := by
  obtain ⟨byte, rest, m, hahead, hop, hread, rfl⟩ := exists_of_instruction? hlisted
  have hperform := handled_of_cons host hahead
  rw [hop] at hperform
  rw [← readAll?_behindOpcode hahead] at hread
  -- All but the call come to a branch from behind the instruction.
  have hbranch : ∀ d', i.fields.getLast? = some (.branch d') →
      Exec.Branches (Exec.perform host i.opcode) (s.behindOpcode byte)
        ((s.behindOpcode byte).cursor + m) d' →
      s.HeadsFor host ((s.cursor + (1 + m) : Nat) + d.toInt) := by
    rintro d' hlast' ⟨u, hcursor, hcode, hstatus, hbranches⟩
    rw [hlast] at hlast'
    cases hlast'
    have hheads := headsFor_of_branch hactive (hperform.trans hbranches) hcode hstatus
    rw [hcursor] at hheads
    rw [← Nat.add_assoc]
    exact hheads
  cases htaken with
  | bra d' => exact hbranch d' rfl (Exec.bra_branches hread)
  | bsr d' hroom =>
      cases hlast
      refine headsFor_of_call hactive hlisted (Or.inl rfl) ?_ hroom hstart hstop
      rw [← Int.add_assoc]
      rfl
  | bmc d' hpasses =>
      rw [← Core.testPasses?_moved s.toCore (s.cursor + 1) .running] at hpasses
      exact hbranch d' rfl (Exec.bmc_branches hread hpasses)
  | bdc d' hholds =>
      rw [← Core.relationHolds?_moved s.toCore (s.cursor + 1) .running] at hholds
      exact hbranch d' rfl (Exec.bdc_branches hread hholds)
  | dbnz d' hstays =>
      rw [← Core.counterStays?_moved s.toCore (s.cursor + 1) .running] at hstays
      exact hbranch d' rfl (Exec.dbnz_branches hread hstays)

/-- A step that heads for an offset lands there. -/
theorem landsAt_of_headsFor {offset : Nat} (hheads : s.HeadsFor host offset) :
    s.LandsAt host offset := by
  unfold HeadsFor at hheads
  unfold LandsAt
  split at hheads
  · rw [if_pos (by omega)]
    exact hheads
  · rw [if_neg (by omega), Core.codeAddress_eq_ofInt]
    exact hheads

/-- A branch that is taken lands at its target. -/
theorem landsAt_of_taken {offset : Nat} (host : HostTable) (hactive : s.status.isActive = true)
    (hproper : s.code.Proper) (hlisted : s.instruction? = some (i, n))
    (htaken : i.Taken s.toCore (s.cursor + 1))
    (htarget : (s.cursor + n : Nat) +
      (LittleEndian.displacement ((s.codeBytes.drop (s.cursor + n - 4)).take 4)).toInt =
        (offset : Int))
    (hle : offset ≤ s.code.length) : s.LandsAt host offset := by
  obtain ⟨d, hlast⟩ := htaken.exists_getLast?
  rw [← displacement_of_listed hlisted htaken.layout_ends hlast] at htarget
  have hfits := hproper.fits
  have hbase : s.code.base.toNat ≠ 0 := fun h => hproper.base_ne (UInt64.toNat_inj.mp h)
  have hheads := headsFor_of_taken host hactive hlisted htaken hlast
  rw [htarget] at hheads
  exact landsAt_of_headsFor (hheads (by omega) (by omega))

end State

end BytecodeMachine
