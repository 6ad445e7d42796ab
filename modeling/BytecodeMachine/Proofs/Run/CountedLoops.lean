import BytecodeMachine.Proofs.Instruction.Branches
import BytecodeMachine.Proofs.Integer.Stored
import BytecodeMachine.Proofs.Listing.Partition
import BytecodeMachine.Proofs.Run.Stepping

/-!
# Counted loops

A counted loop is a body with an instruction behind it that counts a register down and goes back to
the body until the count is zero.  The count has 32 bits, and it is looked at after it is counted
down, so a loop that is entered with a count of zero goes round the most often of all.

* `State.FirstReaches` is a run up to the first time that control comes to a code offset;
* `CountedLoop.Body` is one execution of a body, which leaves the count and the code of the loop;
* `CountedLoop.Rounds` are all rounds of a loop, with the states around each count;
* `CountedLoop.counted_loops_end` says how many rounds there are and what is left after them.
-/

namespace BytecodeMachine

/-! ## The low half of a register -/

namespace Width

theorem toUInt32_truncate_long (x : UInt64) : (long.truncate x).toUInt32 = x.toUInt32 :=
  UInt32.toBitVec_inj.mp (pattern_truncate long x)

theorem toUInt32_splice_long (x v : UInt64) : (long.splice x v).toUInt32 = v.toUInt32 :=
  UInt32.toBitVec_inj.mp (pattern_splice long x v)

/-- Writing the low half of a word leaves the upper half. -/
theorem shiftRight_splice_long (x v : UInt64) : long.splice x v >>> 32 = x >>> 32 := by
  have hmask : long.mask.toBitVec = (BitVec.allOnes 32).setWidth 64 := by decide
  have hshift : ∀ y : UInt64, (y >>> 32).toBitVec = y.toBitVec >>> (32 : Nat) := fun _ => rfl
  apply UInt64.toBitVec_inj.mp
  rw [splice, hshift, hshift, UInt64.toBitVec_or, UInt64.toBitVec_and, UInt64.toBitVec_and,
    UInt64.toBitVec_not, hmask]
  refine BitVec.eq_of_getLsbD_eq fun i hi => ?_
  have hhigh : ¬32 + i < 32 := by omega
  simp only [BitVec.getLsbD_ushiftRight, BitVec.getLsbD_or, BitVec.getLsbD_and,
    BitVec.getLsbD_not, BitVec.getLsbD_setWidth, BitVec.getLsbD_allOnes]
  by_cases hinside : 32 + i < 64
  · simp [hhigh, hinside]
  · simp [hinside, BitVec.getLsbD_of_ge x.toBitVec (32 + i) (by omega)]

end Width

/-! ## Counting down once -/

/-- A register is counted down, and control goes back or on. -/
structure Exec.CountsDown (r : RegisterIndex) (next : Nat) (d : Int32) (s t : State) : Prop where
  registers : t.registers =
    s.registers.write .general r .long ((s.general r).toUInt32 - 1).toUInt64
  cursor : t.cursor =
    if (s.general r).toUInt32 = 1 then next else ((next : Int) + d.toInt).toNat
  status : t.status = s.status
  code : t.code = s.code
  memory : t.memory = s.memory

namespace Exec

variable {s : State} {byte : UInt8} {d : Int32} {n : Nat}

theorem branch_of_inside (hstart : 0 ≤ (s.cursor : Int) + d.toInt)
    (hstop : (s.cursor : Int) + d.toInt < s.code.length) :
    branch d s = .ok () { s with cursor := ((s.cursor : Int) + d.toInt).toNat } := by
  unfold branch
  rw [bind_get, if_neg (by omega)]
  rfl

/-- What is left to do once both fields have been fetched. -/
theorem countDown_of_inside (r : RegisterIndex) (hstart : 0 ≤ (s.cursor : Int) + d.toInt)
    (hstop : (s.cursor : Int) + d.toInt < s.code.length) :
    ∃ t, (do
      let u ← get
      let count := (u.read (.register .general r) .long).toUInt32 - 1
      modify fun v => v.write (.register .general r) .long count.toUInt64
      if count ≠ 0 then branch d
      return Flow.next : Exec Flow) s = .ok .next t ∧ CountsDown r s.cursor d s t := by
  have hread : (s.read (.register .general r) .long).toUInt32 = (s.general r).toUInt32 :=
    Width.toUInt32_truncate_long _
  rw [bind_get, bind_modify]
  simp only [hread]
  by_cases hlast : (s.general r).toUInt32 = 1
  · rw [if_neg (by rw [hlast]; decide)]
    refine ⟨_, rfl, rfl, ?_, rfl, rfl, rfl⟩
    rw [if_pos hlast]
    rfl
  · let v := s.write (.register .general r) .long ((s.general r).toUInt32 - 1).toUInt64
    rw [if_pos (counter_ne_zero hlast), bind_of_ok (branch_of_inside (s := v) hstart hstop)]
    refine ⟨_, rfl, rfl, ?_, rfl, rfl, rfl⟩
    rw [if_neg hlast]
    rfl

theorem dbnz_of_register
    (hread : FieldKind.readAll? Opcode.dbnz.layout.fields 0 s.ahead =
      some ([.operand (.register .general byte), .branch d], n))
    (hstart : 0 ≤ ((s.cursor + n : Nat) : Int) + d.toInt)
    (hstop : ((s.cursor + n : Nat) : Int) + d.toInt < s.code.length) :
    ∃ t, dbnz s = .ok .next t ∧ CountsDown (.ofByte byte) (s.cursor + n) d s t := by
  obtain ⟨o, others, more, hfields, rfl, hparse, hrest⟩ :=
    FieldKind.exists_operand 4 (fun _ => rfl) hread
  cases hfields
  obtain ⟨hlong, hfields, rfl⟩ := FieldKind.exists_branch hrest
  cases hfields
  let o : Operand := .register .general byte
  have hlocation : o.location? 4 s.registers s.code.base s.cursor (s.cursor + o.extent 4) none =
      some (.register .general (.ofByte byte)) := rfl
  obtain ⟨mode, hresolve⟩ := exists_resolve hparse hlocation
  let t : State := s.past o 4 (o.extent 4) mode
  have hahead : t.ahead = s.ahead.drop (o.extent 4) := State.ahead_skip _ _ _ _
  have hroom : t.cursor + 4 ≤ t.code.length := by
    have hlength := t.length_ahead
    have hbytes : 4 ≤ (s.ahead.drop (o.extent 4)).length := hlong
    rw [hahead] at hlength
    omega
  have hfetch := fetchDisplacement_of_le t hroom
  rw [hahead] at hfetch
  let u : State := { t with cursor := t.cursor + 4 }
  have hplace : s.cursor + (o.extent 4 + 4) = u.cursor := (Nat.add_assoc _ _ _).symm
  rw [hplace] at hstart hstop ⊢
  obtain ⟨v, hcounted, hcounts⟩ := countDown_of_inside (s := u) (.ofByte byte) hstart hstop
  refine ⟨v, ?_, hcounts.registers, hcounts.cursor, hcounts.status, hcounts.code,
    hcounts.memory⟩
  exact (bind_of_ok (x := resolveOnly 4) hresolve).trans ((bind_of_ok hfetch).trans hcounted)

end Exec

/-! ## Runs up to a code offset -/

namespace State

/-- A listed instruction is the line at the cursor. -/
theorem instruction?_eq_some_iff {s : State} {i : Instruction} {n : Nat} :
    s.instruction? = some (i, n) ↔
      Listing.lineAt s.codeBytes s.cursor =
        .ok { offset := s.cursor, length := n, line := .instruction i } := by
  unfold instruction?
  constructor
  · intro hlisted
    split at hlisted
    · rename_i hline
      cases hlisted
      have hoffset := (Listing.read_of_lineAt hline).2
      dsimp only at hoffset
      rw [hline, hoffset]
    · cases hlisted
  · intro hline
    rw [hline]

/-- One step leads from `s` to `t`, and the machine is still running. -/
structure StepsTo (host : HostTable) (s t : State) : Prop where
  step : ∃ fuel, s.step host fuel = some t
  running : t.status = .running

/-- The steps from `s` on lead to `t`, where control comes to the code offset `k` for the first
time. -/
inductive FirstReaches (host : HostTable) (k : Nat) : State → State → Prop where
  | here {s : State} : s.cursor = k → FirstReaches host k s s
  | onward {s t u : State} :
      s.cursor ≠ k → StepsTo host s t → FirstReaches host k t u → FirstReaches host k s u

variable {host : HostTable} {k : Nat} {s t u : State}

theorem step_extends {fuel more : Nat} (hfuel : fuel ≤ more) (hstep : s.step host fuel = some t) :
    s.step host more = some t := by
  by_cases hactive : s.status.isActive = true
  · rw [step_of_active hactive] at hstep ⊢
    obtain ⟨answer, hexecute, hanswer⟩ := Option.map_eq_some_iff.mp hstep
    have hwider := execute_extends (loop_extends host hfuel false) hexecute
    exact Option.map_eq_some_iff.mpr ⟨answer, hwider, hanswer⟩
  · unfold step at hstep ⊢
    rw [if_neg hactive] at hstep ⊢
    exact hstep

/-- A step has one outcome, however much fuel it is given. -/
theorem StepsTo.unique (ht : s.StepsTo host t) (hu : s.StepsTo host u) : t = u := by
  obtain ⟨fuel, hfirst⟩ := ht.step
  obtain ⟨fuel', hsecond⟩ := hu.step
  have hmore := step_extends (Nat.le_max_left fuel fuel') hfirst
  rw [step_extends (Nat.le_max_right fuel fuel') hsecond] at hmore
  exact (Option.some.inj hmore).symm

theorem FirstReaches.cursor (hreaches : FirstReaches host k s t) : t.cursor = k := by
  induction hreaches with
  | here hcursor => exact hcursor
  | onward _ _ _ ih => exact ih

theorem FirstReaches.running (hreaches : FirstReaches host k s t) (hs : s.status = .running) :
    t.status = .running := by
  induction hreaches with
  | here _ => exact hs
  | onward _ hstep _ ih => exact ih hstep.running

theorem FirstReaches.unique (ht : FirstReaches host k s t) (hu : FirstReaches host k s u) :
    t = u := by
  induction ht with
  | here hcursor =>
      cases hu with
      | here _ => rfl
      | onward hother _ _ => exact absurd hcursor hother
  | onward hother hstep _ ih =>
      cases hu with
      | here hcursor => exact absurd hcursor hother
      | onward _ hstep' hrest =>
          cases hstep.unique hstep'
          exact ih hrest

end State

/-! ## Loops -/

/-- A loop whose body begins at the code offset `head`.  At `tail` stands the instruction that
counts down the register of a byte and goes back by a displacement. -/
structure CountedLoop where
  head : Nat
  tail : Nat
  byte : UInt8
  displacement : Int32
  deriving DecidableEq, Repr

namespace CountedLoop

/-- The register that is counted down. -/
def counter (c : CountedLoop) : RegisterIndex := .ofByte c.byte

/-- The instruction behind the body. -/
def instruction (c : CountedLoop) : Instruction :=
  ⟨.dbnz, [.operand (.register .general c.byte), .branch c.displacement]⟩

/-- The code offset behind the loop. -/
def behind (c : CountedLoop) : Nat := c.tail + 6

/-- The low half of the register that is counted down. -/
def count (c : CountedLoop) (s : State) : UInt32 := (s.general c.counter).toUInt32

/-- The bytes of the loop in the code of the machine. -/
def bytes (c : CountedLoop) (s : State) : List UInt8 :=
  (s.codeBytes.drop c.head).take (c.behind - c.head)

/-- The loop stands in the code of the machine, and its displacement leads back to the body. -/
structure Stands (c : CountedLoop) (s : State) : Prop where
  order : c.head ≤ c.tail
  back : (c.behind : Int) + c.displacement.toInt = c.head
  listed : State.instruction? { s with cursor := c.tail } = some (c.instruction, 6)

/-- One execution of the body leads from `s` to `t`, where the count is next.  It leaves the count
and the code of the loop. -/
structure Body (c : CountedLoop) (host : HostTable) (s t : State) : Prop where
  reaches : State.FirstReaches host c.tail s t
  count : c.count t = c.count s
  bytes : c.bytes t = c.bytes s

/-- Control comes back to the body at `t`, after some rounds of a loop that is entered at `s`. -/
inductive ComesBack (c : CountedLoop) (host : HostTable) (s : State) : State → Prop where
  | entry : ComesBack c host s s
  | again {t m u : State} :
      ComesBack c host s t → c.Body host t m → m.StepsTo host u → u.cursor = c.head →
      ComesBack c host s u

/-- All rounds of a loop lead from `s` to `t`.  Each is an execution of the body and a count, and is
noted by the states before and after the count; only after the last of them control goes on. -/
inductive Rounds (c : CountedLoop) (host : HostTable) :
    State → List (State × State) → State → Prop where
  | last {s m t : State} :
      c.Body host s m → m.StepsTo host t → t.cursor = c.behind → Rounds c host s [(m, t)] t
  | again {s m t u : State} {rounds : List (State × State)} :
      c.Body host s m → m.StepsTo host t → t.cursor = c.head → Rounds c host t rounds u →
      Rounds c host s ((m, t) :: rounds) u

/-! ## One round -/

section

variable {c : CountedLoop} {host : HostTable} {s m t u : State}

/-- A loop stands in every machine that has its bytes. -/
theorem Stands.of_bytes (hstands : c.Stands s) (hbytes : c.bytes t = c.bytes s) : c.Stands t := by
  refine ⟨hstands.order, hstands.back, ?_⟩
  have horder := hstands.order
  have hline := State.instruction?_eq_some_iff.mp hstands.listed
  apply State.instruction?_eq_some_iff.mpr
  -- The last six bytes of the loop are those of the instruction.
  apply Listing.lineAt_of_take hline
  have hlast := congrArg (List.drop (c.tail - c.head)) hbytes
  unfold bytes behind at hlast
  rw [List.drop_take, List.drop_take, List.drop_drop, List.drop_drop] at hlast
  have hplace : c.head + (c.tail - c.head) = c.tail := by omega
  have hlength : c.tail + 6 - c.head - (c.tail - c.head) = 6 := by omega
  rw [hplace, hlength] at hlast
  exact hlast

/-- What the count at the end of a round does. -/
structure Counts (c : CountedLoop) (s t : State) : Prop where
  count : c.count t = c.count s - 1
  upper : t.general c.counter >>> 32 = s.general c.counter >>> 32
  bytes : c.bytes t = c.bytes s
  cursor : t.cursor = if c.count s = 1 then c.behind else c.head

theorem Stands.exists_counts (host : HostTable) (hstands : c.Stands m) (hcursor : m.cursor = c.tail)
    (hrunning : m.status = .running) : ∃ t, m.StepsTo host t ∧ c.Counts m t := by
  have hlisted : m.instruction? = some (c.instruction, 6) := by
    have hlisted := hstands.listed
    rwa [← hcursor] at hlisted
  obtain ⟨byte, rest, k, hahead, hop, hfields, hk⟩ := State.exists_of_instruction? hlisted
  rw [← State.readAll?_behindOpcode hahead] at hfields
  have hend := State.instruction?_le hlisted
  have horder := hstands.order
  have hback := hstands.back
  have hplace : (m.behindOpcode byte).cursor + k = c.behind := by
    show m.cursor + 1 + k = c.tail + 6
    omega
  have hbehind : c.behind = m.cursor + 6 := by rw [hcursor, behind]
  obtain ⟨t, hperform, hcounts⟩ := Exec.dbnz_of_register hfields
    (by rw [hplace, hback]; omega)
    (by rw [hplace, hback]; show (c.head : Int) < m.code.length; omega)
  have hhandled : m.handled host = .ok .next t := by
    rw [State.handled_of_cons host hahead, hop]
    exact hperform
  have hstep := State.step_of_handled (State.active_of_running hrunning) hhandled 0
  have hregister : t.general c.counter =
      Width.long.splice (m.general c.counter) (c.count m - 1).toUInt64 := by
    rw [Core.general, hcounts.registers]
    show (m.registers.set .general c.counter _).get .general c.counter = _
    rw [RegisterFile.get_set, if_pos ⟨rfl, rfl⟩]
    rfl
  refine ⟨t, ⟨⟨0, hstep⟩, hcounts.status⟩, ?_, ?_, ?_, ?_⟩
  · rw [count, hregister, Width.toUInt32_splice_long]
    exact UInt32.toUInt32_toUInt64 _
  · rw [hregister, Width.shiftRight_splice_long]
  · rw [bytes, bytes, Core.codeBytes, hcounts.memory, hcounts.code]
    rfl
  · rw [hcounts.cursor, hplace, hback, Int.toNat_natCast]
    rfl

/-- Every count is one of these. -/
theorem Stands.counts (hstands : c.Stands m) (hcursor : m.cursor = c.tail)
    (hrunning : m.status = .running) (hstep : m.StepsTo host t) : c.Counts m t := by
  obtain ⟨u, hstep', hcounts⟩ := hstands.exists_counts host hcursor hrunning
  cases hstep.unique hstep'
  exact hcounts

/-- After a round the loop stands as before, and the count is one less. -/
structure Turns (c : CountedLoop) (s m t : State) : Prop where
  counts : c.Counts m t
  stands : c.Stands t
  count : c.count t = c.count s - 1
  cursor : t.cursor = if c.count s = 1 then c.behind else c.head

theorem Body.turns (hbody : c.Body host s m) (hstands : c.Stands s) (hrunning : s.status = .running)
    (hstep : m.StepsTo host t) : c.Turns s m t := by
  have hstands' := hstands.of_bytes hbody.bytes
  have hcounts := hstands'.counts hbody.reaches.cursor (hbody.reaches.running hrunning) hstep
  refine ⟨hcounts, hstands'.of_bytes hcounts.bytes, ?_, ?_⟩
  · rw [hcounts.count, hbody.count]
  · rw [hcounts.cursor, hbody.count]

end

/-! ## All rounds -/

section

variable {c : CountedLoop} {host : HostTable} {s t u : State} {rounds : List (State × State)}

/-- How often a loop goes round that is entered with a count. -/
def times (n : UInt32) : Nat := if n = 0 then UInt32.size else n.toNat

theorem times_ne_zero (n : UInt32) : times n ≠ 0 := by
  unfold times
  by_cases hzero : n = 0
  · rw [if_pos hzero]
    decide
  · rw [if_neg hzero]
    exact fun h => hzero (UInt32.toNat_inj.mp h)

theorem times_eq_succ {n : UInt32} (hn : n ≠ 1) : times n = times (n - 1) + 1 := by
  by_cases hzero : n = 0
  · rw [hzero]
    decide
  · have hle : (1 : UInt32) ≤ n := by
      rw [UInt32.le_iff_toNat_le]
      have hpos : n.toNat ≠ 0 := fun h => hzero (UInt32.toNat_inj.mp h)
      show 1 ≤ n.toNat
      omega
    have hpred : (n - 1).toNat = n.toNat - 1 := UInt32.toNat_sub_of_le _ _ hle
    have hone := UInt32.le_iff_toNat_le.mp hle
    have hlast : n - 1 ≠ 0 := Exec.counter_ne_zero hn
    rw [times, times, if_neg hzero, if_neg hlast, hpred]
    exact (Nat.sub_add_cancel hone).symm

theorem Stands.head_ne_behind (hstands : c.Stands s) : c.head ≠ c.behind := by
  have horder := hstands.order
  unfold behind
  omega

/-- What is left after all rounds. -/
structure Ends (c : CountedLoop) (s : State) (rounds : List (State × State)) (u : State) :
    Prop where
  length : rounds.length = times (c.count s)
  cursor : u.cursor = c.behind
  running : u.status = .running
  count : c.count u = 0
  upper : ∀ m t, (m, t) ∈ rounds → t.general c.counter >>> 32 = m.general c.counter >>> 32

/-- There are as many rounds as the count says. -/
theorem Rounds.ends (hrounds : c.Rounds host s rounds u) (hstands : c.Stands s)
    (hrunning : s.status = .running) : c.Ends s rounds u := by
  induction hrounds with
  | @last s m t hbody hstep hcursor =>
      have hturns := hbody.turns hstands hrunning hstep
      have hlast : c.count s = 1 := by
        by_contra hmore
        have hhead := hturns.cursor
        rw [if_neg hmore, hcursor] at hhead
        exact hstands.head_ne_behind hhead.symm
      refine ⟨?_, hcursor, hstep.running, ?_, ?_⟩
      · rw [hlast]
        rfl
      · rw [hturns.count, hlast]
        rfl
      · intro m' t' hmem
        cases List.mem_singleton.mp hmem
        exact hturns.counts.upper
  | @again s m t u rounds hbody hstep hcursor _ ih =>
      have hturns := hbody.turns hstands hrunning hstep
      have hmore : c.count s ≠ 1 := by
        intro hlast
        have hbehind := hturns.cursor
        rw [if_pos hlast, hcursor] at hbehind
        exact hstands.head_ne_behind hbehind
      have hends := ih hturns.stands hstep.running
      refine ⟨?_, hends.cursor, hends.running, hends.count, ?_⟩
      · rw [List.length_cons, hends.length, hturns.count, ← times_eq_succ hmore]
      · intro m' t' hmem
        rcases List.mem_cons.mp hmem with heq | hrest
        · cases heq
          exact hturns.counts.upper
        · exact hends.upper m' t' hrest

/-- The rounds of a loop are settled by the state in which it is entered. -/
theorem Rounds.unique {rounds' : List (State × State)} {u' : State}
    (hrounds : c.Rounds host s rounds u) (hother : c.Rounds host s rounds' u')
    (hplaces : c.head ≠ c.behind) : rounds' = rounds ∧ u' = u := by
  induction hrounds generalizing rounds' u' with
  | last hbody hstep hcursor =>
      cases hother with
      | last hbody' hstep' _ =>
          cases hbody.reaches.unique hbody'.reaches
          cases hstep.unique hstep'
          exact ⟨rfl, rfl⟩
      | again hbody' hstep' hcursor' _ =>
          cases hbody.reaches.unique hbody'.reaches
          cases hstep.unique hstep'
          exact absurd (hcursor'.symm.trans hcursor) hplaces
  | again hbody hstep hcursor _ ih =>
      cases hother with
      | last hbody' hstep' hcursor' =>
          cases hbody.reaches.unique hbody'.reaches
          cases hstep.unique hstep'
          exact absurd (hcursor.symm.trans hcursor') hplaces
      | again hbody' hstep' _ hrest =>
          cases hbody.reaches.unique hbody'.reaches
          cases hstep.unique hstep'
          obtain ⟨rfl, rfl⟩ := ih hrest
          exact ⟨rfl, rfl⟩

/-- The loop is entered with a count. -/
structure Entered (c : CountedLoop) (n : UInt32) (s : State) : Prop where
  stands : c.Stands s
  running : s.status = .running
  cursor : s.cursor = c.head
  count : c.count s = n

/-- A round comes before those behind it. -/
theorem ComesBack.after {m t' : State} (hbody : c.Body host s m) (hstep : m.StepsTo host t)
    (hcursor : t.cursor = c.head) (hback : c.ComesBack host t t') : c.ComesBack host s t' := by
  induction hback with
  | entry => exact .again .entry hbody hstep hcursor
  | again _ hbody' hstep' hcursor' ih => exact .again ih hbody' hstep' hcursor'

/-- Whenever control comes back, the loop is as it was. -/
theorem ComesBack.same {n : UInt32} (hback : c.ComesBack host s t) (hentered : c.Entered n s) :
    t.status = .running ∧ t.cursor = c.head ∧ c.bytes t = c.bytes s := by
  induction hback with
  | entry => exact ⟨hentered.running, hentered.cursor, rfl⟩
  | again _ hbody hstep hcursor ih =>
      obtain ⟨hrunning, -, hbytes⟩ := ih
      have hturns := hbody.turns (hentered.stands.of_bytes hbytes) hrunning hstep
      exact ⟨hstep.running, hcursor, hturns.counts.bytes.trans (hbody.bytes.trans hbytes)⟩

/-- A loop whose body always comes to its end comes to its own. -/
theorem exists_rounds (hstands : c.Stands s) (hrunning : s.status = .running)
    (hbody : ∀ t, c.ComesBack host s t → ∃ m, c.Body host t m) :
    ∃ rounds u, c.Rounds host s rounds u := by
  -- The induction is on the rounds that are left.
  induction hleft : times (c.count s) generalizing s with
  | zero => exact absurd hleft (times_ne_zero _)
  | succ left ih =>
      obtain ⟨m, hfirst⟩ := hbody s .entry
      obtain ⟨t, hstep, -⟩ := (hstands.of_bytes hfirst.bytes).exists_counts host
        hfirst.reaches.cursor (hfirst.reaches.running hrunning)
      have hturns := hfirst.turns hstands hrunning hstep
      have hcursor := hturns.cursor
      by_cases hlast : c.count s = 1
      · rw [if_pos hlast] at hcursor
        exact ⟨_, t, .last hfirst hstep hcursor⟩
      · rw [if_neg hlast] at hcursor
        rw [times_eq_succ hlast, ← hturns.count] at hleft
        obtain ⟨rounds, u, hrest⟩ := ih hturns.stands hstep.running
          (fun t' hback => hbody t' (.after hfirst hstep hcursor hback)) (by omega)
        exact ⟨_, u, .again hfirst hstep hcursor hrest⟩

/-- A counted loop executes its body as often as its count says, and the most often if the count is
zero.  Then control goes on behind it with a count of zero, and the upper half of the register is
as the body has left it. -/
theorem counted_loops_end (host : HostTable) (c : CountedLoop) (n : UInt32) (s : State)
    (hentered : c.Entered n s) (hbody : ∀ t, c.ComesBack host s t → ∃ m, c.Body host t m) :
    ∃ rounds u, c.Rounds host s rounds u ∧
      rounds.length = (if n = 0 then UInt32.size else n.toNat) ∧
      u.cursor = c.tail + 6 ∧ u.status = .running ∧ (u.general c.counter).toUInt32 = 0 ∧
      (∀ m t, (m, t) ∈ rounds → t.general c.counter >>> 32 = m.general c.counter >>> 32) ∧
      ∀ rounds' u', c.Rounds host s rounds' u' → rounds' = rounds ∧ u' = u := by
  obtain ⟨rounds, u, hrounds⟩ := exists_rounds hentered.stands hentered.running hbody
  have hends := hrounds.ends hentered.stands hentered.running
  have hlength := hends.length
  rw [hentered.count] at hlength
  exact ⟨rounds, u, hrounds, hlength, hends.cursor, hends.running, hends.count, hends.upper,
    fun _ _ hother => hrounds.unique hother hentered.stands.head_ne_behind⟩

end

/-- A loop that exchanges two registers and counts down a third one. -/
def swaps : CountedLoop := { head := 0, tail := 2, byte := 1, displacement := -8 }

/-- A machine at the head of this loop, where the low half of the counter is zero. -/
def swapsLongest : State :=
  let code : List UInt8 := [Opcode.exg.byte, 0x23, Opcode.dbnz.byte, 1, 0xf8, 0xff, 0xff, 0xff]
  let s := State.load code ⟨AddressSpace.stackBase, 64⟩
  { s.setGeneral swaps.counter 0xdeadbeef00000000 with status := .running }

/-- The body of the loop exchanges the registers wherever control comes back to it. -/
theorem swaps_body (host : HostTable) {t : State} (hrunning : t.status = .running)
    (hcursor : t.cursor = 0) (hbytes : swaps.bytes t = swaps.bytes swapsLongest) :
    ∃ m, swaps.Body host t m := by
  have hcode : (swaps.bytes swapsLongest).take 2 = [Opcode.exg.byte, 0x23] := by decide +kernel
  have hfront : t.ahead.take 2 = [Opcode.exg.byte, 0x23] := by
    rw [← hcode, ← hbytes, State.ahead, hcursor, bytes, List.take_take]
    rfl
  have hahead : t.ahead = Opcode.exg.byte :: 0x23 :: t.ahead.drop 2 := by
    rw [← List.take_append_drop 2 t.ahead, hfront]
    rfl
  let u := t.behindOpcode Opcode.exg.byte
  let m : State :=
    { u with cursor := u.cursor + 1, registers := u.registers.exchange .general 2 3 }
  have hhandled : t.handled host = .ok .next m := by
    rw [State.handled_of_cons host hahead, Opcode.ofByte?_byte]
    exact Exec.bind_of_ok (Exec.fetchByte_of_cons u (State.ahead_behindOpcode hahead))
  have hstep := State.step_of_handled (State.active_of_running hrunning) hhandled 0
  have hplace : m.cursor = 2 := by
    show t.cursor + 1 + 1 = 2
    rw [hcursor]
  refine ⟨m, .onward ?_ ⟨⟨0, hstep⟩, rfl⟩ (.here hplace), ?_, rfl⟩
  · rw [hcursor]
    decide
  · show (((t.registers.set .general 2 _).set .general 3 _).get .general 1).toUInt32 = _
    rw [RegisterFile.get_set_of_ne _ _ (by decide), RegisterFile.get_set_of_ne _ _ (by decide)]
    rfl

/-- Such a loop goes round as often as a count of 32 bits can say. -/
theorem counted_loops_end_zero :
    swaps.Entered 0 swapsLongest ∧
      ∃ rounds u, swaps.Rounds {} swapsLongest rounds u ∧ rounds.length = UInt32.size ∧
        u.cursor = 8 ∧ (u.general swaps.counter).toUInt32 = 0 := by
  have hentered : swaps.Entered 0 swapsLongest :=
    ⟨⟨by decide, by decide, by decide +kernel⟩, rfl, rfl, by decide +kernel⟩
  have hbody : ∀ t, swaps.ComesBack {} swapsLongest t → ∃ m, swaps.Body {} t m := by
    intro t hback
    obtain ⟨hrunning, hcursor, hbytes⟩ := hback.same hentered
    exact swaps_body {} hrunning hcursor hbytes
  obtain ⟨rounds, u, hrounds, hlength, hcursor, -, hcount, -⟩ :=
    counted_loops_end {} swaps 0 swapsLongest hentered hbody
  exact ⟨hentered, rounds, u, hrounds, hlength, hcursor, hcount⟩

end CountedLoop

end BytecodeMachine
