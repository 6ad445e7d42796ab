import BytecodeMachine.Proofs.Execution.Latch
import BytecodeMachine.Proofs.Run.ControlState
import BytecodeMachine.Report

/-!
# Which instruction a fault record names

The offset and the opcode byte of a fault record come from the latch, where they are written at
different moments: the offset before the opcode byte is fetched, the byte after it.  They belong
together as soon as there is a byte to fetch.  Where a program runs past the end of its code, no
instruction faults, and the record has the length of the code for an offset and the opcode byte
of an earlier instruction.

* `FaultRecord.Names` and `FaultRecord.PastEnd` are the two cases;
* `State.Executes` are the states in which a machine executes an instruction, those of nested
  runs included, and `State.record_of_handled` is the step for each of them;
* `State.Records` is what a run keeps, and `State.records_loop` says that it does;
* `fault_record_names_instruction` covers every sequence of steps and runs.
-/

namespace BytecodeMachine

/-! ## Records of single instructions -/

namespace FaultRecord

/-- The record is that of the instruction at the cursor of `u`, which lies inside the code: the
byte at its offset is its opcode byte, the instruction stops with its fault, and what is listed
there is an instruction of that opcode. -/
structure Names (r : FaultRecord) (host : HostTable) (u : State) : Prop where
  inside : r.offset < u.code.length
  place : u.cursor = r.offset
  fetched : u.codeBytes[r.offset]? = some r.opcode
  raised : ∃ t, u.handled host = .error r.fault t
  listed : ∀ i n, u.instruction? = some (i, n) → Opcode.ofByte? r.opcode = some i.opcode

/-- The record says that there is no instruction at the cursor of `u`, which is behind the last
byte of the code; its opcode byte is one that was fetched earlier. -/
structure PastEnd (r : FaultRecord) (u : State) : Prop where
  place : u.cursor = u.code.length
  offset : r.offset = u.code.length
  fault : r.fault = .cursorOutOfRange (u.codeAddress (u.code.length + 1))
  opcode : r.opcode = u.latch.opcode

end FaultRecord

namespace State

variable {host : HostTable} {s t u : State}

/-- Behind the opcode byte, a handler that stops leaves the name of the instruction alone. -/
theorem latch_of_handled {byte : UInt8} {rest : List UInt8} {f : Fault}
    (hahead : s.ahead = byte :: rest) (hhandled : s.handled host = .error f t) :
    t.latch.offset = s.cursor ∧ t.latch.opcode = byte := by
  rw [handled_of_cons host hahead] at hhandled
  cases hop : Opcode.ofByte? byte with
  | none =>
      rw [hop] at hhandled
      cases hhandled
      exact ⟨rfl, rfl⟩
  | some op =>
      rw [hop] at hhandled
      simp only at hhandled
      have hkept := Exec.settles_perform host op (s.behindOpcode byte)
      rw [hhandled] at hkept
      exact ⟨hkept.offset, hkept.opcode⟩

/-- The record of an instruction that stops. -/
theorem record_of_handled {f : Fault} (hwithin : s.cursor ≤ s.code.length)
    (hhandled : s.handled host = .error f t) {r : FaultRecord}
    (hrecord : (t.raise f).fault = some r) : r.Names host s ∨ r.PastEnd s := by
  cases hrecord
  cases hahead : s.ahead with
  | nil =>
      have hlength := s.length_ahead
      rw [hahead, List.length_nil] at hlength
      have hcursor : s.cursor = s.code.length := by omega
      have hstop := Exec.instruction_of_nil (s := { s with status := .running }) host hahead
      have hsame := hhandled.symm.trans hstop
      cases hsame
      right
      refine ⟨hcursor, hcursor, ?_, rfl⟩
      rw [← hcursor]
      rfl
  | cons byte rest =>
      obtain ⟨hoffset, hopcode⟩ := latch_of_handled hahead hhandled
      have hbyte : s.codeBytes[s.cursor]? = some byte := by
        have hhead : s.ahead[0]? = some byte := by
          rw [hahead]
          rfl
        rwa [ahead, List.getElem?_drop, Nat.add_zero] at hhead
      left
      constructor
      · show t.latch.offset < s.code.length
        rw [hoffset]
        exact cursor_lt_of_ahead hahead
      · exact hoffset.symm
      · show s.codeBytes[t.latch.offset]? = some t.latch.opcode
        rw [hoffset, hopcode]
        exact hbyte
      · exact ⟨t, hhandled⟩
      · intro i n hlisted
        obtain ⟨byte', rest', m, hahead', hop, -, -⟩ := exists_of_instruction? hlisted
        rw [hahead] at hahead'
        cases hahead'
        show Opcode.ofByte? t.latch.opcode = some i.opcode
        rw [hopcode]
        exact hop

/-- An instruction that does not stop leaves the cursor within the code. -/
theorem within_of_handled {flow : Flow} (hhandled : s.handled host = .ok flow t) :
    t.cursor ≤ s.code.length := by
  obtain ⟨i, n, hlisted, -, harrives⟩ := handled_ok hhandled
  unfold Arrives at harrives
  split at harrives
  · rw [harrives]
    exact instruction?_le hlisted
  · exact Nat.le_of_lt harrives.1

end State

/-! ## States in which an instruction is executed -/

/-- A nested run that a host function starts, where earlier ones have ended as `nested` says. -/
inductive Routine.Starts (nested : State → Option State) (latch : Latch) : Routine → State → Prop
  | first {c : Core} {entry : Nat} {resume : Except MachineError Status → Core → Routine}
      (hentry : entry < c.code.length) :
      Starts nested latch (.invoke c entry resume)
        { toCore := { c with cursor := entry, callDepth := 1, status := .running }, latch }
  | later {c : Core} {entry : Nat} {resume : Except MachineError Status → Core → Routine}
      {outcome : Except MachineError Status} {t inner : State}
      (hinvoke : State.invoke nested entry { toCore := c, latch } = some (outcome, t))
      (hrest : Starts nested latch (resume outcome t.toCore) inner) :
      Starts nested latch (.invoke c entry resume) inner

/-- A machine in the state `s` comes to execute the instruction at the cursor of `u`: at once,
after some steps, or in a run that a host function starts. -/
inductive State.Executes (host : HostTable) : State → State → Prop
  | here {s : State} (hactive : s.status.isActive = true) :
      Executes host s { s with status := .running }
  | onward {s t u : State} {fuel : Nat} (hstep : s.step host fuel = some t)
      (hrest : Executes host t u) : Executes host s u
  | inside {s t inner u : State} {v : HostVector} {fuel : Nat}
      (hactive : s.status.isActive = true) (hcall : s.handled host = .ok (.call v) t)
      (hstarts : (v t.toCore).Starts (loop host fuel false) t.latch inner)
      (hrest : Executes host inner u) : Executes host s u

namespace State

variable {host : HostTable} {s t u : State}

/-- Setting the status to `running` first makes no difference. -/
theorem Executes.of_ready (hactive : s.status.isActive = true)
    (hexecutes : Executes host { s with status := .running } u) : Executes host s u := by
  cases hexecutes with
  | here _ => exact .here hactive
  | onward hstep hrest => exact .onward ((step_ready hactive _).symm.trans hstep) hrest
  | inside _ hcall hstarts hrest => exact .inside hactive hcall hstarts hrest

/-- What is executed after a run is executed after its steps. -/
theorem Executes.behind_run {fuel : Nat} (hrun : s.run host fuel = some t)
    (hexecutes : Executes host t u) : Executes host s u := by
  obtain ⟨hactive, -⟩ | rfl := run_cases hrun
  · obtain ⟨k, -, hsteps⟩ := (run_iff_steps host s t hactive).1.mp ⟨fuel, hrun⟩
    clear hrun hactive
    induction hsteps with
    | last hstep _ => exact .onward hstep hexecutes
    | more hstep _ _ ih => exact .onward hstep (ih hexecutes)
  · exact hexecutes

/-- The record names an instruction that `s` comes to execute, or says that there is none where
`s` comes to. -/
def Accounts (host : HostTable) (s : State) (r : FaultRecord) : Prop :=
  ∃ u, Executes host s u ∧ u.code = s.code ∧ (r.Names host u ∨ r.PastEnd u)

/-- What a run from `s` to `t` keeps: the code stays where it is with the cursor in it, and a
record that is not the one of before is accounted for. -/
structure Records (host : HostTable) (s t : State) : Prop where
  code : t.code = s.code
  within : t.cursor ≤ t.code.length
  fault : t.fault = s.fault ∨ ∃ r, t.fault = some r ∧ s.Accounts host r

/-- One run after the other, where the second executes nothing that does not come after the
first. -/
theorem Records.trans (hst : s.Records host t) (htu : t.Records host u)
    (hahead : ∀ v, Executes host t v → Executes host s v) : s.Records host u where
  code := htu.code.trans hst.code
  within := htu.within
  fault := by
    rcases htu.fault with hsame | ⟨r, hr, v, hexecutes, hcode, hrecord⟩
    · rw [hsame]
      exact hst.fault
    · exact Or.inr ⟨r, hr, v, hahead v hexecutes, hcode.trans hst.code, hrecord⟩

end State

/-! ## Host functions -/

/-- Where a machine is and what fault it has on record. -/
structure Position where
  code : Region
  cursor : Nat
  fault : Option FaultRecord
  deriving DecidableEq

/-- The position of a machine. -/
def Core.position (c : Core) : Position :=
  { code := c.code, cursor := c.cursor, fault := c.fault }

namespace Routine

open State (Executes Accounts Records)

variable {host : HostTable} {nested : State → Option State} {latch : Latch}

/-- A nested run gives the cursor back, and a new record is one of the run. -/
theorem records_invoke
    (hnested : ∀ s t, s.status = .running → s.cursor ≤ s.code.length → nested s = some t →
      s.Records host t)
    {c : Core} {entry : Nat} {outcome : Except MachineError Status} {t : State}
    (resume : Except MachineError Status → Core → Routine)
    (hinvoke : State.invoke nested entry { toCore := c, latch } = some (outcome, t)) :
    t.code = c.code ∧ t.cursor = c.cursor ∧
      (t.fault = c.fault ∨ ∃ r inner, t.fault = some r ∧ inner.code = c.code ∧
        (Routine.invoke c entry resume).Starts nested latch inner ∧ inner.Accounts host r) := by
  unfold State.invoke at hinvoke
  by_cases hentry : c.code.length ≤ entry
  · rw [if_pos hentry] at hinvoke
    cases hinvoke
    exact ⟨rfl, rfl, Or.inl rfl⟩
  · rw [if_neg hentry] at hinvoke
    split at hinvoke
    · cases hinvoke
    · rename_i ended hended
      cases hinvoke
      have hrecords := hnested _ ended rfl (Nat.le_of_not_le hentry) hended
      refine ⟨hrecords.code, rfl, ?_⟩
      rcases hrecords.fault with hsame | ⟨r, hr, haccounts⟩
      · exact Or.inl hsame
      · exact Or.inr ⟨r, _, hr, rfl, .first (Nat.lt_of_not_le hentry), haccounts⟩

/-- A whole host call, by induction on the course of the function. -/
theorem records_perform
    (hnested : ∀ s t, s.status = .running → s.cursor ≤ s.code.length → nested s = some t →
      s.Records host t)
    {routine : Routine} {c d : Core} (hkeeps : routine.Keeps Core.position c)
    (hperform : routine.perform nested latch = some d) :
    d.code = c.code ∧ d.cursor = c.cursor ∧
      (d.fault = c.fault ∨ ∃ r inner, d.fault = some r ∧ inner.code = c.code ∧
        routine.Starts nested latch inner ∧ inner.Accounts host r) := by
  induction routine generalizing c with
  | finish c' =>
      cases hperform
      have hcode : d.code = c.code := congrArg Position.code hkeeps
      have hcursor : d.cursor = c.cursor := congrArg Position.cursor hkeeps
      have hfault : d.fault = c.fault := congrArg Position.fault hkeeps
      exact ⟨hcode, hcursor, Or.inl hfault⟩
  | invoke c' entry resume ih =>
      obtain ⟨hhanded, hresume⟩ := hkeeps
      have hcode : c'.code = c.code := congrArg Position.code hhanded
      have hcursor : c'.cursor = c.cursor := congrArg Position.cursor hhanded
      have hfault : c'.fault = c.fault := congrArg Position.fault hhanded
      unfold Routine.perform at hperform
      cases hinvoke : State.invoke nested entry { toCore := c', latch } with
      | none =>
          rw [hinvoke] at hperform
          cases hperform
      | some answer =>
          obtain ⟨outcome, t⟩ := answer
          rw [hinvoke] at hperform
          obtain ⟨hcode', hcursor', hfault'⟩ := records_invoke hnested resume hinvoke
          have hrest := hresume outcome t.toCore hcursor' (State.given_back_of_invoke hinvoke).2
          obtain ⟨hcode'', hcursor'', hfault''⟩ := ih outcome t.toCore hrest hperform
          refine ⟨hcode''.trans (hcode'.trans hcode), hcursor''.trans (hcursor'.trans hcursor), ?_⟩
          -- The last nested run that has raised a fault is the one that counts.
          rcases hfault'' with hsame | ⟨r, inner, hr, hinner, hstarts, haccounts⟩
          · rw [hsame, ← hcode, ← hfault]
            exact hfault'
          · exact Or.inr ⟨r, inner, hr, hinner.trans (hcode'.trans hcode), .later hinvoke hstarts,
              haccounts⟩

end Routine

/-! ## Runs -/

namespace State

variable {host : HostTable} {s t : State} {fuel : Nat}

theorem records_of_execute (hhost : host.Keeps Core.position)
    (hnested : ∀ s t, s.status = .running → s.cursor ≤ s.code.length →
      loop host fuel false s = some t → s.Records host t)
    {straight : Bool} (hrunning : s.status = .running) (hwithin : s.cursor ≤ s.code.length)
    (hexecute : s.execute host (loop host fuel false) = some (straight, t)) :
    s.Records host t := by
  have hactive := active_of_running hrunning
  have hhere : Executes host s s := by
    have hstart : Executes host s { s with status := .running } := .here hactive
    rwa [← hrunning] at hstart
  cases comesTo_of_execute hrunning hexecute with
  | @raised f u hhandled hstands =>
      refine ⟨hstands.code, ?_, Or.inr ⟨_, rfl, s, hhere, rfl, ?_⟩⟩
      · show u.cursor ≤ u.code.length
        rw [hstands.code]
        exact (handled_error hhandled).within hwithin
      · exact record_of_handled hwithin hhandled rfl
  | done hhandled hconfined =>
      refine ⟨hconfined.code, ?_, Or.inl hconfined.fault⟩
      rw [hconfined.code]
      exact within_of_handled hhandled
  | @called i n v u d module function hop hhandled hconfined hlookup hperform =>
      obtain ⟨hcode, hcursor, hfault⟩ :=
        Routine.records_perform hnested (hhost module function v hlookup u.toCore) hperform
      have hthrough : d.code = s.code := hcode.trans hconfined.code
      refine ⟨hthrough, ?_, ?_⟩
      · show d.cursor ≤ d.code.length
        rw [hthrough, hcursor]
        exact within_of_handled hhandled
      · rcases hfault with hsame | ⟨r, inner, hr, hinner, hstarts, w, hexecutes, hw, hrecord⟩
        · exact Or.inl (hsame.trans hconfined.fault)
        · exact Or.inr ⟨r, hr, w, .inside hactive hhandled hstarts hexecutes,
            hw.trans (hinner.trans hconfined.code), hrecord⟩

/-- A run accounts for every record that it makes. -/
theorem records_loop (hhost : host.Keeps Core.position) {straight : Bool}
    (hrunning : s.status = .running) (hwithin : s.cursor ≤ s.code.length)
    (hloop : loop host fuel straight s = some t) : s.Records host t := by
  refine loop_induction
    (motive := fun s t => s.cursor ≤ s.code.length → s.Records host t)
    ?_ hrunning hloop hwithin
  intro fuel hnested s u straight hrunning hexecute
  have hrecords : s.cursor ≤ s.code.length → s.Records host u := by
    intro hwithin
    exact records_of_execute hhost (fun s t hs hin hloop => hnested s t hs hloop hin) hrunning
      hwithin hexecute
  have hstep : s.step host fuel = some u := by
    rw [step_of_running hrunning, hexecute]
    rfl
  constructor
  · intro _ hwithin
    exact hrecords hwithin
  · intro t _ hrest hwithin
    have hfirst := hrecords hwithin
    exact hfirst.trans (hrest hfirst.within) fun v hexecutes => .onward hstep hexecutes

/-- Setting the status to `running` first makes no difference. -/
theorem Records.of_ready (hactive : s.status.isActive = true)
    (hrecords : Records host { s with status := .running } t) : s.Records host t := by
  refine ⟨hrecords.code, hrecords.within, ?_⟩
  rcases hrecords.fault with hsame | ⟨r, hr, u, hexecutes, hcode, hrecord⟩
  · exact Or.inl hsame
  · exact Or.inr ⟨r, hr, u, hexecutes.of_ready hactive, hcode, hrecord⟩

/-- A run, whatever the status of the machine. -/
theorem records_run (hhost : host.Keeps Core.position) (hwithin : s.cursor ≤ s.code.length)
    (hrun : s.run host fuel = some t) : s.Records host t := by
  obtain ⟨hactive, hloop⟩ | rfl := run_cases hrun
  · apply Records.of_ready hactive
    apply records_loop hhost rfl _ hloop
    exact hwithin
  · exact ⟨rfl, hwithin, Or.inl rfl⟩

/-- A step, whatever the status of the machine. -/
theorem records_step (hhost : host.Keeps Core.position) (hwithin : s.cursor ≤ s.code.length)
    (hstep : s.step host fuel = some t) : s.Records host t := by
  obtain ⟨hactive, straight, hexecute⟩ | rfl := step_cases hstep
  · apply Records.of_ready hactive
    apply records_of_execute hhost _ rfl _ hexecute
    · intro s t hrunning hin hloop
      exact records_loop hhost hrunning hin hloop
    · exact hwithin
  · exact ⟨rfl, hwithin, Or.inl rfl⟩

end State

/-! ## Machines -/

/-- The machine `m` becomes another by any sequence of steps and runs. -/
inductive Machine.Proceeds (m : Machine) : Machine → Prop
  | start : Proceeds m m
  | step {m' m'' : Machine} {fuel : Nat} (hbefore : Proceeds m m')
      (hstep : m'.step fuel = some m'') : Proceeds m m''
  | run {m' m'' : Machine} {fuel : Nat} (hbefore : Proceeds m m')
      (hrun : m'.run fuel = some m'') : Proceeds m m''

/-- Every step and every run accounts for the record that it makes, and what it executes comes
after what was executed before. -/
theorem Machine.Proceeds.records {m m' : Machine} (hproceeds : m.Proceeds m')
    (hhost : m.host.Keeps Core.position) (hwithin : m.state.cursor ≤ m.state.code.length) :
    m'.host = m.host ∧ m.state.Records m.host m'.state ∧
      ∀ u, m'.state.Executes m.host u → m.state.Executes m.host u := by
  induction hproceeds with
  | start => exact ⟨rfl, ⟨rfl, hwithin, Or.inl rfl⟩, fun u hexecutes => hexecutes⟩
  | @step m' m'' fuel _ hstep ih =>
      obtain ⟨hsame, hrecords, hahead⟩ := ih
      obtain ⟨t, ht, rfl⟩ := Option.map_eq_some_iff.mp hstep
      rw [hsame] at ht
      refine ⟨hsame, hrecords.trans (State.records_step hhost hrecords.within ht) hahead, ?_⟩
      intro u hexecutes
      exact hahead u (.onward ht hexecutes)
  | @run m' m'' fuel _ hrun ih =>
      obtain ⟨hsame, hrecords, hahead⟩ := ih
      obtain ⟨t, ht, rfl⟩ := Option.map_eq_some_iff.mp hrun
      rw [hsame] at ht
      refine ⟨hsame, hrecords.trans (State.records_run hhost hrecords.within ht) hahead, ?_⟩
      intro u hexecutes
      exact hahead u (.behind_run ht hexecutes)

/-- A machine is entered and stepped and run in any way, with host functions that leave its
position to it.  A record that it then holds names an instruction that the machine came to
execute and that stopped with the fault: it has its offset, inside the code, and its opcode byte.
The one exception is a program that runs past the end of its code.  Its record has the length of
the code for an offset, and whatever opcode byte the latch still held. -/
theorem fault_record_names_instruction (m entered later : Machine) (entry : Nat) (r : FaultRecord)
    (hhost : m.host.Keeps Core.position) (henter : m.enter entry = .ok entered)
    (hproceeds : entered.Proceeds later) (hrecord : later.state.fault = some r) :
    ∃ u, entered.state.Executes m.host u ∧ u.code = m.state.code ∧
      ((r.offset < m.state.code.length ∧ r.Names m.host u) ∨
        (r.offset = m.state.code.length ∧ r.PastEnd u)) := by
  obtain ⟨hentry, rfl⟩ := Machine.enter_eq_ok_iff.mp henter
  obtain ⟨-, hrecords, -⟩ := hproceeds.records hhost (Nat.le_of_lt hentry)
  rcases hrecords.fault with hnone | ⟨r', hr', u, hexecutes, hcode, hcases⟩
  · -- Entering has cleared the record.
    rw [hrecord] at hnone
    cases hnone
  · rw [hrecord] at hr'
    cases hr'
    have hregion : u.code = m.state.code := hcode
    refine ⟨u, hexecutes, hregion, ?_⟩
    rw [← hregion]
    rcases hcases with hnames | hpast
    · exact Or.inl ⟨hnames.inside, hnames⟩
    · exact Or.inr ⟨hpast.offset, hpast⟩

/-- A machine that clears a register and has no more code after the given bytes. -/
def Machine.clearsThen (rest : List UInt8) : Machine :=
  { state :=
      { State.load ([(Opcode.clr .quad).byte, 0x00] ++ rest) ⟨AddressSpace.stackBase, 64⟩ with
        callDepth := 1
        status := .initialised } }

/-- A host instruction without a function behind it is named by the record. -/
theorem clearsThen_host_record_names_instruction :
    ∃ later r, (Machine.clearsThen [Opcode.host.byte, 0x00]).run 2 = some later ∧
      later.state.fault = some r ∧ r.offset = 2 ∧ r.opcode = Opcode.host.byte ∧
      ∃ u, r.Names {} u := by
  let entered := Machine.clearsThen [Opcode.host.byte, 0x00]
  have hruns : (entered.run 2).map (fun later => later.state.fault) =
      some (some { fault := .unknownHostCall 0 0, offset := 2, opcode := Opcode.host.byte }) := by
    decide +kernel
  obtain ⟨later, hrun, hrecord⟩ := Option.map_eq_some_iff.mp hruns
  refine ⟨later, _, hrun, hrecord, rfl, rfl, ?_⟩
  obtain ⟨u, -, -, ⟨-, hnames⟩ | ⟨hpast, -⟩⟩ :=
    fault_record_names_instruction entered entered later 0 _ HostTable.conforms_empty rfl
      (.run .start hrun) hrecord
  · exact ⟨u, hnames⟩
  · exact absurd hpast (by decide)

/-- A program that runs past the end of its code is given the opcode byte of its last
instruction at an offset where there is no instruction, and is reported so. -/
theorem clearsThen_nothing_record_names_no_instruction :
    ∃ later r, (Machine.clearsThen []).enter 0 = .ok (Machine.clearsThen []) ∧
      (Machine.clearsThen []).run 2 = some later ∧ later.state.fault = some r ∧
      ¬r.offset < later.state.code.length ∧ r.opcode = (Opcode.clr .quad).byte ∧
      (∀ u : State, u.code = later.state.code → ¬r.Names {} u) ∧
      later.faultReport? = some ("machine fault: program cursor 0x100000003 outside code " ++
        "[cursor out of range]\nat offset 0x0002 (clr.q)") := by
  let past : FaultRecord :=
    { fault := .cursorOutOfRange 0x100000003
      offset := 2
      opcode := (Opcode.clr .quad).byte }
  have hruns : ((Machine.clearsThen []).run 2).map
      (fun later => (later.state.fault, later.state.code.length, later.faultReport?)) =
      some (some past, 2, some ("machine fault: program cursor 0x100000003 outside code " ++
        "[cursor out of range]\nat offset 0x0002 (clr.q)")) := by
    decide +kernel
  obtain ⟨later, hrun, hanswer⟩ := Option.map_eq_some_iff.mp hruns
  obtain ⟨hrecord, hrest⟩ := Prod.mk.inj hanswer
  obtain ⟨hlength, hreport⟩ := Prod.mk.inj hrest
  have hoffset : ¬past.offset < later.state.code.length := by
    rw [hlength]
    decide
  refine ⟨later, past, rfl, hrun, hrecord, hoffset, rfl, ?_, hreport⟩
  intro u hcode hnames
  rw [← hcode] at hoffset
  exact hoffset hnames.inside

end BytecodeMachine
