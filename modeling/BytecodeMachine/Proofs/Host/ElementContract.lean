import BytecodeMachine.Proofs.Elements.Damage
import BytecodeMachine.Proofs.Elements.Isolation
import BytecodeMachine.Proofs.Instruction.Confinement
import BytecodeMachine.Proofs.Run.Nesting

/-!
# The contract of the element module

A program calls the module of element buffers with the number of a function in register 0 and its
arguments in other registers, and finds a code in register 0 afterwards.  The contract ties the two
sides together: the code is zero exactly if the operation on the store succeeds, and then the store
and the registers hold what the operation gave; otherwise the code says why, and the store is as it
was.

The last point rests on where the buffers are.  The header of a buffer can be damaged so that the
address of a slot runs over the end of the address space to zero, which is refused only after the
slot has been taken.  No buffer in the heap lies high enough for that (`Elements.InHeap`), and in
the heap they are, however a machine is used (`Machine.Used.inHeap`).

* `Service` are the five functions, `Succeeds` and `Fails` what the operation of each comes to, with
  the registers that are set for the program besides register 0.
* `delivered` are the registers that a function leaves.  Every function delivers what its operation
  comes to (`Service.answered_run`), and no operation both succeeds and fails
  (`Succeeds.not_fails`).
* `element_calls_follow_contract` says what a host instruction does with any number in register 0,
  wherever the buffers are.
-/

namespace BytecodeMachine

namespace ElementModule

open Interface (ErrorCode)

/-! ## What the operations come to -/

/-- A function of the module. -/
inductive Service where
  | allocate
  | free
  | allocateSlot
  | freeSlot
  | info
  deriving DecidableEq, Repr

namespace Service

/-- The number by which programs call a function. -/
def number : Service → UInt16
  | allocate => 0
  | free => 1
  | allocateSlot => 2
  | freeSlot => 3
  | info => 4

/-- What a function does to the state. -/
def run : Service → Core → Core
  | allocate => ElementModule.allocate
  | free => ElementModule.free
  | allocateSlot => ElementModule.allocateSlot
  | freeSlot => ElementModule.freeSlot
  | info => ElementModule.info

end Service

/-- What the registers hold for the functions of the module. -/
structure Arguments where
  count : UInt16
  size : UInt16
  buffer : UInt64
  slot : UInt64
  deriving DecidableEq, Repr

/-- The arguments in the registers; of the two numbers the low sixteen bits count. -/
def arguments (c : Core) : Arguments :=
  { count := (c.general countRegister).toUInt16
    size := (c.general sizeRegister).toUInt16
    buffer := c.general bufferRegister
    slot := c.general slotRegister }

/-- The operation of a function succeeds on a store.  It gives a store, and values for the registers
that bring its results back. -/
inductive Succeeds (s : Store) (a : Arguments) :
    Service → Store → List (RegisterIndex × UInt64) → Prop
  | allocate {buffer : UInt64} {t : Store}
      (hmade : s.allocate? a.count a.size = some (buffer, t)) :
      Succeeds s a .allocate t [(bufferRegister, buffer)]
  | free {t : Store} (hbuffer : a.buffer ≠ 0) (hfreed : s.free a.buffer = .ok () t) :
      Succeeds s a .free t [(bufferRegister, 0)]
  | allocateSlot {slot : UInt64} {t : Store} (hbuffer : a.buffer ≠ 0)
      (htaken : s.allocateSlot a.buffer = .ok slot t) :
      Succeeds s a .allocateSlot t [(slotRegister, slot)]
  | freeSlot {t : Store} (hbuffer : a.buffer ≠ 0)
      (hgiven : s.freeSlot a.buffer a.slot = .ok () t) :
      Succeeds s a .freeSlot t [(slotRegister, 0)]
  | info {l : Elements.BufferLayout} (hbuffer : a.buffer ≠ 0)
      (hlayout : s.layout a.buffer = .ok l) :
      Succeeds s a .info s
        [(countRegister, UInt64.ofNat l.count), (sizeRegister, UInt64.ofNat l.slotSize)]

/-- The operation of a function fails on a store, or there is no buffer to apply it to.  It leaves a
store, the number is the code for the program, and some registers are set all the same. -/
inductive Fails (s : Store) (a : Arguments) :
    Service → Store → UInt64 → List (RegisterIndex × UInt64) → Prop
  | noMemory (hnone : s.allocate? a.count a.size = none) :
      Fails s a .allocate s 3 [(bufferRegister, 0)]
  | null {service : Service} (hneeds : service ≠ .allocate) (hnull : a.buffer = 0) :
      Fails s a service s 1 []
  | free {e : Elements.BufferError} {t : Store} (hbuffer : a.buffer ≠ 0)
      (herror : s.free a.buffer = .error e t) :
      Fails s a .free t (errorCode e).number []
  | allocateSlot {e : Elements.BufferError} {t : Store} (hbuffer : a.buffer ≠ 0)
      (herror : s.allocateSlot a.buffer = .error e t) :
      Fails s a .allocateSlot t (errorCode e).number [(slotRegister, 0)]
  | freeSlot {e : Elements.BufferError} {t : Store} (hbuffer : a.buffer ≠ 0)
      (herror : s.freeSlot a.buffer a.slot = .error e t) :
      Fails s a .freeSlot t (errorCode e).number []
  | info {e : Elements.BufferError} (hbuffer : a.buffer ≠ 0)
      (herror : s.layout a.buffer = .error e) :
      Fails s a .info s (errorCode e).number []

section Outcomes

variable {s t t' : Store} {a : Arguments} {service : Service} {code code' : UInt64}
  {results results' : List (RegisterIndex × UInt64)}

/-- A buffer error has a code of its own. -/
theorem number_errorCode_ne_zero (e : Elements.BufferError) : (errorCode e).number ≠ 0 := by
  cases e <;> decide

theorem Fails.code_ne_zero (hfails : Fails s a service t code results) : code ≠ 0 := by
  cases hfails with
  | noMemory hnone => decide
  | null hneeds hnull => decide
  | free hbuffer herror => exact number_errorCode_ne_zero _
  | allocateSlot hbuffer herror => exact number_errorCode_ne_zero _
  | freeSlot hbuffer herror => exact number_errorCode_ne_zero _
  | info hbuffer herror => exact number_errorCode_ne_zero _

/-- An operation that fails leaves the store as it was, unless it has taken a slot at the address
zero. -/
theorem Fails.store_cases (hfails : Fails s a service t code results) :
    t = s ∨ service = .allocateSlot ∧ code = 6 ∧ Elements.TakesNull s a.buffer t := by
  cases hfails with
  | noMemory hnone => exact Or.inl rfl
  | null hneeds hnull => exact Or.inl rfl
  | free hbuffer herror => exact Or.inl (Elements.error_of_free herror)
  | allocateSlot hbuffer herror =>
      rcases Elements.error_of_allocateSlot herror with hsame | ⟨rfl, hnull⟩
      · exact Or.inl hsame
      · exact Or.inr ⟨rfl, by decide, hnull⟩
  | freeSlot hbuffer herror => exact Or.inl (Elements.error_of_freeSlot herror)
  | info hbuffer herror => exact Or.inl rfl

/-- An operation does not both succeed and fail. -/
theorem Succeeds.not_fails (hsucceeds : Succeeds s a service t results) :
    ¬Fails s a service t' code results' := by
  intro hfails
  cases hsucceeds <;> cases hfails <;> simp_all

/-- The store and the results of an operation are determined. -/
theorem Succeeds.unique (hsucceeds : Succeeds s a service t results)
    (hother : Succeeds s a service t' results') : t' = t ∧ results' = results := by
  cases hsucceeds <;> cases hother <;> simp_all

theorem Fails.unique (hfails : Fails s a service t code results)
    (hother : Fails s a service t' code' results') :
    t' = t ∧ code' = code ∧ results' = results := by
  cases hfails <;> cases hother <;> simp_all

/-- No operation that fails changes the set of live buffers. -/
theorem Fails.heap (hfails : Fails s a service t code results) : t.heap = s.heap := by
  rcases hfails.store_cases with rfl | ⟨-, -, l, i, -, -, -, rfl⟩
  · rfl
  · rfl

/-- In the heap, an operation that fails leaves the store as it was. -/
theorem Fails.store_of_inHeap (hfails : Fails s a service t code results)
    (hs : Elements.InHeap s) : t = s := by
  rcases hfails.store_cases with hsame | ⟨-, -, hnull⟩
  · exact hsame
  · exact absurd hnull hs.not_takesNull

/-- Buffers that lie in the heap do so after an operation that succeeds. -/
theorem Succeeds.inHeap (hsucceeds : Succeeds s a service t results)
    (hs : Elements.InHeap s) : Elements.InHeap t := by
  cases hsucceeds with
  | @allocate buffer _ hmade =>
      obtain ⟨hnext, hroom, rfl⟩ := Elements.allocate?_eq_made hmade
      have hbase := hs.next
      have htotal := (Elements.BufferLayout.request a.count a.size).totalSize_eq
      have hheader : (Elements.BufferLayout.request a.count a.size).headerSize =
          16 + 8 * (Elements.BufferLayout.request a.count a.size).bitmapWords := rfl
      refine ⟨?_, fun b hb => ?_⟩
      · show AddressSpace.heapBase.toNat ≤ buffer.toNat + _
        omega
      · rcases List.mem_cons.mp hb with rfl | hb
        · rw [UInt64.le_iff_toNat_le, UInt64.lt_iff_toNat_lt]
          omega
        · exact hs.live b hb
  | free hbuffer hfreed =>
      unfold Store.free at hfreed
      split at hfreed
      · cases hfreed
      · split at hfreed
        · cases hfreed
        · cases hfreed
          exact ⟨hs.next, fun b hb => hs.live b (List.mem_of_mem_erase hb)⟩
  | allocateSlot hbuffer htaken =>
      have hheap := Elements.heap_allocateSlot s a.buffer
      rw [htaken] at hheap
      exact hs.of_heap hheap
  | freeSlot hbuffer hgiven =>
      have hheap := Elements.heap_freeSlot s a.buffer a.slot
      rw [hgiven] at hheap
      exact hs.of_heap hheap
  | info hbuffer hlayout => exact hs

end Outcomes

/-! ## What the functions deliver -/

/-- The registers with results in their places and a code in register 0. -/
def delivered (f : RegisterFile) (results : List (RegisterIndex × UInt64)) (code : UInt64) :
    RegisterFile :=
  (results.foldl (fun f result => f.set .general result.1 result.2) f).set .general errorRegister
    code

/-- A function of the module has left `d`: it delivers what its operation comes to. -/
def Service.Answered (service : Service) (c d : Core) : Prop :=
  (∃ store results, Succeeds c.toStore (arguments c) service store results ∧
    d = { c with toStore := store, registers := delivered c.registers results 0 }) ∨
  ∃ store code results, Fails c.toStore (arguments c) service store code results ∧
    d = { c with toStore := store, registers := delivered c.registers results code }

/-- A function that needs a buffer fails for want of one, or applies its operation. -/
theorem Service.answered_withBuffer (service : Service) {c : Core} {operation : UInt64 → Core}
    (hneeds : service ≠ .allocate)
    (hoperation : (arguments c).buffer ≠ 0 →
      service.Answered c (operation (arguments c).buffer)) :
    service.Answered c (withBuffer c operation) := by
  unfold withBuffer
  simp only
  split
  · rename_i hnull
    exact Or.inr ⟨_, 1, [], .null hneeds hnull, rfl⟩
  · rename_i hbuffer
    exact hoperation hbuffer

theorem Service.answered_run (service : Service) (c : Core) :
    service.Answered c (service.run c) := by
  cases service with
  | allocate =>
      unfold run ElementModule.allocate
      simp only
      split
      · rename_i hmade
        exact Or.inl ⟨_, _, .allocate hmade, rfl⟩
      · rename_i hnone
        exact Or.inr ⟨_, _, _, .noMemory hnone, rfl⟩
  | free =>
      unfold run ElementModule.free
      refine answered_withBuffer .free (by decide) fun hbuffer => ?_
      split
      · rename_i hfreed
        exact Or.inl ⟨_, _, .free hbuffer hfreed, rfl⟩
      · rename_i herror
        exact Or.inr ⟨_, _, _, .free hbuffer herror, rfl⟩
  | allocateSlot =>
      unfold run ElementModule.allocateSlot
      refine answered_withBuffer .allocateSlot (by decide) fun hbuffer => ?_
      split
      · rename_i htaken
        exact Or.inl ⟨_, _, .allocateSlot hbuffer htaken, rfl⟩
      · rename_i herror
        exact Or.inr ⟨_, _, _, .allocateSlot hbuffer herror, rfl⟩
  | freeSlot =>
      unfold run ElementModule.freeSlot
      refine answered_withBuffer .freeSlot (by decide) fun hbuffer => ?_
      split
      · rename_i hgiven
        exact Or.inl ⟨_, _, .freeSlot hbuffer hgiven, rfl⟩
      · rename_i herror
        exact Or.inr ⟨_, _, _, .freeSlot hbuffer herror, rfl⟩
  | info =>
      unfold run ElementModule.info
      refine answered_withBuffer .info (by decide) fun hbuffer => ?_
      split
      · rename_i hlayout
        exact Or.inl ⟨_, _, .info hbuffer hlayout, rfl⟩
      · rename_i herror
        exact Or.inr ⟨_, _, _, .info hbuffer herror, rfl⟩

/-! ## The registers of a delivery -/

/-- The registers that carry arguments and results. -/
def registers : List RegisterIndex :=
  [errorRegister, countRegister, sizeRegister, bufferRegister, slotRegister]

/-- Results go to different registers of the module, and not to the one of the code. -/
def Carried (results : List (RegisterIndex × UInt64)) : Prop :=
  (results.map Prod.fst).Nodup ∧ ∀ result ∈ results, result.1 ∈ registers ∧ result.1 ≠ errorRegister

theorem carried_nil : Carried [] := ⟨List.nodup_nil, fun _ hmem => by cases hmem⟩

theorem carried_singleton {r : RegisterIndex} (hr : r ∈ registers ∧ r ≠ errorRegister)
    (value : UInt64) : Carried [(r, value)] :=
  ⟨by simp, fun _ hmem => by rwa [List.mem_singleton.mp hmem]⟩

theorem Succeeds.carried {s t : Store} {a : Arguments} {service : Service}
    {results : List (RegisterIndex × UInt64)} (hsucceeds : Succeeds s a service t results) :
    Carried results := by
  cases hsucceeds with
  | allocate hmade => exact carried_singleton (by decide) _
  | free hbuffer hfreed => exact carried_singleton (by decide) _
  | allocateSlot hbuffer htaken => exact carried_singleton (by decide) _
  | freeSlot hbuffer hgiven => exact carried_singleton (by decide) _
  | info hbuffer hlayout =>
      have hregisters : ([countRegister, sizeRegister] : List RegisterIndex).Nodup ∧
          ∀ r ∈ [countRegister, sizeRegister], r ∈ registers ∧ r ≠ errorRegister := by decide
      exact ⟨hregisters.1, fun _ hmem => hregisters.2 _ (List.mem_map_of_mem hmem)⟩

theorem Fails.carried {s t : Store} {a : Arguments} {service : Service} {code : UInt64}
    {results : List (RegisterIndex × UInt64)} (hfails : Fails s a service t code results) :
    Carried results := by
  cases hfails with
  | noMemory hnone => exact carried_singleton (by decide) _
  | null hneeds hnull => exact carried_nil
  | free hbuffer herror => exact carried_nil
  | allocateSlot hbuffer herror => exact carried_singleton (by decide) _
  | freeSlot hbuffer herror => exact carried_nil
  | info hbuffer herror => exact carried_nil

/-- A register that is not among those to be set is left alone. -/
theorem get_foldl_set_of_ne {results : List (RegisterIndex × UInt64)} (f : RegisterFile)
    {bank : Bank} {r : RegisterIndex}
    (hother : bank = .general → ∀ result ∈ results, result.1 ≠ r) :
    (results.foldl (fun f result => f.set .general result.1 result.2) f).get bank r =
      f.get bank r := by
  induction results generalizing f with
  | nil => rfl
  | cons result rest ih =>
      rw [List.foldl_cons, ih _ fun hbank other hmem => hother hbank other (by simp [hmem]),
        RegisterFile.get_set, if_neg]
      rintro ⟨hbank, hsame⟩
      exact hother hbank.symm result (by simp) hsame

theorem get_foldl_set_of_mem {results : List (RegisterIndex × UInt64)} (f : RegisterFile)
    (hnodup : (results.map Prod.fst).Nodup) {result : RegisterIndex × UInt64}
    (hmem : result ∈ results) :
    (results.foldl (fun f result => f.set .general result.1 result.2) f).get .general result.1 =
      result.2 := by
  induction results generalizing f with
  | nil => cases hmem
  | cons first rest ih =>
      rw [List.map_cons, List.nodup_cons] at hnodup
      rw [List.foldl_cons]
      rcases List.mem_cons.mp hmem with rfl | hmem
      · -- The registers that are set later are others.
        rw [get_foldl_set_of_ne, RegisterFile.get_set, if_pos ⟨rfl, rfl⟩]
        intro _ other hother hsame
        exact hnodup.1 (hsame ▸ List.mem_map_of_mem hother)
      · exact ih _ hnodup.2 hmem

/-- What the general registers hold after a call: the code, the results, and otherwise what they
held before. -/
structure Returns (f g : RegisterFile) (results : List (RegisterIndex × UInt64)) (code : UInt64) :
    Prop where
  code : g.get .general errorRegister = code
  delivers : ∀ result ∈ results, g.get .general result.1 = result.2
  others : ∀ r, r ≠ errorRegister → (∀ result ∈ results, result.1 ≠ r) →
    g.get .general r = f.get .general r

theorem returns_delivered (f : RegisterFile) {results : List (RegisterIndex × UInt64)}
    (code : UInt64) (hcarried : Carried results) :
    Returns f (delivered f results code) results code where
  code := by rw [delivered, RegisterFile.get_set, if_pos ⟨rfl, rfl⟩]
  delivers := by
    intro result hmem
    rw [delivered, RegisterFile.get_set, if_neg fun h => (hcarried.2 result hmem).2 h.2.symm]
    exact get_foldl_set_of_mem f hcarried.1 hmem
  others := by
    intro r herror hother
    rw [delivered, RegisterFile.get_set, if_neg fun h => herror h.2.symm]
    exact get_foldl_set_of_ne f fun _ => hother

/-- The results of a call stand in registers of the module. -/
theorem Returns.get_of_not_mem {f g : RegisterFile} {results : List (RegisterIndex × UInt64)}
    {code : UInt64} (hreturns : Returns f g results code) (hcarried : Carried results)
    {r : RegisterIndex} (hr : r ∉ registers) : g.get .general r = f.get .general r := by
  refine hreturns.others r ?_ fun result hmem hsame => ?_
  · rintro rfl
    exact hr List.mem_cons_self
  · exact hr (hsame ▸ (hcarried.2 result hmem).1)

theorem get_float_delivered (f : RegisterFile) (results : List (RegisterIndex × UInt64))
    (code : UInt64) (r : RegisterIndex) :
    (delivered f results code).get .float r = f.get .float r := by
  rw [delivered, RegisterFile.get_set, if_neg fun h => by cases h.1]
  exact get_foldl_set_of_ne f fun h => by cases h

/-! ## The host instruction -/

theorem vector?_number (service : Service) :
    module.vector? service.number = some (HostVector.pure service.run) := by
  cases service <;> rfl

theorem vector?_of_lt {f : UInt16} (hf : 4 < f) : module.vector? f = none := by
  have hlt : 4 < f.toNat := hf
  have hother : ∀ g : UInt16, g.toNat ≤ 4 → (f == g) = false := by
    intro g hg
    rw [beq_eq_false_iff_ne]
    rintro rfl
    omega
  simp [HostModule.vector?, module, List.lookup_cons, hother]

theorem exists_service {f : UInt16} (hf : ¬4 < f) : ∃ service : Service, service.number = f := by
  have hle : f.toNat ≤ 4 := Nat.le_of_not_lt hf
  have hcases : f.toNat = 0 ∨ f.toNat = 1 ∨ f.toNat = 2 ∨ f.toNat = 3 ∨ f.toNat = 4 := by omega
  rcases hcases with h | h | h | h | h
  · exact ⟨.allocate, UInt16.toNat_inj.mp h.symm⟩
  · exact ⟨.free, UInt16.toNat_inj.mp h.symm⟩
  · exact ⟨.allocateSlot, UInt16.toNat_inj.mp h.symm⟩
  · exact ⟨.freeSlot, UInt16.toNat_inj.mp h.symm⟩
  · exact ⟨.info, UInt16.toNat_inj.mp h.symm⟩

end ElementModule

namespace State

open ElementModule

variable {host : HostTable} {s : State}

/-- A host instruction for which the table holds no function. -/
theorem handled_unknownHost {module : UInt8} {rest : List UInt8}
    (hahead : s.ahead = Opcode.host.byte :: module :: rest)
    (hlookup : host.lookup? module (s.general Exec.functionRegister).toUInt16 = none) :
    s.handled host =
      .error (.unknownHostCall module (s.general Exec.functionRegister).toUInt16)
        s.behindHost := by
  rw [handled_of_cons host hahead, Opcode.ofByte?_byte]
  show Exec.host host (s.behindOpcode Opcode.host.byte) = _
  unfold Exec.host
  rw [Exec.bind_of_ok (Exec.fetchByte_of_cons _ (ahead_behindOpcode hahead)), Exec.bind_get]
  have hfunction : host.lookup? module
      ((s.behindOpcode Opcode.host.byte).general Exec.functionRegister).toUInt16 = none := hlookup
  simp only [Core.general] at hfunction ⊢
  rw [hfunction]
  rfl

/-- A host function that only changes the state is over within the step. -/
theorem step_pureHost {module : UInt8} {rest : List UInt8} {change : Core → Core}
    (hactive : s.status.isActive = true)
    (hahead : s.ahead = Opcode.host.byte :: module :: rest)
    (hlookup : host.lookup? module (s.general Exec.functionRegister).toUInt16 =
      some (HostVector.pure change)) (fuel : Nat) :
    s.step host fuel = some { s.behindHost with toCore := change s.behindHost.toCore } := by
  rw [step_of_handled hactive (handled_host hahead hlookup)]
  rfl

/-- The step from `s` to `t` is a call of a function that follows the contract.  The status before
the instruction is `running` in every step. -/
structure FollowsContract (s : State) (service : Service) (t : State) : Prop where
  cursor : t.cursor = s.cursor + 2
  status : t.status = .running
  callDepth : t.callDepth = s.callDepth
  floats : ∀ r, t.registers.get .float r = s.registers.get .float r
  others : ∀ r, r ∉ ElementModule.registers → t.general r = s.general r
  /-- The code is zero exactly if the operation succeeds. -/
  zero_iff : t.general errorRegister = 0 ↔
    ∃ store results, Succeeds s.toStore (arguments s.toCore) service store results
  /-- Otherwise it fails. -/
  answered : (∃ store results, Succeeds s.toStore (arguments s.toCore) service store results) ∨
    ∃ store code results, Fails s.toStore (arguments s.toCore) service store code results
  success : ∀ store results, Succeeds s.toStore (arguments s.toCore) service store results →
    t.toStore = store ∧ Returns s.registers t.registers results 0
  /-- The code says what is wrong. -/
  failure : ∀ store code results,
    Fails s.toStore (arguments s.toCore) service store code results →
    t.toStore = store ∧ code ≠ 0 ∧ Returns s.registers t.registers results code
  /-- If the code is not zero, the same buffers are live. -/
  heap : t.general errorRegister ≠ 0 → t.heap = s.heap
  /-- Memory is the same too, unless a slot has been taken that would begin at zero. -/
  memory : t.general errorRegister ≠ 0 →
    t.memory = s.memory ∨ service = .allocateSlot ∧ t.general errorRegister = 6 ∧
      Elements.TakesNull s.toStore (arguments s.toCore).buffer t.toStore
  /-- In the heap there is no such slot. -/
  inHeap : Elements.InHeap s.toStore →
    Elements.InHeap t.toStore ∧ (t.general errorRegister ≠ 0 → t.memory = s.memory)

/-- A function that delivers what its operation comes to follows the contract. -/
theorem followsContract_of_answered {service : Service} {d : Core}
    (hanswered : service.Answered s.behindHost.toCore d) :
    s.FollowsContract service { s.behindHost with toCore := d } := by
  obtain ⟨store, results, hsucceeds, rfl⟩ | ⟨store, code, results, hfails, rfl⟩ := hanswered
  · have hreturns := returns_delivered s.registers 0 hsucceeds.carried
    refine ⟨rfl, rfl, rfl, get_float_delivered _ _ _,
      fun _ => hreturns.get_of_not_mem hsucceeds.carried, ?_, Or.inl ⟨_, _, hsucceeds⟩, ?_, ?_,
      fun hcode => absurd hreturns.code hcode, fun hcode => absurd hreturns.code hcode, ?_⟩
    · exact ⟨fun _ => ⟨_, _, hsucceeds⟩, fun _ => hreturns.code⟩
    · intro store' results' hother
      obtain ⟨rfl, rfl⟩ := hsucceeds.unique hother
      exact ⟨rfl, hreturns⟩
    · intro store' code results' hfails
      exact absurd hfails hsucceeds.not_fails
    · exact fun hs => ⟨hsucceeds.inHeap hs, fun hcode => absurd hreturns.code hcode⟩
  · have hreturns := returns_delivered s.registers code hfails.carried
    refine ⟨rfl, rfl, rfl, get_float_delivered _ _ _,
      fun _ => hreturns.get_of_not_mem hfails.carried, ?_, Or.inr ⟨_, _, _, hfails⟩, ?_, ?_,
      fun _ => hfails.heap, fun _ => ?_, ?_⟩
    · constructor
      · intro hzero
        exact absurd (hreturns.code.symm.trans hzero) hfails.code_ne_zero
      · rintro ⟨store, results', hsucceeds⟩
        exact absurd hfails hsucceeds.not_fails
    · intro store results' hsucceeds
      exact absurd hfails hsucceeds.not_fails
    · intro store' code' results' hother
      obtain ⟨rfl, rfl, rfl⟩ := hfails.unique hother
      exact ⟨rfl, hfails.code_ne_zero, hreturns⟩
    · rcases hfails.store_cases with hsame | ⟨hservice, hcode, hnull⟩
      · exact Or.inl (congrArg Store.memory hsame)
      · exact Or.inr ⟨hservice, hreturns.code.trans hcode, hnull⟩
    · intro hs
      have hsame := hfails.store_of_inHeap hs
      exact ⟨hsame ▸ hs, fun _ => congrArg Store.memory hsame⟩

end State

/-! ## Buffers of machines in use -/

/-- Buffers that were in the heap are there still. -/
def Core.StaysInHeap (c d : Core) : Prop :=
  Elements.InHeap c.toStore → Elements.InHeap d.toStore

theorem ElementModule.stays_inHeap : module.Conforms Core.StaysInHeap := by
  intro function v hv c
  by_cases hf : 4 < function
  · rw [vector?_of_lt hf] at hv
    cases hv
  · obtain ⟨service, rfl⟩ := exists_service hf
    rw [vector?_number] at hv
    cases hv
    show Core.StaysInHeap c (service.run c)
    intro hc
    obtain ⟨store, results, hsucceeds, hd⟩ | ⟨store, code, results, hfails, hd⟩ :=
      service.answered_run c
    · rw [hd]
      exact hsucceeds.inHeap hc
    · rw [hd]
      exact hfails.store_of_inHeap hc ▸ hc

namespace State

variable {host : HostTable} {nested : State → Option State} {s t : State}

/-- Runs of this kind leave buffers in the heap. -/
def RunsInHeap (nested : State → Option State) : Prop :=
  ∀ s t, s.status = .running → nested s = some t → s.toCore.StaysInHeap t.toCore

theorem staysInHeap_of_invoke (hnested : RunsInHeap nested) {entry : Nat}
    {outcome : Except MachineError Status} (hinvoke : s.invoke nested entry = some (outcome, t)) :
    s.toCore.StaysInHeap t.toCore := by
  unfold invoke at hinvoke
  split at hinvoke
  · cases hinvoke
    exact id
  · split at hinvoke
    · cases hinvoke
    · rename_i u hu
      cases hinvoke
      exact hnested { s with cursor := entry, callDepth := 1, status := .running } u rfl hu

/-- Instructions leave the heap alone, and host functions and nested runs leave the buffers in
it. -/
theorem staysInHeap_of_execute (hhost : host.Conforms Core.StaysInHeap)
    (hnested : RunsInHeap nested) {straight : Bool} (hrunning : s.status = .running)
    (hexecute : s.execute host nested = some (straight, t)) :
    s.toCore.StaysInHeap t.toCore := by
  intro hs
  cases comesTo_of_execute hrunning hexecute with
  | raised hhandled hstands => exact hs.of_heap hstands.heap
  | done hhandled hconfined => exact hs.of_heap hconfined.heap
  | @called i n v u c module function hop hhandled hconfined hlookup hperform =>
      have hcall : u.toCore.StaysInHeap c :=
        Routine.perform_related Core.StaysInHeap (fun h h' => h' ∘ h) id
          (staysInHeap_of_invoke hnested) (hhost module function v hlookup u.toCore) hperform
      exact hcall (hs.of_heap hconfined.heap)

theorem runsInHeap_loop (hhost : host.Conforms Core.StaysInHeap) (fuel : Nat) (straight : Bool) :
    RunsInHeap (loop host fuel straight) := by
  intro s t hrunning hloop
  refine loop_induction (motive := fun s t => s.toCore.StaysInHeap t.toCore) ?_ hrunning hloop
  intro fuel hnested s u straight hrunning hexecute
  have hstays := staysInHeap_of_execute hhost hnested hrunning hexecute
  exact ⟨fun _ => hstays, fun t _ hrest => hrest ∘ hstays⟩

end State

namespace Machine

/-- The machines that can be had by using one that was loaded.  Registers and memory may be set from
outside, and host functions may do anything that leaves buffers in the heap. -/
inductive Used : Machine → Prop
  | load {code : List UInt8} {stackSize : Nat} {m : Machine}
      (hload : Machine.load code stackSize = .ok m) : Used m
  | register {m : Machine} {module : HostModule} (hm : Used m)
      (hmodule : module.Conforms Core.StaysInHeap) : Used (m.register module)
  | setRegisters {m : Machine} (f : RegisterFile) (hm : Used m) :
      Used { m with state := { m.state with registers := f } }
  | setMemory {m : Machine} (memory : Memory) (hm : Used m) :
      Used { m with state := { m.state with memory } }
  | enter {m m' : Machine} {entry : Nat} (hm : Used m) (henter : m.enter entry = .ok m') : Used m'
  | run {m m' : Machine} {fuel : Nat} (hm : Used m) (hrun : m.run fuel = some m') : Used m'
  | step {m m' : Machine} {fuel : Nat} (hm : Used m) (hstep : m.step fuel = some m') : Used m'
  | invoke {m m' : Machine} {fuel entry : Nat} {outcome : Except MachineError Status}
      (hm : Used m) (hinvoke : m.invoke fuel entry = some (outcome, m')) : Used m'

variable {m m' : Machine} {fuel : Nat}

theorem staysInHeap_of_run (hhost : m.host.Conforms Core.StaysInHeap)
    (hrun : m.run fuel = some m') : m.state.StaysInHeap m'.state.toCore ∧ m'.host = m.host := by
  obtain ⟨t, ht, rfl⟩ := Option.map_eq_some_iff.mp hrun
  refine ⟨?_, rfl⟩
  obtain ⟨-, hloop⟩ | rfl := State.run_cases ht
  · exact State.runsInHeap_loop hhost fuel false { m.state with status := .running } t rfl hloop
  · exact id

theorem staysInHeap_of_step (hhost : m.host.Conforms Core.StaysInHeap)
    (hstep : m.step fuel = some m') : m.state.StaysInHeap m'.state.toCore ∧ m'.host = m.host := by
  obtain ⟨t, ht, rfl⟩ := Option.map_eq_some_iff.mp hstep
  refine ⟨?_, rfl⟩
  obtain ⟨-, straight, hexecute⟩ | rfl := State.step_cases ht
  · exact State.staysInHeap_of_execute (s := { m.state with status := .running }) hhost
      (State.runsInHeap_loop hhost fuel false) rfl hexecute
  · exact id

theorem staysInHeap_of_invoke (hhost : m.host.Conforms Core.StaysInHeap) {entry : Nat}
    {outcome : Except MachineError Status} (hinvoke : m.invoke fuel entry = some (outcome, m')) :
    m.state.StaysInHeap m'.state.toCore ∧ m'.host = m.host := by
  obtain ⟨⟨outcome', t⟩, ht, hpair⟩ := Option.map_eq_some_iff.mp hinvoke
  cases hpair
  exact ⟨State.staysInHeap_of_invoke (State.runsInHeap_loop hhost fuel false) ht, rfl⟩

/-- A heap without buffers. -/
theorem inHeap_of_load {code : List UInt8} {stackSize : Nat}
    (hload : Machine.load code stackSize = .ok m) :
    Elements.InHeap m.state.toStore ∧ m.host = {} := by
  unfold Machine.load at hload
  split at hload
  · cases hload
    refine ⟨⟨?_, fun buffer hmem => ?_⟩, rfl⟩
    · exact Nat.le_refl AddressSpace.heapBase.toNat
    · cases hmem
  · cases hload

/-- However a machine has been used, its buffers lie in the heap. -/
theorem Used.inHeap (hm : m.Used) :
    Elements.InHeap m.state.toStore ∧ m.host.Conforms Core.StaysInHeap := by
  induction hm with
  | load hload =>
      obtain ⟨hs, hhost⟩ := inHeap_of_load hload
      exact ⟨hs, hhost ▸ HostTable.conforms_empty⟩
  | register _ hmodule ih => exact ⟨ih.1, HostTable.conforms_register ih.2 hmodule⟩
  | setRegisters f _ ih => exact ih
  | setMemory memory _ ih => exact ⟨ih.1.of_heap rfl, ih.2⟩
  | enter _ henter ih =>
      obtain ⟨-, rfl⟩ := Machine.enter_eq_ok_iff.mp henter
      exact ih
  | run _ hrun ih =>
      obtain ⟨hstays, hhost⟩ := staysInHeap_of_run ih.2 hrun
      exact ⟨hstays ih.1, hhost ▸ ih.2⟩
  | step _ hstep ih =>
      obtain ⟨hstays, hhost⟩ := staysInHeap_of_step ih.2 hstep
      exact ⟨hstays ih.1, hhost ▸ ih.2⟩
  | invoke _ hinvoke ih =>
      obtain ⟨hstays, hhost⟩ := staysInHeap_of_invoke ih.2 hinvoke
      exact ⟨hstays ih.1, hhost ▸ ih.2⟩

end Machine

/-- Calls of element functions follow their contract, whatever register 0 holds and whatever
buffers and slots the program names.  A number above four is no function of the module: the step
raises a fault that names it, and registers and store are left as they were.  However a machine with
the module has been used, its buffers lie in the heap, so that a call that answers with a code other
than zero leaves memory as it was; for other states `FollowsContract.memory` has the exception. -/
theorem element_calls_follow_contract :
    ElementModule.module.Conforms Core.StaysInHeap ∧
    (∀ m : Machine, m.Used → Elements.InHeap m.state.toStore) ∧
    ∀ (host : HostTable) (s : State) (rest : List UInt8),
      host.module? Interface.elementModule = some ElementModule.module →
      s.status.isActive = true →
      s.ahead = Opcode.host.byte :: Interface.elementModule :: rest →
      if 4 < (s.general Exec.functionRegister).toUInt16 then
        ∃ t, (∀ fuel, s.step host fuel = some t) ∧
          t.fault = some
            { fault := .unknownHostCall Interface.elementModule
                (s.general Exec.functionRegister).toUInt16
              offset := s.cursor, opcode := Opcode.host.byte } ∧
          t.status = .unknownHostCall ∧ t.registers = s.registers ∧ t.toStore = s.toStore
      else
        ∃ service : ElementModule.Service,
          service.number = (s.general Exec.functionRegister).toUInt16 ∧
          ∃ t, (∀ fuel, s.step host fuel = some t) ∧ s.FollowsContract service t := by
  refine ⟨ElementModule.stays_inHeap, fun m hm => hm.inHeap.1, ?_⟩
  intro host s rest hmodule hactive hahead
  have hlookup : ∀ f, host.lookup? Interface.elementModule f = ElementModule.module.vector? f := by
    intro f
    unfold HostTable.lookup?
    rw [hmodule]
    rfl
  split
  · rename_i hf
    have hnone := (hlookup _).trans (ElementModule.vector?_of_lt hf)
    obtain ⟨t, ht, hstep⟩ := State.raises_of_handled hactive
      (State.handled_unknownHost hahead hnone)
    rw [State.handled_unknownHost hahead hnone] at ht
    cases ht
    exact ⟨_, hstep, rfl, rfl, rfl, rfl⟩
  · rename_i hf
    obtain ⟨service, hnumber⟩ := ElementModule.exists_service hf
    have hsome := (hlookup service.number).trans (ElementModule.vector?_number service)
    rw [hnumber] at hsome
    exact ⟨service, hnumber, _, State.step_pureHost hactive hahead hsome,
      State.followsContract_of_answered (service.answered_run _)⟩

/-- A machine that asks for a buffer of one element of one byte, with more in its registers than the
sixteen bits that count. -/
def Machine.asksForBuffer : Machine :=
  { state :=
      { State.load [1, 2] ⟨AddressSpace.stackBase, 64⟩ with
        callDepth := 1
        status := .initialised
        registers :=
          ((RegisterFile.zero.set .general (.ofNat 0) 0x10000).set .general (.ofNat 1) 0x50001).set
            .general (.ofNat 2) 1 }
    host := HostTable.register {} ElementModule.module }

/-- The buffer is the first of the heap, and the whole of register 0 is zero. -/
theorem asksForBuffer_follows_contract :
    Machine.asksForBuffer.Used ∧ Elements.InHeap Machine.asksForBuffer.state.toStore ∧
    Machine.asksForBuffer.state.ahead = [Opcode.host.byte, Interface.elementModule] ∧
    ∃ t, (∀ fuel, Machine.asksForBuffer.state.step Machine.asksForBuffer.host fuel = some t) ∧
      Machine.asksForBuffer.state.FollowsContract .allocate t ∧
      t.general ElementModule.errorRegister = 0 ∧
      t.general ElementModule.bufferRegister = AddressSpace.heapBase := by
  obtain ⟨hmodule, hinHeap, hcalls⟩ := element_calls_follow_contract
  have hused : Machine.asksForBuffer.Used := by
    let loaded : Machine := { state := State.load [1, 2] ⟨AddressSpace.stackBase, 64⟩ }
    have hloaded : Machine.load [1, 2] 64 = .ok loaded := rfl
    let filled : Machine :=
      { loaded.register ElementModule.module with
        state := { loaded.state with registers := Machine.asksForBuffer.state.registers } }
    have hfilled : filled.Used := .setRegisters _ (.register (.load hloaded) hmodule)
    have henter : filled.enter 0 = .ok Machine.asksForBuffer := rfl
    exact .enter hfilled henter
  have hahead : Machine.asksForBuffer.state.ahead =
      [Opcode.host.byte, Interface.elementModule] := by decide +kernel
  have hanswer := hcalls Machine.asksForBuffer.host Machine.asksForBuffer.state [] rfl rfl hahead
  rw [if_neg (by decide +kernel)] at hanswer
  obtain ⟨service, hnumber, t, hstep, hfollows⟩ := hanswer
  have hservice : service = .allocate := by
    cases service with
    | allocate => rfl
    | _ => exact absurd hnumber (by decide +kernel)
  subst hservice
  have hbuffer : (Machine.asksForBuffer.state.toStore.allocate? 1 1).map (fun made => made.1) =
      some AddressSpace.heapBase := by decide +kernel
  obtain ⟨⟨buffer, store⟩, hmade, hplace⟩ := Option.map_eq_some_iff.mp hbuffer
  cases hplace
  obtain ⟨-, hreturns⟩ := hfollows.success _ _ (.allocate hmade)
  exact ⟨hused, hinHeap _ hused, hahead, t, hstep, hfollows, hreturns.code,
    hreturns.delivers _ List.mem_cons_self⟩

end BytecodeMachine
