import BytecodeMachine.Proofs.Instruction.Calls
import BytecodeMachine.Proofs.Instruction.Locality
import BytecodeMachine.Proofs.Operand.Codec
import Mathlib.Data.List.Nodup

/-!
# Saving and loading blocks of registers

A register mask gives each of its registers a place in the block: the number of set bits below
its own.  Saving writes the registers to their places and loading reads them from there, so a
register that is loaded has the value with which it was saved, whatever the registers and the
rest of memory have gone through in between.

* `RegisterMask.registers_rank` says which register has which place.
* `Memory.bytes_storing` and `RegisterFile.get_loading` say what a place holds after a save and
  what a load takes from it.
* `State.exists_saves` and `State.exists_loads` say that the two instructions go through.
-/

namespace BytecodeMachine

/-! ## Places in the block -/

namespace RegisterMask

/-- The bit of a register: the float bank follows the general one. -/
def bitOf : Bank → RegisterIndex → Nat
  | .general, r => r
  | .float, r => 16 + r

/-- The mask has the bit of the register. -/
def Selects (m : RegisterMask) (bank : Bank) (r : RegisterIndex) : Prop :=
  m.toNat.testBit (bitOf bank r) = true

instance (m : RegisterMask) (bank : Bank) (r : RegisterIndex) : Decidable (m.Selects bank r) :=
  inferInstanceAs (Decidable (_ = true))

/-- The place of a register in the block: how many bits below its own are set. -/
def rank (m : RegisterMask) (bank : Bank) (r : RegisterIndex) : Nat :=
  (List.range (bitOf bank r)).countP m.toNat.testBit

theorem bitOf_lt (bank : Bank) (r : RegisterIndex) : bitOf bank r < 32 := by
  have hr := r.isLt
  cases bank <;> simp only [bitOf] <;> omega

theorem register_bitOf (bank : Bank) (r : RegisterIndex) : register (bitOf bank r) = (bank, r) := by
  have hr := r.isLt
  cases bank with
  | general =>
      rw [bitOf, register, if_pos hr, RegisterIndex.ofNat]
      simp only [Nat.mod_eq_of_lt hr]
  | float =>
      rw [bitOf, register, if_neg (by omega), RegisterIndex.ofNat]
      simp only [Nat.add_sub_cancel_left, Nat.mod_eq_of_lt hr]

theorem bitOf_register {bit : Nat} (hbit : bit < 32) :
    bitOf (register bit).1 (register bit).2 = bit := by
  unfold register
  split
  · rename_i hgeneral
    exact Nat.mod_eq_of_lt hgeneral
  · rename_i hfloat
    show 16 + (bit - 16) % 16 = bit
    omega

variable (m : RegisterMask)

/-- The set bits below a bit come before it. -/
theorem bits_countP {bit : Nat} (hbit : bit < 32) (hset : m.toNat.testBit bit = true) :
    m.bits[(List.range bit).countP m.toNat.testBit]? = some bit := by
  -- All bits are the ones below, the bit itself and the ones above.
  have hsplit : List.range 32 = List.range bit ++ bit :: (List.range 32).drop (bit + 1) := by
    have hfront : (List.range 32).take bit = List.range bit := by
      rw [List.take_range, Nat.min_eq_left (by omega)]
    have hback : (List.range 32).drop bit = bit :: (List.range 32).drop (bit + 1) := by
      rw [List.drop_eq_getElem_cons (by rw [List.length_range]; exact hbit), List.getElem_range]
    rw [← hfront, ← hback, List.take_append_drop]
  unfold bits
  rw [hsplit, List.filter_append, List.filter_cons_of_pos hset, List.countP_eq_length_filter,
    List.getElem?_append_right (Nat.le_refl _), Nat.sub_self, List.getElem?_cons_zero]

/-- A selected register stands at its place. -/
theorem registers_rank {bank : Bank} {r : RegisterIndex} (hselects : m.Selects bank r) :
    m.registers[m.rank bank r]? = some (bank, r) := by
  rw [registers, List.getElem?_map, rank, bits_countP m (bitOf_lt bank r) hselects]
  exact congrArg some (register_bitOf bank r)

theorem mem_registers_iff (bank : Bank) (r : RegisterIndex) :
    (bank, r) ∈ m.registers ↔ m.Selects bank r := by
  constructor
  · intro hmem
    obtain ⟨bit, hbit, hregister⟩ := List.mem_map.mp hmem
    obtain ⟨hrange, hset⟩ := List.mem_filter.mp hbit
    have hsame := bitOf_register (List.mem_range.mp hrange)
    rw [hregister] at hsame
    rw [Selects, hsame]
    exact hset
  · intro hselects
    exact List.mem_of_getElem? (registers_rank m hselects)

/-- No register stands in the block twice. -/
theorem nodup_registers : m.registers.Nodup := by
  refine List.Nodup.map_on ?_ (List.nodup_range.filter _)
  intro x hx y hy hsame
  have hx' := List.mem_range.mp (List.mem_of_mem_filter hx)
  have hy' := List.mem_range.mp (List.mem_of_mem_filter hy)
  rw [← bitOf_register hx', ← bitOf_register hy', hsame]

theorem blockSize_le : m.blockSize ≤ 256 := by
  have hlength : m.bits.length ≤ (List.range 32).length := List.length_filter_le ..
  rw [List.length_range] at hlength
  unfold blockSize
  omega

end RegisterMask

/-! ## What a block holds -/

theorem Memory.add_eight_mul (a : UInt64) (k : Nat) :
    a + UInt64.ofNat (8 * (k + 1)) = a + 8 + UInt64.ofNat (8 * k) := by
  rw [Nat.mul_succ, Nat.add_comm, UInt64.ofNat_add, ← UInt64.add_assoc]
  rfl

/-- A stored register is found at its place, least significant byte first. -/
theorem Memory.bytes_storing (m : Memory) (f : RegisterFile) {a : UInt64} {k : Nat}
    {registers : List (Bank × RegisterIndex)} {bank : Bank} {r : RegisterIndex}
    (hplace : registers[k]? = some (bank, r)) (hfits : 8 * registers.length ≤ UInt64.size) :
    (m.storing f a registers).bytes (a + UInt64.ofNat (8 * k)) 8 =
      LittleEndian.encode 8 (f.get bank r).toNat := by
  induction registers generalizing m a k with
  | nil => cases hplace
  | cons entry rest ih =>
      rw [List.length_cons] at hfits
      cases k with
      | zero =>
          cases hplace
          have hstart : a + UInt64.ofNat (8 * 0) = a := UInt64.add_zero a
          rw [hstart, storing]
          -- The rest of the block does not come round to its first word again.
          have hrest : ∀ i, i < 8 →
              ((m.write a .quad (f.get bank r)).storing f (a + 8) rest).byte
                  (a + UInt64.ofNat i) =
                (m.write a .quad (f.get bank r)).byte (a + UInt64.ofNat i) := by
            intro i hi
            apply Memory.byte_storing
            have hi' : (UInt64.ofNat i).toNat = i := UInt64.toNat_ofNat_of_lt' (by omega)
            have hsum : (a + 8).toNat = (a.toNat + 8) % 2 ^ 64 := UInt64.toNat_add a 8
            have hsum' := UInt64.toNat_add a (UInt64.ofNat i)
            have ha := a.toNat_lt
            rw [UInt64.toNat_sub, hsum, hsum', hi']
            simp only [UInt64.size] at hfits
            omega
          rw [bytes_congr hrest]
          have hsame := bytes_setBytes_same m a (LittleEndian.encode 8 (f.get bank r).toNat)
            (by rw [LittleEndian.length_encode]; decide)
          rwa [LittleEndian.length_encode] at hsame
      | succ k =>
          rw [storing, add_eight_mul]
          exact ih _ hplace (by omega)

/-- A loaded register takes the word at its place. -/
theorem RegisterFile.get_loading (f : RegisterFile) (m : Memory) {a : UInt64} {k : Nat}
    {registers : List (Bank × RegisterIndex)} {bank : Bank} {r : RegisterIndex}
    (hplace : registers[k]? = some (bank, r)) (hnodup : registers.Nodup) :
    (f.loading m a registers).get bank r = m.read (a + UInt64.ofNat (8 * k)) .quad := by
  induction registers generalizing f a k with
  | nil => cases hplace
  | cons entry rest ih =>
      obtain ⟨hfirst, hrest⟩ := List.nodup_cons.mp hnodup
      cases k with
      | zero =>
          cases hplace
          have hstart : a + UInt64.ofNat (8 * 0) = a := UInt64.add_zero a
          rw [hstart, loading, get_loading_of_not_mem _ _ hfirst, get_set, if_pos ⟨rfl, rfl⟩]
      | succ k =>
          rw [loading, Memory.add_eight_mul]
          exact ih _ hplace hrest

/-! ## The instructions go through -/

namespace Exec

variable {s : State} {m : RegisterMask} {o : Operand} {n : Nat} {a : UInt64}

/-- Take a mask and the address of an operand of the block's size, and change the state by
them. -/
def block (change : Core → UInt64 → List (Bank × RegisterIndex) → Core) : Exec Flow := do
  let mask : RegisterMask ← fetchLong
  let address ← resolveAddress mask.blockSize
  modify fun s => { s with toCore := change s.toCore address mask.registers }
  return .next

theorem savem_eq_block : savem = block Core.saveBlock := rfl

theorem loadm_eq_block : loadm = block Core.loadBlock := rfl

/-- With an address other than zero nothing stops the change. -/
theorem block_of_read (change : Core → UInt64 → List (Bank × RegisterIndex) → Core)
    (hread : FieldKind.readAll? Layout.block.fields 0 s.ahead = some ([.mask m, .operand o], n))
    (haddress : o.address? m.blockSize s.registers s.code.base (s.cursor + 4) (s.cursor + n) =
      some a) (hplace : a ≠ 0) :
    ∃ t, block change s = .ok .next t := by
  obtain ⟨others, more, hlong, hfields, rfl, hrest⟩ :=
    FieldKind.exists_long (fun _ => rfl) hread
  cases hfields
  let mask : RegisterMask := LittleEndian.word32 (s.ahead.take 4)
  let u : State := { s with cursor := s.cursor + 4 }
  have hahead : u.ahead = s.ahead.drop 4 := State.ahead_skip s 4 s.registers s.latch
  rw [← hahead] at hrest
  obtain ⟨o', others, more, hfields, rfl, hparse, hrest⟩ :=
    FieldKind.exists_operand mask.blockSize (fun _ => rfl) hrest
  cases hfields
  cases hrest
  rw [s.length_ahead] at hlong
  have hfetch : fetchLong s = .ok mask u := fetch_decoded_of_le _ s 4 (by omega)
  rw [Nat.add_zero, ← Nat.add_assoc] at haddress
  obtain ⟨mode, haddressed⟩ := resolveAddress_of_parse?_some hparse haddress hplace
  exact ⟨_, (bind_of_ok hfetch).trans (bind_of_ok haddressed)⟩

end Exec

namespace Instruction

variable {table : HostTable} {m : RegisterMask} {o : Operand} {c d : Core} {start next : Nat}
  {flow : Flow}

theorem Effect.saved
    (heffect : Effect table ⟨.savem, [.mask m, .operand o]⟩ c start next flow d) :
    ∃ k a, o.address? m.blockSize c.registers c.code.base (start + 4) next = some a ∧
      d = { c with
        registers := o.moved m.blockSize c.registers
        memory := c.memory.storing (o.moved m.blockSize c.registers) a m.registers
        cursor := k } := by
  cases heffect with
  | save hop hfields haddress =>
      cases hfields
      exact ⟨_, _, haddress, rfl⟩
  | store value htarget => cases width_of_target? htarget
  | _ => simp_all

theorem Effect.loaded
    (heffect : Effect table ⟨.loadm, [.mask m, .operand o]⟩ c start next flow d) :
    ∃ k a, o.address? m.blockSize c.registers c.code.base (start + 4) next = some a ∧
      d = { c with
        registers := (o.moved m.blockSize c.registers).loading c.memory a m.registers
        cursor := k } := by
  cases heffect with
  | load hop hfields haddress =>
      cases hfields
      exact ⟨_, _, haddress, rfl⟩
  | store value htarget => cases width_of_target? htarget
  | _ => simp_all

end Instruction

/-! ## Saving below a register and loading from it -/

namespace Stepping

theorem moved_preDecrement (size : Nat) (x : UInt64) :
    preDecrement.moved size x = x - UInt64.ofNat size := by
  rw [moved, Word.ofInt_sub, Word.ofInt_toNat, Word.ofInt_natCast]

theorem moved_postIncrement (size : Nat) (x : UInt64) :
    postIncrement.moved size x = x + UInt64.ofNat size := by
  rw [moved, UInt64.ofInt_add, Word.ofInt_toNat, Word.ofInt_natCast]

end Stepping

namespace State

/-- The addresses of the block below a register. -/
def blockBelow (s : State) (m : RegisterMask) (b : RegisterIndex) : Window :=
  ⟨s.general b - UInt64.ofNat m.blockSize, m.blockSize⟩

/-- The step from `s` to `t` saves the registers of a mask in the block below `b`, each as the
word at its place, and changes no byte outside. -/
structure Saves (host : HostTable) (m : RegisterMask) (b : RegisterIndex) (s t : State) : Prop where
  step : ∀ fuel, s.step host fuel = some t
  running : t.status = .running
  code : t.code = s.code
  registers : t.registers = s.registers.set .general b (s.blockBelow m b).start
  inside : ∀ bank r, m.Selects bank r →
    t.memory.bytes ((s.blockBelow m b).start + UInt64.ofNat (8 * m.rank bank r)) 8 =
      LittleEndian.encode 8 (s.registers.get bank r).toNat
  outside : ∀ a, ¬(s.blockBelow m b).Holds a → t.memory.byte a = s.memory.byte a

/-- The step from `u` to `v` loads the registers of a mask from the block at `b`, and moves `b`
past it. -/
structure Loads (host : HostTable) (m : RegisterMask) (b : RegisterIndex) (u v : State) : Prop where
  step : ∀ fuel, u.step host fuel = some v
  running : v.status = .running
  base : v.general b = u.general b + UInt64.ofNat m.blockSize
  selected : ∀ bank r, m.Selects bank r →
    v.registers.get bank r =
      u.memory.read (u.general b + UInt64.ofNat (8 * m.rank bank r)) .quad
  others : ∀ bank r, ¬m.Selects bank r → (bank, r) ≠ (.general, b) →
    v.registers.get bank r = u.registers.get bank r

/-- From `t` to `u` the machine has kept a register and what stands in some windows of memory. -/
structure Keeps (b : RegisterIndex) (windows : List Window) (t u : State) : Prop where
  active : u.status.isActive = true
  code : u.code = t.code
  base : u.general b = t.general b
  memory : ∀ w ∈ windows, ∀ a, w.Holds a → u.memory.byte a = t.memory.byte a

variable {s u : State} {m : RegisterMask} {b : UInt8} {n : Nat}

theorem exists_saves (host : HostTable) (hactive : s.status.isActive = true)
    (hlisted : s.instruction? =
      some (⟨.savem, [.mask m, .operand (.stepped .preDecrement b)]⟩, n))
    (hbase : ¬m.Selects .general (.ofByte b))
    (hnull : (s.blockBelow m (.ofByte b)).start ≠ 0) :
    ∃ t, s.Saves host m (.ofByte b) t ∧ t.cursor = s.cursor + n := by
  let start : UInt64 := (s.blockBelow m (.ofByte b)).start
  have hstart : Stepping.preDecrement.moved m.blockSize (s.general (.ofByte b)) = start :=
    Stepping.moved_preDecrement _ _
  have hmoved : (Operand.stepped .preDecrement b).moved m.blockSize s.registers =
      s.registers.set .general (.ofByte b) start :=
    congrArg (s.registers.set .general (.ofByte b)) hstart
  obtain ⟨t, hstep, heffect, hcursor⟩ := exists_effect host hactive hlisted fun u p hread _ hu => by
    have hregisters : u.registers = s.registers := by
      rw [hu]
      rfl
    show ∃ t, Exec.savem u = .ok .next t
    rw [Exec.savem_eq_block]
    refine Exec.block_of_read _ hread (congrArg some ?_) hnull
    rw [hregisters]
    exact hstart
  obtain ⟨k, a, haddress, ht⟩ := heffect.saved
  obtain rfl : start = a := Option.some.inj ((congrArg some hstart).symm.trans haddress)
  have hmemory : t.memory = s.memory.storing (s.registers.set .general (.ofByte b) start) start
      m.registers := by
    rw [ht, ← hmoved]
    rfl
  refine ⟨t, ⟨hstep, by rw [ht]; rfl, by rw [ht]; rfl, ?_, ?_, ?_⟩, hcursor⟩
  · rw [ht]
    exact hmoved
  · intro bank r hselects
    have hfits : 8 * m.registers.length ≤ UInt64.size := by
      rw [m.length_registers]
      exact Nat.le_trans m.blockSize_le (by decide)
    have hother : (bank, r) ≠ (.general, .ofByte b) := by
      intro hsame
      cases hsame
      exact hbase hselects
    rw [hmemory]
    refine (Memory.bytes_storing _ _ (m.registers_rank hselects) hfits).trans ?_
    rw [RegisterFile.get_set_of_ne _ _ hother]
  · intro a houtside
    rw [hmemory]
    refine Memory.byte_storing _ _ ?_
    rw [m.length_registers]
    exact Window.length_le houtside

theorem exists_loads (host : HostTable) (hactive : u.status.isActive = true)
    (hlisted : u.instruction? =
      some (⟨.loadm, [.mask m, .operand (.stepped .postIncrement b)]⟩, n))
    (hbase : ¬m.Selects .general (.ofByte b)) (hnull : u.general (.ofByte b) ≠ 0) :
    ∃ v, u.Loads host m (.ofByte b) v := by
  obtain ⟨v, hstep, heffect, -⟩ := exists_effect host hactive hlisted fun w p hread _ hw => by
    have hregisters : w.general (.ofByte b) = u.general (.ofByte b) := by
      rw [hw]
      rfl
    show ∃ t, Exec.loadm w = .ok .next t
    rw [Exec.loadm_eq_block]
    exact Exec.block_of_read _ hread (congrArg some hregisters) hnull
  obtain ⟨k, a, haddress, hv⟩ := heffect.loaded
  obtain rfl : u.general (.ofByte b) = a := Option.some.inj haddress
  have hregisters : v.registers =
      (u.registers.set .general (.ofByte b)
        (u.general (.ofByte b) + UInt64.ofNat m.blockSize)).loading
        u.memory (u.general (.ofByte b)) m.registers := by
    rw [hv, ← Stepping.moved_postIncrement]
    rfl
  have hunselected : ∀ bank r, ¬m.Selects bank r → (bank, r) ∉ m.registers :=
    fun bank r hnot hmem => hnot ((m.mem_registers_iff bank r).mp hmem)
  refine ⟨v, hstep, by rw [hv]; rfl, ?_, ?_, ?_⟩
  · rw [Core.general, hregisters,
      RegisterFile.get_loading_of_not_mem _ _ (hunselected _ _ hbase), RegisterFile.get_set,
      if_pos ⟨rfl, rfl⟩]
  · intro bank r hselects
    rw [hregisters]
    exact RegisterFile.get_loading _ _ (m.registers_rank hselects) m.nodup_registers
  · intro bank r hnot hother
    rw [hregisters, RegisterFile.get_loading_of_not_mem _ _ (hunselected _ _ hnot),
      RegisterFile.get_set_of_ne _ _ hother]

/-- A place in the block is as far from its start as there are bytes before it. -/
theorem holds_blockBelow {bank : Bank} {r : RegisterIndex} (hselects : m.Selects bank r) {k : Nat}
    (hk : k < 8) :
    (s.blockBelow m (.ofByte b)).Holds ((s.blockBelow m (.ofByte b)).start +
      UInt64.ofNat (8 * m.rank bank r) + UInt64.ofNat k) := by
  have hrank : m.rank bank r < m.registers.length :=
    (List.getElem?_eq_some_iff.mp (m.registers_rank hselects)).1
  have hsize := m.length_registers
  rw [UInt64.add_assoc, ← UInt64.ofNat_add]
  refine Window.holds_add ?_
  show _ < m.blockSize
  omega

end State

/-- Loading undoes saving, for every mask without the base register.  Between the two steps the
machine may go from `t` to any `u` that has kept the base register, the block and the bytes of the
load. -/
theorem load_undoes_save (host : HostTable) (s : State) (m : RegisterMask) (b : UInt8)
    (n k p : Nat) (hactive : s.status.isActive = true)
    (hsave : s.instruction? = some (⟨.savem, [.mask m, .operand (.stepped .preDecrement b)]⟩, n))
    (hload : State.instruction? { s with cursor := k } =
      some (⟨.loadm, [.mask m, .operand (.stepped .postIncrement b)]⟩, p))
    (hbase : ¬m.Selects .general (.ofByte b))
    (hnull : (s.blockBelow m (.ofByte b)).start ≠ 0)
    (hapart : ∀ a, (s.blockBelow m (.ofByte b)).Holds a →
      ¬(State.instructionWindow { s with cursor := k } p).Holds a) :
    ∃ t, s.Saves host m (.ofByte b) t ∧ t.cursor = s.cursor + n ∧
      ∀ u : State, State.Keeps (.ofByte b)
          [s.blockBelow m (.ofByte b), State.instructionWindow { s with cursor := k } p] t u →
        u.cursor = k →
        ∃ v, (∀ fuel, u.step host fuel = some v) ∧ v.status = .running ∧
          v.general (.ofByte b) = s.general (.ofByte b) ∧
          (∀ bank r, m.Selects bank r → v.registers.get bank r = s.registers.get bank r) ∧
          ∀ bank r, ¬m.Selects bank r → (bank, r) ≠ (.general, .ofByte b) →
            v.registers.get bank r = u.registers.get bank r := by
  obtain ⟨t, hsaves, hbehind⟩ := State.exists_saves host hactive hsave hbase hnull
  refine ⟨t, hsaves, hbehind, ?_⟩
  intro u hkeeps hcursor
  have hstart : u.general (.ofByte b) = (s.blockBelow m (.ofByte b)).start := by
    rw [hkeeps.base, Core.general, hsaves.registers, RegisterFile.get_set, if_pos ⟨rfl, rfl⟩]
  -- Neither the save nor what came after it has touched the load.
  have hlisted : u.instruction? =
      some (⟨.loadm, [.mask m, .operand (.stepped .postIncrement b)]⟩, p) := by
    refine State.instruction?_of_same hload (hkeeps.code.trans hsaves.code) hcursor fun a ha => ?_
    rw [hkeeps.memory _ (by simp) a ha]
    exact hsaves.outside a fun hinside => hapart a hinside ha
  obtain ⟨v, hloads⟩ := State.exists_loads host hkeeps.active hlisted hbase
    (by rw [hstart]; exact hnull)
  refine ⟨v, hloads.step, hloads.running, ?_, ?_, hloads.others⟩
  · rw [hloads.base, hstart]
    exact UInt64.sub_add_cancel _ _
  · intro bank r hselects
    have hbytes : u.memory.bytes (u.general (.ofByte b) + UInt64.ofNat (8 * m.rank bank r)) 8 =
        LittleEndian.encode 8 (s.registers.get bank r).toNat := by
      rw [hstart, ← hsaves.inside bank r hselects]
      refine Memory.bytes_congr fun i hi => ?_
      exact hkeeps.memory _ (by simp) _ (State.holds_blockBelow hselects hi)
    rw [hloads.selected bank r hselects, Memory.read, Width.bytes, hbytes,
      LittleEndian.word64_encode]

/-- A machine that saves and loads general registers 1 and 2 and float registers 0 and 15 below
general register 3. -/
def State.savesAndLoads : State :=
  { State.load [0x18, 0x06, 0x00, 0x01, 0x80, 0x53, 0x19, 0x06, 0x00, 0x01, 0x80, 0x23]
      ⟨AddressSpace.stackBase, 64⟩ with
    status := .initialised
    registers := (RegisterFile.zero.set .float (.ofNat 15) 0xfff0000000000001).set .general
      (.ofNat 3) 0x400000100 }

/-- A register of the mask that is overwritten between the two steps comes back, from the last
word of the block, and one that is not in the mask stays overwritten. -/
theorem savesAndLoads_undone :
    ∃ t u v : State, (∀ fuel, State.savesAndLoads.step {} fuel = some t) ∧
      t.memory.bytes 0x4000000f8 8 = [0x01, 0, 0, 0, 0, 0, 0xf0, 0xff] ∧
      u.registers.get .float (.ofNat 15) = 0 ∧ u.general (.ofNat 4) = 7 ∧
      (∀ fuel, u.step {} fuel = some v) ∧
      v.registers.get .float (.ofNat 15) = 0xfff0000000000001 ∧
      v.general (.ofNat 3) = 0x400000100 ∧ v.general (.ofNat 4) = 7 := by
  have hsave : State.savesAndLoads.instruction? =
      some (⟨.savem, [.mask 0x80010006, .operand (.stepped .preDecrement 3)]⟩, 6) := by
    decide +kernel
  have hload : State.instruction? { State.savesAndLoads with cursor := 6 } =
      some (⟨.loadm, [.mask 0x80010006, .operand (.stepped .postIncrement 3)]⟩, 6) := by
    decide +kernel
  have hapart : ∀ a, (State.savesAndLoads.blockBelow 0x80010006 (.ofByte 3)).Holds a →
      ¬(State.instructionWindow { State.savesAndLoads with cursor := 6 } 6).Holds a := by
    intro a hblock hcode
    have hblock' : (a - 0x4000000e0).toNat < 32 := hblock
    have hcode' : (a - 0x100000006).toNat < 6 := hcode
    have ha := a.toNat_lt
    rw [UInt64.toNat_sub] at hblock' hcode'
    simp only [UInt64.reduceToNat] at hblock' hcode'
    omega
  obtain ⟨t, hsaves, hbehind, hloads⟩ := load_undoes_save {} State.savesAndLoads 0x80010006 3 6 6 6
    rfl hsave hload (by decide) (by decide +kernel) hapart
  let u : State := { t with registers :=
    (t.registers.set .float (.ofNat 15) 0).set .general (.ofNat 4) 7 }
  have hkeeps : State.Keeps (.ofByte 3) [State.savesAndLoads.blockBelow 0x80010006 (.ofByte 3),
      State.instructionWindow { State.savesAndLoads with cursor := 6 } 6] t u := by
    refine ⟨?_, rfl, ?_, fun _ _ _ _ => rfl⟩
    · show t.status.isActive = true
      rw [hsaves.running]
      rfl
    · rw [Core.general, RegisterFile.get_set_of_ne _ _ (by decide),
        RegisterFile.get_set_of_ne _ _ (by decide), Core.general]
  obtain ⟨v, hstep, -, hbase, hselected, hothers⟩ := hloads u hkeeps hbehind
  have hfour : u.general (.ofNat 4) = 7 := by
    rw [Core.general, RegisterFile.get_set, if_pos ⟨rfl, rfl⟩]
  refine ⟨t, u, v, hsaves.step, ?_, ?_, hfour, hstep, ?_, hbase, ?_⟩
  · exact hsaves.inside .float (.ofNat 15) (by decide)
  · rw [RegisterFile.get_set, if_neg (by decide), RegisterFile.get_set, if_pos ⟨rfl, rfl⟩]
  · exact hselected .float (.ofNat 15) (by decide)
  · exact (hothers .general (.ofNat 4) (by decide) (by decide)).trans hfour

end BytecodeMachine
