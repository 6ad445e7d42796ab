import BytecodeMachine.Proofs.Instruction.Places
import BytecodeMachine.Proofs.Integer.Exact
import BytecodeMachine.Proofs.Memory.Window
import BytecodeMachine.Proofs.Operand.RoundTrip

/-!
# What integer instructions store

An integer instruction reads the bits of its operands once both of them have been decoded, and
stores the exact value at its destination; a division by zero stops it instead.

* `Core.bitsAt` is the operand of a width at a place, as a bit vector;
* `Opcode.Calculates` gives the exact value of each integer instruction;
* `State.step_calculates` says that a step over such an instruction stores this value;
* `integer_instructions_exact` adds what the values are where wrapping could go wrong, and
  that no operation on the way is undefined.
-/

namespace BytecodeMachine

/-! ## Operands as bit vectors -/

/-- Bytes hold the low part of a number. -/
theorem LittleEndian.encode_mod_capacity (n value : Nat) :
    encode n (value % capacity n) = encode n value := by
  have hround := encode_decode (encode n value) n (Nat.le_of_eq (length_encode n value))
  rw [decode_encode, length_encode, Nat.sub_self] at hround
  rw [hround]
  exact List.append_nil _

namespace Width

theorem capacity_bytes (w : Width) : LittleEndian.capacity w.bytes = w.modulus := by
  cases w <;> decide

theorem truncate_truncate (w : Width) (x : UInt64) : w.truncate (w.truncate x) = w.truncate x := by
  rw [← extend_pattern, pattern_truncate, extend_pattern]

theorem truncate_of_lt {w : Width} {x : UInt64} (hx : x.toNat < w.modulus) :
    w.truncate x = x := by
  apply UInt64.toNat_inj.mp
  rw [toNat_truncate, Nat.mod_eq_of_lt hx]

theorem pattern_mask (w : Width) : w.pattern w.mask = BitVec.allOnes w.bits := by
  cases w <;> decide

/-- Replacing the low bytes of a word puts the new bits there. -/
theorem pattern_splice (w : Width) (x v : UInt64) : w.pattern (w.splice x v) = w.pattern v := by
  rw [splice, pattern_or, pattern_and, pattern_and, pattern_not, pattern_mask,
    BitVec.not_allOnes, BitVec.and_zero, BitVec.and_allOnes, BitVec.zero_or]

theorem splice_truncate (w : Width) (x v : UInt64) : w.splice x (w.truncate v) = w.splice x v := by
  show _ ||| w.truncate (w.truncate v) = _ ||| w.truncate v
  rw [truncate_truncate]

end Width

namespace Memory

theorem truncate_read (m : Memory) (a : UInt64) (w : Width) :
    w.truncate (m.read a w) = m.read a w := by
  have hbytes : w.bytes ≤ 8 := by cases w <;> decide
  apply Width.truncate_of_lt
  rw [read, LittleEndian.toNat_word64 _ (by rw [length_bytes]; exact hbytes), ← w.capacity_bytes]
  have hlt := LittleEndian.decode_lt (m.bytes a w.bytes)
  rwa [length_bytes] at hlt

theorem write_truncate (m : Memory) (a : UInt64) (w : Width) (value : UInt64) :
    m.write a w (w.truncate value) = m.write a w value := by
  rw [write, write, Width.toNat_truncate, ← w.capacity_bytes, LittleEndian.encode_mod_capacity]

theorem read_write (m : Memory) (a : UInt64) (w : Width) (value : UInt64) :
    (m.write a w value).read a w = w.truncate value := by
  have hsmall : w.bytes < UInt64.size := by cases w <;> decide
  have hwindow := bytes_setBytes_same m a (LittleEndian.encode w.bytes value.toNat)
    (by rw [LittleEndian.length_encode]; exact hsmall)
  rw [LittleEndian.length_encode] at hwindow
  rw [write, read, hwindow, LittleEndian.word64, LittleEndian.decode_encode, w.capacity_bytes,
    ← Width.toNat_truncate, UInt64.ofNat_toNat]

end Memory

namespace Core

variable (c : Core) (l : Location) (w : Width)

/-- The bits of the operand of a width at a place. -/
def bitsAt : BitVec w.bits := w.pattern (c.read l w)

/-- Operands are read with zeros in front. -/
theorem read_eq_extend : c.read l w = w.extend (c.bitsAt l w) := by
  rw [bitsAt, Width.extend_pattern]
  cases l with
  | register bank r => exact (w.truncate_truncate _).symm
  | memory a => exact (c.memory.truncate_read a w).symm

/-- Only the low bits of a word are stored. -/
theorem write_eq_extend (x : UInt64) : c.write l w x = c.write l w (w.extend (w.pattern x)) := by
  rw [Width.extend_pattern]
  cases l with
  | register bank r =>
      simp only [write, RegisterFile.write]
      rw [Width.splice_truncate]
  | memory a =>
      simp only [write]
      rw [Memory.write_truncate]

/-- What was stored at a place is there. -/
theorem bitsAt_write (x : UInt64) : (c.write l w x).bitsAt l w = w.pattern x := by
  unfold bitsAt
  cases l with
  | register bank r =>
      simp only [read, write, RegisterFile.read, RegisterFile.write, RegisterFile.get_set,
        and_self, if_true]
      rw [Width.pattern_truncate, Width.pattern_splice]
  | memory a =>
      simp only [read, write]
      rw [Memory.read_write, Width.pattern_truncate]

end Core

/-! ## The values of integer instructions -/

namespace Opcode

/-- The instruction stores a value of the width `d`, and which one it is for the bits of its
destination and those of its source of the width `w`; nothing for a division by zero.  Shift
counts are bytes and are taken modulo the number of bits. -/
inductive Calculates : Opcode → (d w : Width) →
    (BitVec d.bits → BitVec w.bits → Option (BitVec d.bits)) → Prop
  | binary (op : Integer.Binary) (w : Width) :
      Calculates (.integerBinary op w) w w fun a b => op.result? a b
  | unary (op : Integer.Unary) (w : Width) :
      Calculates (.integerUnary op w) w w fun _ b => some (op.result b)
  | shift (op : Integer.Shift) (w : Width) :
      Calculates (.shift op w) w .byte fun a b => some (op.result a (b.toNat % w.bits))
  | ext (e : Extension) :
      Calculates (.ext e) e.target e.source fun _ b => some (b.signExtend e.target.bits)

/-- The instruction divides. -/
def Divides : Opcode → Prop
  | .integerBinary op _ => op.Divides
  | _ => False

variable {op : Opcode} {d w : Width}
  {result : BitVec d.bits → BitVec w.bits → Option (BitVec d.bits)}

theorem Calculates.eq_none_iff (hop : op.Calculates d w result) (a : BitVec d.bits)
    (b : BitVec w.bits) : result a b = none ↔ op.Divides ∧ b = 0#w.bits := by
  cases hop with
  | binary op => exact op.result?_eq_none_iff a b
  | unary op => simp [Divides]
  | shift op => simp [Divides]
  | ext e => simp [Divides]

/-- Every integer instruction computes a word whose low bits are the exact value. -/
theorem Calculates.exists_value (hop : op.Calculates d w result) (table : HostTable) :
    ∃ value, Exec.perform table op = Exec.compute d w value ∧
      op.layout = .binary d.bytes w.bytes ∧
      ∀ a b, (value (d.extend a) (w.extend b)).map d.pattern = result a b := by
  cases hop with
  | binary op =>
      refine ⟨op.eval? d, rfl, rfl, ?_⟩
      intro a b
      exact op.pattern_eval? d a b
  | unary op =>
      refine ⟨fun _ x => some (op.eval x), rfl, rfl, ?_⟩
      intro a b
      exact congrArg some (op.pattern_eval d b)
  | shift op =>
      refine ⟨fun a n => some (op.eval d a n), rfl, rfl, ?_⟩
      intro a b
      have hvalue := op.pattern_eval d a (Width.byte.extend b)
      rw [Width.toNat_extend] at hvalue
      exact congrArg some hvalue
  | ext e =>
      refine ⟨fun _ x => some (e.source.signExtend x).toUInt64, rfl, rfl, ?_⟩
      intro a b
      exact congrArg some (Integer.pattern_signExtend e.target e.source b)

end Opcode

/-! ## A step over an integer instruction -/

/-- How an instruction that computes a value ends, once its operands are found: it stores the
value, or there is none and it stops. -/
def Exec.computed (value : UInt64 → UInt64 → Option UInt64) (d w : Width)
    (target source : Location) (t : State) : EStateM.Result Fault State Flow :=
  match value (t.read target d) (t.read source w) with
  | none => .error .zeroDivide t
  | some x => .ok .next (t.write target d x)

namespace State

variable {host : HostTable} {s : State} {i : Instruction} {n : Nat} {d w : Width}
  {result : BitVec d.bits → BitVec w.bits → Option (BitVec d.bits)} {target source : Location}

/-- What programs can observe once the operands of the instruction at the cursor are decoded,
where the instruction has `n` bytes. -/
def decoded (s : State) (i : Instruction) (n : Nat) : Core :=
  { i.resolved s.started with cursor := s.cursor + n }

/-- An instruction with a value to compute reads its operands once both of them are decoded. -/
theorem handled_compute {value : UInt64 → UInt64 → Option UInt64}
    (hlisted : s.instruction? = some (i, n))
    (hop : Exec.perform host i.opcode = Exec.compute d w value)
    (hlayout : i.opcode.layout = .binary d.bytes w.bytes)
    (hplaces : i.places s.registers s.code.base (s.cursor + 1) = .ok [target, source]) :
    ∃ t : State, t.toCore = s.decoded i n ∧
      s.handled host = Exec.computed value d w target source t := by
  obtain ⟨byte, rest, m, hahead, hbyte, hfields, rfl⟩ := exists_of_instruction? hlisted
  rw [← readAll?_behindOpcode hahead] at hfields
  have hlocated : Exec.Located
      (fun places answer => ∃ t target source, places = [target, source] ∧
        t.toCore = s.decoded i (1 + m) ∧ answer = Exec.computed value d w target source t)
      (i.places s.registers s.code.base (s.cursor + 1))
      (Exec.perform host i.opcode (s.behindOpcode byte)) := by
    apply Exec.binary_atPlaces hop hlayout hfields
    intro t target source hdecoded
    refine ⟨t, target, source, rfl, ?_, ?_⟩
    · rw [decoded, ← Nat.add_assoc]
      exact hdecoded
    · simp only [Exec.bind_get, Exec.computed]
      cases value (t.read target d) (t.read source w) <;> rfl
  rw [hplaces] at hlocated
  obtain ⟨t, target', source', hsame, hcore, hanswer⟩ := hlocated
  cases hsame
  refine ⟨t, hcore, ?_⟩
  rw [handled_of_cons host hahead, hbyte]
  exact hanswer

/-- A step over an integer instruction whose operands have places stores the exact value of the
bits that it finds there, or raises a division by zero where there is none. -/
theorem step_calculates (host : HostTable) (hactive : s.status.isActive = true)
    (hlisted : s.instruction? = some (i, n)) (hop : i.opcode.Calculates d w result)
    (hplaces : i.places s.registers s.code.base (s.cursor + 1) = .ok [target, source]) :
    match result ((s.decoded i n).bitsAt target d) ((s.decoded i n).bitsAt source w) with
    | none => s.Raises host .zeroDivide
    | some x => ∃ t : State, (∀ fuel, s.step host fuel = some t) ∧
        t.toCore = (s.decoded i n).write target d (d.extend x) ∧ t.bitsAt target d = x := by
  obtain ⟨value, hperform, hlayout, hvalue⟩ := hop.exists_value host
  obtain ⟨t, hcore, hhandled⟩ := handled_compute hlisted hperform hlayout hplaces
  have hresult := hvalue (t.bitsAt target d) (t.bitsAt source w)
  rw [← Core.read_eq_extend, ← Core.read_eq_extend] at hresult
  rw [← hcore, ← hresult]
  unfold Exec.computed at hhandled
  cases hstored : value (t.read target d) (t.read source w) with
  | none =>
      rw [hstored] at hhandled
      exact raises_of_handled hactive hhandled
  | some x =>
      rw [hstored] at hhandled
      refine ⟨t.write target d x, ?_, ?_, ?_⟩
      · intro fuel
        exact step_of_handled hactive hhandled fuel
      · exact t.toCore.write_eq_extend target d x
      · exact t.toCore.bitsAt_write target d x

/-- A division by zero, and nothing else, stops an integer instruction whose operands have
places. -/
theorem raises_zeroDivide_iff (host : HostTable) (hactive : s.status.isActive = true)
    (hlisted : s.instruction? = some (i, n)) (hop : i.opcode.Calculates d w result)
    (hplaces : i.places s.registers s.code.base (s.cursor + 1) = .ok [target, source]) :
    s.Raises host .zeroDivide ↔
      i.opcode.Divides ∧ (s.decoded i n).bitsAt source w = 0#w.bits := by
  have hstep := step_calculates host hactive hlisted hop hplaces
  rw [← hop.eq_none_iff ((s.decoded i n).bitsAt target d)]
  cases hvalue : result ((s.decoded i n).bitsAt target d) ((s.decoded i n).bitsAt source w) with
  | none =>
      rw [hvalue] at hstep
      exact ⟨fun _ => rfl, fun _ => hstep⟩
  | some x =>
      rw [hvalue] at hstep
      obtain ⟨t, hsteps, hcore, -⟩ := hstep
      refine ⟨?_, fun h => nomatch h⟩
      -- A step that stores leaves the status at running, and a raised fault does not.
      rintro ⟨u, -, hraise⟩
      have hsame : t = u.raise .zeroDivide := Option.some.inj ((hsteps 0).symm.trans (hraise 0))
      have hrunning : t.status = .running := by
        rw [hcore]
        cases target <;> rfl
      rw [hsame] at hrunning
      cases hrunning

end State

/-! ## The integer instructions -/

open Integer in
/-- The integer instructions compute at their own width.  A step over one of them stores the
exact value of the bits of its operands, read once both are decoded, and stops at a division by
zero and nowhere else.  Products do not depend on the signs, the one quotient that does not fit
wraps, and on the way no shift count reaches 64 and no divisor is zero. -/
theorem integer_instructions_exact :
    (∀ (host : HostTable) (s : State) (i : Instruction) (n : Nat) (d w : Width)
        (result : BitVec d.bits → BitVec w.bits → Option (BitVec d.bits))
        (target source : Location),
      s.status.isActive = true → s.instruction? = some (i, n) →
      i.opcode.Calculates d w result →
      i.places s.registers s.code.base (s.cursor + 1) = .ok [target, source] →
      (match result ((s.decoded i n).bitsAt target d) ((s.decoded i n).bitsAt source w) with
        | none => s.Raises host .zeroDivide
        | some x => ∃ t : State, (∀ fuel, s.step host fuel = some t) ∧
            t.toCore = (s.decoded i n).write target d (d.extend x) ∧ t.bitsAt target d = x) ∧
      (s.Raises host .zeroDivide ↔
        i.opcode.Divides ∧ (s.decoded i n).bitsAt source w = 0#w.bits)) ∧
    (∀ (w : Width) (a b : BitVec w.bits), Binary.muls.result? a b = Binary.mulu.result? a b) ∧
    (∀ w : Width,
      Binary.divs.result? (BitVec.intMin w.bits) (BitVec.ofInt w.bits (-1)) =
          some (BitVec.intMin w.bits) ∧
        Binary.mods.result? (BitVec.intMin w.bits) (BitVec.ofInt w.bits (-1)) =
          some 0#w.bits) ∧
    (∀ (op : Binary) (w : Width) (a b : UInt64),
      op.checked? w a b = some (op.eval? w a b)) ∧
    (∀ (op : Shift) (w : Width) (a count : UInt64),
      op.checked? w a count = some (op.eval w a count)) := by
  refine ⟨?_, ?_, Binary.result?_intMin_neg_one, Binary.checked?_eq, Shift.checked?_eq⟩
  · intro host s i n d w result target source hactive hlisted hop hplaces
    constructor
    · exact State.step_calculates host hactive hlisted hop hplaces
    · exact State.raises_zeroDivide_iff host hactive hlisted hop hplaces
  · intro w a b
    exact Binary.result?_muls_eq_mulu a b

/-- A machine that divides the lowest byte of register 0 by that of register 1, both signed. -/
def State.dividesBytes (dividend divisor : UInt64) : State :=
  { State.load [(Opcode.integerBinary .divs .byte).byte, 0x00, 0x01]
      ⟨AddressSpace.stackBase, 64⟩ with
    registers := (RegisterFile.zero.set .general (.ofNat 0) dividend).set .general (.ofNat 1)
      divisor
    status := .initialised }

/-- The least byte divided by minus one is the least byte, and the other bytes of the register
stay; dividing by a register whose lowest byte is zero raises a fault. -/
theorem dividesBytes_exact :
    (∃ t : State, (∀ fuel, (State.dividesBytes 0x1280 0x34ff).step {} fuel = some t) ∧
      t.registers.get .general (.ofNat 0) = 0x1280) ∧
    (State.dividesBytes 0x1280 0x3400).Raises {} .zeroDivide := by
  have hlisted : ∀ s ∈ [State.dividesBytes 0x1280 0x34ff, State.dividesBytes 0x1280 0x3400],
      s.instruction? = some (⟨.integerBinary .divs .byte,
        [.operand (.register .general 0), .operand (.register .general 1)]⟩, 3) := by
    decide +kernel
  obtain ⟨hstep, -⟩ := integer_instructions_exact
  constructor
  · have hstored := (hstep {} (State.dividesBytes 0x1280 0x34ff) _ 3 _ _ _
      (.register .general (.ofNat 0)) (.register .general (.ofNat 1)) rfl (hlisted _ (by simp))
      (.binary .divs .byte) rfl).1
    split at hstored
    · next hnone => exact absurd hnone (by decide +kernel)
    · next x hsome =>
        obtain ⟨t, hsteps, hcore, -⟩ := hstored
        have hx : x = 0x80#8 := Option.some.inj (hsome.symm.trans (by decide +kernel))
        refine ⟨t, hsteps, ?_⟩
        rw [hcore, hx]
        decide +kernel
  · exact (hstep {} (State.dividesBytes 0x1280 0x3400) _ 3 _ _ _
      (.register .general (.ofNat 0)) (.register .general (.ofNat 1)) rfl (hlisted _ (by simp))
      (.binary .divs .byte) rfl).2.mpr ⟨.inl rfl, by decide +kernel⟩

end BytecodeMachine
