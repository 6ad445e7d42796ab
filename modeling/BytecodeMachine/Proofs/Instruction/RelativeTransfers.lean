import BytecodeMachine.Proofs.Instruction.Branches

/-!
# Transfers of control relative to the instruction

Seven instructions can send control to a place that is given by its distance from their own end.
They find it in three ways: branches add the displacement to the cursor and compare the sum with
the bounds of the code, the relative call adds it to an address and looks the sum up in the code,
and the jump and the call of an address take the sum from an operand, where address zero would
not do.

The main statement is that the three ways come to the same for every code at the base address of
code: the same offset if it lies in the code, and otherwise a fault for the same address.
-/

namespace BytecodeMachine

/-- An instruction sends control to the place at a distance of `d` from its own end, where its
fields begin at the code offset `start` and `c` is the state before they are resolved.  A call
needs room for the return address. -/
inductive Instruction.GoesBy (c : Core) (start : Nat) (d : Int32) : Instruction → Prop
  | branch {i : Instruction} (htaken : i.Taken c start)
      (hlast : i.fields.getLast? = some (.branch d)) : GoesBy c start d i
  | jump : GoesBy c start d ⟨.jmp, [.operand (.codeRelative d)]⟩
  | call (hroom : c.CanPush) : GoesBy c start d ⟨.jsr, [.operand (.codeRelative d)]⟩

/-! ## Addresses of the code -/

namespace Core

variable {c : Core}

/-- The offsets below the length of the code are the ones that are found again from their
address. -/
theorem codeOffset?_codeAddress_iff (hfits : c.code.base.toNat + c.code.length ≤ UInt64.size)
    (k : Nat) : c.codeOffset? (c.codeAddress k) = some k ↔ k < c.code.length := by
  constructor
  · intro hoffset
    exact (Exec.codeAddress_of_codeOffset? hoffset).1
  · intro hk
    have haddress : ((c.codeAddress k).toNat : Int) = c.code.base.toNat + k := by
      rw [codeAddress, Region.address, Memory.toNat_add_ofNat (by omega)]
      omega
    rw [codeOffset?_of_toNat haddress, if_pos (by omega), Int.toNat_natCast]

/-- An address has no offset exactly if it is the address of none in the code. -/
theorem codeOffset?_eq_none_iff (hfits : c.code.base.toNat + c.code.length ≤ UInt64.size)
    (a : UInt64) : c.codeOffset? a = none ↔ ∀ k, k < c.code.length → c.codeAddress k ≠ a := by
  constructor
  · rintro hnone k hk rfl
    rw [(codeOffset?_codeAddress_iff hfits k).mpr hk] at hnone
    cases hnone
  · intro hother
    cases hoffset : c.codeOffset? a with
    | none => rfl
    | some k =>
        obtain ⟨hk, haddress⟩ := Exec.codeAddress_of_codeOffset? hoffset
        exact absurd haddress (hother k hk)

end Core

/-! ## Steps -/

namespace State

variable {host : HostTable} {s : State} {i : Instruction} {n : Nat} {d : Int32} {target : Int}

/-- A jump to an address goes there. -/
theorem headsFor_of_jump (hactive : s.status.isActive = true)
    (hlisted : s.instruction? = some (i, n)) (hop : i.opcode = .jmp)
    (htransfer : i.transfer? s.toCore (s.cursor + 1) (s.cursor + n) =
      some (UInt64.ofInt (s.code.base.toNat + target)))
    (hstart : 0 < s.code.base.toNat + target)
    (hstop : s.code.base.toNat + target < UInt64.size) : s.HeadsFor host target := by
  obtain ⟨u, hu, hhandled⟩ := handled_jump host hlisted hop htransfer
    (Word.ofInt_ne_zero hstart hstop)
  have hoffset := Core.codeOffset?_of_toNat (c := s.toCore) (Word.toNat_ofInt (by omega) hstop)
  have hsame : u.codeOffset? = s.codeOffset? := by
    rw [hu]
    rfl
  have hstatus : u.status = .running := by
    rw [hu]
    rfl
  refine headsFor_of_handled hactive ?_ ?_
  · intro hinside
    rw [if_pos hinside, ← hsame] at hoffset
    have hjump : Exec.jump _ u = .ok () { u with cursor := target.toNat } :=
      Exec.bind_of_ok (Exec.targetOf_of_codeOffset? hoffset)
    exact ⟨_, hhandled.trans (Exec.bind_of_ok hjump), rfl, hstatus⟩
  · intro houtside
    rw [if_neg houtside, ← hsame] at hoffset
    have hjump : Exec.jump _ u = .error (.cursorOutOfRange _) u :=
      Exec.bind_of_error (Exec.targetOf_of_outside hoffset)
    exact ⟨u, hhandled.trans (Exec.bind_of_error hjump)⟩

/-- Control goes to the end of the instruction plus the displacement, where that has an address
other than zero. -/
theorem headsFor_of_goesBy (host : HostTable) (hactive : s.status.isActive = true)
    (hlisted : s.instruction? = some (i, n)) (hgoes : i.GoesBy s.toCore (s.cursor + 1) d)
    (hstart : 0 < s.code.base.toNat + ((s.cursor + n : Nat) + d.toInt))
    (hstop : s.code.base.toNat + ((s.cursor + n : Nat) + d.toInt) < UInt64.size) :
    s.HeadsFor host ((s.cursor + n : Nat) + d.toInt) := by
  cases hgoes with
  | branch htaken hlast =>
      exact headsFor_of_taken host hactive hlisted htaken hlast hstart hstop
  | jump =>
      refine headsFor_of_jump hactive hlisted rfl ?_ hstart hstop
      rw [← Int.add_assoc]
      rfl
  | call hroom =>
      refine headsFor_of_call hactive hlisted (Or.inr rfl) ?_ hroom hstart hstop
      rw [← Int.add_assoc]
      rfl

end State

/-- All transfers relative to the instruction agree on their target.  Behind a code of any length
that memory can hold, a displacement leads neither to address zero nor around the address space,
so the target has the address that all of them compute. -/
theorem relative_transfers_agree (host : HostTable) (s : State) (i : Instruction) (n : Nat)
    (d : Int32) (hactive : s.status.isActive = true)
    (hbase : s.code.base = AddressSpace.codeBase) (hlength : s.code.length < 0x8000000000000000)
    (hlisted : s.instruction? = some (i, n)) (hgoes : i.GoesBy s.toCore (s.cursor + 1) d) :
    s.HeadsFor host ((s.cursor + n : Nat) + d.toInt) ∧
    (∀ k, s.codeOffset? (s.codeAddress k) = some k ↔ k < s.code.length) ∧
    ∀ a, s.codeOffset? a = none ↔ ∀ k, k < s.code.length → s.codeAddress k ≠ a := by
  have hcode : s.code.base.toNat = 0x100000000 := by
    rw [hbase]
    rfl
  have hsize : UInt64.size = 0x10000000000000000 := rfl
  have hfits : s.code.base.toNat + s.code.length ≤ UInt64.size := by omega
  -- The code begins higher up than a displacement can reach back.
  have hend := State.instruction?_le hlisted
  have hback := d.le_toInt
  have hforth := d.toInt_lt
  refine ⟨?_, Core.codeOffset?_codeAddress_iff hfits, Core.codeOffset?_eq_none_iff hfits⟩
  exact State.headsFor_of_goesBy host hactive hlisted hgoes (by omega) (by omega)

/-- A machine whose code is one call, of the address before its own first byte. -/
def State.callsBefore : State :=
  { State.load [5, 0xb0, 0xf9, 0xff, 0xff, 0xff] ⟨AddressSpace.stackBase, 64⟩ with
    status := .initialised }

/-- The call ends at offset six and is displaced by minus seven. -/
theorem callsBefore_transfers_agree :
    State.callsBefore.instruction? = some (⟨.jsr, [.operand (.codeRelative (-7))]⟩, 6) ∧
    State.callsBefore.Raises {} (.cursorOutOfRange 0xffffffff) ∧
    State.callsBefore.codeOffset? 0x100000005 = some 5 ∧
    State.callsBefore.codeOffset? 0x100000006 = none := by
  have hlisted : State.callsBefore.instruction? =
      some (⟨.jsr, [.operand (.codeRelative (-7))]⟩, 6) := by decide +kernel
  have hroom : State.callsBefore.CanPush := ⟨by decide +kernel, by decide +kernel⟩
  obtain ⟨hheads, hfound, hnone⟩ := relative_transfers_agree {} State.callsBefore _ 6 (-7) rfl rfl
    (by decide) hlisted (.call hroom)
  exact ⟨hlisted, hheads, (hfound 5).mpr (by decide), (hnone _).mpr (by decide +kernel)⟩

end BytecodeMachine
