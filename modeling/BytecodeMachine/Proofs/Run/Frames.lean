import BytecodeMachine.Proofs.Instruction.Locality
import BytecodeMachine.Proofs.Run.ShadowStack

/-!
# Stack frames

A frame is opened by pushing a frame register, pointing it at the stack and moving the stack
pointer down; it is closed by the opposite moves, which take everything from the frame register.
Between two such steps the machine goes through an interlude, in which it may change the bytes of
the stack below the stack pointer and all registers but some that it keeps.

The main statement is that frames nest: frames that are opened in order and closed in reverse order
leave the stack pointer, the frame registers and the bytes above the stack pointer as they were.
The reason is that a nest of frames, seen from outside, is an interlude itself
(`State.goesThrough_nest`), so the induction needs no record of what the stack holds.
-/

namespace BytecodeMachine

/-! ## Opening and closing a frame -/

namespace Exec

variable {s : State} {byte : UInt8} {d : Int32} {n : Nat}

theorem link_of_read
    (hread : FieldKind.readAll? Layout.frame.fields 0 s.ahead =
      some ([.frameRegister byte, .displacement d], n)) (hroom : s.CanPush) :
    ∃ t, link s = .ok .next t := by
  obtain ⟨byte', rest, others, more, hahead, -, -, hrest⟩ :=
    FieldKind.exists_byte (fun _ => rfl) hread
  obtain ⟨-, -, hlong, -, -, -⟩ := FieldKind.exists_long (fun _ => rfl) hrest
  let t : State := { s with cursor := s.cursor + 1 }
  let u : State := { s with cursor := s.cursor + 1 + 4 }
  have hlength := s.length_ahead
  rw [hahead, List.length_cons] at hlength
  have hbyte : fetchByte s = .ok byte' t := fetchByte_of_cons s hahead
  have hdisplacement := fetchDisplacement_of_le t (show s.cursor + 1 + 4 ≤ s.code.length by omega)
  have hpush := push_of_canPush (s := u) (u.general (.ofByte (byte' &&& 0xf))) hroom
  exact ⟨_, (bind_of_ok hbyte).trans ((bind_of_ok hdisplacement).trans (bind_of_ok hpush))⟩

theorem unlk_of_read
    (hread : FieldKind.readAll? Layout.frameRegister.fields 0 s.ahead =
      some ([.frameRegister byte], n)) (hframe : s.general (.ofByte (byte &&& 0xf)) ≠ 0) :
    ∃ t, unlk s = .ok .next t := by
  obtain ⟨byte', rest, others, more, hahead, hfields, -, -⟩ :=
    FieldKind.exists_byte (fun _ => rfl) hread
  cases hfields
  let r : RegisterIndex := .ofByte (byte &&& 0xf)
  let t : State := { s with cursor := s.cursor + 1 }
  have hbyte : fetchByte s = .ok byte t := fetchByte_of_cons s hahead
  have hsp : (t.setGeneral .stackPointer (s.general r)).registers.sp = s.general r :=
    RegisterFile.sp_setSp _ _
  have hpop := pop_of_ne_zero (s := t.setGeneral .stackPointer (s.general r))
    (by rw [hsp]; exact hframe)
  exact ⟨_, (bind_of_ok hbyte).trans (bind_of_ok hpop)⟩

end Exec

namespace Instruction

variable {table : HostTable} {byte : UInt8} {d : Int32} {c e : Core} {start next : Nat}
  {flow : Flow}

theorem Effect.linked
    (heffect : Effect table ⟨.link, [.frameRegister byte, .displacement d]⟩ c start next flow e) :
    ∃ k, e = { (((c.pushed (c.general (.ofByte (byte &&& 0xf)))).setGeneral
      (.ofByte (byte &&& 0xf)) (c.registers.sp - 8)).setGeneral .stackPointer
      (c.registers.sp - 8 + LittleEndian.extend d)) with cursor := k } := by
  cases heffect with
  | link hop hfields hroom =>
      cases hfields
      exact ⟨_, rfl⟩
  | store value htarget => cases width_of_target? htarget
  | _ => simp_all

theorem Effect.unlinked
    (heffect : Effect table ⟨.unlk, [.frameRegister byte]⟩ c start next flow e) :
    ∃ k, e = { ((c.setGeneral .stackPointer (c.general (.ofByte (byte &&& 0xf)) + 8)).setGeneral
      (.ofByte (byte &&& 0xf))
      (c.memory.read (c.general (.ofByte (byte &&& 0xf))) .quad)) with cursor := k } := by
  cases heffect with
  | unlink hop hfields =>
      cases hfields
      exact ⟨_, rfl⟩
  | store value htarget => cases width_of_target? htarget
  | _ => simp_all

end Instruction

namespace State

/-- The step from `s` to `t` opens a frame at the register `r`. -/
structure Opens (host : HostTable) (r : RegisterIndex) (d : Int32) (s t : State) : Prop where
  step : ∀ fuel, s.step host fuel = some t
  running : t.status = .running
  code : t.code = s.code
  stack : t.stack = s.stack
  pointer : t.registers.sp = s.registers.sp - 8 + LittleEndian.extend d
  frame : t.general r = s.registers.sp - 8
  others : ∀ r', r' ≠ r → r' ≠ .stackPointer → t.general r' = s.general r'
  memory : t.memory = s.memory.write (s.registers.sp - 8) .quad (s.general r)

/-- The step from `s` to `t` closes the frame at the register `r`. -/
structure Closes (host : HostTable) (r : RegisterIndex) (s t : State) : Prop where
  step : ∀ fuel, s.step host fuel = some t
  running : t.status = .running
  code : t.code = s.code
  stack : t.stack = s.stack
  pointer : t.registers.sp = s.general r + 8
  frame : t.general r = s.memory.read (s.general r) .quad
  others : ∀ r', r' ≠ r → r' ≠ .stackPointer → t.general r' = s.general r'
  memory : t.memory = s.memory

variable {s : State} {byte : UInt8} {d : Int32} {n : Nat}

theorem exists_opens (host : HostTable) (hactive : s.status.isActive = true)
    (hlisted : s.instruction? = some (⟨.link, [.frameRegister byte, .displacement d]⟩, n))
    (hproper : RegisterIndex.ofByte (byte &&& 0xf) ≠ .stackPointer) (hroom : s.CanPush) :
    ∃ t, s.Opens host (.ofByte (byte &&& 0xf)) d t := by
  obtain ⟨t, hstep, heffect, -⟩ := exists_effect host hactive hlisted fun u m hread _ hu => by
    refine Exec.link_of_read hread ?_
    rw [hu]
    exact hroom
  obtain ⟨k, ht⟩ := heffect.linked
  have hregisters : t.registers =
      ((s.registers.setSp (s.registers.sp - 8)).set .general (.ofByte (byte &&& 0xf))
        (s.registers.sp - 8)).setSp (s.registers.sp - 8 + LittleEndian.extend d) := by
    rw [ht]
    rfl
  refine ⟨t, hstep, by rw [ht]; rfl, by rw [ht]; rfl, by rw [ht]; rfl, ?_, ?_, ?_, by rw [ht]; rfl⟩
  · rw [hregisters, RegisterFile.sp_setSp]
  · rw [Core.general, hregisters, RegisterFile.setSp, RegisterFile.get_set_of_ne _ _ (by simpa),
      RegisterFile.get_set, if_pos ⟨rfl, rfl⟩]
  · intro r' hother hpointer
    rw [Core.general, hregisters, RegisterFile.setSp, RegisterFile.get_set_of_ne _ _ (by simpa),
      RegisterFile.get_set_of_ne _ _ (by simpa), RegisterFile.setSp,
      RegisterFile.get_set_of_ne _ _ (by simpa), Core.general]

theorem exists_closes (host : HostTable) (hactive : s.status.isActive = true)
    (hlisted : s.instruction? = some (⟨.unlk, [.frameRegister byte]⟩, n))
    (hproper : RegisterIndex.ofByte (byte &&& 0xf) ≠ .stackPointer)
    (hframe : s.general (.ofByte (byte &&& 0xf)) ≠ 0) :
    ∃ t, s.Closes host (.ofByte (byte &&& 0xf)) t := by
  obtain ⟨t, hstep, heffect, -⟩ := exists_effect host hactive hlisted fun u m hread _ hu => by
    refine Exec.unlk_of_read hread ?_
    rw [hu]
    exact hframe
  obtain ⟨k, ht⟩ := heffect.unlinked
  have hregisters : t.registers =
      (s.registers.setSp (s.general (.ofByte (byte &&& 0xf)) + 8)).set .general
        (.ofByte (byte &&& 0xf))
        (s.memory.read (s.general (.ofByte (byte &&& 0xf))) .quad) := by
    rw [ht]
    rfl
  refine ⟨t, hstep, by rw [ht]; rfl, by rw [ht]; rfl, by rw [ht]; rfl, ?_, ?_, ?_, by rw [ht]; rfl⟩
  · rw [RegisterFile.sp, hregisters, RegisterFile.get_set_of_ne _ _ (by simpa using hproper.symm)]
    exact RegisterFile.sp_setSp _ _
  · rw [Core.general, hregisters, RegisterFile.get_set, if_pos ⟨rfl, rfl⟩]
  · intro r' hother hpointer
    rw [Core.general, hregisters, RegisterFile.get_set_of_ne _ _ (by simpa), RegisterFile.setSp,
      RegisterFile.get_set_of_ne _ _ (by simpa), Core.general]

end State

/-! ## Interludes -/

namespace State

/-- A byte of the stack below the stack pointer. -/
def Spare (s : State) (a : UInt64) : Prop :=
  s.stack.base.toNat ≤ a.toNat ∧ a.toNat < s.registers.sp.toNat

/-- From `s` to `t` the machine has changed at most the bytes of the stack below the stack
pointer and registers other than the stack pointer and those to be kept. -/
structure Interlude (kept : List RegisterIndex) (s t : State) : Prop where
  active : t.status.isActive = true
  code : t.code = s.code
  stack : t.stack = s.stack
  pointer : t.registers.sp = s.registers.sp
  registers : ∀ r ∈ kept, t.general r = s.general r
  memory : ∀ a, ¬s.Spare a → t.memory.byte a = s.memory.byte a

namespace Interlude

variable {kept : List RegisterIndex} {s t u : State}

theorem refl (hactive : s.status.isActive = true) : Interlude kept s s :=
  ⟨hactive, rfl, rfl, rfl, fun _ _ => rfl, fun _ _ => rfl⟩

theorem spare_iff (h : Interlude kept s t) (a : UInt64) : t.Spare a ↔ s.Spare a := by
  unfold Spare
  rw [h.stack, h.pointer]

theorem trans (h : Interlude kept s t) (h' : Interlude kept t u) : Interlude kept s u where
  active := h'.active
  code := h'.code.trans h.code
  stack := h'.stack.trans h.stack
  pointer := h'.pointer.trans h.pointer
  registers r hr := (h'.registers r hr).trans (h.registers r hr)
  memory a ha := (h'.memory a (mt (h.spare_iff a).mp ha)).trans (h.memory a ha)

/-- The bytes from the stack pointer on are left alone. -/
theorem agreeOn (h : Interlude kept s t) (stop : Nat) :
    t.memory.AgreeOn s.memory s.registers.sp.toNat stop := by
  intro a hstart _
  refine h.memory a fun hspare => ?_
  have hbelow := hspare.2
  omega

end Interlude

/-- From `s`, after any interlude and with any more in between, the instructions at the given code
offsets are executed one after the other; each of them goes through, and `post` holds at the
end. -/
def GoesThrough (host : HostTable) (kept : List RegisterIndex) :
    List Nat → State → (State → Prop) → Prop
  | [], s, post => post s
  | k :: rest, s, post =>
      ∀ t, Interlude kept s t → t.cursor = k →
        ∃ u, (∀ fuel, t.step host fuel = some u) ∧ u.status = .running ∧
          GoesThrough host kept rest u post

/-- The code of `s` stands unchanged in `t`. -/
structure SameCode (s t : State) : Prop where
  region : t.code = s.code
  bytes : ∀ k, k < s.code.length →
    t.memory.byte (s.codeAddress k) = s.memory.byte (s.codeAddress k)

variable {s t u : State}

theorem SameCode.trans (h : s.SameCode t) (h' : t.SameCode u) : s.SameCode u := by
  refine ⟨h'.region.trans h.region, fun k hk => ?_⟩
  have haddress : t.codeAddress k = s.codeAddress k := by
    rw [Core.codeAddress, h.region]
    rfl
  have hbytes := h'.bytes k (by rw [h.region]; exact hk)
  rw [haddress] at hbytes
  exact hbytes.trans (h.bytes k hk)

/-- An instruction is listed in every machine with the same code. -/
theorem SameCode.instruction? (h : s.SameCode t) {i : Instruction} {k n : Nat}
    (hlisted : State.instruction? { s with cursor := k } = some (i, n)) :
    State.instruction? { t with cursor := k } = some (i, n) := by
  have hle := instruction?_le hlisted
  refine instruction?_of_same hlisted h.region rfl fun a ha => ?_
  -- An address of the instruction is the address of one of its offsets.
  let j : Nat := (a - s.codeAddress k).toNat
  have hj : j < n := ha
  have hplace : s.codeAddress (k + j) = a := by
    rw [Core.codeAddress, Region.address, UInt64.ofNat_add, ← UInt64.add_assoc]
    show s.codeAddress k + UInt64.ofNat (a - s.codeAddress k).toNat = a
    rw [UInt64.ofNat_toNat, UInt64.add_comm, UInt64.sub_add_cancel]
  have hlength : k + j < s.code.length := by
    have hend : k + n ≤ s.code.length := hle
    omega
  rw [← hplace]
  exact h.bytes (k + j) hlength

end State

/-! ## Frames on a stack -/

/-- A frame of a program: its register, by how much it moves the stack pointer, and the code
offsets of the instructions that open and close it. -/
structure Frame where
  register : RegisterIndex
  displacement : Int32
  opens : Nat
  closes : Nat
  deriving DecidableEq, Repr

namespace Frame

/-- The two instructions of the frame stand in the code of the machine.  The register is not the
stack pointer, and room is made downward. -/
structure Stands (f : Frame) (s : State) : Prop where
  proper : f.register ≠ .stackPointer
  downward : f.displacement.toInt ≤ 0
  opening : ∃ byte n, RegisterIndex.ofByte (byte &&& 0xf) = f.register ∧
    State.instruction? { s with cursor := f.opens } =
      some (⟨.link, [.frameRegister byte, .displacement f.displacement]⟩, n)
  closing : ∃ byte n, RegisterIndex.ofByte (byte &&& 0xf) = f.register ∧
    State.instruction? { s with cursor := f.closes } =
      some (⟨.unlk, [.frameRegister byte]⟩, n)

theorem Stands.of_sameCode {f : Frame} {s t : State} (h : f.Stands s) (hsame : s.SameCode t) :
    f.Stands t := by
  obtain ⟨byte, n, hbyte, hopening⟩ := h.opening
  obtain ⟨byte', n', hbyte', hclosing⟩ := h.closing
  exact ⟨h.proper, h.downward, ⟨byte, n, hbyte, hsame.instruction? hopening⟩,
    ⟨byte', n', hbyte', hsame.instruction? hclosing⟩⟩

/-- The words of all frames are pushed inside the stack, if the frames are opened one after the
other from the stack pointer `sp` on. -/
def Fit : List Frame → Int → Prop
  | [], _ => True
  | f :: rest, sp =>
      (AddressSpace.stackBase.toNat + 8 : Nat) ≤ sp ∧ Fit rest (sp - 8 + f.displacement.toInt)

/-- Where the stack pointer is after a frame has been opened; it does not wrap around. -/
theorem toNat_opened {sp : UInt64} {d : Int32}
    (hroom : AddressSpace.stackBase.toNat + 8 ≤ sp.toNat) (hdownward : d.toInt ≤ 0) :
    ((sp - 8 + LittleEndian.extend d).toNat : Int) = sp.toNat - 8 + d.toInt := by
  have hsum : sp - 8 + LittleEndian.extend d = UInt64.ofInt (sp.toNat - 8 + d.toInt) := by
    rw [UInt64.ofInt_add, Word.ofInt_sub, Word.ofInt_toNat, LittleEndian.extend_eq_ofInt]
    rfl
  -- The stack begins higher up than a displacement can reach down.
  have hbase := State.toNat_stackBase
  have hsp := sp.toNat_lt_size
  have hback := d.le_toInt
  rw [hsum]
  exact Word.toNat_ofInt (by omega) (by omega)

end Frame

namespace State

/-- The stack of the machine, of the given size, has room for the frames, their instructions
stand in the code, and the code lies outside the stack. -/
structure Bears (size : Nat) (frames : List Frame) (s : State) : Prop where
  stack : s.stack = ⟨AddressSpace.stackBase, size⟩
  below : s.registers.sp.toNat ≤ AddressSpace.stackBase.toNat + size
  fit : Frame.Fit frames s.registers.sp.toNat
  stands : ∀ f ∈ frames, f.Stands s
  apart : ∀ k, k < s.code.length → ¬Window.Holds ⟨AddressSpace.stackBase, size⟩ (s.codeAddress k)

variable {host : HostTable} {kept : List RegisterIndex} {size : Nat} {f : Frame}
  {frames : List Frame} {s t u v w : State}

/-- A spare byte lies in the stack. -/
theorem Bears.holds_of_spare (hbears : s.Bears size frames) {a : UInt64} (hspare : s.Spare a) :
    Window.Holds ⟨AddressSpace.stackBase, size⟩ a := by
  obtain ⟨hstart, hstop⟩ := hspare
  have hbelow := hbears.below
  rw [hbears.stack] at hstart
  have hbase : AddressSpace.stackBase ≤ a := UInt64.le_iff_toNat_le.mpr hstart
  have hbase' : AddressSpace.stackBase.toNat ≤ a.toNat := hstart
  show (a - AddressSpace.stackBase).toNat < size
  rw [UInt64.toNat_sub_of_le _ _ hbase]
  omega

/-- What changes spare bytes only leaves the code alone. -/
theorem Bears.sameCode (hbears : s.Bears size frames) (hcode : t.code = s.code)
    (hmemory : ∀ a, ¬s.Spare a → t.memory.byte a = s.memory.byte a) : s.SameCode t :=
  ⟨hcode, fun k hk => hmemory _ fun hspare => hbears.apart k hk (hbears.holds_of_spare hspare)⟩

/-- The frames that are still to be opened, in a machine whose stack pointer has moved down. -/
theorem Bears.of_sameCode (hbears : s.Bears size frames) (hsame : s.SameCode t)
    (hstack : t.stack = s.stack) {rest : List Frame} (hrest : rest ⊆ frames)
    (hbelow : t.registers.sp.toNat ≤ s.registers.sp.toNat)
    (hfit : Frame.Fit rest t.registers.sp.toNat) : t.Bears size rest where
  stack := hstack.trans hbears.stack
  below := Nat.le_trans hbelow hbears.below
  fit := hfit
  stands g hg := (hbears.stands g (hrest hg)).of_sameCode hsame
  apart k hk := by
    rw [Core.codeAddress, hsame.region]
    exact hbears.apart k (by rw [← hsame.region]; exact hk)

theorem Bears.of_interlude (hbears : s.Bears size frames) (h : Interlude kept s t) :
    t.Bears size frames := by
  have hsame := hbears.sameCode h.code h.memory
  refine hbears.of_sameCode hsame h.stack (List.Subset.refl _) ?_ ?_
  · exact Nat.le_of_eq (congrArg UInt64.toNat h.pointer)
  · rw [h.pointer]
    exact hbears.fit

/-- Opening a frame writes to spare bytes only. -/
theorem Opens.byte_of_not_spare {r : RegisterIndex} {d : Int32} (h : s.Opens host r d t)
    (hroom : s.stack.base.toNat + 8 ≤ s.registers.sp.toNat) {a : UInt64} (ha : ¬s.Spare a) :
    t.memory.byte a = s.memory.byte a := by
  have hlower := Word.toNat_sub_eight (a := s.registers.sp) (by omega)
  have hsp := s.registers.sp.toNat_lt
  have ha' := a.toNat_lt
  unfold Spare at ha
  rw [h.memory]
  apply Memory.byte_write_of_le
  show 8 ≤ (a - (s.registers.sp - 8)).toNat
  rw [UInt64.toNat_sub, hlower]
  omega

/-- The first of the frames can be opened, and then there is room for the others. -/
theorem Bears.exists_opens (host : HostTable) (hbears : s.Bears size (f :: frames))
    (hactive : s.status.isActive = true) (hcursor : s.cursor = f.opens) :
    ∃ t, s.Opens host f.register f.displacement t ∧ s.SameCode t ∧ t.Bears size frames := by
  obtain ⟨hroom, hrest⟩ := hbears.fit
  have hroom' : AddressSpace.stackBase.toNat + 8 ≤ s.registers.sp.toNat := by omega
  have hstands := hbears.stands f (by simp)
  obtain ⟨byte, n, hbyte, hlisted⟩ := hstands.opening
  rw [← hcursor] at hlisted
  have hpush : s.CanPush :=
    (Core.canPush_iff hbears.stack (by omega) hbears.below).mpr hroom'
  obtain ⟨t, hopens⟩ := State.exists_opens host hactive hlisted
    (by rw [hbyte]; exact hstands.proper) hpush
  rw [hbyte] at hopens
  have hpointer := Frame.toNat_opened hroom' hstands.downward
  rw [← hopens.pointer] at hpointer
  have hdownward := hstands.downward
  have hsame : s.SameCode t := by
    refine hbears.sameCode hopens.code fun a ha => hopens.byte_of_not_spare ?_ ha
    rw [hbears.stack]
    exact hroom'
  refine ⟨t, hopens, hsame, hbears.of_sameCode hsame hopens.stack ?_ ?_ ?_⟩
  · exact List.subset_cons_self f frames
  · omega
  · rw [hpointer]
    exact hrest

/-- A frame with an interlude inside is an interlude. -/
theorem interlude_of_frame (hopens : s.Opens host f.register f.displacement t)
    (hstack : s.stack.base = AddressSpace.stackBase)
    (hroom : AddressSpace.stackBase.toNat + 8 ≤ s.registers.sp.toNat)
    (hdownward : f.displacement.toInt ≤ 0) (hkept : f.register ∈ kept)
    (hinside : Interlude kept t u) (hcloses : u.Closes host f.register v) :
    Interlude kept s v := by
  have hlower := Word.toNat_sub_eight (a := s.registers.sp) (by omega)
  have hopened := Frame.toNat_opened hroom hdownward
  rw [← hopens.pointer] at hopened
  have hframe : u.general f.register = s.registers.sp - 8 :=
    (hinside.registers _ hkept).trans hopens.frame
  have hpointer : v.registers.sp = s.registers.sp := by
    rw [hcloses.pointer, hframe, UInt64.sub_add_cancel]
  -- The word of the frame lies at or above the stack pointer of the interlude.
  have hword : v.general f.register = s.general f.register := by
    have hread : u.memory.read (s.registers.sp - 8) .quad =
        t.memory.read (s.registers.sp - 8) .quad := by
      have hsp := s.registers.sp.toNat_lt_size
      refine (hinside.agreeOn UInt64.size).read ?_ ?_ (Nat.le_refl _)
      · omega
      · show (s.registers.sp - 8).toNat + 8 ≤ UInt64.size
        omega
    rw [hcloses.frame, hframe, hread, hopens.memory, Memory.read_write_quad]
  refine ⟨?_, ?_, ?_, hpointer, ?_, ?_⟩
  · rw [hcloses.running]
    rfl
  · exact hcloses.code.trans (hinside.code.trans hopens.code)
  · exact hcloses.stack.trans (hinside.stack.trans hopens.stack)
  · intro r hr
    -- The frame register comes from its word, and opening and closing set no other one.
    by_cases hsame : r = f.register
    · rw [hsame]
      exact hword
    · by_cases hsp : r = .stackPointer
      · rw [hsp]
        exact hpointer
      · rw [hcloses.others r hsame hsp, hinside.registers r hr, hopens.others r hsame hsp]
  · intro a ha
    have ha' : ¬t.Spare a := by
      intro hspare
      apply ha
      unfold Spare at hspare ⊢
      rw [hopens.stack] at hspare
      omega
    rw [hcloses.memory, hinside.memory a ha']
    exact hopens.byte_of_not_spare (by rw [hstack]; exact hroom) ha

/-- A nest of frames is an interlude: what can be executed after every interlude can be executed
after the frames. -/
theorem goesThrough_nest (host : HostTable) (hactive : s.status.isActive = true)
    (hbears : s.Bears size frames)
    (hkept : ∀ f ∈ frames, f.register ∈ kept) {rest : List Nat} {post : State → Prop}
    (hrest : ∀ t, Interlude kept s t → t.GoesThrough host kept rest post) :
    s.GoesThrough host kept
      (frames.map Frame.opens ++ (frames.reverse.map Frame.closes ++ rest)) post := by
  induction frames generalizing s rest with
  | nil => exact hrest s (.refl hactive)
  | cons f frames ih =>
      rw [List.reverse_cons, List.map_append, List.append_assoc]
      -- The frame is opened, the others are an interlude inside it, and it is closed.
      intro t hbefore hcursor
      have ht := hbears.of_interlude hbefore
      obtain ⟨u, hopens, hsame, hu⟩ := ht.exists_opens host hbefore.active hcursor
      refine ⟨u, hopens.step, hopens.running, ?_⟩
      refine ih (by rw [hopens.running]; rfl) hu (fun g hg => hkept g (by simp [hg])) ?_
      intro v hinner w hafter hclosing
      have hinside := hinner.trans hafter
      have hstands := (ht.stands f (by simp)).of_sameCode
        (hsame.trans (hu.sameCode hinside.code hinside.memory))
      have hroom : AddressSpace.stackBase.toNat + 8 ≤ t.registers.sp.toNat := by
        have hfirst := ht.fit.1
        omega
      have hframe : w.general f.register ≠ 0 := by
        rw [hinside.registers _ (hkept f (by simp)), hopens.frame]
        exact ((Core.canPush_iff ht.stack (by omega) ht.below).mpr hroom).2
      obtain ⟨byte, n, hbyte, hlisted⟩ := hstands.closing
      rw [← hclosing] at hlisted
      obtain ⟨x, hcloses⟩ := exists_closes host hafter.active hlisted
        (by rw [hbyte]; exact hstands.proper) (by rw [hbyte]; exact hframe)
      rw [hbyte] at hcloses
      refine ⟨x, hcloses.step, hcloses.running, hrest x (hbefore.trans ?_)⟩
      exact interlude_of_frame hopens (by rw [ht.stack]) hroom hstands.downward
        (hkept f (by simp)) hinside hcloses

end State

/-- Frames nest.  Frames that are opened in order and closed in reverse order, with any interludes
between the steps, give back the stack pointer and the frame registers, and leave the bytes from
the stack pointer on as they were. -/
theorem frames_nest (host : HostTable) (s : State) (size : Nat) (frames : List Frame)
    (hactive : s.status.isActive = true) (hbears : s.Bears size frames) :
    s.GoesThrough host (frames.map Frame.register)
      (frames.map Frame.opens ++ frames.reverse.map Frame.closes) fun t =>
        t.registers.sp = s.registers.sp ∧
        (∀ f ∈ frames, t.general f.register = s.general f.register) ∧
        ∀ a, s.registers.sp ≤ a → t.memory.byte a = s.memory.byte a := by
  rw [← List.append_nil (frames.reverse.map Frame.closes)]
  refine State.goesThrough_nest host hactive hbears (fun f hf => List.mem_map_of_mem hf) ?_
  intro t hnest
  refine ⟨hnest.pointer, fun f hf => hnest.registers _ (List.mem_map_of_mem hf), ?_⟩
  intro a ha
  refine hnest.memory a fun hspare => ?_
  have habove := UInt64.le_iff_toNat_le.mp ha
  have hbelow := hspare.2
  omega

/-- A machine that opens two frames at one register, the first with sixteen bytes of its own, and
closes them. -/
def State.opensTwice : State :=
  { State.load [0x1a, 0x0e, 0xf0, 0xff, 0xff, 0xff, 0x1a, 0x0e, 0, 0, 0, 0, 0x1b, 0x0e, 0x1b, 0x0e]
      ⟨AddressSpace.stackBase, 64⟩ with
    status := .initialised }

/-- The two frames use up half of the stack at most. -/
theorem opensTwice_frames_nest :
    State.opensTwice.Bears 64 [⟨.ofNat 14, -16, 0, 14⟩, ⟨.ofNat 14, 0, 6, 12⟩] ∧
    State.opensTwice.GoesThrough {} [.ofNat 14, .ofNat 14] [0, 6, 12, 14] fun t =>
      t.registers.sp = State.opensTwice.registers.sp ∧
      (∀ f ∈ ([⟨.ofNat 14, -16, 0, 14⟩, ⟨.ofNat 14, 0, 6, 12⟩] : List Frame),
        t.general f.register = State.opensTwice.general f.register) ∧
      ∀ a, State.opensTwice.registers.sp ≤ a →
        t.memory.byte a = State.opensTwice.memory.byte a := by
  have hfirst : Frame.Stands ⟨.ofNat 14, -16, 0, 14⟩ State.opensTwice :=
    ⟨by decide, by decide, ⟨0x0e, 6, by decide, by decide +kernel⟩,
      ⟨0x0e, 2, by decide, by decide +kernel⟩⟩
  have hsecond : Frame.Stands ⟨.ofNat 14, 0, 6, 12⟩ State.opensTwice :=
    ⟨by decide, by decide, ⟨0x0e, 6, by decide, by decide +kernel⟩,
      ⟨0x0e, 2, by decide, by decide +kernel⟩⟩
  have hbears : State.opensTwice.Bears 64
      [⟨.ofNat 14, -16, 0, 14⟩, ⟨.ofNat 14, 0, 6, 12⟩] := by
    refine ⟨rfl, by decide +kernel, ⟨by decide +kernel, by decide +kernel, trivial⟩, ?_, ?_⟩
    · intro f hf
      simp only [List.mem_cons, List.not_mem_nil, or_false] at hf
      rcases hf with rfl | rfl
      · exact hfirst
      · exact hsecond
    · have hlength : State.opensTwice.code.length = 16 := rfl
      rw [hlength]
      decide +kernel
  exact ⟨hbears, frames_nest {} State.opensTwice 64 _ rfl hbears⟩

end BytecodeMachine
