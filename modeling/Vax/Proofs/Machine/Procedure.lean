import Vax.Proofs.Machine.Operand
import Vax.Proofs.Machine.Stack
import Vax.Proofs.Registers.CallStatus
/-!
# A return undoes its call

A call leaves a frame between the frame pointer and the argument count.  As
long as the frame lies there, a return gives back what it holds, whatever the
procedure did with the registers and the rest of memory.
-/

namespace Vax

/-! ## The call status -/

namespace CallStatus

variable (flags : Flags) (mask : Nat) (sp : UInt32)

theorem flags_ofCall : (ofCall flags mask sp).flags = flags := by
  have hbit : ∀ b : Bool, (b.toNat % 2 ^ 1 == 1) = b := by decide
  simp (disch := decide) only [ofCall, CallStatus.flags, setFlags, setAlign, setCounted, setMask,
    setBit, bit, field_setField_of_ge, field_setField_of_le, field_setField, hbit]

theorem mask_ofCall (h : mask < 2 ^ 12) : (ofCall flags mask sp).mask = mask := by
  simp (disch := decide) only [ofCall, CallStatus.mask, setAlign, setCounted, setMask, setBit,
    field_setField_of_ge, field_setField]
  exact Nat.mod_eq_of_lt h

theorem counted_ofCall : (ofCall flags mask sp).counted = true := by
  simp (disch := decide) only [ofCall, counted, setAlign, setCounted, bit, setBit,
    field_setField_of_ge, field_setField]
  rfl

theorem align_ofCall : (ofCall flags mask sp).align = sp.toNat % 4 := by
  simp (disch := decide) only [ofCall, align, setAlign, field_setField]
  omega

end CallStatus

/-! ## Saved registers -/

/-- The registers that a frame holds above its status, in ascending order of
address. -/
def savedRegisters (mask : Nat) : List Register :=
  Register.ap :: Register.fp :: Register.pc :: maskedRegisters mask

theorem Register.ne_of_lt {r s : Register} (hr : r.val < 12) (hs : 12 ≤ s.val) : r ≠ s := by
  intro heq
  rw [heq] at hr
  omega

theorem mem_maskedRegisters {mask : Nat} {r : Register} :
    r ∈ maskedRegisters mask ↔ r.val < 12 ∧ mask.testBit r.val = true := by
  unfold maskedRegisters
  rw [List.mem_filterMap]
  constructor
  · rintro ⟨i, hi, hr⟩
    have hlt := List.mem_range.1 hi
    by_cases hbit : mask.testBit i = true
    · rw [if_pos hbit] at hr
      obtain rfl := Option.some.inj hr
      have hval : (Fin.ofNat 16 i).val = i := Nat.mod_eq_of_lt (by omega)
      rw [hval]
      exact ⟨hlt, hbit⟩
    · rw [if_neg hbit] at hr
      exact absurd hr nofun
  · rintro ⟨hlt, hbit⟩
    refine ⟨r.val, List.mem_range.2 hlt, ?_⟩
    rw [if_pos hbit]
    congr 1
    apply Fin.ext
    exact Nat.mod_eq_of_lt r.isLt

theorem length_maskedRegisters_le (mask : Nat) : (maskedRegisters mask).length ≤ 12 :=
  Nat.le_trans (List.length_filterMap_le _ _) (Nat.le_of_eq List.length_range)

theorem length_savedRegisters_le (mask : Nat) : (savedRegisters mask).length ≤ 15 :=
  Nat.add_le_add_right (length_maskedRegisters_le mask) 3

theorem savedRegisters_ne_sp {mask : Nat} : ∀ r ∈ savedRegisters mask, r ≠ Register.sp := by
  intro r hr
  simp only [savedRegisters, List.mem_cons] at hr
  rcases hr with rfl | rfl | rfl | hr
  · decide
  · decide
  · decide
  · exact Register.ne_of_lt (mem_maskedRegisters.1 hr).1 (by decide)

/-! ## What a call is asked to do -/

/-- The instruction asks for the call with its operands, which are evaluated
from `m` to `caller`.  The first is the number of arguments, and the second lies
where the procedure begins, with a word whose lower twelve bits name the
registers to save. -/
structure Call.AskedBy (c : Call) (i : Instruction) (m caller : Machine) : Prop where
  operands : ∃ (first second : Operand) (place : Location) (between : Machine),
    i.operands = [first, second] ∧
    (Exec.locate first.kind.size first.specifier).run m = .ok place between ∧
    (Exec.locate second.kind.size second.specifier).run between =
      .ok (.memory c.procedure) caller ∧
    (Exec.read .long place).run caller = .ok c.count.toBitVec caller
  mask : ∃ mask : UInt16, caller.memory.readWord c.procedure = .ok mask ∧
    c.mask = mask.toNat % 2 ^ 12

namespace Exec

/-! ## Calls and returns in parts

The registers are saved in the opposite order of restoring them, so the same
list describes both.
-/

/-- The part of a call that fills the frame below the argument count. -/
def saveFrame (c : Call) (ap : UInt32) : Exec Unit := do
  pushRegisters (savedRegisters c.mask)
  push (CallStatus.ofCall (← getFlags) c.mask ap).word
  push 0

/-- The part of a call that no longer touches the stack. -/
def beginProcedure (c : Call) (ap : UInt32) : Exec Unit := do
  setRegister Register.ap ap
  setRegister Register.fp (← getRegister Register.sp)
  setPc (c.procedure + 2)
  setFlags Flags.clear
  modify fun m => m.pushFrame c.procedure
  logCallChain

theorem enterProcedure_eq (c : Call) : enterProcedure c = (do
    push c.count
    let ap ← getRegister Register.sp
    setRegister Register.sp (ap - ap % 4)
    saveFrame c ap
    beginProcedure c ap) := by
  simp only [enterProcedure, saveFrame, beginProcedure, pushRegisters, savedRegisters,
    List.reverse_cons, List.append_assoc, List.cons_append, List.nil_append, List.forM_eq_forM,
    List.forM_append, List.forM_cons, List.forM_nil, bind_assoc, pure_bind]

/-- The part of a return that follows its status longword. -/
def restoreSaved (status : CallStatus) : Exec Unit := do
  setFlags status.flags
  popRegisters (savedRegisters status.mask)
  setRegister Register.sp ((← getRegister Register.sp) + UInt32.ofNat status.align)
  if status.counted then
    let count ← pop
    setRegister Register.sp ((← getRegister Register.sp) + 4 * (count % 256))

theorem unwind_eq : unwind = (do
    setRegister Register.sp ((← getRegister Register.fp) + 4)
    restoreSaved ⟨← pop⟩) := by
  simp only [unwind, restoreSaved, savedRegisters, popRegisters, List.forM, bind_assoc]
  rfl

/-! ## The frame -/

/-- What a call leaves in memory of the registers of its caller. -/
structure CallFrame (c : Call) (caller : Registers) (m : Memory) (fp ap : UInt32) : Prop where
  saved : m.Holds fp (longFields (0 :: (CallStatus.ofCall caller.flags c.mask ap).word ::
    (savedRegisters c.mask).map caller.get))
  counted : m.Holds ap (longFields [c.count])
  ap_eq : ap = caller.sp - 4
  fp_eq : fp = ap - ap % 4 - UInt32.ofNat (8 + 4 * (savedRegisters c.mask).length)

theorem pushed_saveFrame {m after : Machine} {c : Call} {ap : UInt32}
    (h : (saveFrame c ap).run m = .ok () after) :
    Pushed m after (0 :: (CallStatus.ofCall m.registers.flags c.mask ap).word ::
      (savedRegisters c.mask).map m.registers.get) := by
  have hlength := length_savedRegisters_le c.mask
  rw [saveFrame, run_bind_eq_ok] at h
  obtain ⟨_, saved, hsave, h⟩ := h
  have hsaved := (Pushed.nil m).pushRegisters savedRegisters_ne_sp
    (by rw [List.length_nil]; omega) hsave
  rw [List.append_nil] at hsaved
  rw [run_bind_ok run_getFlags, hsaved.flags_eq, run_bind_eq_ok] at h
  obtain ⟨_, marked, hstatus, hzero⟩ := h
  have hmarked := hsaved.push (by rw [List.length_map]; omega) hstatus
  exact hmarked.push (by rw [List.length_cons, List.length_map]; omega) hzero

theorem beginProcedure_eq {m after : Machine} {c : Call} {ap : UInt32}
    (h : (beginProcedure c ap).run m = .ok () after) :
    after.memory = m.memory ∧ after.registers.fp = m.registers.sp ∧ after.registers.ap = ap := by
  obtain ⟨-, rfl⟩ := EStateM.Result.ok.inj h
  refine ⟨rfl, ?_, ?_⟩
  · change ((((m.registers.set Register.ap ap).set Register.fp
      ((m.registers.set Register.ap ap).get Register.sp)).set Register.pc _).setFlags _).get
        Register.fp = _
    rw [Registers.get_setFlags, Registers.get_set_of_ne _ _ (by decide), Registers.get_set_self,
      Registers.get_set_of_ne _ _ (by decide)]
    rfl
  · change ((((m.registers.set Register.ap ap).set Register.fp _).set Register.pc _).setFlags
      _).get Register.ap = _
    rw [Registers.get_setFlags, Registers.get_set_of_ne _ _ (by decide),
      Registers.get_set_of_ne _ _ (by decide), Registers.get_set_self]

/-- A call that succeeds has built its frame. -/
theorem callFrame_of_enterProcedure {m after : Machine} {c : Call}
    (h : (enterProcedure c).run m = .ok () after) :
    CallFrame c m.registers after.memory after.registers.fp after.registers.ap := by
  have hlength := length_savedRegisters_le c.mask
  rw [enterProcedure_eq, run_bind_eq_ok] at h
  obtain ⟨_, counted, hcount, h⟩ := h
  have hcounted := (Pushed.nil m).push (by decide) hcount
  rw [run_bind_ok (run_getRegister _), run_bind_ok (run_setRegister _ _), run_bind_eq_ok] at h
  obtain ⟨_, built, hsave, hbegin⟩ := h
  have hbuilt := pushed_saveFrame hsave
  obtain ⟨hmemory, hfp, hap⟩ := beginProcedure_eq hbegin
  -- Rounding the stack pointer down changes none of the registers that are saved.
  have hcaller : ∀ r ∈ savedRegisters c.mask,
      (counted.registers.set Register.sp (counted.registers.get Register.sp -
        counted.registers.get Register.sp % 4)).get r = m.registers.get r := by
    intro r hr
    have hne := savedRegisters_ne_sp r hr
    rw [Registers.get_set_of_ne _ _ hne.symm, hcounted.get_eq hne]
  have hagrees := hbuilt.agrees
  have hsp := hbuilt.sp_eq
  rw [Machine.registers_withRegisters, List.map_congr_left hcaller, Registers.flags_set,
    hcounted.flags_eq] at hbuilt
  simp only [Machine.registers_withRegisters, Registers.sp, Registers.get_set_self,
    List.length_cons, List.length_map] at hagrees hsp
  rw [hmemory, hfp, hap]
  refine ⟨hbuilt.holds, ?_, hcounted.sp_eq, ?_⟩
  · apply hagrees.holds _ hcounted.holds
    have hgap := (counted.registers.get Register.sp).toNat_lt
    rw [length_longFields, List.length_singleton, Registers.sp]
    simp only [UInt32.toNat_sub, UInt32.toNat_mod, UInt32.reduceToNat]
    omega
  · rw [Registers.sp, hsp]
    congr 2
    omega

/-- A frame stays what it is as long as its bytes do. -/
theorem CallFrame.of_agreesOn {c : Call} {caller : Registers} {m m' : Memory} {fp ap : UInt32}
    (h : CallFrame c caller m fp ap) (hagrees : m.AgreesOn m' fp ((ap - fp).toNat + 4)) :
    CallFrame c caller m' fp ap := by
  have hlength := length_savedRegisters_le c.mask
  have hextent : 8 + 4 * (savedRegisters c.mask).length ≤ (ap - fp).toNat := by
    have hap := ap.toNat_lt
    rw [h.fp_eq]
    simp only [UInt32.toNat_sub, UInt32.toNat_mod, UInt32.toNat_ofNat', UInt32.reduceToNat]
    omega
  refine ⟨hagrees.holds ?_ h.saved, hagrees.holds ?_ h.counted, h.ap_eq, h.fp_eq⟩
  · rw [UInt32.sub_self, length_longFields]
    simp only [List.length_cons, List.length_map, UInt32.reduceToNat]
    omega
  · rw [length_longFields]
    exact Nat.le_refl _

/-! ## Taking the frame apart -/

/-- What a return gives back: `caller` is as it was when its call had read
its operands, and `callee` as it was before the return. -/
structure Restores (c : Call) (caller callee restored : Registers) : Prop where
  sp_eq : restored.sp = caller.sp + 4 * (c.count % 256)
  pc_eq : restored.pc = caller.pc
  ap_eq : restored.ap = caller.ap
  fp_eq : restored.fp = caller.fp
  flags_eq : restored.flags = caller.flags
  get_eq : ∀ r : Register, r.val < 12 →
    restored.get r = if c.mask.testBit r.val then caller.get r else callee.get r

/-- Of the registers before the return only `r0` to `r11` matter. -/
theorem Restores.of_set {c : Call} {caller callee restored : Registers} {r : Register}
    {value : UInt32} (h : Restores c caller (callee.set r value) restored) (hr : 12 ≤ r.val) :
    Restores c caller callee restored where
  sp_eq := h.sp_eq
  pc_eq := h.pc_eq
  ap_eq := h.ap_eq
  fp_eq := h.fp_eq
  flags_eq := h.flags_eq
  get_eq s hs := by
    rw [h.get_eq s hs, Registers.get_set_of_ne _ _ (Register.ne_of_lt hs hr).symm]

/-- Registers that were popped from the frame, once the stack pointer is back
behind the arguments. -/
theorem restores_of_popped {c : Call} {caller callee popped : Registers} {ap : UInt32}
    (hap : ap = caller.sp - 4) (hflags : popped.flags = caller.flags)
    (hget : ∀ r, r ≠ Register.sp →
      popped.get r = if r ∈ savedRegisters c.mask then caller.get r else callee.get r) :
    Restores c caller callee (popped.set Register.sp (ap + 4 + 4 * (c.count % 256))) := by
  have hsaved : ∀ {r}, r ∈ savedRegisters c.mask → ∀ sp,
      (popped.set Register.sp sp).get r = caller.get r := by
    intro r hr sp
    have hne := savedRegisters_ne_sp r hr
    rw [Registers.get_set_of_ne _ _ hne.symm, hget r hne, if_pos hr]
  refine ⟨?_, hsaved (by simp [savedRegisters]) _, hsaved (by simp [savedRegisters]) _,
    hsaved (by simp [savedRegisters]) _, hflags, ?_⟩
  · rw [Registers.sp, Registers.get_set_self, hap, UInt32.sub_add_cancel]
  · intro r hr
    have hne : ∀ s : Register, 12 ≤ s.val → r ≠ s := fun s hs => Register.ne_of_lt hr hs
    have hmem : r ∈ savedRegisters c.mask ↔ c.mask.testBit r.val = true := by
      simp only [savedRegisters, List.mem_cons, hne Register.ap (by decide),
        hne Register.fp (by decide), hne Register.pc (by decide), false_or,
        mem_maskedRegisters, hr, true_and]
    rw [Registers.get_set_of_ne _ _ (hne _ (by decide)).symm, hget r (hne _ (by decide))]
    simp only [hmem]

/-- The bytes by which an address was rounded down bring it back. -/
theorem aligned_add_gap (ap : UInt32) : ap - ap % 4 + UInt32.ofNat (ap.toNat % 4) = ap := by
  have hgap : UInt32.ofNat (ap.toNat % 4) = ap % 4 := by
    apply UInt32.toNat_inj.1
    rw [UInt32.toNat_ofNat', UInt32.toNat_mod]
    change ap.toNat % 4 % 2 ^ 32 = ap.toNat % 4
    omega
  rw [hgap, UInt32.sub_add_cancel]

theorem run_restoreSaved {m : Machine} {c : Call} {caller : Registers} {ap : UInt32}
    (hmask : c.mask < 2 ^ 12)
    (hsaved : m.memory.Holds m.registers.sp
      (longFields ((savedRegisters c.mask).map caller.get)))
    (hcounted : m.memory.Holds ap (longFields [c.count])) (hap : ap = caller.sp - 4)
    (hsp : m.registers.sp =
      ap - ap % 4 - UInt32.ofNat (4 * (savedRegisters c.mask).length)) :
    ∃ registers,
      (restoreSaved (.ofCall caller.flags c.mask ap)).run m = .ok () (m.withRegisters registers) ∧
      Restores c caller m.registers registers := by
  have hsaved' : (m.withRegisters (m.registers.setFlags caller.flags)).memory.Holds
      (m.withRegisters (m.registers.setFlags caller.flags)).registers.sp
      (longFields ((savedRegisters c.mask).map caller.get ++ [])) := by
    rw [List.append_nil]
    exact hsaved
  obtain ⟨popped, hpopped, hflags, hend, hget⟩ := run_popRegisters savedRegisters_ne_sp hsaved'
  rw [restoreSaved, CallStatus.flags_ofCall, CallStatus.mask_ofCall _ _ _ hmask,
    CallStatus.align_ofCall, CallStatus.counted_ofCall, run_bind_ok (run_setFlags _),
    run_bind_ok hpopped, run_bind_ok (run_getRegister _), run_bind_ok (run_setRegister _ _),
    if_pos rfl]
  have hback : popped.get Register.sp = ap - ap % 4 := by
    change popped.sp = _
    rw [hend]
    change m.registers.sp + _ = _
    rw [hsp, UInt32.sub_add_cancel]
  simp only [Machine.registers_withRegisters, Machine.withRegisters_withRegisters, hback,
    aligned_add_gap]
  rw [run_bind_ok (run_pop_at hcounted), run_bind_ok (run_getRegister _), run_setRegister]
  refine ⟨_, rfl, ?_⟩
  rw [Machine.registers_withRegisters, Registers.get_set_self, Registers.set_set]
  exact restores_of_popped hap hflags hget

/-- A return gives back what its frame holds. -/
theorem run_unwind {m : Machine} {c : Call} {caller : Registers} {ap : UInt32}
    (hmask : c.mask < 2 ^ 12) (h : CallFrame c caller m.memory m.registers.fp ap) :
    ∃ registers, unwind.run m = .ok () (m.withRegisters registers) ∧
      Restores c caller m.registers registers := by
  obtain ⟨hsaved, hcounted, hap, hfp⟩ := h
  have hstatus := holds_pop hsaved
  have hregisters := holds_pop hstatus
  have hsp : m.registers.fp + 4 + 4 =
      ap - ap % 4 - UInt32.ofNat (4 * (savedRegisters c.mask).length) := by
    rw [hfp]
    generalize ap - ap % 4 = top
    apply UInt32.toNat_inj.1
    simp only [UInt32.toNat_add, UInt32.toNat_sub, UInt32.toNat_ofNat', UInt32.reduceToNat]
    omega
  obtain ⟨registers, hrun, hrestores⟩ := run_restoreSaved
    (m := m.withRegisters (m.registers.set Register.sp (m.registers.fp + 4 + 4))) hmask
    (by
      rw [Machine.registers_withRegisters, Registers.sp, Registers.get_set_self]
      exact hregisters) hcounted hap
    (by rw [Machine.registers_withRegisters, Registers.sp, Registers.get_set_self, hsp])
  refine ⟨registers, ?_, hrestores.of_set (by decide)⟩
  rw [unwind_eq, run_bind_ok (run_getRegister _), run_bind_ok (run_setRegister _ _)]
  change (pop >>= fun word => restoreSaved ⟨word⟩).run
    (m.withRegisters (m.registers.set Register.sp (m.registers.fp + 4))) = _
  rw [run_bind_ok (run_pop_at hstatus)]
  exact hrun

/-! ## Calls and returns -/

theorem run_call {m after : Machine} {i : Instruction} (hi : i.descriptor.action = .call)
    (h : (execute i).run m = .ok none after) :
    ∃ c caller, (callOperands i).run m = .ok c caller ∧
      (enterProcedure c).run caller = .ok () after := by
  have hexecute : execute i = goesOn (call i) := by rw [execute, hi]
  rw [hexecute, goesOn, run_bind_eq_ok] at h
  obtain ⟨_, between, hcall, hdone⟩ := h
  obtain ⟨-, rfl⟩ := run_pure_eq_ok.1 hdone
  rw [call, run_bind_eq_ok] at hcall
  exact hcall

theorem run_callOperands_iff {m caller : Machine} {i : Instruction} {c : Call} :
    (callOperands i).run m = .ok c caller ↔ c.AskedBy i m caller := by
  constructor
  · intro h
    rw [callOperands, run_bind_eq_ok] at h
    obtain ⟨⟨place, destination⟩, located, hlocate, h⟩ := h
    rw [run_bind_eq_ok] at h
    obtain ⟨count, between, hread, h⟩ := h
    obtain rfl := run_read_eq hread
    rw [run_bind_eq_ok] at h
    obtain ⟨procedure, between', haddress, h⟩ := h
    obtain ⟨rfl, rfl⟩ := run_addressOf_eq haddress
    rw [run_bind_eq_ok] at h
    obtain ⟨mask, between'', hmask, h⟩ := h
    obtain ⟨hmask, rfl⟩ := run_readWord_eq_ok.1 hmask
    obtain ⟨rfl, rfl⟩ := run_pure_eq_ok.1 h
    obtain ⟨first, second, between, hoperands, hfirst, hsecond⟩ := run_locate2_iff.1 hlocate
    exact ⟨⟨first, second, place, between, hoperands, hfirst, hsecond, hread⟩, mask, hmask, rfl⟩
  · rintro ⟨⟨first, second, place, between, hoperands, hfirst, hsecond, hread⟩, mask, hword, hmask⟩
    have hlocate := run_locate2_iff.2 ⟨first, second, between, hoperands, hfirst, hsecond⟩
    rw [callOperands, run_bind_ok hlocate]
    dsimp only
    rw [run_bind_ok hread, addressOf, run_bind_ok (run_pure_eq_ok.2 ⟨rfl, rfl⟩),
      run_bind_ok (run_readWord_eq_ok.2 ⟨hword, rfl⟩)]
    apply run_pure_eq_ok.2
    rw [saveMask, ← hmask]
    exact ⟨rfl, rfl⟩

theorem run_callOperands {m after : Machine} {i : Instruction} {c : Call}
    (h : (callOperands i).run m = .ok c after) :
    c.mask < 2 ^ 12 ∧ m.DiffersIn after
      (fun r => ∃ operand ∈ i.operands, operand.specifier.stepped? = some r) := by
  obtain ⟨⟨first, second, place, between, hoperands, hfirst, hsecond, -⟩, mask, -, hmask⟩ :=
    run_callOperands_iff.1 h
  constructor
  · rw [hmask]
    exact Nat.mod_lt _ (by decide)
  · exact differsIn_locate2 (run_locate2_iff.2 ⟨first, second, between, hoperands, hfirst, hsecond⟩)

theorem popFrame_eq (m : Machine) :
    m.popFrame.registers = m.registers ∧ m.popFrame.status = m.status := by
  unfold Machine.popFrame
  split <;> exact ⟨rfl, rfl⟩

theorem run_returnFromCall {m : Machine} {registers : Registers}
    (hfp : m.registers.fp ≠ entryFp) (h : unwind.run m = .ok () (m.withRegisters registers)) :
    ∃ after, returnFromCall.run m = .ok none after ∧ after.registers = registers ∧
      after.status = m.status := by
  have hne : ¬ m.registers.get Register.fp = entryFp := hfp
  obtain ⟨hregisters, hstatus⟩ := popFrame_eq (m.withRegisters registers)
  have hlog : ∀ s : Machine, (logCallChain >>= fun _ => (pure none : Exec (Option Halt))).run s =
      .ok none (s.logged .debug fun _ => s.callChain Frame.name) := fun _ => rfl
  refine ⟨(m.withRegisters registers).popFrame.logged .debug fun _ =>
    (m.withRegisters registers).popFrame.callChain Frame.name, ?_, hregisters, hstatus⟩
  rw [returnFromCall, run_bind_ok (run_getRegister _), if_neg hne, run_bind_ok h,
    run_bind_ok (run_modify _), hlog]

end Exec

open Exec

/-- A return gives back the stack, the pointers, the condition codes and the
registers in the mask that the call found once its operands were read, as long
as the frame pointer and the bytes from there through the argument count are
those that the call left.  How many arguments it takes off the stack and which
registers those are is what the operands of the call and the mask of the
procedure say. -/
theorem return_undoes_call {m later : Machine} {i j : Instruction}
    (hrunning : m.status = .running)
    (hcall : m.memory.instructionAt m.registers.pc = .ok i)
    (hi : i.descriptor.action = .call)
    (hcalled : m.step.status = .running) (hfp : m.step.registers.fp ≠ 0)
    (hlater : later.status = .running)
    (hreturn : later.memory.instructionAt later.registers.pc = .ok j)
    (hj : j.descriptor.action = .returnFromCall)
    (hlaterfp : later.registers.fp = m.step.registers.fp)
    (hframe : m.step.memory.AgreesOn later.memory m.step.registers.fp
      ((m.step.registers.ap - m.step.registers.fp).toNat + 4)) :
    ∃ c caller, (fetchNext >>= callOperands).run m.begun = .ok c caller ∧
      c.AskedBy i (m.begun.withRegisters (m.registers.set Register.pc i.nextAddress)) caller ∧
      ((∀ operand ∈ i.operands, operand.specifier.stepped? ≠ some Register.pc) →
        caller.registers.pc = i.nextAddress) ∧
      later.step.status = .running ∧
      Restores c caller.registers later.registers later.step.registers := by
  have hfetch := run_fetchNext (m := m.begun) hcall
  have hrun := Machine.run_of_running hrunning hcalled
  rw [run_bind_ok hfetch] at hrun
  obtain ⟨c, caller, hoperands, henter⟩ := run_call hi hrun
  obtain ⟨hmask, hdiffers⟩ := run_callOperands hoperands
  have hbuilt := (callFrame_of_enterProcedure henter).of_agreesOn hframe
  rw [← hlaterfp] at hbuilt
  have hfetch' := run_fetchNext (m := later.begun) hreturn
  obtain ⟨registers, hunwind, hrestores⟩ := run_unwind (m := later.begun.withRegisters
    (later.begun.registers.set Register.pc j.nextAddress)) hmask (by
      rw [Machine.registers_withRegisters, Registers.fp, Registers.get_set_of_ne _ _ (by decide)]
      exact hbuilt)
  obtain ⟨after, hafter, hregisters, hstatus⟩ := run_returnFromCall (by
      rw [Machine.registers_withRegisters, Registers.fp, Registers.get_set_of_ne _ _ (by decide)]
      change later.registers.fp ≠ 0
      rw [hlaterfp]
      exact hfp) hunwind
  have hexecute : execute j = returnFromCall := by rw [execute, hj]
  have hstep : later.step = after := by
    apply Machine.step_of_run hlater
    rw [run_bind_ok hfetch', hexecute]
    exact hafter
  refine ⟨c, caller, ?_, run_callOperands_iff.1 hoperands, ?_, ?_, ?_⟩
  · rw [run_bind_ok hfetch]
    exact hoperands
  · intro hpc
    have hunstepped : ¬ ∃ operand ∈ i.operands,
        operand.specifier.stepped? = some Register.pc := fun ⟨operand, hmem, hstep⟩ =>
      hpc operand hmem hstep
    rw [Registers.pc, hdiffers.get_eq _ hunstepped, Machine.registers_withRegisters,
      Registers.get_set_self]
  · rw [hstep, hstatus]
    exact hlater
  · rw [hstep, hregisters]
    exact hrestores.of_set (by decide)

theorem Memory.exists_instruction {m : Memory} {address : UInt32} {action : Action}
    (h : (m.instructionAt address).toOption.map (fun i => i.descriptor.action) = some action) :
    ∃ i, m.instructionAt address = .ok i ∧ i.descriptor.action = action := by
  cases hread : m.instructionAt address with
  | ok i =>
      rw [hread] at h
      exact ⟨i, rfl, Option.some.inj h⟩
  | error cause =>
      rw [hread] at h
      exact absurd h nofun

/-- A procedure that saves `r2` has changed it. -/
theorem return_undoes_call_saving :
    let m : Machine :=
      { registers := ((Registers.zeroed.set 0 8).set 2 7).set Register.sp 64
        memory := ⟨0, 64, [0xfb, 0x00, 0x60, 0, 0, 0, 0, 0, 0x04, 0x00, 0x04].toByteArray⟩
        symbols := .empty, entry := 0, status := .running, frames := #[],
        output := .unlimited, log := .empty none, current := 0 }
    let later := m.step.withRegisters (m.step.registers.set 2 99)
    later.step.registers.get 2 = 7 ∧
      ∃ c caller, (fetchNext >>= callOperands).run m.begun = .ok c caller ∧
        later.step.status = .running ∧
        Restores c caller.registers later.registers later.step.registers := by
  intro m later
  have hcall : ∃ i, m.memory.instructionAt m.registers.pc = .ok i ∧
      i.descriptor.action = .call := Memory.exists_instruction (by decide +kernel)
  have hreturn : ∃ j, later.memory.instructionAt later.registers.pc = .ok j ∧
      j.descriptor.action = .returnFromCall := Memory.exists_instruction (by decide +kernel)
  obtain ⟨i, hi, haction⟩ := hcall
  obtain ⟨j, hj, haction'⟩ := hreturn
  have hcalled : m.step.status = .running := by decide +kernel
  have hlater : later.status = .running := hcalled
  obtain ⟨c, caller, hoperands, -, -, hstatus, hrestores⟩ := return_undoes_call rfl hi haction
    hcalled (by decide +kernel) hlater hj haction' (by decide +kernel) (.refl m.step.memory _ _)
  exact ⟨by decide +kernel, c, caller, hoperands, hstatus, hrestores⟩

end Vax
