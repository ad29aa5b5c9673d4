import Vax.Proofs.Checked.BitField
import Vax.Proofs.Checked.CharacterString
import Vax.Proofs.Checked.Kernel
import Vax.Proofs.Checked.PackedDecimal
import Vax.Proofs.Checked.Procedure
import Vax.Proofs.Checked.Trace
import Vax.Proofs.Machine.Layout
import Vax.Proofs.Machine.Logging
/-!
# Steps that can fail

A checked step is one whose arithmetic is plain: it gives no machine where a
result is outside its type, an index outside its array, or a divisor zero.  It
fails at a single place.  A dispatch computes the distance of a table entry as
twice its number, which is no longword for the upper half of all numbers, so a
case instruction whose table is said to have such an entry fails when it goes
to it.  Every other step is what the machine does.
-/

namespace Vax

namespace Checked

def goesOn (action : Checked Unit) : Checked (Option Halt) := do
  action
  return none

def execute (i : Instruction) : Checked (Option Halt) :=
  match i.descriptor.action with
  | .privileged => throw (.privileged i.descriptor.mnemonic)
  | .nothing => return none
  | .arithmetic operation => goesOn (arithmetic i operation)
  | .move => goesOn (move i)
  | .compare => goesOn (compare i)
  | .test => goesOn (test i)
  | .clear => goesOn (clear i)
  | .increment => goesOn (increment i)
  | .decrement => goesOn (decrement i)
  | .negate => goesOn (negate i)
  | .complement => goesOn (complement i)
  | .bitTest => goesOn (bitTest i)
  | .zeroExtend => goesOn (zeroExtend i)
  | .convert => goesOn (convert i)
  | .moveAddress => goesOn (moveAddress i)
  | .pushAddress => goesOn (pushAddress i)
  | .pushLong => goesOn (pushLong i)
  | .shift => goesOn (shift i)
  | .branch condition => goesOn (branch i condition)
  | .jump => goesOn (jump i)
  | .branchToSubroutine => goesOn (branchToSubroutine i)
  | .jumpToSubroutine => goesOn (jumpToSubroutine i)
  | .returnFromSubroutine => goesOn returnFromSubroutine
  | .branchOnBit onSet update => goesOn (branchOnBit i onSet update)
  | .branchOnLowBit onSet => goesOn (branchOnLowBit i onSet)
  | .addCompareBranch => goesOn (addCompareBranch i)
  | .addOneBranch inclusive => goesOn (addOneBranch i inclusive)
  | .subtractOneBranch inclusive => goesOn (subtractOneBranch i inclusive)
  | .select => goesOn (select i)
  | .extractField isSigned => goesOn (extractField i isSigned)
  | .call => goesOn (call i)
  | .returnFromCall => returnFromCall
  | .longToPacked => goesOn (longToPacked i)
  | .editPacked => goesOn (editPacked i)
  | .scan forEqual => goesOn (scan i forEqual)
  | .copyString => goesOn (copyString i)
  | .systemCall => systemCall i
  | .unimplemented => throw (.unimplemented i.descriptor.code i.descriptor.mnemonic)

def fetchNext : Checked Instruction := do
  let m ← get
  match ← (instructionAt m.memory m.registers.pc).run with
  | .ok i =>
    setPc i.nextAddress
    return i
  | .error cause => throw cause

def executeNext (m : Machine) : Option Machine := do
  let (outcome, after) ← (fetchNext >>= execute) (← begun m)
  match outcome with
  | .ok none => return after
  | .ok (some halt) => return after.ended (.halted halt)
  | .error cause => return after.ended (.faulted ⟨after.current, cause⟩)

variable {i : Instruction}

theorem Follows.goesOn {c : Checked Unit} {x : Exec Unit} (h : Follows id c x) :
    Follows id (Checked.goesOn c) (Exec.goesOn x) :=
  h.bind fun _ => follows_pure id none

/-- No instruction but a dispatch fails. -/
theorem follows_execute (h : i.descriptor.action ≠ .select) :
    Follows id (execute i) (Exec.execute i) := by
  unfold execute Exec.execute
  cases haction : i.descriptor.action with
  | select => exact absurd haction h
  | privileged | unimplemented => exact follows_throw _
  | nothing => exact follows_pure id none
  | arithmetic operation => exact (follows_arithmetic operation).goesOn
  | move => exact follows_move.goesOn
  | compare => exact follows_compare.goesOn
  | test => exact follows_test.goesOn
  | clear => exact follows_clear.goesOn
  | increment => exact follows_increment.goesOn
  | decrement => exact follows_decrement.goesOn
  | negate => exact follows_negate.goesOn
  | complement => exact follows_complement.goesOn
  | bitTest => exact follows_bitTest.goesOn
  | zeroExtend => exact follows_zeroExtend.goesOn
  | convert => exact follows_convert.goesOn
  | moveAddress => exact follows_moveAddress.goesOn
  | pushAddress => exact follows_pushAddress.goesOn
  | pushLong => exact follows_pushLong.goesOn
  | shift => exact follows_shift.goesOn
  | branch condition => exact (follows_branch condition).goesOn
  | jump => exact follows_jump.goesOn
  | branchToSubroutine => exact follows_branchToSubroutine.goesOn
  | jumpToSubroutine => exact follows_jumpToSubroutine.goesOn
  | returnFromSubroutine => exact follows_returnFromSubroutine.goesOn
  | branchOnBit onSet update => exact (follows_branchOnBit onSet update).goesOn
  | branchOnLowBit onSet => exact (follows_branchOnLowBit onSet).goesOn
  | addCompareBranch => exact follows_addCompareBranch.goesOn
  | addOneBranch inclusive => exact (follows_addOneBranch inclusive).goesOn
  | subtractOneBranch inclusive => exact (follows_subtractOneBranch inclusive).goesOn
  | extractField isSigned => exact (follows_extractField isSigned).goesOn
  | call => exact follows_call.goesOn
  | returnFromCall => exact follows_returnFromCall
  | longToPacked => exact follows_longToPacked.goesOn
  | editPacked => exact follows_editPacked.goesOn
  | scan forEqual => exact (follows_scan forEqual).goesOn
  | copyString => exact follows_copyString.goesOn
  | systemCall => exact follows_systemCall

theorem follows_fetchNext : Follows id fetchNext Exec.fetchNext := by
  refine follows_get.bind fun m => ?_
  have hfetch : (instructionAt m.memory m.registers.pc).run =
      some (m.memory.instructionAt m.registers.pc) :=
    (follows_instructionAt _ _).eq
  refine .compute hfetch ?_
  cases m.memory.instructionAt m.registers.pc with
  | ok i => exact (follows_setPc _).bind fun _ => follows_pure id _
  | error cause => exact follows_throw _

theorem fetchNext_eq : fetchNext = ofExec Exec.fetchNext :=
  follows_fetchNext.eq

end Checked

/-! ## Dispatches that go too far -/

theorem Catalog.bits_of_select : ∀ d ∈ descriptors, d.action = .select →
    (Width.ofOpcode d.code.toNat).bits ≤ 16 ∨
      (Width.ofOpcode d.code.toNat).bits = 32 ∧ d.code = 0xcf := by
  decide +kernel

namespace Machine

/-- The next instruction dispatches to an entry that is too far. -/
def DispatchesTooFar (m : Machine) : Prop :=
  m.isStopped = false ∧ ∃ i, m.start.memory.instructionAt m.start.registers.pc = .ok i ∧
    i.descriptor.action = .select ∧ Exec.DispatchesTooFar i (m.start.fetched i)

/-- One instruction with plain arithmetic, starting the program first if need be. -/
def checkedStep (m : Machine) : Option Machine :=
  match m.status with
  | .notStarted => Checked.executeNext m.start
  | .running => Checked.executeNext m
  | .halted _ | .faulted _ => some m

/-- Runs with plain arithmetic until the program stops, for at most `steps` steps. -/
def checkedRun : Nat → Machine → Option Machine
  | 0, m => some m
  | steps + 1, m =>
    if m.isStopped then some m
    else do checkedRun steps (← m.checkedStep)

variable {m : Machine} {i : Instruction}

theorem checked_executeNext_of_run
    (h : (Checked.fetchNext >>= Checked.execute) m.begun =
      Checked.ofExec (Exec.fetchNext >>= Exec.execute) m.begun) :
    Checked.executeNext m = some m.executeNext := by
  refine Checked.bind_eq_some (Checked.begun_eq m) (Checked.bind_eq_some h ?_)
  unfold executeNext
  cases (Exec.fetchNext >>= Exec.execute).run m.begun with
  | ok halt after => cases halt <;> rfl
  | error cause after => rfl

theorem checked_executeNext_of_execute
    (h : ∀ i, m.memory.instructionAt m.registers.pc = .ok i →
      Checked.execute i (m.fetched i) = Checked.ofExec (Exec.execute i) (m.fetched i)) :
    Checked.executeNext m = some m.executeNext := by
  apply checked_executeNext_of_run
  rw [Checked.ofExec_bind, Checked.fetchNext_eq]
  cases hfetch : m.memory.instructionAt m.registers.pc with
  | ok i =>
    have hrun : Exec.fetchNext.run m.begun = .ok i (m.fetched i) := Exec.run_fetchNext hfetch
    rw [Checked.bind_ok hrun, Checked.bind_ok hrun, h i hfetch]
  | error cause =>
    have hrun := Exec.run_fetchNext_error (m := m.begun) hfetch
    rw [Checked.bind_error hrun, Checked.bind_error hrun]

theorem checked_executeNext_eq_none (hfetch : m.memory.instructionAt m.registers.pc = .ok i)
    (h : Checked.execute i (m.fetched i) = none) : Checked.executeNext m = none := by
  have hrun : Exec.fetchNext.run m.begun = .ok i (m.fetched i) := Exec.run_fetchNext hfetch
  have hnone : (Checked.fetchNext >>= Checked.execute) m.begun = none := by
    rw [Checked.fetchNext_eq, Checked.bind_ok hrun, h]
  rw [Checked.executeNext, Checked.begun_eq]
  exact congrArg (· >>= _) hnone

theorem checked_execute_of_not_dispatchesTooFar
    (h : i.descriptor.action = .select → ¬ Exec.DispatchesTooFar i m) :
    Checked.execute i m = Checked.ofExec (Exec.execute i) m := by
  by_cases haction : i.descriptor.action = .select
  · have hselect := Checked.select_of_not_dispatchesTooFar (h haction)
    unfold Checked.execute Exec.execute
    rw [haction]
    dsimp only
    rw [Checked.goesOn, Exec.goesOn, Checked.ofExec_bind]
    exact congrArg (· >>= _) hselect
  · exact congrFun (Checked.follows_execute haction).eq m

theorem checked_execute_of_dispatchesTooFar (haction : i.descriptor.action = .select)
    (hwidth : i.width.bits ≤ 32) (h : Exec.DispatchesTooFar i m) : Checked.execute i m = none := by
  have hselect := Checked.select_of_dispatchesTooFar hwidth h
  unfold Checked.execute
  rw [haction]
  exact congrArg (· >>= _) hselect

theorem checkedStep_of_not_isStopped (h : m.isStopped = false) :
    m.checkedStep = Checked.executeNext m.start := by
  unfold checkedStep Machine.start
  obtain hstatus | hstatus := status_of_not_isStopped h <;> rw [hstatus]

theorem checkedStep_of_isStopped (h : m.isStopped = true) : m.checkedStep = some m := by
  rw [isStopped] at h
  unfold checkedStep
  cases hstatus : m.status with
  | notStarted | running => simp [hstatus] at h
  | halted halt | faulted fault => rfl

theorem bits_of_select {address : UInt32} (hfetch : m.memory.instructionAt address = .ok i)
    (haction : i.descriptor.action = .select) :
    i.width.bits ≤ 16 ∨ i.width.bits = 32 ∧ i.descriptor.code = 0xcf :=
  Catalog.bits_of_select _ (Memory.isEncodedIn_of_instructionAt hfetch).catalogued haction

theorem checkedStep_of_dispatchesTooFar (h : m.DispatchesTooFar) : m.checkedStep = none := by
  obtain ⟨hstopped, i, hfetch, haction, hfar⟩ := h
  have hwidth := bits_of_select hfetch haction
  rw [checkedStep_of_not_isStopped hstopped]
  exact checked_executeNext_eq_none hfetch
    (checked_execute_of_dispatchesTooFar haction (by omega) hfar)

/-- Bytes and words are never too far. -/
theorem code_of_dispatchesTooFar (h : m.DispatchesTooFar) :
    ∃ i, m.start.memory.instructionAt m.start.registers.pc = .ok i ∧
      i.descriptor.code = 0xcf := by
  obtain ⟨-, i, hfetch, haction, entry, limit, after, -, -, hfar⟩ := h
  refine ⟨i, hfetch, ?_⟩
  rcases bits_of_select hfetch haction with hshort | ⟨-, hcode⟩
  · have hlt := entry.isLt
    have hle : 2 ^ i.width.bits ≤ 2 ^ 16 := Nat.pow_le_pow_right (by decide) hshort
    omega
  · exact hcode

theorem checkedStep_of_not_dispatchesTooFar (h : ¬ m.DispatchesTooFar) :
    m.checkedStep = some m.step := by
  cases hstopped : m.isStopped with
  | true =>
    have hstep : m.step = m := iterate_step_of_isStopped hstopped 1
    rw [checkedStep_of_isStopped hstopped, hstep]
  | false =>
    rw [checkedStep_of_not_isStopped hstopped, step_of_not_isStopped hstopped]
    refine checked_executeNext_of_execute fun i hfetch =>
      checked_execute_of_not_dispatchesTooFar fun haction hfar => ?_
    exact h ⟨hstopped, i, hfetch, haction, hfar⟩

/-- A run with plain arithmetic is the run for as long as no dispatch goes too far. -/
theorem checkedRun_of_not_dispatchesTooFar (steps : Nat)
    (h : ∀ k < steps, ¬ (m.run k).DispatchesTooFar) : m.checkedRun steps = some (m.run steps) := by
  induction steps generalizing m with
  | zero => rfl
  | succ steps ih =>
    rw [checkedRun, run]
    cases hstopped : m.isStopped with
    | true => rfl
    | false =>
      have hfirst : m.checkedStep = some m.step :=
        checkedStep_of_not_dispatchesTooFar (h 0 (Nat.succ_pos steps))
      have hrest : m.step.checkedRun steps = some (m.step.run steps) := by
        refine ih fun k hk => ?_
        have hnext := h (k + 1) (Nat.succ_lt_succ hk)
        rwa [run, hstopped] at hnext
      exact Checked.bind_eq_some hfirst hrest

/-- The arithmetic of a step fails exactly in a dispatch to an entry that is too
far, which only the case instruction of longwords makes; any other step is what
the machine does. -/
theorem step_fails_only_in_far_dispatch (m : Machine) :
    (m.checkedStep = none ↔ m.DispatchesTooFar) ∧
      (∀ after, m.checkedStep = some after → after = m.step) ∧
      (m.DispatchesTooFar → ∃ i, m.start.memory.instructionAt m.start.registers.pc = .ok i ∧
        i.descriptor.code = 0xcf) := by
  refine ⟨?_, ?_, code_of_dispatchesTooFar⟩
  · by_cases h : m.DispatchesTooFar
    · exact iff_of_true (checkedStep_of_dispatchesTooFar h) h
    · rw [checkedStep_of_not_dispatchesTooFar h]
      exact iff_of_false (Option.some_ne_none _) h
  · intro after hafter
    by_cases h : m.DispatchesTooFar
    · rw [checkedStep_of_dispatchesTooFar h] at hafter
      exact absurd hafter.symm (Option.some_ne_none after)
    · rw [checkedStep_of_not_dispatchesTooFar h] at hafter
      exact (Option.some.inj hafter).symm

/-- With 3 in `r1` the second entry of the table `casel r1,$2,$1` is not too far. -/
theorem step_fails_only_in_far_dispatch_near :
    let m : Machine :=
      { registers := (Registers.zeroed.set 1 3).set Register.pc 4
        memory := ⟨0, 64, [0, 0, 0, 0, 0xcf, 0x51, 2, 1, 4, 0, 8, 0].toByteArray⟩
        symbols := .empty, entry := 0, status := .running, frames := #[],
        output := .unlimited, log := .empty none, current := 0 }
    ¬ m.DispatchesTooFar ∧ m.checkedStep = some m.step ∧ m.step.registers.pc = 16 := by
  intro m
  obtain ⟨hnone, hsame, -⟩ := step_fails_only_in_far_dispatch m
  obtain ⟨after, hafter⟩ := Option.isSome_iff_exists.1
    (by decide +kernel : m.checkedStep.isSome = true)
  have hpc : m.step.registers.pc = 16 := by decide +kernel
  refine ⟨fun hfar => ?_, by rw [hafter, hsame after hafter], hpc⟩
  rw [hnone.2 hfar] at hafter
  exact absurd hafter.symm (Option.some_ne_none after)

end Machine

/-- `casel pc,$0,pc`, which picks the entry that has the address of the table
as its number. -/
def Instruction.Encoding.caseOnPc : Instruction.Encoding :=
  ⟨⟨0xcf, "casel", [.long, .long, .long], .select⟩,
    [⟨.long, .plain (.register Register.pc)⟩, ⟨.long, .plain (.literal 0)⟩,
      ⟨.long, .plain (.register Register.pc)⟩]⟩

namespace Machine

variable {m : Machine}

theorem dispatchesTooFar_of_caseOnPc (hrunning : m.status = .running)
    (hholds : m.memory.Holds m.registers.pc Instruction.Encoding.caseOnPc.fields)
    (hfar : 2 ^ 31 ≤ (m.registers.pc + 4).toNat) : m.DispatchesTooFar := by
  have he : Instruction.Encoding.caseOnPc.WellFormed := by
    refine ⟨by decide +kernel, rfl, fun operand hoperand => ?_⟩
    simp only [Instruction.Encoding.caseOnPc, List.mem_cons, List.not_mem_nil, or_false] at hoperand
    rcases hoperand with rfl | rfl | rfl
    · exact ⟨rfl, trivial, nofun⟩
    · exact ⟨rfl, (by decide : (0 : UInt8).toNat < 64), nofun⟩
    · exact ⟨rfl, trivial, nofun⟩
  obtain ⟨position, hopcode, hoperands⟩ := Decoding.decodes_of_holds he hholds
  have hfetch := Decoding.instructionAt_of_known hopcode
  rw [hoperands] at hfetch
  have hstart : m.start = m := by rw [start, hrunning]
  refine ⟨by rw [isStopped, hrunning], Instruction.Encoding.caseOnPc.instruction m.registers.pc, ?_⟩
  rw [hstart]
  have hpc : (m.fetched (Instruction.Encoding.caseOnPc.instruction m.registers.pc)).registers.get
      Register.pc = m.registers.pc + 4 :=
    Registers.get_set_self _ _ _
  have hvalue : ((m.fetched (Instruction.Encoding.caseOnPc.instruction
      m.registers.pc)).registers.pair Register.pc).setWidth 32 = (m.registers.pc + 4).toBitVec := by
    rw [Registers.pair, hpc]
    exact BitVec.setWidth_append_eq_right
  refine ⟨hfetch, rfl, _, _, _, rfl, ?_⟩
  change Exec.IsTooFar (BitVec.setWidth (Width.ofOpcode 207).bits _ -
    (Width.ofOpcode 207).truncate 0) (BitVec.setWidth (Width.ofOpcode 207).bits _)
  change Exec.IsTooFar (BitVec.setWidth 32 _ - BitVec.ofNat 32 0) (BitVec.setWidth 32 _)
  rw [hvalue, BitVec.sub_zero]
  exact ⟨Nat.le_refl _, hfar⟩

/-- A program that fails in its first step: the text begins with an entry mask
and a dispatch on the program counter. -/
theorem first_step_fails :
    let h : Header :=
      { magic := 0x108, text := 6, data := 0, bss := 0, syms := 0, entry := 0x80000000, trsize := 0,
        drsize := 0 }
    let p : Program := ⟨some h, [0, 0, 0xcf, 0x5f, 0, 0x5f], [], SymbolTable.empty⟩
    Program.ofFile (h.toBytes ++ p.text) = .ok p ∧
      ∃ m, load p ["a.out"] 0x40000 (.empty none) = .ok m ∧ m.start.status = .running ∧
        m.start.checkedStep = none := by
  intro h p
  have hfile : Program.ofFile (h.toBytes ++ p.text) = .ok p := by
    rw [Program.ofFile_of_executableHeader? (h := h) (by decide +kernel)]
    rfl
  obtain ⟨m, hload, hstatus, hpc⟩ := exists_ok_of_any (load p ["a.out"] 0x40000 (.empty none))
    (fun m => m.status = .notStarted ∧ m.registers.pc = 0x80000000) (by decide +kernel)
  obtain ⟨-, hmemory, -⟩ := exists_of_load (h := h) rfl hload
  obtain ⟨hbase, hsize, -⟩ := exists_segments hmemory
  have hspares : m.memory.Spares (programBytes h p).length
      (stackStores m.memory.top (["a.out"].map Utf8.encode)) := by
    rw [spares_stackStores_iff (hbase ▸ h.toNat_base_mod_four) (hsize ▸ by decide)
      (hsize ▸ by decide +kernel), hsize]
    decide +kernel
  have hread := slice_of_spares hmemory (by decide +kernel) (by decide +kernel)
    (by decide +kernel) hspares
  have hfields : programBytes h p = ([[0, 0]] ++ (Instruction.Encoding.caseOnPc.fields ++
      [List.replicate 506 0])).flatten := by
    decide +kernel
  have hoffset := Memory.offset_of_base hbase
  rw [hfields, ← Memory.holds_iff_slice (by rw [hoffset]; decide +kernel)
    (hoffset ▸ Nat.zero_le _), Memory.holds_append, Memory.holds_append] at hread
  have hstart : m.start.status = .running ∧ m.start.memory = m.memory ∧
      m.start.registers.pc = 0x80000002 := by
    unfold start
    rw [hstatus]
    refine ⟨rfl, rfl, (Registers.get_set_self _ _ _).trans ?_⟩
    exact congrArg (· + 2) hpc
  obtain ⟨hrunning, hsame, hnext⟩ := hstart
  have hfar : m.start.DispatchesTooFar := by
    refine dispatchesTooFar_of_caseOnPc hrunning ?_ (by rw [hnext]; decide)
    rw [hsame, hnext]
    exact hread.2.1
  exact ⟨hfile, m, hload, hrunning, checkedStep_of_dispatchesTooFar hfar⟩

end Machine

end Vax
