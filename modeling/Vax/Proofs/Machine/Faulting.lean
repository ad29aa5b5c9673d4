import Vax.Proofs.Machine.Outcome
import Vax.Proofs.Machine.Listed
/-!
# Faults stop cleanly

A step that faults stops the program at the instruction it began.  An
instruction that cannot be decoded has changed nothing by then.  One that can
has changed no more than the handful of things that come before its last
possible fault.
-/

namespace Vax

/-- What an instruction that faults leaves as it was. -/
structure Instruction.FaultKeeps (i : Instruction) (m after : Machine) : Prop where
  memory : i.descriptor.action ≠ .call → i.descriptor.action ≠ .longToPacked →
    i.descriptor.action ≠ .editPacked → after.memory = m.memory
  flags : i.descriptor.action ≠ .select → i.descriptor.action ≠ .returnFromCall →
    after.registers.flags = m.registers.flags
  registers : i.descriptor.action ≠ .returnFromCall → ∀ r, r ≠ Register.pc → r ≠ Register.sp →
    ¬ i.Steps r → after.registers.get r = m.registers.get r
  frames : after.frames = m.frames
  output : after.output = m.output
  symbols : after.symbols = m.symbols
  entry : after.entry = m.entry

namespace Machine

variable {m : Machine} {i : Instruction}

theorem faultKeeps_of_changesOnly {after : Machine}
    (h : (m.fetched i).ChangesOnly i.onFault after) : i.FaultKeeps m after where
  memory hcall hlongToPacked heditPacked :=
    h.memory.resolve_right fun hchanges =>
      hchanges.elim hcall fun hpacked => hpacked.elim hlongToPacked heditPacked
  flags hselect hreturn :=
    h.flags.resolve_right fun hchanges => hchanges.elim hselect hreturn
  registers hreturn r hpc hsp hsteps := by
    have hkept := (h.registers r).resolve_right fun hchanges =>
      hchanges.elim hsteps fun hstack => hstack.elim hsp hreturn
    rw [hkept]
    exact Registers.get_set_of_ne _ _ hpc.symm
  frames := h.frames.resolve_right id
  output := h.output.resolve_right id
  symbols := h.symbols
  entry := h.entry

/-- What cannot be decoded has been looked at and no more. -/
theorem step_of_instructionAt_error {cause : Fault.Cause} (hrunning : m.status = .running)
    (hfetch : m.memory.instructionAt m.registers.pc = .error cause) :
    ∃ log, m.step = { m with
      status := .faulted ⟨m.registers.pc, cause⟩, current := m.registers.pc, log := log } := by
  have hfetched : Exec.fetchNext.run m.begun = .error cause m.begun :=
    Exec.run_fetchNext_error (m := m.begun) hfetch
  obtain ⟨log, hended⟩ := m.begun.ended_eq (.faulted ⟨m.registers.pc, cause⟩)
  refine ⟨log, ?_⟩
  rw [step_of_running hrunning]
  unfold executeNext
  rw [Exec.run_bind_error hfetched]
  exact hended

/-- A program that has stopped stays as it is. -/
theorem iterate_step_of_isStopped (h : m.isStopped = true) (n : Nat) : step^[n] m = m := by
  apply Function.iterate_fixed
  unfold step
  cases hstatus : m.status with
  | notStarted | running =>
      rw [isStopped, hstatus] at h
      exact absurd h Bool.false_ne_true
  | halted halt | faulted fault => rfl

end Machine

/-- A step that faults names the instruction it began, and every later step
finds the program as this one left it.  An instruction that could not be
fetched or decoded has changed nothing but the status, besides the log and the
note of what was begun. -/
theorem faulting_step_stops_cleanly {m : Machine} {fault : Fault} (hrunning : m.status = .running)
    (hfault : m.step.status = .faulted fault) :
    fault.address = m.registers.pc ∧
      (∀ cause, m.memory.instructionAt m.registers.pc = .error cause → fault.cause = cause ∧
        ∃ log, m.step =
          { m with status := .faulted fault, current := m.registers.pc, log := log }) ∧
      (∀ i, m.memory.instructionAt m.registers.pc = .ok i → i.FaultKeeps m m.step) ∧
      ∀ n, Machine.step^[n] m.step = m.step := by
  have hstays := Machine.iterate_step_of_isStopped (m := m.step) (by rw [Machine.isStopped, hfault])
  cases hfetch : m.memory.instructionAt m.registers.pc with
  | error cause =>
      obtain ⟨log, hstep⟩ := Machine.step_of_instructionAt_error hrunning hfetch
      rw [hstep] at hfault
      obtain rfl := Status.faulted.inj hfault
      refine ⟨rfl, ?_, ?_, hstays⟩
      · rintro cause' hcause
        exact ⟨Except.error.inj hcause, log, hstep⟩
      · rintro i hi
        cases hi
  | ok i =>
      have houtcome := Machine.outcome_of_running hrunning hfetch
      generalize m.step = after at houtcome hfault hstays ⊢
      cases houtcome with
      | continued hrun hchanges =>
          have hstatus : after.status = .running := hchanges.status.trans hrunning
          cases hstatus.symm.trans hfault
      | halted hrun hchanges =>
          exact Status.noConfusion ((Machine.status_flushed _).symm.trans hfault)
      | @faulted cause stopped hrun hchanges =>
          obtain ⟨log, hended⟩ := stopped.ended_eq (.faulted ⟨m.registers.pc, cause⟩)
          rw [hended] at hfault hstays ⊢
          obtain rfl := Status.faulted.inj hfault
          refine ⟨rfl, ?_, ?_, hstays⟩
          · rintro cause' hcause
            cases hcause
          · rintro i' hi'
            obtain rfl := Except.ok.inj hi'
            have hkeeps := Machine.faultKeeps_of_changesOnly hchanges
            exact ⟨hkeeps.memory, hkeeps.flags, hkeeps.registers, hkeeps.frames, hkeeps.output,
              hkeeps.symbols, hkeeps.entry⟩

/-- The second operand lies outside the image, after the first has stepped `r1`. -/
theorem faulting_step_stops_cleanly_moving :
    let m : Machine :=
      { registers := Registers.zeroed.set 2 64
        memory := ⟨0, 64, [0xd0, 0x81, 0x62].toByteArray⟩
        symbols := .empty, entry := 0, status := .running, frames := #[],
        output := .unlimited, log := .empty none, current := 0 }
    let i : Instruction :=
      { address := 0, length := 3, descriptor := ⟨0xd0, "movl", [.long, .long], .move⟩
        operands := [⟨.long, .plain (.autoincrement 1)⟩, ⟨.long, .plain (.deferred 2)⟩] }
    m.memory.instructionAt m.registers.pc = .ok i ∧
      m.step.status = .faulted ⟨0, .memory ⟨64, 4⟩⟩ ∧ m.step.registers.get 1 = 4 ∧
      m.step.memory = m.memory ∧ m.step.registers.flags = m.registers.flags ∧
      m.step.registers.get 2 = 64 ∧ ∀ n, Machine.step^[n] m.step = m.step := by
  intro m i
  have hfetch : m.memory.instructionAt m.registers.pc = .ok i :=
    Memory.instructionAt_of_toOption (by decide +kernel)
  have hfault : m.step.status = .faulted ⟨0, .memory ⟨64, 4⟩⟩ := by decide +kernel
  obtain ⟨-, -, hkeeps, hstays⟩ := faulting_step_stops_cleanly rfl hfault
  have hkept := hkeeps i hfetch
  have hsteps : ¬ i.Steps 2 := by
    unfold Instruction.Steps
    decide
  exact ⟨hfetch, hfault, by decide +kernel, hkept.memory nofun nofun nofun,
    hkept.flags nofun nofun, hkept.registers nofun 2 (by decide) (by decide) hsteps, hstays⟩

end Vax
