import Vax.Proofs.Machine.Logging
/-!
# What symbols and the call stack have to do with execution

Symbols and the call stack are there for whoever reads a log or a diagnosis.
Machines that differ in them do the same, however far the call stack of either
is from the procedures its program has called.
-/

namespace Vax

namespace Machine

variable {m m' : Machine}

/-- The machines agree in all that execution works on. -/
structure SameCourse (m m' : Machine) : Prop where
  registers_eq : m'.registers = m.registers
  memory_eq : m'.memory = m.memory
  entry_eq : m'.entry = m.entry
  status_eq : m'.status = m.status
  output_eq : m'.output = m.output

theorem Alike.sameCourse {c : Comparison} (h : m.Alike c m') : m.SameCourse m' :=
  ⟨h.registers_eq, h.memory_eq, h.entry_eq, h.status_eq, h.output_eq⟩

theorem begun_setCurrent (m : Machine) (address : UInt32) :
    { m with current := address }.begun = m.begun :=
  rfl

/-- A step does not look at which instruction was begun before. -/
theorem step_setCurrent (h : m.isStopped = false) (address : UInt32) :
    { m with current := address }.step = m.step := by
  have hstart : { m with current := address }.start = { m.start with current := address } := by
    obtain ⟨registers, memory, symbols, entry, status, frames, output, log, current⟩ := m
    cases status <;> rfl
  have hstopped : { m with current := address }.isStopped = false := h
  rw [step_of_not_isStopped h, step_of_not_isStopped hstopped, hstart]
  unfold executeNext
  rw [begun_setCurrent]

namespace SameCourse

theorem setCurrent (h : m.SameCourse m') (address : UInt32) :
    m.SameCourse { m' with current := address } :=
  { h with }

/-- Nothing is said about symbols and the call stack. -/
theorem alike (h : m.SameCourse m') (hcurrent : m'.current = m.current) :
    m.Alike ⟨False, m.log.threshold, m'.log.threshold⟩ m' where
  registers_eq := h.registers_eq
  memory_eq := h.memory_eq
  entry_eq := h.entry_eq
  status_eq := h.status_eq
  output_eq := h.output_eq
  current_eq := hcurrent
  symbols_eq := False.elim
  frames_eq := False.elim
  threshold_eq := rfl
  threshold_eq' := rfl

theorem step (h : m.SameCourse m') (hlog : m'.log.enabled .debug = m.log.enabled .debug) :
    m.step.SameCourse m'.step := by
  have hstopped' : m'.isStopped = m.isStopped := by rw [isStopped, isStopped, h.status_eq]
  cases hstopped : m.isStopped with
  | true =>
    have hstep : m.step = m := iterate_step_of_isStopped hstopped 1
    have hstep' : m'.step = m' := iterate_step_of_isStopped (hstopped'.trans hstopped) 1
    rw [hstep, hstep']
    exact h
  | false =>
    have halike := (h.setCurrent m.current).alike rfl
    rw [← step_setCurrent (hstopped'.trans hstopped) m.current]
    exact (halike.step (.inl hlog.symm)).sameCourse

end SameCourse

end Machine

/-- Machines that agree in registers, memory, entry, status and output keep
agreeing in them, whatever their symbols and call stacks.  Their logs have to
agree on whether system calls are recorded, which decides whether the argument
of a close is looked at. -/
theorem diagnostics_never_steer {m m' : Machine} (h : m.SameCourse m')
    (hlog : m'.log.enabled .debug = m.log.enabled .debug) (n : Nat) :
    (Machine.step^[n] m).SameCourse (Machine.step^[n] m') := by
  induction n with
  | zero => exact h
  | succ n ih =>
    rw [Function.iterate_succ_apply', Function.iterate_succ_apply']
    refine ih.step ?_
    rw [Machine.enabled_iterate_step, Machine.enabled_iterate_step]
    exact hlog

/-- A program that calls a procedure and returns, with nothing known about it
and with a name for the procedure and a call stack that is wrong. -/
theorem diagnostics_never_steer_calling :
    let m (symbols : SymbolTable) (frames : Array Frame) : Machine :=
      { registers := Registers.zeroed.set Register.sp 64
        memory := ⟨0, 64, [0, 0, 0xfb, 0, 0xaf, 2, 4, 0, 0, 0, 4].toByteArray⟩
        symbols := symbols, entry := 0, status := .notStarted, frames := frames,
        output := .unlimited, log := .empty none, current := 0 }
    let plain := m .empty #[]
    let named := m (.ofList [⟨"_start", 5, 0, 0, 8, 8⟩]) #[⟨4, "_main"⟩, ⟨8, "_start"⟩]
    (Machine.step^[1] plain).frames ≠ (Machine.step^[1] named).frames ∧
      (Machine.step^[3] plain).status = .halted (.returned 0) ∧
      ∀ n, (Machine.step^[n] plain).SameCourse (Machine.step^[n] named) := by
  intro m plain named
  have hsame : plain.SameCourse named := ⟨rfl, rfl, rfl, rfl, rfl⟩
  exact ⟨by decide +kernel, by decide +kernel, fun n => diagnostics_never_steer hsame rfl n⟩

end Vax
