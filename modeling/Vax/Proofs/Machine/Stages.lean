import Vax.Proofs.Machine.Outcome
/-!
# Instructions in two stages

An instruction evaluates its operands, looks at what they are, and then acts.
Up to there nothing changes but the registers that the operands step, so what a
step does follows from what its second stage does to such a machine.
-/

namespace Vax

namespace Exec

variable {α β : Type} {m located : Machine} {i : Instruction}

/-- Evaluates the operands of an instruction and looks at what they are. -/
def Evaluates (i : Instruction) (x : Exec α) : Prop :=
  ∃ look : List Location → Exec α, x = locateAll i >>= look ∧ ∀ locations, Still (look locations)

theorem evaluates_locateAll (i : Instruction) : Evaluates i (locateAll i) :=
  ⟨pure, (bind_pure _).symm, fun _ => still_pure _⟩

theorem Evaluates.bind {x : Exec α} {k : α → Exec β} (h : Evaluates i x)
    (hk : ∀ a, Still (k a)) : Evaluates i (x >>= k) := by
  obtain ⟨look, rfl, hlook⟩ := h
  exact ⟨fun locations => look locations >>= k, bind_assoc _ _ _,
    fun locations => (hlook locations).bind hk⟩

theorem evaluates_locate3 (i : Instruction) : Evaluates i (locate3 i) := by
  refine (evaluates_locateAll i).bind fun locations => ?_
  split
  · exact still_pure _
  · exact still_reservedOperand i

theorem evaluates_locate4 (i : Instruction) : Evaluates i (locate4 i) := by
  refine (evaluates_locateAll i).bind fun locations => ?_
  split
  · exact still_pure _
  · exact still_reservedOperand i

theorem Evaluates.differsIn {x : Exec α} {a : α} (h : Evaluates i x)
    (hx : x.run m = .ok a located) : m.DiffersIn located i.Steps := by
  obtain ⟨look, rfl, hlook⟩ := h
  obtain ⟨locations, between, hall, hlooks⟩ := run_bind_eq_ok.1 hx
  rw [(hlook locations).ok _ _ _ hlooks]
  exact differsIn_locateAll hall

end Exec

namespace Machine

variable {α : Type} {m located after : Machine} {i : Instruction} {x : Exec α}
  {body : α → Exec Unit} {a : α}

/-- Evaluating operands leaves this alone. -/
theorem eq_of_located {rs : Register → Prop} (h : (m.fetched i).DiffersIn located rs) :
    located.memory = m.memory ∧ located.status = m.status ∧
      located.current = m.registers.pc := by
  rw [h.machine_eq]
  exact ⟨rfl, rfl, rfl⟩

theorem step_of_stages (hrunning : m.status = .running)
    (hfetch : m.memory.instructionAt m.registers.pc = .ok i)
    (hexecute : Exec.execute i = Exec.goesOn (x >>= body))
    (hx : x.run (m.fetched i) = .ok a located) (hbody : (body a).run located = .ok () after) :
    m.step = after := by
  have hfetched : Exec.fetchNext.run m.begun = .ok i (m.fetched i) :=
    Exec.run_fetchNext (m := m.begun) hfetch
  apply step_of_run hrunning
  rw [Exec.run_bind_ok hfetched, hexecute, Exec.goesOn, bind_assoc, Exec.run_bind_ok hx,
    Exec.run_bind_ok hbody]
  rfl

/-- A fault of the second stage is one of the step. -/
theorem step_of_stages_error {cause : Fault.Cause} (hrunning : m.status = .running)
    (hfetch : m.memory.instructionAt m.registers.pc = .ok i)
    (hexecute : Exec.execute i = Exec.goesOn (x >>= body))
    (hx : x.run (m.fetched i) = .ok a located)
    (hbody : (body a).run located = .error cause after) :
    ∃ log, m.step =
      { after with status := .faulted ⟨after.current, cause⟩, log := log } := by
  have hfetched : Exec.fetchNext.run m.begun = .ok i (m.fetched i) :=
    Exec.run_fetchNext (m := m.begun) hfetch
  have hrun : (Exec.fetchNext >>= Exec.execute).run m.begun = .error cause after := by
    rw [Exec.run_bind_ok hfetched, hexecute, Exec.goesOn, bind_assoc, Exec.run_bind_ok hx,
      Exec.run_bind_error hbody]
  rw [step_of_running hrunning, executeNext, hrun]
  exact ended_eq _ _

end Machine

end Vax
