import Vax.Machine.Conclusion
import Vax.Machine.Load
import Vax.Proofs.Machine.Faulting
import Vax.Proofs.Machine.Indifference
/-!
# What a log has to do with execution

Two machines that were loaded from one program do the same, step by step,
whatever their logs record.  The exception is the close call.  Its argument is
looked at only where it would be logged, so when it cannot be read the machine
faults with one log and goes on with the other.
-/

namespace Vax

namespace Machine

variable {c : Comparison} {m m' : Machine}

/-! ## One step -/

namespace Alike

theorem begun (h : m.Alike c m') : m.begun.Alike c m'.begun := by
  have hpc : m'.registers.pc = m.registers.pc := by rw [h.registers_eq]
  unfold Machine.begun
  rw [hpc]
  exact (h.setCurrent _).logged _ _ _

theorem start (h : m.Alike c m') : m.start.Alike c m'.start := by
  unfold Machine.start
  rw [h.status_eq]
  split
  · have hentered := h.pushFrame m.registers.pc
    rw [h.registers_eq]
    dsimp only
    rw [hentered.registers_eq]
    exact (hentered.setRegisters _).setStatus _
  · exact h

theorem flushed (h : m.Alike c m') : m.flushed.Alike c m'.flushed := by
  unfold Machine.flushed
  rw [h.output_eq]
  split
  · exact h
  · exact h.logged _ _ _

theorem ended (h : m.Alike c m') (status : Status) : (m.ended status).Alike c (m'.ended status) :=
  (h.setStatus status).flushed

end Alike

end Machine

open Exec

theorem Exec.blind_fetchNext {c : Comparison} : Blind c fetchNext := by
  refine blind_get (fun _ _ h => by rw [h.memory_eq, h.registers_eq]) fun _ => ?_
  split
  · exact (blind_setPc _).bind fun _ => blind_pure _
  · exact blind_throw _

namespace Machine

variable {c : Comparison} {m m' : Machine} {i : Instruction}

/-- The next instruction is a close whose argument cannot be read. -/
def ClosesUnread (m : Machine) : Prop :=
  m.isStopped = false ∧ ∃ i, m.start.memory.instructionAt m.start.registers.pc = .ok i ∧
    Exec.ClosesUnread i (m.start.fetched i)

theorem Alike.fetched (h : m.Alike c m') (i : Instruction) :
    (m.fetched i).Alike c (m'.fetched i) := by
  unfold Machine.fetched
  rw [h.registers_eq]
  exact h.begun.setRegisters _

theorem run_fetchNext_begun (h : fetchNext.run m.begun = .ok i m') :
    m.memory.instructionAt m.registers.pc = .ok i ∧ m' = m.fetched i := by
  cases hfetch : m.memory.instructionAt m.registers.pc with
  | ok other =>
    obtain ⟨rfl, rfl⟩ := EStateM.Result.ok.inj (h.symm.trans (run_fetchNext (m := m.begun) hfetch))
    exact ⟨rfl, rfl⟩
  | error cause => exact absurd (h.symm.trans (run_fetchNext_error (m := m.begun) hfetch)) nofun

theorem Alike.executeNext (h : m.Alike c m')
    (hclose : c.AgreesOn .debug ∨ ∀ i, m.memory.instructionAt m.registers.pc = .ok i →
      ¬ Exec.ClosesUnread i (m.fetched i)) :
    m.executeNext.Alike c m'.executeNext := by
  have hrun : Same c ((fetchNext >>= execute).run m.begun)
      ((fetchNext >>= execute).run m'.begun) := by
    refine (blind_fetchNext _ _ h.begun).bind fun i between between' hbegun hbetween =>
      same_execute hbetween (hclose.imp_right fun hnone => ?_)
    obtain ⟨hfetch, rfl⟩ := run_fetchNext_begun hbegun
    exact hnone i hfetch
  unfold Machine.executeNext
  generalize (fetchNext >>= execute).run m.begun = result,
    (fetchNext >>= execute).run m'.begun = result' at hrun
  cases hrun with
  | @ok halt after after' h =>
    cases halt with
    | none => exact h
    | some halt => exact h.ended _
  | error h =>
    dsimp only
    rw [h.current_eq]
    exact h.ended _

/-- A step leads from alike machines to alike machines. -/
theorem Alike.step (h : m.Alike c m') (hclose : c.AgreesOn .debug ∨ ¬ m.ClosesUnread) :
    m.step.Alike c m'.step := by
  have hstopped' : m'.isStopped = m.isStopped := by rw [isStopped, isStopped, h.status_eq]
  cases hstopped : m.isStopped with
  | true =>
    have hstep : m.step = m := iterate_step_of_isStopped hstopped 1
    have hstep' : m'.step = m' := iterate_step_of_isStopped (hstopped'.trans hstopped) 1
    rw [hstep, hstep']
    exact h
  | false =>
    rw [step_of_not_isStopped hstopped, step_of_not_isStopped (hstopped'.trans hstopped)]
    refine h.start.executeNext (hclose.imp_right fun hnot i hfetch hunread => ?_)
    exact hnot ⟨hstopped, i, hfetch, hunread⟩

/-- So does a run. -/
theorem Alike.iterate_step (h : m.Alike c m') {n : Nat}
    (hclose : c.AgreesOn .debug ∨ ∀ k < n, ¬ (Machine.step^[k] m).ClosesUnread) :
    (Machine.step^[n] m).Alike c (Machine.step^[n] m') := by
  induction n with
  | zero => exact h
  | succ n ih =>
    rw [Function.iterate_succ_apply', Function.iterate_succ_apply']
    have hbefore := ih (hclose.imp_right fun hnone k hk => hnone k (Nat.lt_succ_of_lt hk))
    exact hbefore.step (hclose.imp_right fun hnone => hnone n (Nat.lt_succ_self n))

/-! ## Where the logs make a difference -/

/-- Whether the argument of a close is looked at decides whether the machine
goes on. -/
theorem status_step_of_closesUnread (h : m.ClosesUnread) :
    (m.log.enabled .debug = true → m.step.status ≠ .running) ∧
      (¬ m.log.enabled .debug = true → m.step.status = .running) := by
  obtain ⟨hstopped, i, hfetch, hunread⟩ := h
  have hrunning := status_start hstopped
  have hlogs : (m.start.fetched i).log.enabled .debug = m.log.enabled .debug :=
    Log.enabled_congr ((Alike.refl m).start.fetched i).threshold_eq .debug
  obtain ⟨hfaults, hgoesOn⟩ := run_execute_of_closesUnread hunread
  rw [hlogs] at hfaults hgoesOn
  rw [step_of_not_isStopped hstopped, ← step_of_running hrunning]
  have houtcome := outcome_of_running hrunning hfetch
  generalize m.start.step = after at houtcome
  constructor
  · intro hlogged
    obtain ⟨cause, between, hrun⟩ := hfaults hlogged
    cases houtcome with
    | continued hrun' hchanges => exact absurd (hrun.symm.trans hrun') nofun
    | halted hrun' hchanges => exact absurd (hrun.symm.trans hrun') nofun
    | faulted hrun' hchanges =>
      intro hstatus
      exact absurd ((status_flushed _).symm.trans hstatus) nofun
  · intro hlogged
    obtain ⟨between, hrun⟩ := hgoesOn hlogged
    cases houtcome with
    | continued hrun' hchanges => exact hchanges.status.trans hrunning
    | halted hrun' hchanges => exact absurd (hrun.symm.trans hrun') nofun
    | faulted hrun' hchanges => exact absurd (hrun.symm.trans hrun') nofun

theorem Alike.closesUnread (h : m.Alike c m') (hunread : m.ClosesUnread) : m'.ClosesUnread := by
  obtain ⟨hstopped, i, hfetch, hunread⟩ := hunread
  refine ⟨?_, i, ?_, closesUnread_of_alike (h.start.fetched i) hunread⟩
  · rw [isStopped, h.status_eq]
    exact hstopped
  · rw [h.start.memory_eq, h.start.registers_eq]
    exact hfetch

/-! ## Runs -/

theorem run_eq_iterate (n : Nat) (m : Machine) : run n m = Machine.step^[n] m := by
  induction n generalizing m with
  | zero => rfl
  | succ n ih =>
    rw [run]
    split
    · next hstopped => exact (iterate_step_of_isStopped hstopped _).symm
    · exact ih m.step

/-- The machines differ in no more than their logs. -/
def SameButLog (m m' : Machine) : Prop :=
  m' = { m with log := m'.log }

theorem Alike.sameButLog (h : m.Alike c m') (htraced : c.isTraced) : m.SameButLog m' := by
  obtain ⟨registers, memory, symbols, entry, status, frames, output, log, current⟩ := m'
  obtain ⟨rfl, rfl, rfl, rfl, rfl, rfl, hsymbols, hframes, -, -⟩ := h
  obtain rfl := hsymbols htraced
  obtain rfl := hframes htraced
  rfl

theorem SameButLog.alike (h : m.SameButLog m') :
    m.Alike ⟨True, m.log.threshold, m'.log.threshold⟩ m' := by
  rw [h]
  exact ⟨rfl, rfl, rfl, rfl, rfl, rfl, fun _ => rfl, fun _ => rfl, rfl, rfl⟩

theorem enabled_iterate_step (m : Machine) (n : Nat) (level : Level) :
    (Machine.step^[n] m).log.enabled level = m.log.enabled level :=
  Log.enabled_congr ((Alike.refl m).iterate_step (n := n) (.inl rfl)).threshold_eq level

/-- As long as two runs differ in no more than their logs, a close that cannot
read its argument finds logs that agree. -/
theorem enabled_eq_of_closesUnread {n k : Nat}
    (hsame : ∀ k ≤ n, (Machine.step^[k] m).SameButLog (Machine.step^[k] m')) (hk : k < n)
    (hunread : (Machine.step^[k] m).ClosesUnread) :
    m.log.enabled .debug = m'.log.enabled .debug := by
  have hunread' := (hsame k (Nat.le_of_lt hk)).alike.closesUnread hunread
  obtain ⟨hstops, hruns⟩ := status_step_of_closesUnread hunread
  obtain ⟨hstops', hruns'⟩ := status_step_of_closesUnread hunread'
  have hstatus := (hsame (k + 1) hk).alike.status_eq
  rw [Function.iterate_succ_apply', Function.iterate_succ_apply'] at hstatus
  rw [enabled_iterate_step] at hstops hruns hstops' hruns'
  by_cases hlogged : m.log.enabled .debug = true
  · rw [hlogged]
    by_contra hother
    exact hstops hlogged (hstatus ▸ hruns' (Ne.symm hother))
  · have hnot : ¬ m'.log.enabled .debug = true :=
      fun hlogged' => hstops' hlogged' (hstatus.trans (hruns hlogged))
    rw [Bool.not_eq_true] at hlogged hnot
    rw [hlogged, hnot]

/-- Loading fails for one reason with every log, or gives machines that are
alike. -/
theorem load_alike (p : Program) (arguments : List String) (size : Nat) (log log' : Log) :
    (∃ e, load p arguments size log = .error e ∧ load p arguments size log' = .error e) ∨
      ∃ m m', load p arguments size log = .ok m ∧ load p arguments size log' = .ok m' ∧
        m.Alike ⟨True, log.threshold, log'.threshold⟩ m' := by
  unfold load
  cases p.header with
  | none => exact .inl ⟨_, rfl, rfl⟩
  | some h =>
    simp only [pure_bind]
    split
    · exact .inl ⟨_, rfl, rfl⟩
    · cases initialMemory h p (arguments.map Utf8.encode) size with
      | error e => exact .inl ⟨_, rfl, rfl⟩
      | ok memory =>
        refine .inr ⟨_, _, rfl, rfl, Alike.logged ?_ _ _ _⟩
        exact ⟨rfl, rfl, rfl, rfl, rfl, rfl, fun _ => rfl, fun _ => rfl, rfl, rfl⟩

end Machine

/-- Whatever is logged, a program is loaded alike and its runs differ in no
more than their logs.  Only where one log records what the other does not, at
the level of system calls, and a close cannot read its argument, do they part.
-/
theorem logs_matter_only_to_unread_close (p : Program) (arguments : List String) (size : Nat)
    (log log' : Log) :
    let load := Machine.load p arguments size
    (∃ e, load log = .error e ∧ load log' = .error e) ∨
    ∃ m m', load log = .ok m ∧ load log' = .ok m' ∧
      ∀ (output : Output) (n : Nat),
        let first : Machine := { m with output := output }
        let second : Machine := { m' with output := output }
        let neverParts := log.enabled .debug = log'.enabled .debug ∨
          ∀ k < n, ¬ (Machine.step^[k] first).ClosesUnread
        ((∀ k ≤ n, (Machine.step^[k] first).SameButLog (Machine.step^[k] second)) ↔ neverParts) ∧
          (neverParts →
            (Machine.run n first).exitStatus? = (Machine.run n second).exitStatus?) := by
  intro load
  obtain hfails | ⟨m, m', hload, hload', halike⟩ := Machine.load_alike p arguments size log log'
  · exact .inl hfails
  refine .inr ⟨m, m', hload, hload', ?_⟩
  intro output n first second neverParts
  have hstart := halike.setOutput output
  have hthreshold : first.log.enabled .debug = log.enabled .debug :=
    Log.enabled_congr halike.threshold_eq .debug
  have hthreshold' : second.log.enabled .debug = log'.enabled .debug :=
    Log.enabled_congr halike.threshold_eq' .debug
  have hsame : neverParts → ∀ k ≤ n,
      (Machine.step^[k] first).Alike _ (Machine.step^[k] second) :=
    fun hnever k hk => hstart.iterate_step
      (hnever.imp_right fun hnone j hj => hnone j (Nat.lt_of_lt_of_le hj hk))
  refine ⟨⟨?_, fun hnever k hk => (hsame hnever k hk).sameButLog trivial⟩, ?_⟩
  · intro hsame
    by_cases hlogs : log.enabled .debug = log'.enabled .debug
    · exact .inl hlogs
    · refine .inr fun k hk hunread => hlogs ?_
      rw [← hthreshold, ← hthreshold']
      exact Machine.enabled_eq_of_closesUnread hsame hk hunread
  · intro hnever
    rw [Machine.run_eq_iterate, Machine.run_eq_iterate, Machine.exitStatus?, Machine.exitStatus?,
      (hsame hnever n (Nat.le_refl n)).status_eq]

/-- A program, all of it in the data segment, that has a procedure close file 3
and returns.  The number of the file is read under one log and not under the
other. -/
theorem logs_matter_only_to_unread_close_closing :
    let h : Header :=
      { magic := 0x108, text := 0, data := 14, bss := 0, syms := 0, entry := 0x80000000
        trsize := 0, drsize := 0 }
    let p : Program :=
      ⟨some h, [], [0, 0, 0xdd, 3, 0xfb, 1, 0xaf, 1, 4, 0, 0, 0xbc, 6, 4], .empty⟩
    ∃ m m', Machine.load p ["a"] 72 (.empty (some .debug)) = .ok m ∧
      Machine.load p ["a"] 72 (.empty none) = .ok m' ∧
      let first : Machine := { m with output := .unlimited }
      let second : Machine := { m' with output := .unlimited }
      Event.mk .debug "close(3)" ∈ (Machine.run 5 first).log.events ∧
        (∀ k ≤ 5, (Machine.step^[k] first).SameButLog (Machine.step^[k] second)) ∧
        (Machine.run 5 second).exitStatus? = some 0 := by
  intro h p
  obtain ⟨m, hload, hlogged, hevent, hrunning, hlast, hstatus⟩ := Machine.exists_ok_of_any
    (Machine.load p ["a"] 72 (.empty (some .debug)))
    (fun m =>
      m.log.enabled .debug = true ∧
      Event.mk .debug "close(3)" ∈ (Machine.run 5 { m with output := .unlimited }).log.events ∧
      (∀ k : Fin 4, (Machine.step^[k + 1] { m with output := .unlimited }).status = .running) ∧
      ((Machine.step^[4] { m with output := .unlimited }).start.memory.instructionAt
        (Machine.step^[4] { m with output := .unlimited }).start.registers.pc).toOption.map
          (fun i => i.descriptor.action) = some .returnFromCall ∧
      (Machine.run 5 { m with output := .unlimited }).exitStatus? = some 0)
    (by decide +kernel)
  obtain ⟨e, hfails, -⟩ | ⟨m₁, m', hload₁, hload', hruns⟩ :=
    logs_matter_only_to_unread_close p ["a"] 72 (.empty (some .debug)) (.empty none)
  · exact absurd (hload.symm.trans hfails) nofun
  obtain rfl := Except.ok.inj (hload.symm.trans hload₁)
  have hnever : ∀ k < 5, ¬ (Machine.step^[k] { m with output := .unlimited }).ClosesUnread := by
    intro k hk hunread
    obtain hk | rfl : k < 4 ∨ k = 4 := by omega
    · have hstops := (Machine.status_step_of_closesUnread hunread).1
        ((Machine.enabled_iterate_step _ k .debug).trans hlogged)
      rw [← Function.iterate_succ_apply' Machine.step] at hstops
      exact hstops (hrunning ⟨k, hk⟩)
    · obtain ⟨-, i, hfetch, haction, -⟩ := hunread
      rw [hfetch] at hlast
      exact absurd (haction.symm.trans (Option.some.inj hlast)) nofun
  obtain ⟨hsame, hexit⟩ := hruns .unlimited 5
  exact ⟨m, m', hload, hload', hevent, hsame.2 (.inr hnever),
    (hexit (.inr hnever)).symm.trans hstatus⟩

/-- A program that closes a file before it was called returns unless its
system calls are logged. -/
theorem unread_close_depends_on_log :
    let m (log : Log) : Machine :=
      { registers := (Registers.zeroed.set Register.pc 0x80000000).set Register.sp 0x80000fe8
        memory := ⟨0x80000000, 0x1000, [0, 0, 0xbc, 6, 4].toByteArray⟩
        symbols := .empty, entry := 0x80000000, status := .notStarted, frames := #[],
        output := .unlimited, log := log, current := 0x80000000 }
    (Machine.run 2 (m (.empty none))).status = .halted (.returned 0) ∧
      (Machine.run 2 (m (.empty (some .debug)))).status =
        .faulted ⟨0x80000002, .memory ⟨4, 4⟩⟩ := by
  decide +kernel

end Vax
