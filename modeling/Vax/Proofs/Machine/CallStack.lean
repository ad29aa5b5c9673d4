import Vax.Machine.Load
import Vax.Proofs.Machine.Loading
import Vax.Proofs.Machine.Logging
/-!
# The call stack follows the calls

The call stack of a run is compared with what the steps so far have done.  A
completed call enters a procedure and a completed return leaves one, the entry
procedure apart.  Nothing else changes the call stack, not even a call or a
return that faults on its way or a return that ends the program.
-/

namespace Vax

open Exec

/-- What a step does to the call stack. -/
inductive Transfer where
  | called (procedure : UInt32)
  | returned
  deriving DecidableEq, Repr

/-- How many procedures are active after a transfer, the entry procedure
included. -/
def Transfer.depth : Nat → Transfer → Nat
  | depth, called _ => depth + 1
  | depth, returned => max 1 (depth - 1)

/-- The frame of the procedure at an address. -/
def SymbolTable.frame (table : SymbolTable) (address : UInt32) : Frame :=
  ⟨address, (table.nameAt? address).getD "???"⟩

/-- The transfer that an instruction makes if it completes. -/
def Instruction.transfer? (i : Instruction) (m : Machine) : Option Transfer :=
  match i.descriptor.action with
  | .call =>
    match (callOperands i).run m with
    | .ok c _ => some (.called c.procedure)
    | .error _ _ => none
  | .returnFromCall => some .returned
  | _ => none

namespace Instruction

variable {i : Instruction} {m : Machine} {procedure : UInt32}

/-- A call goes to the procedure that the operands ask for. -/
theorem transfer?_eq_called :
    i.transfer? m = some (.called procedure) ↔ i.descriptor.action = .call ∧
      ∃ (c : Call) (caller : Machine), c.AskedBy i m caller ∧ c.procedure = procedure := by
  simp only [← run_callOperands_iff]
  unfold transfer?
  split
  · next hcall =>
      cases (callOperands i).run m with
      | ok c caller => simp [hcall]
      | error cause after => simp
  · next hreturn => simp [hreturn]
  · next hother _ => exact iff_of_false nofun fun h => hother h.1

theorem transfer?_eq_returned :
    i.transfer? m = some .returned ↔ i.descriptor.action = .returnFromCall := by
  unfold transfer?
  split
  · next hcall =>
      rw [hcall]
      cases (callOperands i).run m <;> simp
  · next hreturn => simp [hreturn]
  · next _ hother => exact iff_of_false nofun hother

end Instruction

namespace Machine

/-- The transfer that the next step makes, if it completes one. -/
def transfer? (m : Machine) : Option Transfer :=
  if m.step.status = .running then
    match m.start.memory.instructionAt m.start.registers.pc with
    | .ok i => i.transfer? (m.start.fetched i)
    | .error _ => none
  else none

theorem transfer?_eq_some {m : Machine} {transfer : Transfer} :
    m.transfer? = some transfer ↔ m.step.status = .running ∧
      ∃ i, m.start.memory.instructionAt m.start.registers.pc = .ok i ∧
        i.transfer? (m.start.fetched i) = some transfer := by
  unfold transfer?
  split
  · next hrunning =>
      cases m.start.memory.instructionAt m.start.registers.pc with
      | ok i => simp [hrunning]
      | error cause => simp
  · next hstopped => simp [hstopped]

/-- The call stack after a transfer. -/
def traced (m : Machine) : Option Transfer → Array Frame
  | some (.called procedure) => m.frames.push (m.symbols.frame procedure)
  | some .returned => if 1 < m.frames.size then m.frames.pop else m.frames
  | none => m.frames

theorem frames_popFrame (m : Machine) : m.popFrame.frames = m.traced (some .returned) := by
  unfold popFrame traced
  split <;> rfl

end Machine

/-! ## One instruction -/

namespace Exec

variable {m after : Machine} {i : Instruction}

/-- Everything but the call stack and the output. -/
def untraced : Footprint where
  registers _ _ := True
  flags := True
  memory := True
  frames := False
  output := False

theorem frames_of_changesOnly (h : m.ChangesOnly untraced after) :
    after.frames = m.frames ∧ after.symbols = m.symbols :=
  ⟨h.frames.resolve_right id, h.symbols⟩

theorem frames_enterProcedure {c : Call} (h : (enterProcedure c).run m = .ok () after) :
    after.frames = m.traced (some (.called c.procedure)) := by
  rw [enterProcedure_eq, run_bind_eq_ok] at h
  obtain ⟨_, counted, hcount, h⟩ := h
  rw [run_bind_ok (run_getRegister _), run_bind_ok (run_setRegister _ _), run_bind_eq_ok] at h
  obtain ⟨_, saved, hsave, hbegin⟩ := h
  have hpush : Effect untraced untraced (push c.count) :=
    effect_push (.refl _) trivial (fun _ => trivial) _
  have hframe := effect_saveFrame (g := untraced) trivial (fun _ => trivial) c
    (counted.registers.get Register.sp)
  obtain ⟨hframes, hsymbols⟩ := frames_of_changesOnly (hpush.ok _ _ _ hcount)
  obtain ⟨hframes', hsymbols'⟩ := frames_of_changesOnly (hframe.ok _ _ _ hsave)
  obtain ⟨-, rfl⟩ := EStateM.Result.ok.inj hbegin
  change saved.frames.push (saved.symbols.frame c.procedure) =
    m.frames.push (m.symbols.frame c.procedure)
  rw [hframes', hsymbols']
  change counted.frames.push (counted.symbols.frame c.procedure) = _
  rw [hframes, hsymbols]

theorem frames_call {halt : Option Halt} (hi : i.descriptor.action = .call)
    (h : (execute i).run m = .ok halt after) :
    halt = none ∧ after.frames = m.traced (i.transfer? m) := by
  have hnone : halt = none := by
    rw [execute, hi] at h
    obtain ⟨_, between, -, hdone⟩ := run_bind_eq_ok.1 h
    exact (run_pure_eq_ok.1 hdone).1
  rw [hnone] at h
  obtain ⟨c, caller, hoperands, henter⟩ := run_call hi h
  have hcaller := (run_callOperands hoperands).2.machine_eq
  refine ⟨hnone, ?_⟩
  have htransfer : i.transfer? m = some (.called c.procedure) :=
    Instruction.transfer?_eq_called.2 ⟨hi, c, caller, run_callOperands_iff.1 hoperands, rfl⟩
  rw [frames_enterProcedure henter, hcaller, htransfer]
  rfl

theorem frames_returnFromCall {halt : Option Halt}
    (h : returnFromCall.run m = .ok halt after) :
    after.frames = m.traced (if halt = none then some .returned else none) := by
  rw [returnFromCall, run_bind_ok (run_getRegister _)] at h
  split at h
  · rw [run_bind_ok (run_getRegister _), run_bind_eq_ok] at h
    obtain ⟨_, logged, hlog, h⟩ := h
    obtain ⟨-, rfl⟩ := EStateM.Result.ok.inj hlog
    obtain ⟨rfl, rfl⟩ := run_pure_eq_ok.1 h
    rfl
  · rw [run_bind_eq_ok] at h
    obtain ⟨_, unwound, hunwind, h⟩ := h
    obtain ⟨rfl, rfl⟩ := EStateM.Result.ok.inj h
    have heffect := effect_unwind (g := untraced) (fun _ _ => trivial) trivial
    obtain ⟨hframes, -⟩ := frames_of_changesOnly (heffect.ok _ _ _ hunwind)
    change unwound.popFrame.frames = m.traced (some .returned)
    rw [Machine.frames_popFrame, Machine.traced, hframes]
    rfl

end Exec

/-! ## One step -/

namespace Machine

variable {m after : Machine} {i : Instruction}

/-- The call stack afterwards is the one before with a transfer made. -/
structure Traces (m : Machine) (transfer : Option Transfer) (after : Machine) : Prop where
  frames_eq : after.frames = m.traced transfer
  symbols_eq : after.symbols = m.symbols
  started : after.status ≠ .notStarted

theorem Traces.ended (hframes : after.frames = m.frames) (hsymbols : after.symbols = m.symbols)
    {status : Status} (hstatus : status ≠ .notStarted) :
    m.Traces none (after.ended status) := by
  obtain ⟨log, hended⟩ := after.ended_eq status
  rw [hended]
  exact ⟨hframes, hsymbols, hstatus⟩

theorem status_ended (m : Machine) (status : Status) : (m.ended status).status = status :=
  status_flushed _

theorem traces_of_outcome (hrunning : m.status = .running) (h : m.Outcome i after) :
    m.Traces (if after.status = .running then i.transfer? (m.fetched i) else none) after := by
  cases h with
  | @faulted cause after hrun hchanges =>
    have hframes : after.frames = m.frames := hchanges.frames.resolve_right id
    have hsymbols : after.symbols = m.symbols := hchanges.symbols
    rw [status_ended, if_neg Status.noConfusion]
    exact .ended hframes hsymbols Status.noConfusion
  | @halted halt after hrun hchanges =>
    have hframes : after.frames = m.frames := by
      obtain hkept | hcall | hreturn := hchanges.frames
      · exact hkept
      · exact absurd (frames_call hcall hrun).1 nofun
      · rw [execute, hreturn] at hrun
        exact frames_returnFromCall hrun
    have hsymbols : after.symbols = m.symbols := hchanges.symbols
    rw [status_ended, if_neg Status.noConfusion]
    exact .ended hframes hsymbols Status.noConfusion
  | continued hrun hchanges =>
    have hstatus : after.status = .running := hchanges.status.trans hrunning
    rw [if_pos hstatus]
    refine ⟨?_, hchanges.symbols, by rw [hstatus]; exact Status.noConfusion⟩
    by_cases hcall : i.descriptor.action = .call
    · exact (frames_call hcall hrun).2
    by_cases hreturn : i.descriptor.action = .returnFromCall
    · rw [execute, hreturn] at hrun
      have htransfer : i.transfer? (m.fetched i) = some .returned := by
        rw [Instruction.transfer?, hreturn]
      rw [htransfer]
      exact frames_returnFromCall hrun
    · have hnone : i.transfer? (m.fetched i) = none := by
        unfold Instruction.transfer?
        split
        · next haction => exact absurd haction hcall
        · next haction => exact absurd haction hreturn
        · rfl
      rw [hnone]
      exact hchanges.frames.resolve_right fun haction => haction.elim hcall hreturn

theorem start_of_started (h : m.status ≠ .notStarted) : m.start = m := by
  unfold start
  split
  · next hstatus => exact absurd hstatus h
  · rfl

theorem symbols_start (m : Machine) : m.start.symbols = m.symbols := by
  unfold start
  split <;> rfl

/-- Entering the program aside, a step makes the transfer that it is said to
make. -/
theorem traces_step (m : Machine) : m.start.Traces m.transfer? m.step := by
  cases hstopped : m.isStopped with
  | true =>
    have hstep : m.step = m := iterate_step_of_isStopped hstopped 1
    have hrunning : m.status ≠ .running := fun h => by simp [isStopped, h] at hstopped
    have hnotStarted : m.status ≠ .notStarted := fun h => by simp [isStopped, h] at hstopped
    rw [transfer?, hstep, start_of_started hnotStarted, if_neg hrunning]
    exact ⟨rfl, rfl, hnotStarted⟩
  | false =>
    have hrunning := status_start hstopped
    have hstep : m.step = m.start.step := by
      rw [step_of_not_isStopped hstopped, step_of_running hrunning]
    rw [transfer?, hstep]
    cases hfetch : m.start.memory.instructionAt m.start.registers.pc with
    | ok i => exact traces_of_outcome hrunning (outcome_of_running hrunning hfetch)
    | error cause =>
      obtain ⟨log, heq⟩ := step_of_instructionAt_error hrunning hfetch
      rw [heq, if_neg Status.noConfusion]
      exact ⟨rfl, rfl, Status.noConfusion⟩

/-! ## Runs -/

theorem symbols_iterate_step (m : Machine) (n : Nat) : (step^[n] m).symbols = m.symbols := by
  induction n with
  | zero => rfl
  | succ n ih =>
    rw [Function.iterate_succ_apply', (traces_step _).symbols_eq, symbols_start, ih]

/-- The transfers that the first `n` steps make, in order. -/
def transfers (m : Machine) (n : Nat) : List Transfer :=
  (List.range n).filterMap fun k => (step^[k] m).transfer?

theorem transfers_succ (m : Machine) (n : Nat) :
    m.transfers (n + 1) = m.transfers n ++ (step^[n] m).transfer?.toList := by
  rw [transfers, List.range_succ, List.filterMap_append]
  rfl

/-- Step `k` calls the procedure of a frame, and through step `n` the frame
stays where it was put. -/
structure Calls (m : Machine) (f : Frame) (j k n : Nat) : Prop where
  transfer : (step^[k] m).transfer? = some (.called f.address)
  depth : (step^[k] m).start.frames.size = j
  stays : ∀ l, k < l → l ≤ n → (step^[l] m).frames[j]? = some f

theorem Calls.succ {f : Frame} {j k n : Nat} (h : m.Calls f j k n)
    (hstays : (step^[n + 1] m).frames[j]? = some f) : m.Calls f j k (n + 1) where
  transfer := h.transfer
  depth := h.depth
  stays l hk hl := by
    obtain hl | rfl := Nat.le_succ_iff.1 hl
    · exact h.stays l hk hl
    · exact hstays

theorem size_traced (hsize : 0 < m.frames.size) (t : Transfer) :
    (m.traced (some t)).size = Transfer.depth m.frames.size t := by
  cases t with
  | called procedure => exact Array.size_push _
  | returned =>
    simp only [traced, Transfer.depth]
    split
    · rw [Array.size_pop]
      omega
    · omega

theorem getElem?_zero_traced {f : Frame} (h : m.frames[0]? = some f) (t : Option Transfer) :
    (m.traced t)[0]? = some f := by
  obtain ⟨hsize, hget⟩ := Array.getElem?_eq_some_iff.1 h
  cases t with
  | none => exact h
  | some t =>
    cases t with
    | called procedure =>
      rw [traced, Array.getElem?_push_lt hsize, hget]
    | returned =>
      simp only [traced]
      split
      · rw [Array.getElem?_pop, if_pos (by omega)]
        exact h
      · exact h

/-- A frame was there before, or has just been pushed. -/
theorem getElem?_of_traced {f : Frame} {j : Nat} {t : Option Transfer}
    (h : (m.traced t)[j]? = some f) :
    m.frames[j]? = some f ∨
      t = some (.called f.address) ∧ f = m.symbols.frame f.address ∧ m.frames.size = j := by
  cases t with
  | none => exact .inl h
  | some t =>
    cases t with
    | called procedure =>
      rw [traced, Array.getElem?_push] at h
      split at h
      · next hj =>
        obtain rfl := Option.some.inj h
        exact .inr ⟨rfl, rfl, hj.symm⟩
      · exact .inl h
    | returned =>
      simp only [traced] at h
      split at h
      · rw [Array.getElem?_pop] at h
        split at h
        · exact .inl h
        · exact absurd h nofun
      · exact .inl h

/-- The call stack after `n` steps, with the program entered. -/
structure StackedAfter (m : Machine) (n : Nat) : Prop where
  entry : (step^[n] m).start.frames[0]? = some (m.symbols.frame m.registers.pc)
  size : (step^[n] m).start.frames.size = (m.transfers n).foldl Transfer.depth 1
  active : ∀ j f, 0 < j → (step^[n] m).start.frames[j]? = some f →
    f = m.symbols.frame f.address ∧ ∃ k < n, m.Calls f j k n

theorem start_iterate_step_succ (m : Machine) (n : Nat) :
    (step^[n + 1] m).start = step^[n + 1] m := by
  apply start_of_started
  rw [Function.iterate_succ_apply']
  exact (traces_step _).started

theorem stackedAfter_zero (hstatus : m.status = .notStarted) (hframes : m.frames = #[]) :
    m.StackedAfter 0 := by
  have hstart : m.start.frames = #[m.symbols.frame m.registers.pc] := by
    rw [start, hstatus]
    change m.frames.push (m.symbols.frame m.registers.pc) = _
    rw [hframes]
    rfl
  refine ⟨?_, ?_, ?_⟩
  · rw [Function.iterate_zero_apply, hstart]
    rfl
  · rw [Function.iterate_zero_apply, hstart]
    rfl
  · intro j f hj hget
    rw [Function.iterate_zero_apply, hstart] at hget
    obtain ⟨hlt, -⟩ := Array.getElem?_eq_some_iff.1 hget
    exact absurd hlt (Nat.not_lt.2 hj)

theorem StackedAfter.succ {n : Nat} (h : m.StackedAfter n) : m.StackedAfter (n + 1) := by
  have hframes : (step^[n + 1] m).frames = (step^[n] m).start.traced (step^[n] m).transfer? := by
    rw [Function.iterate_succ_apply']
    exact (traces_step _).frames_eq
  have hsymbols : (step^[n] m).start.symbols = m.symbols :=
    (symbols_start _).trans (symbols_iterate_step m n)
  obtain ⟨hsize, -⟩ := Array.getElem?_eq_some_iff.1 h.entry
  refine ⟨?_, ?_, ?_⟩
  · rw [start_iterate_step_succ, hframes]
    exact getElem?_zero_traced h.entry _
  · rw [start_iterate_step_succ, hframes, transfers_succ, List.foldl_append, ← h.size]
    cases (step^[n] m).transfer? with
    | none => rfl
    | some t => exact size_traced hsize t
  · intro j f hj hget
    rw [start_iterate_step_succ] at hget
    obtain hbefore | ⟨htransfer, hnamed, hdepth⟩ := getElem?_of_traced (hframes ▸ hget)
    · obtain ⟨hnamed, k, hk, hcalls⟩ := h.active j f hj hbefore
      exact ⟨hnamed, k, Nat.lt_succ_of_lt hk, hcalls.succ hget⟩
    · refine ⟨hsymbols ▸ hnamed, n, Nat.lt_succ_self n, htransfer, hdepth, fun l hn hl => ?_⟩
      obtain rfl : l = n + 1 := by omega
      exact hget

theorem stackedAfter (hstatus : m.status = .notStarted) (hframes : m.frames = #[]) (n : Nat) :
    m.StackedAfter n := by
  induction n with
  | zero => exact stackedAfter_zero hstatus hframes
  | succ n ih => exact ih.succ

theorem status_iterate_step_eq_notStarted (hstatus : m.status = .notStarted) (n : Nat) :
    (step^[n] m).status = .notStarted ↔ n = 0 := by
  cases n with
  | zero => exact iff_of_true hstatus rfl
  | succ n =>
    rw [Function.iterate_succ_apply']
    exact iff_of_false (traces_step _).started (Nat.succ_ne_zero n)

end Machine

/-- However a loaded program runs, its call stack is empty until it is
entered.  From then on the entry procedure is at the bottom, the depth is one
more for each completed call and one less, but never less than one, for each
completed return, and every other frame was pushed by a call of its procedure
and has been there since.  A step that completes neither leaves the call stack
as it is.  A call is of the procedure that its operands ask for. -/
theorem call_stack_follows_calls {p : Program} {arguments : List String} {size : Nat} {log : Log}
    {m : Machine} (hload : Machine.load p arguments size log = .ok m) :
    ∃ h, p.header = some h ∧ ∀ (output : Output) (n : Nat),
      let loaded : Machine := { m with output := output }
      let reached := Machine.step^[n] loaded
      (reached.frames = #[] ↔ reached.status = .notStarted) ∧
      (reached.status ≠ .notStarted →
        reached.frames[0]? = some (p.symbols.frame h.entry) ∧
        reached.frames.size = (loaded.transfers n).foldl Transfer.depth 1 ∧
        ∀ j f, 0 < j → reached.frames[j]? = some f →
          f = p.symbols.frame f.address ∧ ∃ k < n, loaded.Calls f j k n) ∧
      (reached.transfer? = none → reached.step.frames = reached.start.frames) ∧
      (∀ procedure, reached.transfer? = some (.called procedure) ↔
        reached.step.status = .running ∧
        ∃ i, reached.start.memory.instructionAt reached.start.registers.pc = .ok i ∧
          i.descriptor.action = .call ∧ ∃ (c : Call) (caller : Machine),
            c.AskedBy i (reached.start.fetched i) caller ∧ c.procedure = procedure) ∧
      (reached.transfer? = some .returned ↔ reached.step.status = .running ∧
        ∃ i, reached.start.memory.instructionAt reached.start.registers.pc = .ok i ∧
          i.descriptor.action = .returnFromCall) := by
  obtain ⟨h, hheader⟩ := Machine.exists_header_of_load hload
  obtain ⟨memory, log', -, -, rfl⟩ := Machine.eq_of_load hheader hload
  refine ⟨h, hheader, fun output n => ?_⟩
  intro loaded reached
  have hstatus := Machine.status_iterate_step_eq_notStarted (m := loaded) rfl n
  have hstacked := Machine.stackedAfter (m := loaded) rfl rfl n
  have hentry : loaded.registers.pc = h.entry := by
    change ((Registers.zeroed.set Register.pc h.entry).set Register.sp _).get Register.pc = _
    rw [Registers.get_set_of_ne _ _ (by decide), Registers.get_set_self]
  refine ⟨?_, fun hstarted => ?_, fun hnone => ?_, fun procedure => ?_, ?_⟩
  · rw [hstatus]
    constructor
    · intro hempty
      by_contra hn
      have hbottom := hstacked.entry
      rw [Machine.start_of_started (mt hstatus.1 hn), hempty] at hbottom
      exact absurd hbottom nofun
    · rintro rfl
      rfl
  · have hstart := Machine.start_of_started hstarted
    obtain ⟨hbottom, hdepth, hactive⟩ := hstacked
    rw [hentry] at hbottom
    rw [hstart] at hbottom hdepth hactive
    exact ⟨hbottom, hdepth, hactive⟩
  · have hframes := (Machine.traces_step reached).frames_eq
    rw [hnone] at hframes
    exact hframes
  · simp only [Machine.transfer?_eq_some, Instruction.transfer?_eq_called]
  · simp only [Machine.transfer?_eq_some, Instruction.transfer?_eq_returned]

/-- A program, all of it in the data segment, that calls a procedure, which
returns. -/
theorem call_stack_follows_calls_returning :
    let h : Header :=
      { magic := 0x108, text := 0, data := 11, bss := 0, syms := 16, entry := 0x80000000
        trsize := 0, drsize := 0 }
    let p : Program :=
      ⟨some h, [], [0, 0, 0xfb, 0, 0xaf, 2, 4, 0, 0, 0, 4],
        .ofList [⟨"_main", 5, 0, 0, 8, 0x80000008⟩]⟩
    ∃ m, Machine.load p ["a.out"] 64 (.empty none) = .ok m ∧
      let loaded : Machine := { m with output := .unlimited }
      let called : Frame := ⟨0x80000008, "_main"⟩
      (Machine.step^[1] loaded).frames = #[⟨0x80000000, "???"⟩, called] ∧
        (∃ k < 1, loaded.Calls called 1 k 1) ∧
        loaded.transfers 2 = [.called 0x80000008, .returned] ∧
        (Machine.step^[2] loaded).frames.size = 1 := by
  intro h p
  obtain ⟨m, hload, hframes, htransfers, hrunning⟩ := Machine.exists_ok_of_any
    (Machine.load p ["a.out"] 64 (.empty none))
    (fun m =>
      (Machine.step^[1] { m with output := .unlimited }).frames =
        #[⟨0x80000000, "???"⟩, ⟨0x80000008, "_main"⟩] ∧
      Machine.transfers { m with output := .unlimited } 2 = [.called 0x80000008, .returned] ∧
      (Machine.step^[1] { m with output := .unlimited }).status = .running ∧
      (Machine.step^[2] { m with output := .unlimited }).status = .running)
    (by decide +kernel)
  refine ⟨m, hload, ?_⟩
  intro loaded called
  obtain ⟨header, -, hruns⟩ := call_stack_follows_calls hload
  obtain ⟨-, honce, -⟩ := hruns .unlimited 1
  obtain ⟨-, htwice, -⟩ := hruns .unlimited 2
  refine ⟨hframes, ?_, htransfers, ?_⟩
  · exact ((honce (by rw [hrunning.1]; exact nofun)).2.2 1 called (by decide)
      (by rw [hframes]; rfl)).2
  · rw [(htwice (by rw [hrunning.2]; exact nofun)).2.1, htransfers]
    rfl

end Vax
