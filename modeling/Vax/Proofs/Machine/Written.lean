import Vax.Proofs.Machine.Faulting
import Vax.Proofs.Machine.Indifference
/-!
# What a program has written

Whatever the sink behind the output takes or refuses, a running program only
adds to what it has written.  A write that is refused ends the program, which
has then written what it had before.
-/

namespace Vax

/-- The second output has taken some more writes, one after the other. -/
def Output.Grows (o after : Output) : Prop :=
  ∃ taken : List (List UInt8), taken.foldlM Output.write o = .ok after

namespace Output.Grows

variable {o between after : Output}

theorem refl (o : Output) : o.Grows o :=
  ⟨[], rfl⟩

theorem of_eq (h : after = o) : o.Grows after :=
  h ▸ refl o

theorem of_write {bytes : List UInt8} (h : o.write bytes = .ok after) : o.Grows after :=
  ⟨[bytes], by rw [List.foldlM_cons, h]; rfl⟩

theorem trans (h : o.Grows between) (h' : between.Grows after) : o.Grows after := by
  obtain ⟨taken, htaken⟩ := h
  obtain ⟨others, hothers⟩ := h'
  exact ⟨taken ++ others, by rw [List.foldlM_append, htaken]; exact hothers⟩

/-- More writes leave the sink as it is and add their bytes at the end. -/
theorem prefix_written (h : o.Grows after) :
    after.sink = o.sink ∧ o.written <+: after.written := by
  obtain ⟨taken, htaken⟩ := h
  induction taken generalizing o with
  | nil =>
      obtain rfl := Except.ok.inj htaken
      exact ⟨rfl, List.prefix_rfl⟩
  | cons bytes rest ih =>
      rw [List.foldlM_cons] at htaken
      cases hwrite : o.write bytes with
      | error cause =>
          rw [hwrite] at htaken
          exact absurd htaken nofun
      | ok next =>
          rw [hwrite] at htaken
          obtain ⟨hsink, hwritten⟩ := written_write hwrite
          obtain ⟨hsink', hprefix⟩ := ih htaken
          refine ⟨hsink'.trans hsink, ?_⟩
          rw [hwritten] at hprefix
          exact (List.prefix_append _ _).trans hprefix

end Output.Grows

/-- Everything but the output may change. -/
def Footprint.silent : Footprint where
  registers _ _ := True
  flags := True
  memory := True
  frames := True
  output := False

theorem Instruction.IsEncodedIn.allowed_silent {memory : Memory} {i : Instruction}
    (h : i.IsEncodedIn memory) : i.Allowed .silent .silent where
  within := .refl _
  stepped _ _ _ _ _ := trivial
  written _ _ _ _ _ := ⟨trivial, fun _ => trivial⟩
  branches operand hmem hkind := by
    obtain ⟨target, hspecifier, -⟩ := h.allowed.branches operand hmem hkind
    exact ⟨target, hspecifier, trivial⟩
  stack _ := trivial
  results _ _ _ := trivial
  flags := trivial
  memory := trivial

namespace Exec

variable {α β : Type} {i : Instruction}

/-- When it succeeds, the output has grown or is the same. -/
def Appends (x : Exec α) : Prop :=
  ∀ m a after, x.run m = .ok a after → m.output.Grows after.output

theorem Appends.bind {x : Exec α} {k : α → Exec β} (hx : Appends x) (hk : ∀ a, Appends (k a)) :
    Appends (x >>= k) := by
  intro m b after h
  obtain ⟨a, between, hrun, h⟩ := run_bind_eq_ok.1 h
  exact (hx _ _ _ hrun).trans (hk a _ _ _ h)

theorem Effect.appends {f g : Footprint} {x : Exec α} (h : Effect f g x) (hf : ¬ f.output) :
    Appends x := by
  intro m a after hrun
  exact .of_eq ((h.ok _ _ _ hrun).output.resolve_right hf)

theorem Still.appends {x : Exec α} (h : Still x) : Appends x :=
  (h.effect (f := .silent) (g := .silent)).appends id

theorem Total.appends {x : Exec α} (h : Total .silent x) : Appends x :=
  (h.effect (g := .silent)).appends id

theorem appends_writeCall (h : i.Allowed .silent .silent) : Appends writeCall := by
  refine (still_argument 0).appends.bind fun _ => (still_argument 1).appends.bind fun _ =>
    (still_argument 2).appends.bind fun _ => (total_log _ _).appends.bind fun _ =>
      still_get.appends.bind fun _ => (still_access _).appends.bind fun bytes => ?_
  intro m _ after hrun
  obtain ⟨_, _, hget, hrun⟩ := run_bind_eq_ok.1 hrun
  obtain ⟨rfl, rfl⟩ := EStateM.Result.ok.inj hget
  cases hwrite : m.output.write bytes with
  | error cause =>
      rw [hwrite] at hrun
      exact absurd hrun nofun
  | ok output =>
      rw [hwrite] at hrun
      obtain ⟨_, taken, hset, hrun⟩ := run_bind_eq_ok.1 hrun
      obtain ⟨-, rfl⟩ := EStateM.Result.ok.inj hset
      exact (Output.Grows.of_write hwrite).trans ((total_finishCall h _ _).appends _ _ _ hrun)

theorem effect_callNumber (h : i.Allowed .silent .silent) :
    Effect .silent .silent (locate1 i >>= read .word) := by
  refine Effect.bind ?_ fun location => (still_read _ location).effect
  refine (effect_mapM_locate h.stepped).bind fun locations => ?_
  split
  · exact (still_pure _).effect
  · exact (still_reservedOperand i).effect

theorem appends_systemCall (h : i.Allowed .silent .silent) : Appends (systemCall i) := by
  rw [systemCall_eq]
  refine ((effect_callNumber h).appends id).bind fun number => ?_
  unfold serve
  split
  · exact effect_exitCall.appends (f := .silent) (g := .silent) id
  · exact (appends_writeCall h).bind fun _ => (still_pure _).appends
  · exact ((effect_closeCall h).appends id).bind fun _ => (still_pure _).appends
  · exact ((effect_ioctlCall h).appends id).bind fun _ => (still_pure _).appends
  · exact (still_throw _).appends

/-- Of all instructions only a system call touches the output. -/
theorem appends_execute {memory : Memory} (h : i.IsEncodedIn memory) : Appends (execute i) := by
  by_cases haction : i.descriptor.action = .systemCall
  · rw [execute, haction]
    exact appends_systemCall h.allowed_silent
  · exact (effect_execute h).appends haction

end Exec

namespace Machine

variable {m : Machine}

theorem output_start (m : Machine) : m.start.output = m.output := by
  unfold start
  split <;> rfl

theorem output_ended (m : Machine) (status : Status) : (m.ended status).output = m.output := by
  obtain ⟨log, hended⟩ := m.ended_eq status
  rw [hended]

theorem grows_step_of_running (hrunning : m.status = .running) : m.output.Grows m.step.output := by
  cases hfetch : m.memory.instructionAt m.registers.pc with
  | error cause =>
      obtain ⟨log, hstep⟩ := step_of_instructionAt_error hrunning hfetch
      rw [hstep]
      exact .refl _
  | ok i =>
      have happends := Exec.appends_execute (Memory.isEncodedIn_of_instructionAt hfetch)
      have houtcome := outcome_of_running hrunning hfetch
      generalize m.step = after at houtcome ⊢
      cases houtcome with
      | continued hrun hchanges => exact happends (m.fetched i) _ _ hrun
      | halted hrun hchanges =>
          rw [output_ended]
          exact happends (m.fetched i) _ _ hrun
      | faulted hrun hchanges =>
          rw [output_ended]
          exact .of_eq (hchanges.output.resolve_right id)

theorem grows_step (m : Machine) : m.output.Grows m.step.output := by
  cases hstopped : m.isStopped with
  | true => exact .of_eq (congrArg output (iterate_step_of_isStopped hstopped 1))
  | false =>
      have hstarted := status_start hstopped
      rw [step_of_not_isStopped hstopped, ← step_of_running hstarted, ← output_start m]
      exact grows_step_of_running hstarted

theorem grows_iterate_step (m : Machine) (n : Nat) : m.output.Grows (step^[n] m).output := by
  induction n with
  | zero => exact .refl _
  | succ n ih =>
      rw [Function.iterate_succ_apply']
      exact ih.trans (grows_step _)

/-- Nothing that a program has written is ever taken back. -/
theorem written_iterate_step (m : Machine) (n : Nat) :
    (step^[n] m).output.sink = m.output.sink ∧
      m.output.written <+: (step^[n] m).output.written :=
  (m.grows_iterate_step n).prefix_written

/-! ## Refused writes -/

/-- The arguments of the current procedure describe a write of these bytes. -/
def AsksToWrite (m : Machine) (bytes : List UInt8) : Prop :=
  ∃ file buffer length, (Exec.argument 0).run m = .ok file m ∧
    (Exec.argument 1).run m = .ok buffer m ∧ (Exec.argument 2).run m = .ok length m ∧
    m.memory.slice buffer length.toNat = .ok bytes

end Machine

theorem Exec.run_writeCall_refused {m : Machine} {bytes : List UInt8} {cause : String}
    (hasks : m.AsksToWrite bytes) (hrefused : m.output.write bytes = .error cause) :
    ∃ after, writeCall.run m = .error (.output cause) after := by
  obtain ⟨file, buffer, length, hfile, hbuffer, hlength, hslice⟩ := hasks
  unfold writeCall
  rw [run_bind_ok hfile, run_bind_ok hbuffer, run_bind_ok hlength]
  let text := callText .write [toString file.toNat, Text.marked buffer.toNat, toString length.toNat]
  let logged := m.logged .debug fun _ => text
  have hlog : (log .debug fun _ => text).run m = .ok () logged := rfl
  have hread : (access (logged.memory.slice buffer length.toNat)).run logged = .ok bytes logged :=
    run_access_eq_ok.2 ⟨hslice, rfl⟩
  have hwrite : logged.output.write bytes = .error cause := hrefused
  refine ⟨logged, ?_⟩
  rw [run_bind_ok hlog, run_bind_ok run_get, run_bind_ok hread, run_bind_ok run_get]
  simp only [hwrite]
  rfl

/-- A write that the sink refuses ends the program, which has written what it
had before and writes no more. -/
theorem refused_write_stops_program {m called : Machine} {i : Instruction}
    {number : BitVec Width.word.bits} {bytes : List UInt8} {cause : String}
    (hrunning : m.status = .running)
    (hfetch : m.memory.instructionAt m.registers.pc = .ok i)
    (haction : i.descriptor.action = .systemCall)
    (hnumber : (Exec.locate1 i >>= Exec.read .word).run (m.fetched i) = .ok number called)
    (hwrite : SystemCall.ofNumber? number.toNat = some .write) (hasks : called.AsksToWrite bytes)
    (hrefused : m.output.sink.refusal? m.output.writes bytes = some cause) (n : Nat) :
    (Machine.step^[n] m.step).status = .faulted ⟨m.registers.pc, .output cause⟩ ∧
      (Machine.step^[n] m.step).output = m.output := by
  have hallowed := (Memory.isEncodedIn_of_instructionAt hfetch).allowed_silent
  have houtput : called.output = m.output :=
    ((Exec.effect_callNumber hallowed).ok _ _ _ hnumber).output.resolve_right id
  have hrefused' : called.output.write bytes = .error cause := by
    rw [houtput]
    exact Output.write_eq_error_iff.2 hrefused
  obtain ⟨stopped, hcall⟩ := Exec.run_writeCall_refused hasks hrefused'
  have hexecute : (Exec.execute i).run (m.fetched i) = .error (.output cause) stopped := by
    rw [Exec.execute, haction, Exec.systemCall_eq, Exec.run_bind_ok hnumber, Exec.serve, hwrite]
    exact Exec.run_bind_error hcall
  have hstep : m.step.status = .faulted ⟨m.registers.pc, .output cause⟩ ∧
      m.step.output = m.output := by
    have houtcome := Machine.outcome_of_running hrunning hfetch
    generalize m.step = after at houtcome ⊢
    cases houtcome with
    | continued hrun hchanges => cases hexecute.symm.trans hrun
    | halted hrun hchanges => cases hexecute.symm.trans hrun
    | faulted hrun hchanges =>
        obtain ⟨rfl, rfl⟩ := EStateM.Result.error.inj (hexecute.symm.trans hrun)
        exact ⟨Machine.status_flushed _,
          (Machine.output_ended _ _).trans (hchanges.output.resolve_right id)⟩
  rw [Machine.iterate_step_of_isStopped (by rw [Machine.isStopped, hstep.1]) n]
  exact hstep

/-- The sink takes one byte at most, and the program writes two. -/
example :
    let m : Machine :=
      { registers := Registers.zeroed.set Register.ap 4
        memory := ⟨0, 20, [0xbc, 0x04, 0x00, 0x00, 0x03, 0x00, 0x00, 0x00, 0x01, 0x00, 0x00, 0x00,
          0x00, 0x00, 0x00, 0x00, 0x02, 0x00, 0x00, 0x00].toByteArray⟩
        symbols := .empty, entry := 0, status := .running, frames := #[]
        output := .empty ⟨fun _ bytes => if bytes.length ≤ 1 then none else some "full",
          fun _ => none⟩
        log := .empty none, current := 0 }
    m.step.status = .faulted ⟨0, .output "full"⟩ ∧ m.step.output.written = [] := by
  decide +kernel

end Vax
