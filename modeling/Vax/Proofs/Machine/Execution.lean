import Vax.Machine.Step
/-!
# Running computations of the machine

What the parts of a computation do when run, and what a computation that
succeeded must have done.
-/

namespace Vax

namespace Machine

/-- The machine with other registers. -/
def withRegisters (m : Machine) (registers : Registers) : Machine :=
  { m with registers := registers }

/-- The machine with another memory. -/
def withMemory (m : Machine) (memory : Memory) : Machine :=
  { m with memory := memory }

@[simp] theorem registers_withRegisters (m : Machine) (registers : Registers) :
    (m.withRegisters registers).registers = registers := rfl

@[simp] theorem withRegisters_withRegisters (m : Machine) (registers registers' : Registers) :
    (m.withRegisters registers).withRegisters registers' = m.withRegisters registers' := rfl

theorem exists_ok_of_any {α ε : Type} (result : Except ε α) (p : α → Prop) [DecidablePred p]
    (h : (result.toOption.any fun a => decide (p a)) = true) : ∃ a, result = .ok a ∧ p a := by
  cases result with
  | error e => exact absurd h nofun
  | ok a => exact ⟨a, rfl, of_decide_eq_true h⟩

end Machine

/-- Only a quadword is wider than a register. -/
theorem Width.bits_le {w : Width} (hw : w ≠ .quad) : w.bits ≤ 32 := by
  cases w with
  | quad => exact absurd rfl hw
  | byte | word | long => decide

theorem Registers.setWidth_pair {w : Width} (hw : w ≠ .quad) (rs : Registers) (r : Register) :
    (rs.pair r).setWidth w.bits = (rs.get r).toBitVec.setWidth w.bits := by
  rw [pair, ← BitVec.setWidth_setWidth_of_le _ (Width.bits_le hw), BitVec.setWidth_append_eq_right]

namespace Exec

variable {α β : Type} {m after : Machine} {i : Instruction}

theorem run_bind_ok {x : Exec α} {f : α → Exec β} {a : α} (h : x.run m = .ok a after) :
    (x >>= f).run m = (f a).run after := by
  rw [EStateM.run_bind, h]

theorem run_bind_error {x : Exec α} {f : α → Exec β} {cause : Fault.Cause}
    (h : x.run m = .error cause after) : (x >>= f).run m = .error cause after := by
  rw [EStateM.run_bind, h]

/-- Only what the second parts do after the first one counts. -/
theorem run_bind_congr {x y : Exec α} {f g : α → Exec β} (hxy : x.run m = y.run m)
    (h : ∀ a after, x.run m = .ok a after → (f a).run after = (g a).run after) :
    (x >>= f).run m = (y >>= g).run m := by
  rw [EStateM.run_bind, EStateM.run_bind, ← hxy]
  cases hx : x.run m with
  | ok a after => exact h a after hx
  | error cause after => rfl

/-- What succeeds as a whole succeeds in its parts. -/
theorem run_bind_eq_ok {x : Exec α} {f : α → Exec β} {b : β} :
    (x >>= f).run m = .ok b after ↔
      ∃ a between, x.run m = .ok a between ∧ (f a).run between = .ok b after := by
  rw [EStateM.run_bind]
  cases hx : x.run m with
  | ok a between =>
      constructor
      · intro h
        exact ⟨a, between, rfl, h⟩
      · rintro ⟨a', between', heq, h⟩
        obtain ⟨rfl, rfl⟩ := EStateM.Result.ok.inj heq
        exact h
  | error e between =>
      constructor
      · exact nofun
      · rintro ⟨a, between', heq, -⟩
        exact absurd heq nofun

theorem run_pure_eq_ok {a b : α} :
    (pure a : Exec α).run m = .ok b after ↔ b = a ∧ after = m := by
  change (EStateM.Result.ok a m : EStateM.Result Fault.Cause Machine α) = .ok b after ↔ _
  simp only [EStateM.Result.ok.injEq, eq_comm]

/-- A list is gone through from its first element on. -/
theorem run_mapM_cons_eq_ok {γ : Type} {f : γ → Exec β} {x : γ} {rest : List γ}
    {results : List β} :
    ((x :: rest).mapM f).run m = .ok results after ↔
      ∃ first others between, results = first :: others ∧ (f x).run m = .ok first between ∧
        (rest.mapM f).run between = .ok others after := by
  rw [List.mapM_cons, run_bind_eq_ok]
  constructor
  · rintro ⟨first, between, hfirst, h⟩
    obtain ⟨others, between', hothers, h⟩ := run_bind_eq_ok.1 h
    obtain ⟨rfl, rfl⟩ := run_pure_eq_ok.1 h
    exact ⟨first, others, between, rfl, hfirst, hothers⟩
  · rintro ⟨first, others, between, rfl, hfirst, hothers⟩
    refine ⟨first, between, hfirst, ?_⟩
    rw [run_bind_ok hothers]
    rfl

theorem run_throw_ne_ok (cause : Fault.Cause) {a : α} :
    (throw cause : Exec α).run m ≠ .ok a after :=
  nofun

theorem run_reservedOperand_ne_ok (i : Instruction) {a : α} :
    (reservedOperand i : Exec α).run m ≠ .ok a after :=
  run_throw_ne_ok _

/-! ## Results that are evaluated -/

theorem exists_run {x : Exec α} {a : α}
    (h : (match x.run m with | .ok b _ => some b | .error _ _ => none) = some a) :
    ∃ after, x.run m = .ok a after := by
  cases hrun : x.run m with
  | ok b after =>
      rw [hrun] at h
      exact ⟨after, by rw [Option.some.inj h]⟩
  | error cause after =>
      rw [hrun] at h
      exact absurd h nofun

theorem exists_run_error {x : Exec α} {cause : Fault.Cause}
    (h : (match x.run m with | .ok _ _ => none | .error e _ => some e) = some cause) :
    ∃ after, x.run m = .error cause after := by
  cases hrun : x.run m with
  | ok b after =>
      rw [hrun] at h
      exact absurd h nofun
  | error e after =>
      rw [hrun] at h
      exact ⟨after, by rw [Option.some.inj h]⟩

/-! ## Registers -/

@[simp] theorem run_getRegister (r : Register) :
    (getRegister r).run m = .ok (m.registers.get r) m := rfl

@[simp] theorem run_setRegister (r : Register) (value : UInt32) :
    (setRegister r value).run m = .ok () (m.withRegisters (m.registers.set r value)) := rfl

@[simp] theorem run_getFlags : getFlags.run m = .ok m.registers.flags m := rfl

@[simp] theorem run_setFlags (flags : Flags) :
    (setFlags flags).run m = .ok () (m.withRegisters (m.registers.setFlags flags)) := rfl

@[simp] theorem run_get : (get : Exec Machine).run m = .ok m m := rfl

@[simp] theorem run_modify (f : Machine → Machine) :
    (modify f : Exec Unit).run m = .ok () (f m) := rfl

/-- A value as wide as a register or narrower replaces its low bits. -/
theorem toNat_merge {n : Nat} (hn : n ≤ 32) (old : UInt32) (value : BitVec n) :
    (merge old value).toNat = old.toNat / 2 ^ n * 2 ^ n + value.toNat := by
  have hold := old.toNat_lt
  have hvalue := value.isLt
  obtain ⟨k, hk⟩ := Nat.pow_dvd_pow 2 hn
  have hquotient : old.toNat / 2 ^ n + 1 ≤ k := Nat.div_lt_of_lt_mul (hk ▸ hold)
  have hroom := Nat.mul_le_mul_left (2 ^ n) hquotient
  rw [← hk, Nat.mul_add_one, Nat.mul_comm] at hroom
  rw [merge, UInt32.toNat_ofNat', Nat.mod_eq_of_lt (by omega)]

/-! ## Memory -/

theorem run_access_eq_ok {outcome : Except OutOfRange α} {a : α} :
    (access outcome).run m = .ok a after ↔ outcome = .ok a ∧ after = m := by
  cases outcome with
  | ok value =>
      rw [access, run_pure_eq_ok, Except.ok.injEq, eq_comm (a := a)]
  | error e =>
      constructor
      · exact nofun
      · rintro ⟨heq, -⟩
        exact absurd heq nofun

theorem run_readNat_eq_ok {address : UInt32} {length value : Nat} :
    (readNat address length).run m = .ok value after ↔
      m.memory.readNat address length = .ok value ∧ after = m :=
  run_access_eq_ok

theorem run_readNat_error {address : UInt32} {length : Nat} {e : OutOfRange}
    (h : m.memory.readNat address length = .error e) :
    (readNat address length).run m = .error (.memory e) m := by
  rw [readNat, run_bind_ok run_get, h]
  rfl

theorem run_readWord_eq_ok {address : UInt32} {value : UInt16} :
    (readWord address).run m = .ok value after ↔
      m.memory.readWord address = .ok value ∧ after = m :=
  run_access_eq_ok

theorem run_readLong_eq_ok {address value : UInt32} :
    (readLong address).run m = .ok value after ↔
      m.memory.readLong address = .ok value ∧ after = m :=
  run_access_eq_ok

theorem run_store_eq_ok {address : UInt32} {bytes : List UInt8} :
    (store address bytes).run m = .ok () after ↔
      ∃ memory, m.memory.store address bytes = .ok memory ∧
        after = { m with memory := memory } := by
  change (access (m.memory.store address bytes) >>= fun memory =>
    modify fun m => { m with memory := memory }).run m = .ok () after ↔ _
  rw [run_bind_eq_ok]
  constructor
  · rintro ⟨memory, between, haccess, hmodify⟩
    obtain ⟨hstore, rfl⟩ := run_access_eq_ok.1 haccess
    obtain ⟨-, rfl⟩ := EStateM.Result.ok.inj hmodify
    exact ⟨memory, hstore, rfl⟩
  · rintro ⟨memory, hstore, rfl⟩
    exact ⟨memory, m, run_access_eq_ok.2 ⟨hstore, rfl⟩, rfl⟩

theorem run_readByte {address : UInt32} {byte : UInt8}
    (h : m.memory.readByte address = .ok byte) : (readByte address).run m = .ok byte m :=
  run_access_eq_ok.2 ⟨h, rfl⟩

theorem run_readByte_error {address : UInt32} {e : OutOfRange}
    (h : m.memory.readByte address = .error e) :
    (readByte address).run m = .error (.memory e) m := by
  rw [readByte, run_bind_ok run_get, h]
  rfl

theorem run_writeByte {address : UInt32} {byte : UInt8} {memory : Memory}
    (h : m.memory.store address [byte] = .ok memory) :
    (writeByte address byte).run m = .ok () (m.withMemory memory) :=
  run_store_eq_ok.2 ⟨memory, h, rfl⟩

/-! ## Steps -/

theorem run_fetchNext (h : m.memory.instructionAt m.registers.pc = .ok i) :
    fetchNext.run m =
      .ok i (m.withRegisters (m.registers.set Register.pc i.nextAddress)) := by
  rw [fetchNext, run_bind_ok run_get]
  simp only [h]
  rfl

theorem run_fetchNext_error {cause : Fault.Cause}
    (h : m.memory.instructionAt m.registers.pc = .error cause) :
    fetchNext.run m = .error cause m := by
  rw [fetchNext, run_bind_ok run_get]
  simp only [h]
  rfl

theorem run_of_goesOn {x : Exec Unit} {halt : Option Halt}
    (h : (goesOn x).run m = .ok halt after) : x.run m = .ok () after := by
  rw [goesOn, run_bind_eq_ok] at h
  obtain ⟨_, between, hx, h⟩ := h
  obtain ⟨-, rfl⟩ := run_pure_eq_ok.1 h
  exact hx

theorem run_goesOn_congr {m' : Machine} {x y : Exec Unit} (h : x.run m = y.run m') :
    (goesOn x).run m = (goesOn y).run m' := by
  rw [goesOn, goesOn, EStateM.run_bind, EStateM.run_bind, h]

/-! ## Operands -/

/-- The address of a base that an index is added to. -/
def baseAddress (index : Register) : Location → Exec UInt32
  | .memory address => pure address
  | .value _ | .register _ => throw (.addressingMode (0x40 ||| UInt8.ofNat index.val))

/-- A base is located as an operand is, but not an immediate value. -/
theorem locateBase_cases (size : Nat) (index : Register) (mode : Mode) :
    locateBase size index mode = throw (.addressingMode (0x40 ||| UInt8.ofNat index.val)) ∨
      locateBase size index mode = locateMode size mode >>= baseAddress index := by
  cases mode with
  | immediate address value => exact .inl rfl
  | _ =>
    simp only [locateBase]
    refine .inr (bind_congr fun location => ?_)
    cases location <;> rfl

theorem run_locate1_eq_ok {a : Location} (h : (locate1 i).run m = .ok a after) :
    (locateAll i).run m = .ok [a] after := by
  rw [locate1, run_bind_eq_ok] at h
  obtain ⟨locations, between, hall, h⟩ := h
  split at h
  · obtain ⟨rfl, rfl⟩ := run_pure_eq_ok.1 h
    exact hall
  · exact absurd h (run_reservedOperand_ne_ok i)

theorem run_locate2_eq_ok {a b : Location} (h : (locate2 i).run m = .ok (a, b) after) :
    (locateAll i).run m = .ok [a, b] after := by
  rw [locate2, run_bind_eq_ok] at h
  obtain ⟨locations, between, hall, h⟩ := h
  split at h
  · obtain ⟨heq, rfl⟩ := run_pure_eq_ok.1 h
    obtain ⟨rfl, rfl⟩ := Prod.mk.inj heq
    exact hall
  · exact absurd h (run_reservedOperand_ne_ok i)

/-- The second of two operands is evaluated after the first. -/
theorem run_locate2_iff {a b : Location} :
    (locate2 i).run m = .ok (a, b) after ↔ ∃ first second between, i.operands = [first, second] ∧
      (locate first.kind.size first.specifier).run m = .ok a between ∧
      (locate second.kind.size second.specifier).run between = .ok b after := by
  constructor
  · intro h
    have hall := run_locate2_eq_ok h
    rw [locateAll] at hall
    generalize i.operands = operands at hall ⊢
    rcases operands with _ | ⟨first, _ | ⟨second, rest⟩⟩
    · exact absurd (run_pure_eq_ok.1 hall).1 nofun
    · obtain ⟨_, _, _, heq, -, hrest⟩ := run_mapM_cons_eq_ok.1 hall
      obtain ⟨rfl, rfl⟩ := List.cons.inj heq
      exact absurd (run_pure_eq_ok.1 hrest).1 nofun
    · obtain ⟨_, _, between, heq, hfirst, hrest⟩ := run_mapM_cons_eq_ok.1 hall
      obtain ⟨rfl, rfl⟩ := List.cons.inj heq
      obtain ⟨_, _, between', heq', hsecond, hnone⟩ := run_mapM_cons_eq_ok.1 hrest
      obtain ⟨rfl, rfl⟩ := List.cons.inj heq'
      cases rest with
      | nil =>
          obtain ⟨-, rfl⟩ := run_pure_eq_ok.1 hnone
          exact ⟨first, second, between, rfl, hfirst, hsecond⟩
      | cons third rest =>
          obtain ⟨_, _, _, heq'', -⟩ := run_mapM_cons_eq_ok.1 hnone
          exact absurd heq'' nofun
  · rintro ⟨first, second, between, hoperands, hfirst, hsecond⟩
    have hall : (locateAll i).run m = .ok [a, b] after := by
      rw [locateAll, hoperands, run_mapM_cons_eq_ok]
      exact ⟨a, [b], between, rfl, hfirst, run_mapM_cons_eq_ok.2 ⟨b, [], after, rfl, hsecond, rfl⟩⟩
    rw [locate2, run_bind_ok hall]
    rfl

theorem run_locate3_eq_ok {a b c : Location} (h : (locate3 i).run m = .ok (a, b, c) after) :
    (locateAll i).run m = .ok [a, b, c] after := by
  rw [locate3, run_bind_eq_ok] at h
  obtain ⟨locations, between, hall, h⟩ := h
  split at h
  · obtain ⟨heq, rfl⟩ := run_pure_eq_ok.1 h
    obtain ⟨rfl, hrest⟩ := Prod.mk.inj heq
    obtain ⟨rfl, rfl⟩ := Prod.mk.inj hrest
    exact hall
  · exact absurd h (run_reservedOperand_ne_ok i)

end Exec

namespace Machine

variable {m after : Machine}

theorem status_flushed (m : Machine) : m.flushed.status = m.status := by
  unfold flushed
  split <;> rfl

theorem status_of_not_isStopped (h : m.isStopped = false) :
    m.status = .notStarted ∨ m.status = .running := by
  cases hstatus : m.status with
  | notStarted => exact .inl rfl
  | running => exact .inr rfl
  | halted halt | faulted fault => simp [isStopped, hstatus] at h

theorem step_of_not_isStopped (h : m.isStopped = false) : m.step = m.start.executeNext := by
  unfold step start
  obtain hstatus | hstatus := status_of_not_isStopped h <;> rw [hstatus]

theorem status_start (h : m.isStopped = false) : m.start.status = .running := by
  unfold start
  obtain hstatus | hstatus := status_of_not_isStopped h
  · rw [hstatus]
  · rw [hstatus]
    exact hstatus

theorem step_of_running (h : m.status = .running) : m.step = m.executeNext := by
  rw [step, h]

/-- A machine that runs on after a step was running, or was started by it. -/
theorem start_of_step_running (h : m.step.status = .running) :
    m.start.status = .running ∧ m.start.step = m.step := by
  have hstopped : m.isStopped = false := by
    cases hstatus : m.status with
    | notStarted | running => rw [isStopped, hstatus]
    | halted halt | faulted fault =>
      rw [step, hstatus] at h
      exact absurd (hstatus.symm.trans h) nofun
  have hstart := status_start hstopped
  exact ⟨hstart, by rw [step_of_running hstart, step_of_not_isStopped hstopped]⟩

theorem step_of_run (hrunning : m.status = .running)
    (h : (Exec.fetchNext >>= Exec.execute).run m.begun = .ok none after) : m.step = after := by
  rw [step_of_running hrunning]
  unfold executeNext
  rw [h]

/-- A step after which the program runs on is an instruction that succeeded. -/
theorem run_of_running (hrunning : m.status = .running) (hstep : m.step.status = .running) :
    (Exec.fetchNext >>= Exec.execute).run m.begun = .ok none m.step := by
  cases hrun : (Exec.fetchNext >>= Exec.execute).run m.begun with
  | ok halt after =>
      cases halt with
      | none => rw [step_of_run hrunning hrun]
      | some halt =>
          have hended : m.step = after.ended (.halted halt) := by
            rw [step_of_running hrunning]
            unfold executeNext
            rw [hrun]
          rw [hended] at hstep
          have hstatus : (after.ended (.halted halt)).status = .halted halt := status_flushed _
          exact absurd (hstatus.symm.trans hstep) nofun
  | error cause after =>
      have hended : m.step = after.ended (.faulted ⟨after.current, cause⟩) := by
        rw [step_of_running hrunning]
        unfold executeNext
        rw [hrun]
      rw [hended] at hstep
      have hstatus : (after.ended (.faulted ⟨after.current, cause⟩)).status =
          .faulted ⟨after.current, cause⟩ := status_flushed _
      exact absurd (hstatus.symm.trans hstep) nofun

end Machine

end Vax
