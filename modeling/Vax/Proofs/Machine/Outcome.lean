import Vax.Proofs.Machine.Actions
/-!
# What an instruction may change

The footprint of an instruction when it succeeds and when it faults, read off
its operands and its action.  `outcome_of_running` says what a step does with
them: it goes on, it ends the program, or it faults.
-/

namespace Vax

/-- The action goes to an address that it computes. -/
def Action.transfers : Action → Bool
  | jump | jumpToSubroutine | returnFromSubroutine | select | call | returnFromCall => true
  | _ => false

namespace Instruction

/-- Evaluating the operands steps the register. -/
def Steps (i : Instruction) (r : Register) : Prop :=
  ∃ operand ∈ i.operands, operand.specifier.stepped? = some r

/-- An operand is the register, or a quadword that begins in the one before. -/
def Names (i : Instruction) (r : Register) : Prop :=
  ∃ operand ∈ i.operands, ∃ s, operand.specifier = .plain (.register s) ∧
    (r = s ∨ operand.kind = .quad ∧ r = s + 1)

def BranchesTo (i : Instruction) (target : UInt32) : Prop :=
  ∃ operand ∈ i.operands, operand.specifier = .branch target

/-- The values that a register may be given when the instruction succeeds. -/
inductive Gives (i : Instruction) : Register → UInt32 → Prop where
  | stepped {r : Register} {value : UInt32} (h : i.Steps r) : Gives i r value
  | written {r : Register} {value : UInt32} (h : i.Names r) : Gives i r value
  | stack (value : UInt32) : Gives i Register.sp value
  | result {r : Register} {value : UInt32} (h : r.val < 6) : Gives i r value
  | branch {target : UInt32} (h : i.BranchesTo target) : Gives i Register.pc target
  | transfer {target : UInt32} (h : i.descriptor.action.transfers = true) :
    Gives i Register.pc target
  | argument {value : UInt32} (h : i.descriptor.action = .call) : Gives i Register.ap value
  | frame {value : UInt32} (h : i.descriptor.action = .call) : Gives i Register.fp value
  | restored {r : Register} {value : UInt32} (h : i.descriptor.action = .returnFromCall) :
    Gives i r value

/-- What may change when the instruction succeeds. -/
def onSuccess (i : Instruction) : Footprint where
  registers := i.Gives
  flags := True
  memory := True
  frames := i.descriptor.action = .call ∨ i.descriptor.action = .returnFromCall
  output := i.descriptor.action = .systemCall

/-- What may change when the instruction faults. -/
def onFault (i : Instruction) : Footprint where
  registers r _ := i.Steps r ∨ r = Register.sp ∨ i.descriptor.action = .returnFromCall
  flags := i.descriptor.action = .select ∨ i.descriptor.action = .returnFromCall
  memory := i.descriptor.action = .call ∨ i.descriptor.action = .longToPacked ∨
    i.descriptor.action = .editPacked
  frames := False
  output := False

variable {m : Memory} {i : Instruction}

/-- An instruction that succeeds may change all that it may when it faults. -/
theorem onFault_within (i : Instruction) : i.onFault.Within i.onSuccess where
  registers r value h := by
    rcases h with hstepped | rfl | hreturn
    · exact .stepped hstepped
    · exact .stack value
    · exact .restored hreturn
  flags _ := trivial
  memory _ := trivial
  frames := False.elim
  output := False.elim

theorem IsEncodedIn.allowed (h : i.IsEncodedIn m) : i.Allowed i.onSuccess i.onFault where
  within := i.onFault_within
  stepped operand hmem r hr _ := .inl ⟨operand, hmem, hr⟩
  written operand hmem r hr _ :=
    ⟨.written ⟨operand, hmem, r, hr, .inl rfl⟩,
      fun hkind => .written ⟨operand, hmem, r, hr, .inr ⟨hkind, rfl⟩⟩⟩
  branches operand hmem hkind := by
    obtain ⟨target, hspecifier⟩ := (h.operands operand hmem).isBranch_iff.1 hkind
    exact ⟨target, hspecifier, .branch ⟨operand, hmem, hspecifier⟩⟩
  stack _ := .inr (.inl rfl)
  results _ hr _ := .result hr
  flags := trivial
  memory := trivial

end Instruction

namespace Exec

variable {i : Instruction}

theorem effect_execute {m : Memory} (h : i.IsEncodedIn m) :
    Effect i.onSuccess i.onFault (execute i) := by
  have hallowed := h.allowed
  have hpc : i.descriptor.action.transfers = true → ∀ value, i.Gives Register.pc value :=
    fun htransfers _ => .transfer htransfers
  by_cases himplemented : i.descriptor.action = .unimplemented
  · rw [execute, himplemented]
    exact (still_throw _).effect
  have hfits := h.fits himplemented
  unfold Descriptor.accesses at hfits
  unfold execute
  cases haction : i.descriptor.action with
  | unimplemented => exact absurd haction himplemented
  | privileged => exact (still_throw _).effect
  | nothing => exact (still_pure _).effect
  | arithmetic operation =>
      simp only [haction] at hfits
      split at hfits
      · exact (effect_arithmetic2 hallowed operation hfits).goesOn
      · exact (effect_arithmetic3 hallowed operation hfits).goesOn
  | returnFromSubroutine =>
      exact (effect_returnFromSubroutine hallowed (hpc (haction ▸ rfl))).goesOn
  | returnFromCall =>
      exact effect_returnFromCall (fun _ _ => .inr (.inr haction)) i.onFault_within
        (.inr haction) (.inr haction)
  | move =>
      simp only [haction] at hfits
      exact (effect_move hallowed hfits).goesOn
  | compare =>
      simp only [haction] at hfits
      exact (effect_compare hallowed hfits).goesOn
  | test =>
      simp only [haction] at hfits
      exact (effect_test hallowed hfits).goesOn
  | clear =>
      simp only [haction] at hfits
      exact (effect_clear hallowed hfits).goesOn
  | increment =>
      simp only [haction] at hfits
      exact (effect_increment hallowed hfits).goesOn
  | decrement =>
      simp only [haction] at hfits
      exact (effect_decrement hallowed hfits).goesOn
  | negate =>
      simp only [haction] at hfits
      exact (effect_negate hallowed hfits).goesOn
  | complement =>
      simp only [haction] at hfits
      exact (effect_complement hallowed hfits).goesOn
  | bitTest =>
      simp only [haction] at hfits
      exact (effect_bitTest hallowed hfits).goesOn
  | zeroExtend =>
      simp only [haction] at hfits
      exact (effect_zeroExtend hallowed hfits).goesOn
  | convert =>
      simp only [haction] at hfits
      exact (effect_convert hallowed hfits).goesOn
  | moveAddress =>
      simp only [haction] at hfits
      exact (effect_moveAddress hallowed hfits).goesOn
  | pushAddress =>
      simp only [haction] at hfits
      exact (effect_pushAddress hallowed hfits).goesOn
  | pushLong =>
      simp only [haction] at hfits
      exact (effect_pushLong hallowed hfits).goesOn
  | shift =>
      simp only [haction] at hfits
      exact (effect_shift hallowed hfits).goesOn
  | branchToSubroutine =>
      simp only [haction] at hfits
      exact (effect_branchToSubroutine hallowed hfits).goesOn
  | addCompareBranch =>
      simp only [haction] at hfits
      exact (effect_addCompareBranch hallowed hfits).goesOn
  | copyString =>
      simp only [haction] at hfits
      exact (effect_copyString hallowed hfits).goesOn
  | branch condition =>
      simp only [haction] at hfits
      exact (effect_branch hallowed condition hfits).goesOn
  | branchOnLowBit onSet =>
      simp only [haction] at hfits
      exact (effect_branchOnLowBit hallowed onSet hfits).goesOn
  | addOneBranch inclusive =>
      simp only [haction] at hfits
      exact (effect_addOneBranch hallowed inclusive hfits).goesOn
  | subtractOneBranch inclusive =>
      simp only [haction] at hfits
      exact (effect_subtractOneBranch hallowed inclusive hfits).goesOn
  | extractField isSigned =>
      simp only [haction] at hfits
      exact (effect_extractField hallowed isSigned hfits).goesOn
  | scan forEqual =>
      simp only [haction] at hfits
      exact (effect_scan hallowed forEqual hfits).goesOn
  | branchOnBit onSet update =>
      simp only [haction] at hfits
      exact (effect_branchOnBit hallowed onSet update hfits).goesOn
  | jump =>
      simp only [haction] at hfits
      exact (effect_jump hallowed (hpc (haction ▸ rfl)) hfits).goesOn
  | jumpToSubroutine =>
      simp only [haction] at hfits
      exact (effect_jumpToSubroutine hallowed (hpc (haction ▸ rfl)) hfits).goesOn
  | select =>
      simp only [haction] at hfits
      exact (effect_select hallowed (hpc (haction ▸ rfl)) (.inl haction) hfits).goesOn
  | call =>
      simp only [haction] at hfits
      exact (effect_call hallowed (.inl haction) (hpc (haction ▸ rfl))
        (fun _ => .argument haction) (fun _ => .frame haction) (.inl haction) hfits).goesOn
  | longToPacked =>
      simp only [haction] at hfits
      exact (effect_longToPacked hallowed (.inr (.inl haction)) hfits).goesOn
  | editPacked =>
      simp only [haction] at hfits
      exact (effect_editPacked hallowed (.inr (.inr haction)) hfits).goesOn
  | systemCall =>
      simp only [haction] at hfits
      exact effect_systemCall hallowed haction hfits

end Exec

namespace Machine

/-- The machine once an instruction was fetched. -/
def fetched (m : Machine) (i : Instruction) : Machine :=
  m.begun.withRegisters (m.registers.set Register.pc i.nextAddress)

/-- How a step ends that has fetched an instruction. -/
inductive Outcome (m : Machine) (i : Instruction) : Machine → Prop where
  | continued {after : Machine} (hrun : (Exec.execute i).run (m.fetched i) = .ok none after)
    (hchanges : (m.fetched i).ChangesOnly i.onSuccess after) : Outcome m i after
  | halted {halt : Halt} {after : Machine}
    (hrun : (Exec.execute i).run (m.fetched i) = .ok (some halt) after)
    (hchanges : (m.fetched i).ChangesOnly i.onSuccess after) :
    Outcome m i (after.ended (.halted halt))
  | faulted {cause : Fault.Cause} {after : Machine}
    (hrun : (Exec.execute i).run (m.fetched i) = .error cause after)
    (hchanges : (m.fetched i).ChangesOnly i.onFault after) :
    Outcome m i (after.ended (.faulted ⟨m.registers.pc, cause⟩))

variable {m : Machine} {i : Instruction}

/-- Ending a program is noticed in its status and in the log. -/
theorem ended_eq (m : Machine) (status : Status) :
    ∃ log, m.ended status = { m with status := status, log := log } := by
  unfold ended flushed
  split
  · exact ⟨m.log, rfl⟩
  · exact ⟨_, rfl⟩

theorem outcome_of_running (hrunning : m.status = .running)
    (hfetch : m.memory.instructionAt m.registers.pc = .ok i) : m.Outcome i m.step := by
  have heffect := Exec.effect_execute (Memory.isEncodedIn_of_instructionAt hfetch)
  have hfetched : Exec.fetchNext.run m.begun = .ok i (m.fetched i) :=
    Exec.run_fetchNext (m := m.begun) hfetch
  rw [step_of_running hrunning]
  unfold executeNext
  rw [Exec.run_bind_ok hfetched]
  cases hrun : (Exec.execute i).run (m.fetched i) with
  | ok halt after =>
      have hchanges := heffect.ok _ _ _ hrun
      cases halt with
      | none => exact .continued hrun hchanges
      | some halt => exact .halted hrun hchanges
  | error cause after =>
      have hchanges := heffect.error _ _ _ hrun
      have hcurrent : after.current = m.registers.pc := hchanges.current
      dsimp only
      rw [hcurrent]
      exact .faulted hrun hchanges

theorem run_of_step_running (hrunning : m.status = .running)
    (hfetch : m.memory.instructionAt m.registers.pc = .ok i) (hstep : m.step.status = .running) :
    (Exec.execute i).run (m.fetched i) = .ok none m.step ∧
      (m.fetched i).ChangesOnly i.onSuccess m.step := by
  have houtcome := outcome_of_running hrunning hfetch
  generalize m.step = after at houtcome hstep ⊢
  cases houtcome with
  | continued hrun hchanges => exact ⟨hrun, hchanges⟩
  | halted hrun hchanges => exact absurd ((status_flushed _).symm.trans hstep) nofun
  | faulted hrun hchanges => exact absurd ((status_flushed _).symm.trans hstep) nofun

end Machine

end Vax
