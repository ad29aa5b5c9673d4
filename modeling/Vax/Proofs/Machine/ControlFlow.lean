import Vax.Proofs.Machine.Listed
import Vax.Proofs.Machine.Outcome
/-!
# Where control goes

An instruction that cannot reach the program counter through its operands goes
on behind itself or to its branch target.  One that computes where it goes
gets there from the address that its operand names, if it names one.
-/

namespace Vax

/-- The mode of the operand or, when it is indexed, of its base. -/
def Specifier.mode? : Specifier → Option Mode
  | plain mode | indexed mode _ => some mode
  | branch _ => none

/-- Only a quadword in `sp` reaches into the program counter. -/
theorem Register.eq_sp_of_pc_eq : ∀ s : Register, pc = s + 1 → s = sp := by
  decide

/-- No operand, and no base of one, reaches the program counter. -/
structure Instruction.SparesPc (i : Instruction) : Prop where
  register : ∀ operand ∈ i.operands, operand.specifier.mode? ≠ some (.register Register.pc)
  autodecrement : ∀ operand ∈ i.operands,
    operand.specifier.mode? ≠ some (.autodecrement Register.pc)
  pair : ∀ operand ∈ i.operands, operand.kind = .quad →
    operand.specifier.mode? ≠ some (.register Register.sp)

namespace Operand

/-- The operand is at an address that is shown for it and takes no looking up. -/
def ShowsAddress (operand : Operand) (target : UInt32) : Prop :=
  operand.specifier = .plain (.absolute target) ∨
    operand.specifier = .plain (.relative target false)

theorem ShowsAddress.eq_of_liesAt {memory : Memory} {operand : Operand} {target : UInt32}
    {location : Location} (h : operand.ShowsAddress target)
    (hlies : operand.LiesAt memory location) : location = .memory target := by
  obtain ⟨before, located, -, hlocate⟩ := hlies
  obtain hspecifier | hspecifier := h
  · rw [hspecifier] at hlocate
    exact (Exec.run_pure_eq_ok.1 hlocate).1
  · rw [hspecifier] at hlocate
    exact (EStateM.Result.ok.inj hlocate).1.symm

theorem ShowsAddress.mem_targets {i : Instruction} {operand : Operand} {target : UInt32}
    (h : operand.ShowsAddress target) (hmem : operand ∈ i.operands) : target ∈ i.targets := by
  refine List.mem_filterMap.2 ⟨operand, hmem, ?_⟩
  obtain hspecifier | hspecifier := h
  · rw [hspecifier]
    rfl
  · rw [hspecifier]
    rfl

end Operand

namespace Instruction

variable {memory : Memory} {i : Instruction}

theorem SparesPc.not_steps (h : i.SparesPc) (hencoded : i.IsEncodedIn memory) :
    ¬ i.Steps Register.pc := by
  rintro ⟨operand, hmem, hstepped⟩
  apply h.autodecrement operand hmem
  obtain hspecifier | ⟨r, hspecifier⟩ :=
    (hencoded.operands operand hmem).autodecrement_of_stepped hstepped
  · rw [hspecifier, Specifier.mode?]
  · rw [hspecifier, Specifier.mode?]

theorem SparesPc.not_names (h : i.SparesPc) : ¬ i.Names Register.pc := by
  rintro ⟨operand, hmem, s, hspecifier, rfl | ⟨hkind, hs⟩⟩
  · exact h.register operand hmem (by rw [hspecifier, Specifier.mode?])
  · exact h.pair operand hmem hkind
      (by rw [hspecifier, Register.eq_sp_of_pc_eq s hs, Specifier.mode?])

end Instruction

namespace Exec

variable {m after : Machine} {i : Instruction}

/-! ## Where operands lie -/

theorem run_locate1 {a : Location} (h : (locate1 i).run m = .ok a after) :
    ∃ operand, i.operands = [operand] ∧ operand.LiesAt m.memory a := by
  have hplaces := liesAt_of_locateAll (run_locate1_eq_ok h)
  obtain ⟨operand, rest, hlies, hrest, hoperands⟩ := List.forall₂_cons_right_iff.1 hplaces
  rw [List.forall₂_nil_right_iff.1 hrest] at hoperands
  exact ⟨operand, hoperands, hlies⟩

/-! ## Going there -/

theorem run_setPc_eq {target : UInt32} (h : (setPc target).run m = .ok () after) :
    after.registers.pc = target := by
  obtain ⟨-, rfl⟩ := EStateM.Result.ok.inj h
  exact Registers.get_set_self _ _ _

theorem run_jump_eq (h : (jump i).run m = .ok () after) :
    ∃ operand, i.operands = [operand] ∧ operand.LiesAt m.memory (.memory after.registers.pc) := by
  rw [jump, run_bind_eq_ok] at h
  obtain ⟨location, located, hlocate, h⟩ := h
  rw [run_bind_eq_ok] at h
  obtain ⟨address, between, haddress, h⟩ := h
  obtain ⟨rfl, -⟩ := run_addressOf_eq haddress
  rw [run_setPc_eq h]
  exact run_locate1 hlocate

theorem run_jumpToSubroutine_eq (h : (jumpToSubroutine i).run m = .ok () after) :
    ∃ operand, i.operands = [operand] ∧ operand.LiesAt m.memory (.memory after.registers.pc) := by
  rw [jumpToSubroutine, run_bind_eq_ok] at h
  obtain ⟨location, located, hlocate, h⟩ := h
  rw [run_bind_eq_ok] at h
  obtain ⟨address, between, haddress, h⟩ := h
  obtain ⟨rfl, -⟩ := run_addressOf_eq haddress
  rw [run_bind_ok (run_getRegister _), run_bind_eq_ok] at h
  obtain ⟨_, pushed, -, h⟩ := h
  rw [run_setPc_eq h]
  exact run_locate1 hlocate

theorem pc_of_beginProcedure {c : Call} {ap : UInt32}
    (h : (beginProcedure c ap).run m = .ok () after) : after.registers.pc = c.procedure + 2 := by
  obtain ⟨-, rfl⟩ := EStateM.Result.ok.inj h
  exact Registers.get_set_self _ _ _

theorem pc_of_enterProcedure {c : Call} (h : (enterProcedure c).run m = .ok () after) :
    after.registers.pc = c.procedure + 2 := by
  rw [enterProcedure_eq, run_bind_eq_ok] at h
  obtain ⟨_, counted, -, h⟩ := h
  rw [run_bind_ok (run_getRegister _), run_bind_ok (run_setRegister _ _), run_bind_eq_ok] at h
  obtain ⟨_, saved, -, h⟩ := h
  exact pc_of_beginProcedure h

/-- A procedure is entered behind its register mask. -/
theorem run_call_eq (h : (call i).run m = .ok () after) :
    ∃ count destination procedure, i.operands = [count, destination] ∧
      destination.LiesAt m.memory (.memory procedure) ∧ after.registers.pc = procedure + 2 := by
  rw [call, run_bind_eq_ok] at h
  obtain ⟨c, caller, hoperands, henter⟩ := h
  obtain ⟨count, destination, place, between, hboth, hcount, hdestination, -⟩ :=
    (run_callOperands_iff.1 hoperands).operands
  exact ⟨count, destination, c.procedure, hboth,
    ⟨between, caller, (differsIn_locate hcount).memory_eq, hdestination⟩,
    pc_of_enterProcedure henter⟩

end Exec

namespace Machine

variable {m : Machine} {i : Instruction}

/-- What does not compute where it goes goes on, or to its branch target. -/
theorem pc_of_not_transfers (hencoded : i.IsEncodedIn m.memory) {after : Machine}
    (hchanges : (m.fetched i).ChangesOnly i.onSuccess after) (hspares : i.SparesPc)
    (htransfers : i.descriptor.action.transfers = false) :
    after.registers.pc = i.nextAddress ∨ i.BranchesTo after.registers.pc := by
  rcases hchanges.registers Register.pc with hkept | hgives
  · exact .inl (hkept.trans (Registers.get_set_self _ _ _))
  · right
    generalize hr : Register.pc = r at hgives
    cases hgives with
    | stepped hsteps => exact absurd (hr ▸ hsteps) (hspares.not_steps hencoded)
    | written hnames => exact absurd (hr ▸ hnames) hspares.not_names
    | stack => exact absurd hr (by decide)
    | result hlt => exact absurd (hr ▸ hlt) (by decide)
    | branch hbranches => exact hbranches
    | transfer hother => exact absurd (htransfers.symm.trans hother) nofun
    | argument => exact absurd hr (by decide)
    | frame => exact absurd hr (by decide)
    | restored hreturn =>
        rw [hreturn] at htransfers
        exact absurd htransfers nofun

/-- What computes where it goes gets there from its operand. -/
theorem pc_of_transfers {after : Machine} (hrun : (Exec.execute i).run m = .ok none after) :
    (i.descriptor.action = .jump ∨ i.descriptor.action = .jumpToSubroutine →
      ∃ operand, i.operands = [operand] ∧ operand.LiesAt m.memory (.memory after.registers.pc)) ∧
    (i.descriptor.action = .call → ∃ count destination procedure,
      i.operands = [count, destination] ∧ destination.LiesAt m.memory (.memory procedure) ∧
        after.registers.pc = procedure + 2) := by
  refine ⟨?_, ?_⟩
  · rintro (haction | haction)
    · rw [Exec.execute, haction] at hrun
      exact Exec.run_jump_eq (Exec.run_of_goesOn hrun)
    · rw [Exec.execute, haction] at hrun
      exact Exec.run_jumpToSubroutine_eq (Exec.run_of_goesOn hrun)
  · intro haction
    rw [Exec.execute, haction] at hrun
    exact Exec.run_call_eq (Exec.run_of_goesOn hrun)

end Machine

/-- Control goes where the disassembler says it may.  An instruction that does
not compute where it goes gets to the following address or to the target of a
branch displacement that it has; without one it always goes on.  A jump goes
to the address shown for its operand, and a call two bytes behind it. -/
theorem control_follows_listed_targets {m : Machine} {i : Instruction}
    (hrunning : m.status = .running)
    (hfetch : m.memory.instructionAt m.registers.pc = .ok i) (hspares : i.SparesPc)
    (hstep : m.step.status = .running) :
    ∃ d, m.disassembler.decodeAt m.registers.pc = .ok d ∧
      (i.descriptor.action.transfers = false →
        (m.step.registers.pc = d.nextAddress ∨
          ∃ operand ∈ i.operands, operand.kind.isBranch = true ∧
            operand.specifier = .branch m.step.registers.pc ∧ m.step.registers.pc ∈ d.targets) ∧
        ((∀ operand ∈ i.operands, operand.kind.isBranch = false) →
          m.step.registers.pc = d.nextAddress)) ∧
      (i.descriptor.action = .jump ∨ i.descriptor.action = .jumpToSubroutine →
        ∃ operand, i.operands = [operand] ∧ ∀ target, operand.ShowsAddress target →
          target ∈ d.targets ∧ m.step.registers.pc = target) ∧
      (i.descriptor.action = .call →
        ∃ count destination, i.operands = [count, destination] ∧
          ∀ target, destination.ShowsAddress target →
            target ∈ d.targets ∧ m.step.registers.pc = target + 2) := by
  have hencoded := Memory.isEncodedIn_of_instructionAt hfetch
  obtain ⟨stop, hdecodes⟩ := Memory.decodes_of_instructionAt hfetch
  have hdecoded := Decoding.decodeAt_of_decodes (d := m.disassembler) hdecodes
  obtain ⟨-, hnext, -⟩ := Decoding.decoded_of_instructionAt m.disassembler _ hfetch hdecoded
  obtain ⟨hrun, hchanges⟩ := Machine.run_of_step_running hrunning hfetch hstep
  obtain ⟨hjump, hcall⟩ := Machine.pc_of_transfers hrun
  refine ⟨_, hdecoded, ?_, ?_, ?_⟩
  · intro htransfers
    rw [← hnext]
    rcases Machine.pc_of_not_transfers hencoded hchanges hspares htransfers with hpc | hpc
    · exact ⟨.inl hpc, fun _ => hpc⟩
    · obtain ⟨operand, hmem, hspecifier⟩ := hpc
      have hkind := (hencoded.operands operand hmem).isBranch_iff.2 ⟨_, hspecifier⟩
      refine ⟨.inr ⟨operand, hmem, hkind, hspecifier, ?_⟩, ?_⟩
      · exact List.mem_filterMap.2 ⟨operand, hmem, by rw [hspecifier, Specifier.target?]⟩
      · intro hnone
        exact absurd (hkind.symm.trans (hnone operand hmem)) nofun
  · intro haction
    obtain ⟨operand, hoperands, hlies⟩ := hjump haction
    refine ⟨operand, hoperands, fun target hshows => ⟨?_, ?_⟩⟩
    · exact hshows.mem_targets (by rw [hoperands]; exact List.mem_cons_self)
    · exact Location.memory.inj (hshows.eq_of_liesAt hlies)
  · intro haction
    obtain ⟨count, destination, procedure, hoperands, hlies, hpc⟩ := hcall haction
    refine ⟨count, destination, hoperands, fun target hshows => ⟨?_, ?_⟩⟩
    · exact hshows.mem_targets (by rw [hoperands]; exact List.mem_of_getElem? (i := 1) rfl)
    · rw [hpc, Location.memory.inj (hshows.eq_of_liesAt hlies)]

/-- A loop that counts in `r1` goes back to its start. -/
theorem control_follows_listed_targets_looping :
    let m : Machine :=
      { registers := (Registers.zeroed.set 1 2).set Register.pc 4
        memory := ⟨0, 64, [0, 0, 0, 0, 0xf5, 0x51, 0xfd].toByteArray⟩
        symbols := .empty, entry := 0, status := .running, frames := #[],
        output := .unlimited, log := .empty none, current := 0 }
    let i : Instruction :=
      { address := 4, length := 3
        descriptor := ⟨0xf5, "sobgtr", [.long, .branchByte], .subtractOneBranch false⟩
        operands := [⟨.long, .plain (.register 1)⟩, ⟨.branchByte, .branch 4⟩] }
    m.memory.instructionAt m.registers.pc = .ok i ∧ i.SparesPc ∧ m.step.status = .running ∧
      m.step.registers.get 1 = 1 ∧ m.step.registers.pc = 4 ∧
      ∃ d, m.disassembler.decodeAt m.registers.pc = .ok d ∧
        (m.step.registers.pc = d.nextAddress ∨
          ∃ operand ∈ i.operands, operand.kind.isBranch = true ∧
            operand.specifier = .branch m.step.registers.pc ∧ m.step.registers.pc ∈ d.targets) := by
  intro m i
  have hfetch : m.memory.instructionAt m.registers.pc = .ok i :=
    Memory.instructionAt_of_toOption (by decide +kernel)
  have hspares : i.SparesPc := ⟨by decide, by decide, by decide⟩
  have hstep : m.step.status = .running := by decide +kernel
  obtain ⟨d, hdecoded, hlisted, -⟩ := control_follows_listed_targets rfl hfetch hspares hstep
  exact ⟨hfetch, hspares, hstep, by decide +kernel, by decide +kernel, d, hdecoded,
    (hlisted rfl).1⟩

end Vax
