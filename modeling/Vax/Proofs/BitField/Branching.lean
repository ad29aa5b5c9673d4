import Vax.Proofs.BitField.Extraction
import Vax.Proofs.Machine.Listed
/-!
# Branches on bits

A branch on a bit tests the bit that a field of that one bit would have, and
changes no other.
-/

namespace Vax

namespace Exec

variable {i : Instruction} {m after : Machine} {base target : Location} {address : UInt32}
  {position : Int} {isSet : Bool}

/-! ## One bit -/

/-- A bit that lies in storage, and in the first register of a base, is read. -/
theorem run_readBit (hbegins : base.Begins position) (hbit : m.bitAt? base position = some isSet) :
    (readBit i position base).run m = .ok isSet m := by
  cases base with
  | value word => exact absurd hbit.symm (Option.some_ne_none _)
  | register r =>
    have hposition := hbegins r rfl
    rw [Machine.bitAt?, Location.bit?_register r hposition] at hbit
    rw [readBit, registerPosition, if_pos hposition, ← Option.some.inj hbit]
    rfl
  | memory address =>
    rw [Machine.bitAt?_memory] at hbit
    cases hread : m.memory.readByte (byteOfBit address position) with
    | error e =>
      rw [hread] at hbit
      exact absurd hbit.symm (Option.some_ne_none _)
    | ok byte =>
      rw [hread] at hbit
      change (readByte (byteOfBit address position) >>= fun byte =>
        pure (byte.toBitVec.getLsbD (placeInByte position))).run m = _
      rw [run_bind_ok (run_readByte hread), ← Option.some.inj hbit]
      rfl

theorem run_readBit_misplaced (h : ¬ base.Begins position) :
    (readBit i position base).run m = .error (.reservedOperand i.descriptor.mnemonic) m := by
  obtain ⟨r, rfl, hposition⟩ : ∃ r, base = .register r ∧ ¬ (0 ≤ position ∧ position < 32) := by
    simpa [Location.Begins] using h
  rw [readBit, registerPosition, if_neg hposition]
  rfl

theorem run_readBit_unmapped (hbit : m.bitAt? (.memory address) position = none) :
    (readBit i position (.memory address)).run m =
      .error (.memory ⟨byteOfBit address position, 1⟩) m := by
  change (readByte (byteOfBit address position) >>= fun byte =>
    pure (byte.toBitVec.getLsbD (placeInByte position))).run m = _
  obtain ⟨byte, hread⟩ | hread := m.memory.readByte_cases (byteOfBit address position)
  · rw [Machine.bitAt?_memory, hread] at hbit
    exact absurd hbit (Option.some_ne_none _)
  · rw [run_bind_error (run_readByte_error hread)]

theorem run_writeBit (hbegins : base.Begins position)
    (hbit : m.bitAt? base position = some isSet) (set : Bool) :
    ∃ bit after, base.bit? position = some bit ∧
      (writeBit i position set base).run m = .ok () after ∧ m.ChangesBit bit set after := by
  cases base with
  | value word => exact absurd hbit.symm (Option.some_ne_none _)
  | register r =>
    have hposition := hbegins r rfl
    refine ⟨_, _, Location.bit?_register r hposition, ?_, .register m r _ set⟩
    rw [writeBit, registerPosition, if_pos hposition]
    rfl
  | memory address =>
    rw [Machine.bitAt?_memory] at hbit
    cases hread : m.memory.readByte (byteOfBit address position) with
    | error e =>
      rw [hread] at hbit
      exact absurd hbit.symm (Option.some_ne_none _)
    | ok byte =>
      have hcovers := (Memory.readByte_eq_ok_iff.1 hread).1
      obtain ⟨memory, hstore⟩ := Memory.exists_store hcovers
        (UInt8.ofBitVec (withBit byte.toBitVec (placeInByte position) set))
      refine ⟨_, _, rfl, ?_, .memory _ set hread hstore⟩
      change (readByte (byteOfBit address position) >>= fun byte =>
        writeByte (byteOfBit address position)
          (UInt8.ofBitVec (withBit byte.toBitVec (placeInByte position) set))).run m = _
      rw [run_bind_ok (run_readByte hread)]
      exact run_writeByte hstore

/-! ## The instruction -/

/-- What the operands of a branch on a bit say: the position, the base, and
where it branches to. -/
def bitOperands (i : Instruction) : Exec (Int × Location × Location) := do
  let (position, base, target) ← locate3 i
  let position := (← read .long position).toInt
  return (position, base, target)

def testBit (i : Instruction) (onSet : Bool) (update : Option Bool) (position : Int)
    (base target : Location) : Exec Unit := do
  let wasSet ← readBit i position base
  match update with
  | some set => writeBit i position set base
  | none => pure ()
  branchTo target (wasSet == onSet)

theorem branchOnBit_eq (i : Instruction) (onSet : Bool) (update : Option Bool) :
    branchOnBit i onSet update = (do
      let (position, base, target) ← bitOperands i
      testBit i onSet update position base target) := by
  cases update with
  | none => simp only [branchOnBit, bitOperands, testBit, bind_assoc, pure_bind]
  | some set => simp only [branchOnBit, bitOperands, testBit, bind_assoc, pure_bind]

theorem execute_branchOnBit {onSet : Bool} {update : Option Bool}
    (h : i.descriptor.action = .branchOnBit onSet update) :
    execute i = goesOn (bitOperands i >>= fun operands =>
      testBit i onSet update operands.1 operands.2.1 operands.2.2) := by
  rw [execute, h]
  exact congrArg goesOn (branchOnBit_eq i onSet update)

theorem evaluates_bitOperands (i : Instruction) : Evaluates i (bitOperands i) :=
  (evaluates_locate3 i).bind fun _ => (still_read _ _).bind fun _ => still_pure _

/-- The target stands in the instruction. -/
theorem exists_target {located : Machine} {onSet : Bool} {update : Option Bool}
    (hencoded : i.IsEncodedIn m.memory) (haction : i.descriptor.action = .branchOnBit onSet update)
    (h : (bitOperands i).run m = .ok (position, base, target) located) :
    ∃ address, target = .value address ∧ i.BranchesTo address := by
  obtain ⟨⟨first, base', target'⟩, between, hlocate, hrest⟩ := run_bind_eq_ok.1 h
  obtain ⟨value, between', hread, hpure⟩ := run_bind_eq_ok.1 hrest
  obtain ⟨heq, -⟩ := run_pure_eq_ok.1 hpure
  obtain ⟨-, rfl⟩ := Prod.mk.inj (Prod.mk.inj heq).2
  have hfits := hencoded.fits (by rw [haction]; exact nofun)
  simp only [Descriptor.accesses, haction] at hfits
  -- The third operand has the kind of a branch, so its specifier is a target.
  obtain ⟨_, _, -, hfits', hoperands⟩ := List.forall₂_cons_left_iff.1 hfits
  obtain ⟨_, _, -, hfits'', rfl⟩ := List.forall₂_cons_left_iff.1 hfits'
  obtain ⟨operand, _, hkind, -, rfl⟩ := List.forall₂_cons_left_iff.1 hfits''
  have hmem : operand ∈ i.operands := by
    rw [hoperands]
    simp
  have hplaces := liesAt_of_locateAll (run_locate3_eq_ok hlocate)
  rw [hoperands] at hplaces
  cases hplaces with
  | cons _ hplaces =>
    cases hplaces with
    | cons _ hplaces =>
      cases hplaces with
      | cons hlies _ =>
        obtain ⟨before, after, -, hlocated⟩ := hlies
        obtain ⟨address, hspecifier, -⟩ := hencoded.allowed.branches operand hmem hkind
        rw [hspecifier] at hlocated
        exact ⟨address, (run_pure_eq_ok.1 hlocated).1, operand, hmem, hspecifier⟩

theorem run_testBit (i : Instruction) (onSet : Bool) (update : Option Bool) (address : UInt32)
    (hbegins : base.Begins position) (hbit : m.bitAt? base position = some isSet) :
    ∃ bit changed, base.bit? position = some bit ∧
      m.ChangesBit bit (update.getD isSet) changed ∧
      (testBit i onSet update position base (.value address)).run m =
        .ok () (if isSet == onSet
          then changed.withRegisters (changed.registers.set Register.pc address) else changed) := by
  have hbranch : ∀ changed : Machine, (branchTo (.value address) (isSet == onSet)).run changed =
      .ok () (if isSet == onSet
        then changed.withRegisters (changed.registers.set Register.pc address) else changed) := by
    intro changed
    rw [branchTo]
    split
    · rfl
    · rfl
  rw [testBit, run_bind_ok (run_readBit hbegins hbit)]
  cases update with
  | none =>
    obtain ⟨bit, -, hname, -⟩ := run_writeBit (i := i) hbegins hbit isSet
    refine ⟨bit, m, hname, .refl ?_, hbranch m⟩
    rw [Machine.bitAt?, hname] at hbit
    exact hbit
  | some set =>
    obtain ⟨bit, changed, hname, hwrite, hchanges⟩ := run_writeBit (i := i) hbegins hbit set
    refine ⟨bit, changed, hname, hchanges, ?_⟩
    dsimp only
    rw [run_bind_ok hwrite]
    exact hbranch changed

end Exec

open Exec

/-- What a step makes of the bit at a position from a base.  A bit that is in
storage gets its new value, if there is one, and the branch goes by the old. -/
structure Instruction.Tests (i : Instruction) (onSet : Bool) (update : Option Bool)
    (position : Int) (base target : Location) (m located : Machine) : Prop where
  branches : ∀ isSet, base.Begins position → located.bitAt? base position = some isSet →
    m.step.status = .running ∧ ∃ address bit changed,
      target = .value address ∧ i.BranchesTo address ∧ base.bit? position = some bit ∧
      located.ChangesBit bit (update.getD isSet) changed ∧
      m.step = if isSet == onSet
        then changed.withRegisters (changed.registers.set Register.pc address) else changed
  misplaced : ¬ base.Begins position →
    m.step.status = .faulted ⟨m.registers.pc, .reservedOperand i.descriptor.mnemonic⟩
  unmapped : ∀ address, base = .memory address → located.bitAt? base position = none →
    m.step.status = .faulted ⟨m.registers.pc, .memory ⟨byteOfBit address position, 1⟩⟩

theorem Machine.step_tests {m located : Machine} {i : Instruction} {onSet : Bool}
    {update : Option Bool} {position : Int} {base target : Location}
    (hrunning : m.status = .running) (hfetch : m.memory.instructionAt m.registers.pc = .ok i)
    (haction : i.descriptor.action = .branchOnBit onSet update)
    (hoperands : (bitOperands i).run (m.fetched i) = .ok (position, base, target) located) :
    i.Tests onSet update position base target m located := by
  have hexecute := execute_branchOnBit haction
  have hencoded := Memory.isEncodedIn_of_instructionAt hfetch
  obtain ⟨-, hstatus, hcurrent⟩ :=
    Machine.eq_of_located ((evaluates_bitOperands i).differsIn hoperands)
  have hfaults : ∀ cause, (readBit i position base).run located = .error cause located →
      m.step.status = .faulted ⟨m.registers.pc, cause⟩ := by
    intro cause hrun
    have htest : (testBit i onSet update position base target).run located =
        .error cause located := by
      rw [testBit, run_bind_error hrun]
    obtain ⟨log, hstep⟩ := Machine.step_of_stages_error hrunning hfetch hexecute hoperands htest
    rw [hstep, ← hcurrent]
  constructor
  case branches =>
    intro isSet hbegins hbit
    obtain ⟨address, rfl, hbranches⟩ := exists_target (m := m.fetched i) hencoded haction hoperands
    obtain ⟨bit, changed, hname, hchanges, hrun⟩ :=
      run_testBit i onSet update address hbegins hbit
    have hstep := Machine.step_of_stages hrunning hfetch hexecute hoperands hrun
    have hrunning' : changed.status = .running := by
      rw [hchanges.machine_eq]
      exact hstatus.trans hrunning
    refine ⟨?_, address, bit, changed, rfl, hbranches, hname, hchanges, hstep⟩
    rw [hstep]
    split
    · exact hrunning'
    · exact hrunning'
  case misplaced => exact fun hbegins => hfaults _ (run_readBit_misplaced hbegins)
  case unmapped =>
    rintro address rfl hbit
    exact hfaults _ (run_readBit_unmapped hbit)

example : [Action.extractField true, .extractField false, .branchOnBit true none,
      .branchOnBit false none, .branchOnBit true (some true), .branchOnBit false (some true),
      .branchOnBit true (some false), .branchOnBit false (some false)].map Catalog.mnemonics =
    [["extv"], ["extzv"], ["bbs"], ["bbc"], ["bbss", "bbssi"], ["bbcs"], ["bbsc"],
      ["bbcc", "bbcci"]] := by
  decide +kernel

/-- Bit fields and the branches on bits see the same bits of storage, those that
a position from a base names.  A field of several bits must not run on past the
last address into an image that is larger than the address space. -/
theorem bit_fields_and_branches_share_storage {m : Machine} (hrunning : m.status = .running) :
    (∀ i isSigned position size base destination located,
      m.memory.instructionAt m.registers.pc = .ok i →
      i.descriptor.action = .extractField isSigned →
      (fieldOperands i).run (m.fetched i) = .ok (position, size, base, destination) located →
      (∀ address, base = .memory address → 1 < size →
        ¬ m.memory.RunsOver (byteOfBit address position) (fieldLength position size)) →
      (m.fetched i).DiffersIn located i.Steps ∧
        i.Extracts isSigned position size base destination m located) ∧
    ∀ i onSet update position base target located,
      m.memory.instructionAt m.registers.pc = .ok i →
      i.descriptor.action = .branchOnBit onSet update →
      (bitOperands i).run (m.fetched i) = .ok (position, base, target) located →
      (m.fetched i).DiffersIn located i.Steps ∧
        i.Tests onSet update position base target m located := by
  constructor
  · intro i isSigned position size base destination located hfetch haction hoperands hspan
    refine ⟨(evaluates_fieldOperands i).differsIn hoperands,
      Machine.step_extracts hrunning hfetch haction hoperands fun address hbase => ?_⟩
    by_cases hsize : 1 < size
    · exact hspan address hbase hsize
    · apply Memory.not_runsOver_of_le_one
      have hplace := placeInByte_lt position
      rw [fieldLength]
      omega
  · intro i onSet update position base target located hfetch haction hoperands
    exact ⟨(evaluates_bitOperands i).differsIn hoperands,
      Machine.step_tests hrunning hfetch haction hoperands⟩

/-- Four bits that straddle two registers, and the bit in front of an address. -/
theorem bit_fields_and_branches_share_storage_straddling :
    let m (registers : Registers) (code : List UInt8) : Machine :=
      { registers := registers, memory := ⟨0, 32, code.toByteArray⟩
        symbols := .empty, entry := 0, status := .running, frames := #[],
        output := .unlimited, log := .empty none, current := 0 }
    let extracting := m ((Registers.zeroed.set 1 0xc0000000).set 2 2) [0xee, 30, 4, 0x51, 0x53]
    let branching := m (Registers.zeroed.set 4 16) [0xe2, 0x8f, 0xff, 0xff, 0xff, 0xff, 0x64, 5]
    (extracting.step.status = .running ∧ extracting.step.registers.get 3 = 0xfffffffb ∧
      ∃ located : Machine, ∃ value : BitVec 32,
        (∀ k < 4, located.bitAt? (.register 1) (30 + (k : Nat)) = some (value.getLsbD k)) ∧
        located.Receives .long value.toNat extracting.step (.register 3)) ∧
    (branching.step.status = .running ∧ branching.step.registers.pc = 8 ∧
      ∃ (located changed : Machine) (bit : StorageBit),
        (Location.memory 16).bit? (-1) = some bit ∧ located.ChangesBit bit true changed ∧
        branching.step = changed) := by
  intro m extracting branching
  let field : Instruction :=
    { address := 0, length := 5
      descriptor := ⟨0xee, "extv", [.long, .byte, .byte, .long], .extractField true⟩
      operands := [⟨.long, .plain (.literal 30)⟩, ⟨.byte, .plain (.literal 4)⟩,
        ⟨.byte, .plain (.register 1)⟩, ⟨.long, .plain (.register 3)⟩] }
  let branch : Instruction :=
    { address := 0, length := 8
      descriptor := ⟨0xe2, "bbss", [.long, .byte, .branchByte], .branchOnBit true (some true)⟩
      operands := [⟨.long, .plain (.immediate 2 0xffffffff)⟩, ⟨.byte, .plain (.deferred 4)⟩,
        ⟨.branchByte, .branch 13⟩] }
  have hfield : extracting.memory.instructionAt extracting.registers.pc = .ok field :=
    Memory.instructionAt_of_toOption (by decide +kernel)
  have hbranch : branching.memory.instructionAt branching.registers.pc = .ok branch :=
    Memory.instructionAt_of_toOption (by decide +kernel)
  obtain ⟨located, hoperands⟩ : ∃ located, (fieldOperands field).run (extracting.fetched field) =
      .ok (30, 4, .register 1, .register 3) located := exists_run (by decide +kernel)
  obtain ⟨located', hoperands'⟩ : ∃ located, (bitOperands branch).run (branching.fetched branch) =
      .ok (-1, .memory 16, .value 13) located := exists_run (by decide +kernel)
  constructor
  · obtain ⟨-, hextracts⟩ := (bit_fields_and_branches_share_storage rfl).1 field true 30 4
      (.register 1) (.register 3) located hfield rfl hoperands nofun
    have hstored : ∀ k < 4, (located.bitAt? (.register 1) (30 + (k : Nat))).isSome := by
      intro k hk
      have hposition : (30 : Int) + k = (30 + k : Nat) := rfl
      rw [hposition, Machine.bitAt?_register (by omega)]
      rfl
    obtain ⟨hstatus, value, hbits, -, hreceives, -⟩ :=
      hextracts.yields (by decide) (fun _ r _ => by decide) hstored trivial
    exact ⟨hstatus, by decide +kernel, located, value, hbits, hreceives⟩
  · obtain ⟨hlocated, htests⟩ := (bit_fields_and_branches_share_storage rfl).2 branch true
      (some true) (-1) (.memory 16) (.value 13) located' hbranch rfl hoperands'
    have hbit : located'.bitAt? (.memory 16) (-1) = some false := by
      rw [Machine.bitAt?_memory, hlocated.memory_eq]
      decide +kernel
    obtain ⟨hstatus, _, bit, changed, -, -, hname, hchanges, hstep⟩ :=
      htests.branches false nofun hbit
    exact ⟨hstatus, by decide +kernel, located', changed, bit, hname, hchanges, hstep⟩

/-- In an image larger than the address space a field that runs on past the last
address misses the bit that stands at the first. -/
theorem field_misses_wrapped_bit :
    let m : Machine :=
      { registers := Registers.zeroed.set Register.pc 0x80000002
        memory := ⟨0x80000000, 2 ^ 32 + 64,
          [1, 0, 0xef, 4, 8, 0x9f, 0xff, 0xff, 0xff, 0x7f, 0x50, 4].toByteArray⟩
        symbols := .empty, entry := 0x80000000, status := .running, frames := #[],
        output := .unlimited, log := .empty none, current := 0x80000000 }
    let i : Instruction :=
      { address := 0x80000002, length := 9
        descriptor := ⟨0xef, "extzv", [.long, .byte, .byte, .long], .extractField false⟩
        operands := [⟨.long, .plain (.literal 4)⟩, ⟨.byte, .plain (.literal 8)⟩,
          ⟨.byte, .plain (.absolute 0x7fffffff)⟩, ⟨.long, .plain (.register 0)⟩] }
    m.memory.instructionAt m.registers.pc = .ok i ∧
      (∃ located, (fieldOperands i).run (m.fetched i) =
        .ok (4, 8, .memory 0x7fffffff, .register 0) located) ∧
      m.bitAt? (.memory 0x7fffffff) (4 + 4) = some true ∧ m.step.status = .running ∧
      (m.step.registers.get 0).toBitVec.getLsbD 4 = false := by
  intro m i
  exact ⟨Memory.instructionAt_of_toOption (by decide +kernel), exists_run (by decide +kernel),
    by decide +kernel, by decide +kernel, by decide +kernel⟩

end Vax
