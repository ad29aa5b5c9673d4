import Mathlib.Logic.Relation
import Vax.Proofs.Machine.Listed
import Vax.Proofs.Machine.Results
import Vax.Proofs.Machine.Stages
/-!
# Branches decide the comparison before them

A comparison leaves condition codes that tell both orders of its operands.
Transfers of control leave these codes alone, so a conditional branch behind
any number of them is taken if its condition holds of the two operands.
-/

namespace Vax

/-! ## What conditions say -/

namespace Condition

variable {w : Nat}

/-- What the condition says of the operands of a comparison. -/
def decides (left right : BitVec w) : Condition → Bool
  | always | noOverflow => true
  | overflow => false
  | equal => left = right
  | notEqual => left ≠ right
  | less => left.toInt < right.toInt
  | lessOrEqual => left.toInt ≤ right.toInt
  | greater => right.toInt < left.toInt
  | greaterOrEqual => right.toInt ≤ left.toInt
  | lessUnsigned => left.toNat < right.toNat
  | lessOrEqualUnsigned => left.toNat ≤ right.toNat
  | greaterUnsigned => right.toNat < left.toNat
  | greaterOrEqualUnsigned => right.toNat ≤ left.toNat

example : [less, lessOrEqual, greater, greaterOrEqual, lessUnsigned, lessOrEqualUnsigned,
      greaterUnsigned, greaterOrEqualUnsigned, equal, notEqual, noOverflow, overflow].map
      (fun condition => Catalog.mnemonics (.branch condition)) =
    [["blss"], ["bleq"], ["bgtr"], ["bgeq"], ["blssu"], ["blequ"], ["bgtru"], ["bcc"], ["beql"],
      ["bneq"], ["bvc"], ["bvs"]] := by
  decide +kernel

/-- The condition that holds exactly if this one does not. -/
def opposite? : Condition → Option Condition
  | always => none
  | noOverflow => some overflow
  | overflow => some noOverflow
  | equal => some notEqual
  | notEqual => some equal
  | less => some greaterOrEqual
  | greaterOrEqual => some less
  | lessOrEqual => some greater
  | greater => some lessOrEqual
  | lessUnsigned => some greaterOrEqualUnsigned
  | greaterOrEqualUnsigned => some lessUnsigned
  | lessOrEqualUnsigned => some greaterUnsigned
  | greaterUnsigned => some lessOrEqualUnsigned

theorem holds_ofComparison (condition : Condition) (left right : BitVec w) :
    condition.holds (Flags.ofComparison left right) = condition.decides left right := by
  have hsigned : left = right ↔ left.toInt = right.toInt := BitVec.toInt_inj.symm
  have hunsigned : left = right ↔ left.toNat = right.toNat := BitVec.toNat_inj.symm
  cases condition with
  | always | noOverflow | overflow => rfl
  | equal | notEqual =>
    rw [Bool.eq_iff_iff]
    simp [holds, decides, Flags.ofComparison]
  | less | greaterOrEqual =>
    simp [holds, decides, Flags.ofComparison, BitVec.slt_eq_decide, ← decide_not]
  | lessOrEqual | greater =>
    rw [Bool.eq_iff_iff]
    simp [holds, decides, Flags.ofComparison, BitVec.slt_eq_decide, hsigned]
    omega
  | lessUnsigned | greaterOrEqualUnsigned =>
    simp [holds, decides, Flags.ofComparison, BitVec.ult_eq_decide, ← decide_not]
  | lessOrEqualUnsigned | greaterUnsigned =>
    rw [Bool.eq_iff_iff]
    simp [holds, decides, Flags.ofComparison, BitVec.ult_eq_decide, hunsigned]
    omega

theorem decides_opposite {condition opposite : Condition} (h : condition.opposite? = some opposite)
    (left right : BitVec w) : opposite.decides left right = !condition.decides left right := by
  cases condition with
  | always => exact absurd h nofun
  | _ =>
    obtain rfl := Option.some.inj h
    rw [Bool.eq_iff_iff]
    simp [decides]

end Condition

/-! ## What leaves the condition codes alone -/

/-- The action transfers control, if it does anything, and sets no condition codes. -/
def Action.keepsFlags : Action → Bool
  | nothing | branch _ | jump | branchToSubroutine | jumpToSubroutine | returnFromSubroutine
  | branchOnBit _ _ | branchOnLowBit _ => true
  | _ => false

/-- Registers and memory may change. -/
def Footprint.transfer : Footprint where
  registers _ _ := True
  flags := False
  memory := True
  frames := False
  output := False

namespace Exec

open Footprint (transfer)

variable {i : Instruction}

theorem effect_locateAll_transfer : Effect transfer transfer (locateAll i) :=
  effect_mapM_locate fun _ _ _ _ _ => trivial

theorem effect_locate1_transfer : Effect transfer transfer (locate1 i) := by
  refine effect_locateAll_transfer.bind fun locations => ?_
  split
  · exact (still_pure _).effect
  · exact (still_reservedOperand i).effect

theorem effect_locate2_transfer : Effect transfer transfer (locate2 i) := by
  refine effect_locateAll_transfer.bind fun locations => ?_
  split
  · exact (still_pure _).effect
  · exact (still_reservedOperand i).effect

theorem effect_locate3_transfer : Effect transfer transfer (locate3 i) := by
  refine effect_locateAll_transfer.bind fun locations => ?_
  split
  · exact (still_pure _).effect
  · exact (still_reservedOperand i).effect

theorem effect_push_transfer (value : UInt32) : Effect transfer transfer (push value) :=
  effect_push (.refl _) trivial (fun _ => trivial) value

theorem total_branchTo_transfer (target : Location) (taken : Bool) :
    Total transfer (branchTo target taken) :=
  total_branchTo (fun _ _ => trivial) taken

theorem effect_writeBit_transfer (position : Int) (set : Bool) (base : Location) :
    Effect transfer transfer (writeBit i position set base) := by
  cases base with
  | register r =>
    exact (still_registerPosition i _).bind_effect fun _ => (still_getRegister r).bind_effect
      fun _ => (total_setRegister trivial).effect
  | value _ | memory _ =>
    exact (still_addressOf _).bind_effect fun _ => (still_readByte _).bind_effect fun _ =>
      effect_store trivial _ _

theorem effect_branchOnBit_transfer (onSet : Bool) (update : Option Bool) :
    Effect transfer transfer (branchOnBit i onSet update) := by
  refine effect_locate3_transfer.bind fun places => ?_
  obtain ⟨position, base, target⟩ := places
  refine (still_read _ _).bind_effect fun _ => (still_readBit i _ _).bind_effect fun _ => ?_
  cases update with
  | some set =>
    exact (effect_writeBit_transfer _ set base).bind_total fun _ => total_branchTo_transfer _ _
  | none => exact (total_branchTo_transfer _ _).effect

/-- Such an action can change registers and memory, but not the condition codes. -/
theorem effect_transfer (hkeeps : i.descriptor.action.keepsFlags = true) :
    Effect transfer transfer (execute i) := by
  unfold execute
  cases haction : i.descriptor.action with
  | nothing => exact (still_pure _).effect
  | branch condition =>
    refine Effect.goesOn (effect_locate1_transfer.bind fun _ => ?_)
    exact still_getFlags.bind_effect fun _ => (total_branchTo_transfer _ _).effect
  | jump =>
    refine Effect.goesOn (effect_locate1_transfer.bind fun _ => ?_)
    exact (still_addressOf _).bind_effect fun _ => (total_setRegister trivial).effect
  | branchToSubroutine =>
    refine Effect.goesOn (effect_locate1_transfer.bind fun _ => ?_)
    exact (still_getRegister _).bind_effect fun _ =>
      (effect_push_transfer _).bind_total fun _ => total_branchTo_transfer _ _
  | jumpToSubroutine =>
    refine Effect.goesOn (effect_locate1_transfer.bind fun _ => ?_)
    exact (still_addressOf _).bind_effect fun _ => (still_getRegister _).bind_effect fun _ =>
      (effect_push_transfer _).bind_total fun _ => total_setRegister trivial
  | returnFromSubroutine =>
    refine Effect.goesOn ((effect_pop fun _ => trivial).bind_total fun _ => ?_)
    exact total_setRegister trivial
  | branchOnBit onSet update => exact (effect_branchOnBit_transfer onSet update).goesOn
  | branchOnLowBit onSet =>
    refine Effect.goesOn (effect_locate2_transfer.bind fun places => ?_)
    obtain ⟨source, target⟩ := places
    exact (still_read _ _).bind_effect fun _ => (total_branchTo_transfer _ _).effect
  | _ =>
    rw [haction] at hkeeps
    exact absurd hkeeps Bool.false_ne_true

end Exec

namespace Machine

variable {m after : Machine} {i : Instruction}

/-- One instruction that sets no condition codes is executed and succeeds. -/
def PassesTo (m after : Machine) : Prop :=
  m.status = .running ∧ after.status = .running ∧ after = m.step ∧
    ∃ i, m.memory.instructionAt m.registers.pc = .ok i ∧ i.descriptor.action.keepsFlags = true

theorem PassesTo.flags_eq (h : m.PassesTo after) :
    after.registers.flags = m.registers.flags := by
  obtain ⟨hrunning, hstep, rfl, i, hfetch, hkeeps⟩ := h
  obtain ⟨hrun, -⟩ := run_of_step_running hrunning hfetch hstep
  have hchanges := (Exec.effect_transfer hkeeps).ok _ _ _ hrun
  exact hchanges.flags.resolve_right id

/-- However many of them there are, the codes stay, and the machine runs on. -/
theorem flags_of_passes (h : Relation.ReflTransGen PassesTo m after) :
    after.registers.flags = m.registers.flags := by
  induction h with
  | refl => rfl
  | tail _ hlast ih => exact hlast.flags_eq.trans ih

theorem running_of_passes (hrunning : m.status = .running)
    (h : Relation.ReflTransGen PassesTo m after) : after.status = .running := by
  induction h with
  | refl => exact hrunning
  | tail _ hlast _ => exact hlast.2.1

end Machine

/-! ## Comparisons and branches -/

/-- What is compared of operands with these signed values.  A case instruction
compares the selector, counted from the base, with the limit. -/
def Action.comparison? (w : Nat) : Action → List Int → Option (BitVec w × BitVec w)
  | compare, [left, right] => some (BitVec.ofInt w left, BitVec.ofInt w right)
  | select, [selector, base, limit] =>
    some (BitVec.ofInt w (selector - base), BitVec.ofInt w limit)
  | _, _ => none

namespace Exec

variable {m after : Machine} {i : Instruction}

/-- The operands were found and compared. -/
def Compares (i : Instruction) (m : Machine) (left right : BitVec i.width.bits) : Prop :=
  ∃ locations located values, (locateAll i).run m = .ok locations located ∧
    located.signedAll? (Access.sources i.descriptor.accesses locations) = some values ∧
    i.descriptor.action.comparison? i.width.bits values = some (left, right)

theorem compares_compare (haction : i.descriptor.action = .compare)
    (h : (compare i).run m = .ok () after) :
    ∃ left right, Compares i m left right ∧
      after.registers.flags = Flags.ofComparison left right := by
  have haccesses : i.descriptor.accesses = [.read i.width, .read i.width] := by
    simp only [Descriptor.accesses, haction]
    rfl
  rw [compare, run_bind_eq_ok] at h
  obtain ⟨⟨a, b⟩, located, hlocate, h⟩ := h
  simp only at h
  rw [run_bind_eq_ok] at h
  obtain ⟨left, between, hleft, h⟩ := h
  obtain ⟨rfl, hleft⟩ := run_read_signed hleft
  rw [run_bind_eq_ok] at h
  obtain ⟨right, between', hright, h⟩ := h
  obtain ⟨rfl, hright⟩ := run_read_signed hright
  obtain ⟨-, rfl⟩ := EStateM.Result.ok.inj h
  refine ⟨left, right, ⟨[a, b], between', [left.toInt, right.toInt], run_locate2_eq_ok hlocate, ?_,
    ?_⟩, rfl⟩
  · rw [haccesses]
    exact Machine.signedAll?_cons hleft (Machine.signedAll?_cons hright rfl)
  · rw [haction, Action.comparison?, BitVec.ofInt_toInt, BitVec.ofInt_toInt]

/-- Where a case instruction goes does not matter for the codes. -/
theorem compares_select (haction : i.descriptor.action = .select)
    (h : (select i).run m = .ok () after) :
    ∃ left right, Compares i m left right ∧
      after.registers.flags = Flags.ofComparison left right := by
  have haccesses : i.descriptor.accesses = [.read i.width, .read i.width, .read i.width] := by
    simp only [Descriptor.accesses, haction]
    rfl
  rw [select, run_bind_eq_ok] at h
  obtain ⟨⟨a, b, c⟩, located, hlocate, h⟩ := h
  simp only at h
  rw [run_bind_eq_ok] at h
  obtain ⟨selector, between, hselector, h⟩ := h
  obtain ⟨rfl, hselector⟩ := run_read_signed hselector
  rw [run_bind_eq_ok] at h
  obtain ⟨base, between', hbase, h⟩ := h
  obtain ⟨rfl, hbase⟩ := run_read_signed hbase
  rw [run_bind_eq_ok] at h
  obtain ⟨limit, between'', hlimit, h⟩ := h
  obtain ⟨rfl, hlimit⟩ := run_read_signed hlimit
  simp only [setComparison] at h
  rw [run_bind_ok (run_setFlags _), run_bind_ok (run_getRegister _)] at h
  refine ⟨selector - base, limit, ⟨[a, b, c], between'', [selector.toInt, base.toInt, limit.toInt],
    run_locate3_eq_ok hlocate, ?_, ?_⟩, ?_⟩
  · rw [haccesses]
    exact Machine.signedAll?_cons hselector (Machine.signedAll?_cons hbase
      (Machine.signedAll?_cons hlimit rfl))
  · rw [haction, Action.comparison?, Int.sub_eq_add_neg, BitVec.ofInt_add, BitVec.ofInt_neg,
      BitVec.ofInt_toInt, BitVec.ofInt_toInt, BitVec.ofInt_toInt, ← BitVec.sub_eq_add_neg]
  · split at h
    · obtain ⟨word, looked, hread, hset⟩ := run_bind_eq_ok.1 h
      obtain ⟨-, rfl⟩ := run_readWord_eq_ok.1 hread
      obtain ⟨-, rfl⟩ := EStateM.Result.ok.inj hset
      rfl
    · obtain ⟨-, rfl⟩ := EStateM.Result.ok.inj h
      rfl

/-- A branch operand is where the branch goes. -/
theorem exists_branch {memory : Memory} {condition : Condition} (hencoded : i.IsEncodedIn memory)
    (haction : i.descriptor.action = .branch condition) :
    ∃ target, i.BranchesTo target ∧ ∀ m, (locate1 i).run m = .ok (.value target) m := by
  have hfits := hencoded.fits (by rw [haction]; exact nofun)
  simp only [Descriptor.accesses, haction] at hfits
  obtain ⟨operand, rest, hkind, hrest, hoperands⟩ := List.forall₂_cons_left_iff.1 hfits
  rw [List.forall₂_nil_left_iff.1 hrest] at hoperands
  have hmem : operand ∈ i.operands := by
    rw [hoperands]
    exact List.mem_cons_self
  obtain ⟨target, hspecifier⟩ := (hencoded.operands operand hmem).isBranch_iff.1 hkind
  refine ⟨target, ⟨operand, hmem, hspecifier⟩, fun m => ?_⟩
  rw [locate1, locateAll, hoperands, List.mapM_cons, hspecifier]
  rfl

end Exec

namespace Machine

variable {m : Machine} {i : Instruction}

/-- A conditional branch succeeds, and is taken if its condition holds. -/
theorem step_branch {condition : Condition} (hrunning : m.status = .running)
    (hfetch : m.memory.instructionAt m.registers.pc = .ok i)
    (haction : i.descriptor.action = .branch condition) :
    m.step.status = .running ∧ ∃ target, i.BranchesTo target ∧ m.step.registers.pc =
      if condition.holds m.registers.flags then target else i.nextAddress := by
  have hencoded := Memory.isEncodedIn_of_instructionAt hfetch
  obtain ⟨target, hbranches, hlocate⟩ := Exec.exists_branch hencoded haction
  have hflags : (m.fetched i).registers.flags = m.registers.flags := Registers.flags_set _ _ _
  have hexecute : Exec.execute i = Exec.goesOn (Exec.locate1 i >>= fun target =>
      Exec.getFlags >>= fun flags => Exec.branchTo target (condition.holds flags)) := by
    rw [Exec.execute, haction]
    rfl
  have hgoes : ∃ after, (Exec.getFlags >>= fun flags => Exec.branchTo (.value target)
        (condition.holds flags)).run (m.fetched i) = .ok () after ∧ after.status = m.status ∧
      after.registers.pc =
        if condition.holds m.registers.flags then target else i.nextAddress := by
    rw [Exec.run_bind_ok Exec.run_getFlags, hflags]
    cases condition.holds m.registers.flags with
    | true => exact ⟨_, rfl, rfl, Registers.get_set_self _ _ _⟩
    | false => exact ⟨_, rfl, rfl, Registers.get_set_self _ _ _⟩
  obtain ⟨after, hrun, hstatus, hpc⟩ := hgoes
  rw [step_of_stages hrunning hfetch hexecute (hlocate _) hrun]
  exact ⟨hstatus.trans hrunning, target, hbranches, hpc⟩

end Machine

/-- Conditional branches decide the comparison before them.  A comparison, or a
case instruction, that succeeds compares two values, and then any number of
instructions that set no condition codes may succeed.  A branch behind them is
taken if its condition holds of these values, in the signed or the unsigned
order that it asks for, and otherwise goes on.  Of two opposite conditions
exactly one holds. -/
theorem branches_decide_comparison {m : Machine} {i : Instruction}
    (hfetch : m.start.memory.instructionAt m.start.registers.pc = .ok i)
    (haction : i.descriptor.action = .compare ∨ i.descriptor.action = .select)
    (hstep : m.step.status = .running) :
    ∃ left right, Exec.Compares i (m.start.fetched i) left right ∧
      (∀ after, Relation.ReflTransGen Machine.PassesTo m.step after →
        ∀ branch condition, after.memory.instructionAt after.registers.pc = .ok branch →
          branch.descriptor.action = .branch condition →
          after.step.status = .running ∧ ∃ target, branch.BranchesTo target ∧
            after.step.registers.pc =
              if condition.decides left right then target else branch.nextAddress) ∧
      ∀ condition opposite : Condition, condition.opposite? = some opposite →
        opposite.decides left right = !condition.decides left right := by
  obtain ⟨hrunning, hstart⟩ := Machine.start_of_step_running hstep
  rw [← hstart] at hstep ⊢
  obtain ⟨hrun, -⟩ := Machine.run_of_step_running hrunning hfetch hstep
  have hcompares : ∃ left right, Exec.Compares i (m.start.fetched i) left right ∧
      m.start.step.registers.flags = Flags.ofComparison left right := by
    rw [Exec.execute] at hrun
    obtain haction | haction := haction
    · rw [haction] at hrun
      exact Exec.compares_compare haction (Exec.run_of_goesOn hrun)
    · rw [haction] at hrun
      exact Exec.compares_select haction (Exec.run_of_goesOn hrun)
  obtain ⟨left, right, hcompares, hflags⟩ := hcompares
  refine ⟨left, right, hcompares, ?_, ?_⟩
  · intro after hpasses branch condition hfetched hbranch
    have hafter := Machine.running_of_passes hstep hpasses
    have hholds : condition.holds after.registers.flags = condition.decides left right := by
      rw [Machine.flags_of_passes hpasses, hflags, Condition.holds_ofComparison]
    rw [← hholds]
    exact Machine.step_branch hafter hfetched hbranch
  · intro condition opposite hopposite
    exact Condition.decides_opposite hopposite left right

/-- A byte is less than one as a signed value, and a branch in a subroutine says so. -/
theorem branches_decide_comparison_signed :
    let m : Machine :=
      { registers := (Registers.zeroed.set 1 0x80).set Register.sp 64
        memory := ⟨0, 64, [0x91, 0x51, 1, 0x10, 0, 0x19, 4].toByteArray⟩
        symbols := .empty, entry := 0, status := .running, frames := #[],
        output := .unlimited, log := .empty none, current := 0 }
    let i : Instruction :=
      { address := 0, length := 3, descriptor := ⟨0x91, "cmpb", [.byte, .byte], .compare⟩
        operands := [⟨.byte, .plain (.register 1)⟩, ⟨.byte, .plain (.literal 1)⟩] }
    let branch : Instruction :=
      { address := 5, length := 2, descriptor := ⟨0x19, "blss", [.branchByte], .branch .less⟩
        operands := [⟨.branchByte, .branch 11⟩] }
    m.step.PassesTo m.step.step ∧ m.step.step.step.registers.pc = 11 ∧
      ∃ left right target, Exec.Compares i (m.start.fetched i) left right ∧
        branch.BranchesTo target ∧ m.step.step.step.registers.pc =
          if Condition.less.decides left right then target else branch.nextAddress := by
  intro m i branch
  have hfetch : m.start.memory.instructionAt m.start.registers.pc = .ok i :=
    Memory.instructionAt_of_toOption (by decide +kernel)
  let call : Instruction :=
    { address := 3, length := 2
      descriptor := ⟨0x10, "bsbb", [.branchByte], .branchToSubroutine⟩
      operands := [⟨.branchByte, .branch 5⟩] }
  have hcall : m.step.memory.instructionAt m.step.registers.pc = .ok call :=
    Memory.instructionAt_of_toOption (by decide +kernel)
  have hpasses : m.step.PassesTo m.step.step :=
    ⟨by decide +kernel, by decide +kernel, rfl, call, hcall, rfl⟩
  have hbranch : m.step.step.memory.instructionAt m.step.step.registers.pc = .ok branch :=
    Memory.instructionAt_of_toOption (by decide +kernel)
  obtain ⟨left, right, hcompares, hbranches, -⟩ :=
    branches_decide_comparison hfetch (.inl rfl) (by decide +kernel)
  obtain ⟨-, target, htarget, hpc⟩ := hbranches _ (.single hpasses) branch .less hbranch rfl
  exact ⟨hpasses, by decide +kernel, left, right, target, hcompares, htarget, hpc⟩

end Vax
