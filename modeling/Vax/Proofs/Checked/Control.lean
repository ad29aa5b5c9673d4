import Vax.Proofs.Checked.Integer
/-!
# Control instructions that can fail

Of all instructions only the dispatch through a table can fail: its entries
take two bytes each, and the distance to one of them need not fit a longword.
-/

namespace Vax

namespace Checked

variable {i : Instruction}

def setPc (address : UInt32) : Checked Unit :=
  setRegister Register.pc.val address

def branchTo (target : Location) (taken : Bool) : Checked Unit :=
  match target with
  | .value address => if taken then setPc address else pure ()
  | _ => pure ()

def branch (i : Instruction) (condition : Condition) : Checked Unit := do
  let target ← locate1 i
  branchTo target (condition.holds (← Exec.getFlags))

def jump (i : Instruction) : Checked Unit := do
  setPc (← addressOf (← locate1 i))

def branchToSubroutine (i : Instruction) : Checked Unit := do
  let target ← locate1 i
  push (← getRegister Register.pc.val)
  branchTo target true

def jumpToSubroutine (i : Instruction) : Checked Unit := do
  let address ← addressOf (← locate1 i)
  push (← getRegister Register.pc.val)
  setPc address

def returnFromSubroutine : Checked Unit := do
  setPc (← pop)

def branchOnLowBit (i : Instruction) (onSet : Bool) : Checked Unit := do
  let (source, target) ← locate2 i
  let value ← read .long source
  branchTo target ((value &&& 1 == 1) == onSet)

def stepIndex (w : Width) (result : Result) (index : Location) : Checked Unit := do
  write w result.value index
  setResult w result.value result.overflow none

def addCompareBranch (i : Instruction) : Checked Unit := do
  let w ← operandWidth i 0
  let (limit, addend, index, target) ← locate4 i
  let limit ← read w limit
  let addend ← read w addend
  let result ← sum w addend (← read w index)
  stepIndex w result index
  let next ← signExtend w result.value
  let last ← signExtend w limit
  branchTo target (if ← isNegative w addend then decide (last ≤ next) else decide (next ≤ last))

def addOneBranch (i : Instruction) (inclusive : Bool) : Checked Unit := do
  let (limit, index, target) ← locate3 i
  let limit ← signExtend .long (← read .long limit)
  let result ← sum .long 1 (← read .long index)
  stepIndex .long result index
  let next ← signExtend .long result.value
  branchTo target (if inclusive then decide (next ≤ limit) else decide (next < limit))

def subtractOneBranch (i : Instruction) (inclusive : Bool) : Checked Unit := do
  let (index, target) ← locate2 i
  let result ← difference .long 1 (← read .long index)
  stepIndex .long result index
  let next ← signExtend .long result.value
  branchTo target (if inclusive then decide (0 ≤ next) else decide (0 < next))

theorem follows_setPc (address : UInt32) : Follows id (setPc address) (Exec.setPc address) :=
  follows_setRegister _ address

theorem follows_branchTo (target : Location) (taken : Bool) :
    Follows id (branchTo target taken) (Exec.branchTo target taken) := by
  cases target with
  | value address => exact .ite Iff.rfl (follows_setPc address) (follows_pure id ())
  | register r | memory address => exact follows_pure id ()

theorem follows_branch (condition : Condition) :
    Follows id (branch i condition) (Exec.branch i condition) :=
  (follows_locate1 i).bind fun _ => (follows_lift Exec.getFlags).bind fun _ =>
    follows_branchTo _ _

theorem follows_jump : Follows id (jump i) (Exec.jump i) :=
  (follows_locate1 i).bind fun _ => (follows_addressOf _).bind fun _ => follows_setPc _

theorem follows_branchToSubroutine :
    Follows id (branchToSubroutine i) (Exec.branchToSubroutine i) :=
  (follows_locate1 i).bind fun _ => (follows_getRegister _).bind fun _ => (follows_push _).bind
    fun _ => follows_branchTo _ _

theorem follows_jumpToSubroutine : Follows id (jumpToSubroutine i) (Exec.jumpToSubroutine i) :=
  (follows_locate1 i).bind fun _ => (follows_addressOf _).bind fun _ =>
    (follows_getRegister _).bind fun _ => (follows_push _).bind fun _ => follows_setPc _

theorem follows_returnFromSubroutine :
    Follows id returnFromSubroutine Exec.returnFromSubroutine :=
  follows_pop.bind fun _ => follows_setPc _

theorem follows_branchOnLowBit (onSet : Bool) :
    Follows id (branchOnLowBit i onSet) (Exec.branchOnLowBit i onSet) := by
  refine (follows_locate2 i).bind fun _ => (follows_read .long _).bind fun value => ?_
  have hbit : (value.toNat &&& 1 == 1) = value.getLsbD 0 := by
    rw [BitVec.getLsbD, ← and_one_beq, Nat.pow_zero, Nat.div_one]
  rw [hbit]
  exact follows_branchTo _ _

theorem follows_stepIndex (w : Width) (result : ArithmeticResult w.bits) (index : Location) :
    Follows id (stepIndex w (.of result) index) (Exec.stepIndex w result index) :=
  (follows_write _ _ _).bind fun _ => follows_setResult _ _ _ _

theorem follows_addCompareBranch : Follows id (addCompareBranch i) (Exec.addCompareBranch i) := by
  unfold addCompareBranch operandWidth Exec.addCompareBranch
  cases i.operandWidth? 0
  all_goals
    refine Follows.bind (e := id) ?_ fun w => (follows_locate4 i).bind fun _ =>
      (follows_read _ _).bind fun limit => (follows_read _ _).bind fun addend =>
        (follows_read _ _).bind fun index => .compute (sum_eq _ _) <|
          (follows_stepIndex _ _ _).bind fun _ => .compute (signExtend_eq _ _) <|
            .compute (signExtend_eq _ _) <| .compute (isNegative_eq _ _) <| follows_branchTo _ _
  · exact follows_reservedOperand i
  · exact follows_pure id _

theorem follows_addOneBranch (inclusive : Bool) :
    Follows id (addOneBranch i inclusive) (Exec.addOneBranch i inclusive) :=
  (follows_locate3 i).bind fun _ => (follows_read .long _).bind fun _ =>
    .compute (signExtend_eq .long _) <| (follows_read .long _).bind fun index =>
      .compute (sum_eq (w := .long) 1 index) <| (follows_stepIndex .long _ _).bind fun _ =>
        .compute (signExtend_eq .long _) <| follows_branchTo _ _

theorem follows_subtractOneBranch (inclusive : Bool) :
    Follows id (subtractOneBranch i inclusive) (Exec.subtractOneBranch i inclusive) :=
  (follows_locate2 i).bind fun _ => (follows_read .long _).bind fun index =>
    .compute (difference_eq (w := .long) 1 index) <| (follows_stepIndex .long _ _).bind fun _ =>
      .compute (signExtend_eq .long _) <| follows_branchTo _ _

end Checked

/-! ## Dispatch -/

namespace Exec

/-- What a dispatch goes by: the number of a table entry, and the greatest
number that the table has. -/
def caseOperands (i : Instruction) : Exec (BitVec i.width.bits × BitVec i.width.bits) := do
  let (selector, base, limit) ← locate3 i
  let selector ← read i.width selector
  let base ← read i.width base
  let limit ← read i.width limit
  return (selector - base, limit)

/-- Goes through the table at the program counter. -/
def dispatch {n : Nat} (entry limit : BitVec n) : Exec Unit := do
  setComparison entry limit
  let table ← getRegister Register.pc
  if entry.ule limit then
    let displacement ← readWord (table + UInt32.ofNat (2 * entry.toNat))
    setPc (table + UInt32.ofInt displacement.toBitVec.toInt)
  else
    setPc (table + UInt32.ofNat (2 * (limit.toNat + 1)))

theorem select_eq (i : Instruction) :
    select i = caseOperands i >>= fun operands => dispatch operands.1 operands.2 := by
  simp only [select, caseOperands, dispatch, bind_assoc, pure_bind]

/-- The table has the entry, but twice its number is no longword. -/
def IsTooFar {n : Nat} (entry limit : BitVec n) : Prop :=
  entry.toNat ≤ limit.toNat ∧ 2 ^ 31 ≤ entry.toNat

/-- The dispatch goes to an entry that is too far. -/
def DispatchesTooFar (i : Instruction) (m : Machine) : Prop :=
  ∃ entry limit after, (caseOperands i).run m = .ok (entry, limit) after ∧ IsTooFar entry limit

end Exec

namespace Checked

def caseOperands (w : Width) (i : Instruction) : Checked (Nat × Nat) := do
  let (selector, base, limit) ← locate3 i
  let selector ← read w selector
  let base ← read w base
  let limit ← read w limit
  return (← truncate w (wrappingSubtract selector base), limit)

/-- The distance of an entry is its number times two, in a longword. -/
def dispatch (w : Width) (entry limit : Nat) : Checked Unit := do
  setComparison w entry limit
  let table ← getRegister Register.pc.val
  if entry ≤ limit then
    let distance ← multiply 32 (UInt32.ofNat entry).toNat 2
    let displacement ← readWord (table + UInt32.ofNat distance)
    setPc (table + UInt32.ofInt displacement.toBitVec.toInt)
  else
    setPc (table + (UInt32.ofNat limit + 1) * 2)

def select (i : Instruction) : Checked Unit := do
  let w ← width i
  let (entry, limit) ← caseOperands w i
  dispatch w entry limit

theorem follows_caseOperands (i : Instruction) :
    Follows (fun operands => (operands.1.toNat, operands.2.toNat)) (caseOperands i.width i)
      (Exec.caseOperands i) :=
  (follows_locate3 i).bind fun _ => (follows_read _ _).bind fun _ => (follows_read _ _).bind
    fun _ => (follows_read _ _).bind fun _ => .compute (truncate_wrappingSubtract _ _) <|
      follows_pure (fun operands : BitVec i.width.bits × BitVec i.width.bits =>
        (operands.1.toNat, operands.2.toNat)) (_, _)

theorem follows_dispatch {w : Width} {entry limit : BitVec w.bits}
    (h : ¬ Exec.IsTooFar entry limit) :
    Follows id (dispatch w entry.toNat limit.toNat) (Exec.dispatch entry limit) := by
  refine (follows_setComparison w entry limit).bind fun _ => (follows_getRegister _).bind
    fun table => ?_
  by_cases hle : entry.toNat ≤ limit.toNat
  · have hule : entry.ule limit = true := decide_eq_true hle
    have hnear : entry.toNat < 2 ^ 31 := Nat.lt_of_not_le fun hfar => h ⟨hle, hfar⟩
    have hlong : (UInt32.ofNat entry.toNat).toNat = entry.toNat :=
      UInt32.toNat_ofNat_of_lt' (Nat.lt_trans hnear (by decide))
    have hdistance : multiply 32 entry.toNat 2 = some (2 * entry.toNat) := by
      rw [Nat.mul_comm, multiply, Nat.mul_comm, if_pos (by omega)]
    rw [if_pos hle, if_pos hule, hlong]
    exact .compute hdistance <| (follows_readWord _).bind fun _ => follows_setPc _
  · have hule : ¬ entry.ule limit = true := by simpa [BitVec.ule] using hle
    have hbehind : (UInt32.ofNat limit.toNat + 1) * 2 = UInt32.ofNat (2 * (limit.toNat + 1)) := by
      rw [UInt32.ofNat_mul, UInt32.ofNat_add, UInt32.mul_comm]
      rfl
    rw [if_neg hle, if_neg hule, hbehind]
    exact follows_setPc _

theorem dispatch_of_isTooFar {w : Width} (hw : w.bits ≤ 32) {entry limit : BitVec w.bits}
    (h : Exec.IsTooFar entry limit) (m : Machine) :
    dispatch w entry.toNat limit.toNat m = none := by
  have hset : setComparison w entry.toNat limit.toNat = ofExec (Exec.setComparison entry limit) :=
    (follows_setComparison w entry limit).eq
  have hpc : getRegister Register.pc.val = ofExec (Exec.getRegister Register.pc) :=
    (follows_getRegister Register.pc).eq
  have hlt : entry.toNat < 2 ^ 32 :=
    Nat.lt_of_lt_of_le entry.isLt (Nat.pow_le_pow_right (by decide) hw)
  have hdistance : multiply 32 (UInt32.ofNat entry.toNat).toNat 2 = none := by
    have hfar := h.2
    rw [UInt32.toNat_ofNat_of_lt' hlt, multiply, if_neg (by omega)]
  have hrun : (Exec.setComparison entry limit).run m = .ok () _ := Exec.run_setFlags _
  rw [dispatch, hset, bind_ok hrun, hpc, bind_ok (Exec.run_getRegister _), if_pos h.1, hdistance]
  rfl

variable {i : Instruction} {m : Machine}

theorem select_run (i : Instruction) (m : Machine) :
    select i m = (ofExec (Exec.caseOperands i) >>= fun operands =>
      dispatch i.width operands.1.toNat operands.2.toNat) m := by
  have hoperands : caseOperands i.width i = _ <$> ofExec (Exec.caseOperands i) :=
    follows_caseOperands i
  have hwidth : (liftM (width i) : Checked Width) = pure i.width := by rw [width_eq]; rfl
  rw [select, hwidth, pure_bind, hoperands, bind_map_left]

theorem select_of_not_dispatchesTooFar (h : ¬ Exec.DispatchesTooFar i m) :
    select i m = ofExec (Exec.select i) m := by
  rw [select_run, Exec.select_eq, ofExec_bind]
  cases hrun : (Exec.caseOperands i).run m with
  | ok operands after =>
    have hnear : ¬ Exec.IsTooFar operands.1 operands.2 := fun hfar => h ⟨_, _, _, hrun, hfar⟩
    rw [bind_ok hrun, bind_ok hrun]
    exact congrFun (follows_dispatch hnear).eq after
  | error cause after => rw [bind_error hrun, bind_error hrun]

theorem select_of_dispatchesTooFar (hw : i.width.bits ≤ 32) (h : Exec.DispatchesTooFar i m) :
    select i m = none := by
  obtain ⟨entry, limit, after, hrun, hfar⟩ := h
  rw [select_run, bind_ok hrun]
  exact dispatch_of_isTooFar hw hfar after

end Checked

end Vax
