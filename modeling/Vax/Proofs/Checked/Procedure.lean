import Vax.Proofs.Checked.Control
/-!
# Procedure calls that can fail

The bits of a register mask are reached with shifts, one register after the
other, and the size of an argument list is a product.
-/

namespace Vax

namespace Checked

variable {i : Instruction}

/-! ## Masks -/

/-- Whether a mask of 16 bits selects a register. -/
def selects (mask number : Nat) : Option Bool := do
  return (← shiftRight 16 mask number) &&& 1 == 1

/-- Does something with the registers that a mask selects, in the given order. -/
def forMasked (mask : Nat) (action : Nat → Checked Unit) : List Nat → Checked Unit
  | [] => return
  | number :: rest => do
    if ← selects mask number then
      action number
    forMasked mask action rest

theorem selects_eq (mask : Nat) {number : Nat} (h : number < 16) :
    selects mask number = some (mask.testBit number) :=
  bind_eq_some (if_pos h) (congrArg some (and_one_beq mask number))

theorem follows_forMasked (mask : Nat) {action : Nat → Checked Unit}
    {action' : Register → Exec Unit}
    (h : ∀ number, Follows id (action number) (action' (Fin.ofNat 16 number)))
    (numbers : List Nat) (hnumbers : ∀ number ∈ numbers, number < 16) :
    Follows id (forMasked mask action numbers)
      ((numbers.filterMap fun number =>
        if mask.testBit number then some (Fin.ofNat 16 number) else none).forM action') := by
  induction numbers with
  | nil => exact follows_pure id ()
  | cons number rest ih =>
    have hrest := ih fun n hn => hnumbers n (List.mem_cons_of_mem _ hn)
    have hselects := selects_eq mask (hnumbers number List.mem_cons_self)
    rw [List.filterMap_cons]
    cases hbit : mask.testBit number with
    | true =>
      rw [hbit] at hselects
      exact .compute hselects <| (h number).bind fun _ => hrest
    | false =>
      rw [hbit] at hselects
      exact .compute hselects hrest

/-! ## Calls -/

def pushRegisters (mask : Nat) : Checked Unit :=
  forMasked mask (fun number => do push (← getRegister number)) (List.range 12).reverse

def popRegisters (mask : Nat) : Checked Unit :=
  forMasked mask (fun number => do setRegister number (← pop)) (List.range 12)

def callOperands (i : Instruction) : Checked Call := do
  let (count, destination) ← locate2 i
  let count ← read .long count
  let procedure ← addressOf destination
  return ⟨UInt32.ofNat count, procedure, (← readWord procedure).toNat &&& 0xfff⟩

def enterProcedure (call : Call) : Checked Unit := do
  push call.count
  let ap ← getRegister Register.sp.val
  setRegister Register.sp.val (ap &&& ~~~3)
  pushRegisters call.mask
  push (← getRegister Register.pc.val)
  push (← getRegister Register.fp.val)
  push (← getRegister Register.ap.val)
  push (CallStatus.ofCall (← Exec.getFlags) call.mask ap).word
  push 0
  setRegister Register.ap.val ap
  setRegister Register.fp.val (← getRegister Register.sp.val)
  setPc (call.procedure + 2)
  Exec.setFlags Flags.clear
  modify fun m => m.pushFrame call.procedure
  Exec.logCallChain

def call (i : Instruction) : Checked Unit := do
  enterProcedure (← callOperands i)

/-- Drops the arguments of a call, four bytes each. -/
def dropArguments : Checked Unit := do
  let count := (← pop) &&& 0xff
  let size ← multiply 32 count.toNat 4
  setRegister Register.sp.val ((← getRegister Register.sp.val) + UInt32.ofNat size)

def unwind : Checked Unit := do
  setRegister Register.sp.val ((← getRegister Register.fp.val) + 4)
  let status := CallStatus.mk (← pop)
  Exec.setFlags status.flags
  setRegister Register.ap.val (← pop)
  setRegister Register.fp.val (← pop)
  setPc (← pop)
  popRegisters status.mask
  setRegister Register.sp.val ((← getRegister Register.sp.val) + UInt32.ofNat status.align)
  if status.counted then
    dropArguments

def returnFromCall : Checked (Option Halt) := do
  if (← getRegister Register.fp.val) = entryFp then
    let r0 ← getRegister 0
    Exec.log .debug fun _ => "returned from entry with r0 = " ++ Text.marked r0.toNat
    return some (.returned r0)
  unwind
  modify Machine.popFrame
  Exec.logCallChain
  return none

theorem getRegister_ofNat (number : Nat) :
    Follows id (getRegister number) (Exec.getRegister (Fin.ofNat 16 number)) :=
  .compute (register_eq number) (follows_lift _)

theorem setRegister_ofNat (number : Nat) (value : UInt32) :
    Follows id (setRegister number value) (Exec.setRegister (Fin.ofNat 16 number) value) :=
  .compute (register_eq number) (follows_lift _)

theorem follows_pushRegisters (mask : Nat) :
    Follows id (pushRegisters mask) (Exec.pushRegisters (maskedRegisters mask)) := by
  rw [Exec.pushRegisters, maskedRegisters, ← List.filterMap_reverse]
  refine follows_forMasked mask (fun number => ?_) _ fun number hnumber => ?_
  · exact (getRegister_ofNat number).bind fun _ => follows_push _
  · rw [List.mem_reverse, List.mem_range] at hnumber
    exact Nat.lt_trans hnumber (by decide)

theorem follows_popRegisters (mask : Nat) :
    Follows id (popRegisters mask) (Exec.popRegisters (maskedRegisters mask)) := by
  refine follows_forMasked mask (fun number => ?_) _ fun number hnumber => ?_
  · exact follows_pop.bind fun _ => setRegister_ofNat number _
  · exact Nat.lt_trans (List.mem_range.1 hnumber) (by decide)

theorem follows_callOperands (i : Instruction) :
    Follows id (callOperands i) (Exec.callOperands i) := by
  refine (follows_locate2 i).bind fun _ => (follows_read .long _).bind fun count =>
    (follows_addressOf _).bind fun procedure => (follows_readWord procedure).bind fun mask => ?_
  have hmask : mask.toNat &&& 0xfff = saveMask mask := Nat.and_two_pow_sub_one_eq_mod mask.toNat 12
  change Follows id (pure ⟨_, procedure, mask.toNat &&& 0xfff⟩ : Checked Call) _
  rw [hmask, ofNat_toNat]
  exact follows_pure (n := Checked) id _

theorem and_not_three (ap : UInt32) : ap &&& ~~~3 = ap - ap % 4 := by
  have haligned : (ap - ap % 4).toNat = 2 ^ 2 * (ap.toNat / 2 ^ 2) := by
    have hgap : (ap % 4).toNat = ap.toNat % 4 := UInt32.toNat_mod ap 4
    have hle : ap % 4 ≤ ap := by
      rw [UInt32.le_iff_toNat_le, hgap]
      exact Nat.mod_le _ _
    rw [UInt32.toNat_sub_of_le _ _ hle, hgap]
    omega
  have hlow : (3 : UInt32).toNat = 2 ^ 2 - 1 := rfl
  have hsize : UInt32.size - 1 - (2 ^ 2 - 1) = 2 ^ 32 - (2 ^ 2 - 1 + 1) := rfl
  apply UInt32.toNat_inj.1
  apply Nat.eq_of_testBit_eq
  intro i
  have hout : 32 ≤ i → ap.toNat.testBit i = false := fun hi =>
    Nat.testBit_lt_two_pow (Nat.lt_of_lt_of_le ap.toNat_lt (Nat.pow_le_pow_right (by decide) hi))
  rw [haligned, UInt32.toNat_and, UInt32.toNat_not, hlow, hsize, Nat.testBit_and,
    Nat.testBit_two_pow_sub_succ (by decide), Nat.testBit_two_pow_sub_one,
    Nat.testBit_two_pow_mul, Nat.testBit_div_two_pow]
  by_cases hlowest : i < 2
  · simp [hlowest, Nat.not_le_of_lt hlowest]
  · rw [Nat.sub_add_cancel (Nat.le_of_not_lt hlowest)]
    by_cases hi : i < 32
    · simp [hlowest, hi, Nat.le_of_not_lt hlowest]
    · simp [hout (Nat.le_of_not_lt hi)]

theorem follows_enterProcedure (call : Call) :
    Follows id (enterProcedure call) (Exec.enterProcedure call) := by
  refine (follows_push _).bind fun _ => (follows_getRegister _).bind fun ap => ?_
  rw [id, and_not_three]
  exact (follows_setRegister _ _).bind fun _ => (follows_pushRegisters _).bind fun _ =>
    (follows_getRegister _).bind fun _ => (follows_push _).bind fun _ =>
    (follows_getRegister _).bind fun _ => (follows_push _).bind fun _ =>
    (follows_getRegister _).bind fun _ => (follows_push _).bind fun _ =>
    (follows_lift Exec.getFlags).bind fun _ => (follows_push _).bind fun _ =>
    (follows_push _).bind fun _ => (follows_setRegister _ _).bind fun _ =>
    (follows_getRegister _).bind fun _ => (follows_setRegister _ _).bind fun _ =>
    (follows_setPc _).bind fun _ => (follows_lift (Exec.setFlags _)).bind fun _ =>
    (follows_modify _).bind fun _ => follows_lift Exec.logCallChain

theorem follows_call : Follows id (call i) (Exec.call i) :=
  (follows_callOperands i).bind fun _ => follows_enterProcedure _

theorem follows_dropArguments : Follows id dropArguments (do
    let count ← Exec.pop
    Exec.setRegister Register.sp ((← Exec.getRegister Register.sp) + 4 * (count % 256))) := by
  refine follows_pop.bind fun count => ?_
  have hlow : (count &&& 0xff).toNat = count.toNat % 256 := by
    rw [UInt32.toNat_and]
    exact Nat.and_two_pow_sub_one_eq_mod count.toNat 8
  have hsize : multiply 32 (count &&& 0xff).toNat 4 = some (count.toNat % 256 * 4) := by
    rw [hlow, multiply, if_pos (by omega)]
  have hword : UInt32.ofNat (count.toNat % 256 * 4) = 4 * (count % 256) := by
    apply UInt32.toNat_inj.1
    rw [UInt32.toNat_mul, UInt32.toNat_mod, UInt32.toNat_ofNat', Nat.mul_comm]
    rfl
  rw [← hword]
  exact .compute hsize <| (follows_getRegister _).bind fun _ => follows_setRegister _ _

theorem follows_unwind : Follows id unwind Exec.unwind := by
  refine (follows_getRegister _).bind fun _ => (follows_setRegister _ _).bind fun _ =>
    follows_pop.bind fun status => (follows_lift (Exec.setFlags _)).bind fun _ =>
    follows_pop.bind fun _ => (follows_setRegister _ _).bind fun _ =>
    follows_pop.bind fun _ => (follows_setRegister _ _).bind fun _ =>
    follows_pop.bind fun _ => (follows_setPc _).bind fun _ =>
    (follows_popRegisters _).bind fun _ => (follows_getRegister _).bind fun _ =>
    (follows_setRegister _ _).bind fun _ => .ite Iff.rfl follows_dropArguments ?_
  exact follows_pure id ()

theorem follows_returnFromCall : Follows id returnFromCall Exec.returnFromCall := by
  refine (follows_getRegister _).bind fun _ => .ite Iff.rfl ?_ ?_
  · exact (follows_getRegister 0).bind fun r0 => (follows_lift (Exec.log _ _)).bind fun _ =>
      follows_pure id _
  · exact follows_unwind.bind fun _ => (follows_modify _).bind fun _ =>
      (follows_lift Exec.logCallChain).bind fun _ => follows_pure id _

end Checked

end Vax
