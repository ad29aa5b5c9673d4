import Vax.Proofs.Machine.Alike
import Vax.Proofs.Machine.Procedure
/-!
# What each action does to machines that are alike

One lemma per action.  All but the system call that looks at the log do the
same to machines that are alike, and that one does it where both logs are
alike too or the argument that it would log is there.
-/

namespace Vax

namespace Exec

variable {c : Comparison} {i : Instruction}

/-! ## Integers -/

theorem blind_arithmetic (operation : Arithmetic) : Blind c (arithmetic i operation) := by
  have hrest : ∀ source destination out, Blind c (do
      let source ← read i.width source
      let destination ← read i.width destination
      writeResult i.width (operation.apply source destination) out) := fun _ _ _ =>
    (blind_read _ _).bind fun _ => (blind_read _ _).bind fun _ => blind_writeResult _ _ _
  refine (blind_locateAll i).bind fun locations => ?_
  split
  · exact (blind_pure _).bind fun _ => hrest _ _ _
  · exact (blind_pure _).bind fun _ => hrest _ _ _
  · exact (blind_reservedOperand i).bind fun _ => hrest _ _ _

theorem blind_move : Blind c (move i) :=
  (blind_locate2 i).bind fun _ => (blind_read _ _).bind fun _ => blind_writeResult _ _ _

theorem blind_compare : Blind c (compare i) :=
  (blind_locate2 i).bind fun _ => (blind_read _ _).bind fun _ => (blind_read _ _).bind fun _ =>
    blind_setFlags _

theorem blind_test : Blind c (test i) :=
  (blind_locate1 i).bind fun _ => (blind_read _ _).bind fun _ => blind_setResult _ _ _

theorem blind_clear : Blind c (clear i) :=
  (blind_locate1 i).bind fun _ => blind_writeResult _ _ _

theorem blind_increment : Blind c (increment i) :=
  (blind_locate1 i).bind fun _ => (blind_read _ _).bind fun _ => blind_writeResult _ _ _

theorem blind_decrement : Blind c (decrement i) :=
  (blind_locate1 i).bind fun _ => (blind_read _ _).bind fun _ => blind_writeResult _ _ _

theorem blind_negate : Blind c (negate i) :=
  (blind_locate2 i).bind fun _ => (blind_read _ _).bind fun _ => blind_writeResult _ _ _

theorem blind_complement : Blind c (complement i) :=
  (blind_locate2 i).bind fun _ => (blind_read _ _).bind fun _ => blind_writeResult _ _ _

theorem blind_bitTest : Blind c (bitTest i) :=
  (blind_locate2 i).bind fun _ => (blind_read _ _).bind fun _ => (blind_read _ _).bind fun _ =>
    blind_setResult _ _ _

theorem blind_operandWidth (index : Nat) : Blind c (operandWidth i index) := by
  unfold operandWidth
  split
  · exact blind_pure _
  · exact blind_reservedOperand i

theorem blind_zeroExtend : Blind c (zeroExtend i) :=
  (blind_operandWidth 0).bind fun _ => (blind_operandWidth 1).bind fun _ =>
    (blind_locate2 i).bind fun _ => (blind_read _ _).bind fun _ => (blind_write _ _ _).bind fun _ =>
      blind_getFlags.bind fun _ => blind_setFlags _

theorem blind_convert : Blind c (convert i) :=
  (blind_operandWidth 0).bind fun _ => (blind_operandWidth 1).bind fun _ =>
    (blind_locate2 i).bind fun _ => (blind_read _ _).bind fun _ => blind_writeResult _ _ _

theorem blind_moveAddress : Blind c (moveAddress i) :=
  (blind_locate2 i).bind fun _ => (blind_addressOf _).bind fun _ => blind_writeResult _ _ _

theorem blind_pushAddress : Blind c (pushAddress i) :=
  (blind_locate1 i).bind fun _ => (blind_addressOf _).bind fun _ => (blind_push _).bind fun _ =>
    blind_setResult _ _ _

theorem blind_pushLong : Blind c (pushLong i) :=
  (blind_locate1 i).bind fun _ => (blind_read _ _).bind fun _ => (blind_push _).bind fun _ =>
    blind_setResult _ _ _

theorem blind_shift : Blind c (shift i) :=
  (blind_locate3 i).bind fun _ => (blind_read _ _).bind fun _ => (blind_read _ _).bind fun _ =>
    blind_writeResult _ _ _

/-! ## Control -/

theorem blind_branchTo (target : Location) (taken : Bool) : Blind c (branchTo target taken) := by
  cases target with
  | value address =>
    cases taken with
    | true => exact blind_setPc address
    | false => exact blind_pure ()
  | register r | memory address => exact blind_pure ()

theorem blind_branch (condition : Condition) : Blind c (branch i condition) :=
  (blind_locate1 i).bind fun _ => blind_getFlags.bind fun _ => blind_branchTo _ _

theorem blind_jump : Blind c (jump i) :=
  (blind_locate1 i).bind fun _ => (blind_addressOf _).bind fun _ => blind_setPc _

theorem blind_branchToSubroutine : Blind c (branchToSubroutine i) :=
  (blind_locate1 i).bind fun _ => (blind_getRegister _).bind fun _ => (blind_push _).bind fun _ =>
    blind_branchTo _ _

theorem blind_jumpToSubroutine : Blind c (jumpToSubroutine i) :=
  (blind_locate1 i).bind fun _ => (blind_addressOf _).bind fun _ =>
    (blind_getRegister _).bind fun _ => (blind_push _).bind fun _ => blind_setPc _

theorem blind_returnFromSubroutine : Blind c returnFromSubroutine :=
  blind_pop.bind fun _ => blind_setPc _

theorem blind_branchOnLowBit (onSet : Bool) : Blind c (branchOnLowBit i onSet) :=
  (blind_locate2 i).bind fun _ => (blind_read _ _).bind fun _ => blind_branchTo _ _

theorem blind_stepIndex (w : Width) (result : ArithmeticResult w.bits) (index : Location) :
    Blind c (stepIndex w result index) :=
  (blind_write _ _ _).bind fun _ => blind_setResult _ _ _

theorem blind_addCompareBranch : Blind c (addCompareBranch i) := by
  unfold addCompareBranch
  split
  all_goals
    refine Blind.bind ?_ fun w => (blind_locate4 i).bind fun _ => (blind_read _ _).bind fun _ =>
      (blind_read _ _).bind fun _ => (blind_read _ _).bind fun _ =>
        (blind_stepIndex _ _ _).bind fun _ => blind_branchTo _ _
  · exact blind_pure _
  · exact blind_reservedOperand i

theorem blind_addOneBranch (inclusive : Bool) : Blind c (addOneBranch i inclusive) :=
  (blind_locate3 i).bind fun _ => (blind_read _ _).bind fun _ => (blind_read _ _).bind fun _ =>
    (blind_stepIndex _ _ _).bind fun _ => blind_branchTo _ _

theorem blind_subtractOneBranch (inclusive : Bool) : Blind c (subtractOneBranch i inclusive) :=
  (blind_locate2 i).bind fun _ => (blind_read _ _).bind fun _ =>
    (blind_stepIndex _ _ _).bind fun _ => blind_branchTo _ _

theorem blind_select : Blind c (select i) := by
  refine (blind_locate3 i).bind fun _ => (blind_read _ _).bind fun _ => (blind_read _ _).bind
    fun _ => (blind_read _ _).bind fun _ => (blind_setFlags _).bind fun _ =>
      (blind_getRegister _).bind fun _ => ?_
  split
  · exact (blind_readWord _).bind fun _ => blind_setPc _
  · exact blind_setPc _

/-! ## Bit fields -/

theorem blind_registerPosition (position : Int) : Blind c (registerPosition i position) := by
  unfold registerPosition
  split
  · exact blind_pure _
  · exact blind_reservedOperand i

theorem blind_readBit (position : Int) (base : Location) : Blind c (readBit i position base) := by
  cases base with
  | register r =>
    exact (blind_registerPosition _).bind fun _ => (blind_getRegister r).bind fun _ => blind_pure _
  | value _ | memory _ =>
    exact (blind_addressOf _).bind fun _ => (blind_readByte _).bind fun _ => blind_pure _

theorem blind_writeBit (position : Int) (set : Bool) (base : Location) :
    Blind c (writeBit i position set base) := by
  cases base with
  | register r =>
    exact (blind_registerPosition _).bind fun _ => (blind_getRegister r).bind fun _ =>
      blind_setRegister _ _
  | value _ | memory _ =>
    exact (blind_addressOf _).bind fun _ => (blind_readByte _).bind fun _ => blind_store _ _

theorem blind_branchOnBit (onSet : Bool) (update : Option Bool) :
    Blind c (branchOnBit i onSet update) := by
  refine (blind_locate3 i).bind fun _ => (blind_read _ _).bind fun _ => (blind_readBit _ _).bind
    fun _ => ?_
  cases update with
  | some set => exact (blind_writeBit _ _ _).bind fun _ => blind_branchTo _ _
  | none => exact blind_branchTo _ _

theorem blind_readField (position : Int) (size : Nat) (base : Location) :
    Blind c (readField i position size base) := by
  unfold readField
  split
  · exact blind_pure _
  · cases base with
    | register r =>
      exact (blind_registerPosition _).bind fun _ =>
        blind_get (fun _ _ h => by rw [h.registers_eq]) fun _ => blind_pure _
    | value _ | memory _ =>
      exact (blind_addressOf _).bind fun _ => (blind_readNat _ _).bind fun _ => blind_pure _

theorem blind_extractField (isSigned : Bool) : Blind c (extractField i isSigned) :=
  (blind_locate4 i).bind fun _ => (blind_read _ _).bind fun _ => (blind_read _ _).bind fun _ =>
    Blind.check (blind_reservedOperand i) fun _ => (blind_readField _ _ _).bind fun _ =>
      (blind_write _ _ _).bind fun _ => blind_setResult _ _ _

/-! ## Strings -/

theorem blind_scanFrom (character : UInt8) (forEqual : Bool) (remaining : Nat)
    (address : UInt32) : Blind c (scanFrom character forEqual remaining address) := by
  induction remaining generalizing address with
  | zero => exact blind_pure _
  | succ remaining ih =>
    refine (blind_readByte _).bind fun _ => ?_
    split
    · exact blind_pure _
    · exact ih _

theorem blind_scan (forEqual : Bool) : Blind c (scan i forEqual) :=
  (blind_locate3 i).bind fun _ => (blind_read _ _).bind fun _ => (blind_read _ _).bind fun _ =>
    (blind_addressOf _).bind fun _ => (blind_scanFrom _ _ _ _).bind fun _ =>
      (blind_setRegister _ _).bind fun _ => (blind_setRegister _ _).bind fun _ => blind_setFlags _

theorem blind_copyString : Blind c (copyString i) :=
  (blind_locate3 i).bind fun _ => (blind_read _ _).bind fun _ => (blind_addressOf _).bind fun _ =>
    (blind_addressOf _).bind fun _ => blind_get (fun _ _ h => by rw [h.memory_eq]) fun _ =>
      (blind_access _).bind fun _ => (blind_store _ _).bind fun _ =>
        (blind_setRegister _ _).bind fun _ => (blind_setRegister _ _).bind fun _ =>
          (blind_setRegister _ _).bind fun _ => (blind_setRegister _ _).bind fun _ =>
            (blind_setRegister _ _).bind fun _ => (blind_setRegister _ _).bind fun _ =>
              blind_setFlags _

/-! ## Packed decimal strings -/

theorem blind_storeZeros (count : Nat) (address : UInt32) : Blind c (storeZeros count address) := by
  induction count generalizing address with
  | zero => exact blind_pure _
  | succ count ih => exact (blind_store _ _).bind fun _ => ih _

theorem blind_storeDigits (count : Nat) (isHigh : Bool) (address : UInt32) (rest : Nat) :
    Blind c (storeDigits count isHigh address rest) := by
  induction count generalizing isHigh address rest with
  | zero => exact blind_pure _
  | succ count ih =>
    unfold storeDigits
    split
    · exact blind_pure _
    · split
      · exact (blind_readByte _).bind fun _ => (blind_store _ _).bind fun _ => ih _ _ _
      · exact (blind_store _ _).bind fun _ => ih _ _ _

theorem blind_longToPacked : Blind c (longToPacked i) :=
  (blind_locate3 i).bind fun _ => (blind_read _ _).bind fun _ => (blind_read _ _).bind fun _ =>
    (blind_addressOf _).bind fun _ => Blind.check (blind_reservedOperand i) fun _ =>
      (blind_storeZeros _ _).bind fun _ => (blind_store _ _).bind fun _ =>
        (blind_storeDigits _ _ _ _).bind fun _ => (blind_setRegister _ _).bind fun _ =>
          (blind_setRegister _ _).bind fun _ => (blind_setRegister _ _).bind fun _ =>
            (blind_setRegister _ _).bind fun _ => blind_setFlags _

theorem blind_nextDigit (p : Edit.Progress) : Blind c (nextDigit p) := by
  refine Blind.check (blind_throw _) fun _ => (blind_readByte _).bind fun _ => ?_
  split
  · exact blind_pure _
  · exact blind_pure _

theorem blind_emit (p : Edit.Progress) (character : UInt8) : Blind c (emit p character) :=
  (blind_store _ _).bind fun _ => blind_pure _

theorem blind_endFloat (sign : UInt8) (p : Edit.Progress) : Blind c (endFloat sign p) := by
  unfold endFloat
  split
  · exact blind_pure _
  · exact blind_emit _ _

theorem blind_moveDigit (isFloating : Bool) (sign : UInt8) (p : Edit.Progress) :
    Blind c (moveDigit isFloating sign p) := by
  unfold moveDigit
  refine (blind_nextDigit _).bind fun _ => ?_
  dsimp only
  split
  · exact (blind_emit _ _).bind fun _ => blind_emit _ _
  · exact (blind_pure _).bind fun _ => blind_emit _ _

theorem blind_moveDigits (isFloating : Bool) (sign : UInt8) (count : Nat) (p : Edit.Progress) :
    Blind c (moveDigits isFloating sign count p) := by
  induction count generalizing p with
  | zero => exact blind_pure _
  | succ count ih => exact (blind_moveDigit _ _ _).bind fun _ => ih _

theorem blind_followPattern (sign : UInt8) (operators : Nat) (p : Edit.Progress) :
    Blind c (followPattern sign operators p) := by
  induction operators generalizing p with
  | zero => exact blind_throw _
  | succ operators ih =>
    refine (blind_readByte _).bind fun _ => ?_
    split
    · exact blind_pure _
    · exact (blind_endFloat _ _).bind fun _ => ih _
    · exact (blind_moveDigits _ _ _ _).bind fun _ => ih _
    · exact blind_throw _

theorem blind_editPacked : Blind c (editPacked i) :=
  (blind_locate4 i).bind fun _ => (blind_read _ _).bind fun _ => (blind_addressOf _).bind fun _ =>
    (blind_addressOf _).bind fun _ => (blind_addressOf _).bind fun _ =>
      Blind.check (blind_reservedOperand i) fun _ => (blind_readByte _).bind fun _ =>
        blind_get (fun _ _ h => by rw [h.memory_eq]) fun _ => (blind_followPattern _ _ _).bind
          fun _ => (blind_setRegister _ _).bind fun _ => (blind_setRegister _ _).bind fun _ =>
            (blind_setRegister _ _).bind fun _ => (blind_setRegister _ _).bind fun _ =>
              (blind_setRegister _ _).bind fun _ => (blind_setRegister _ _).bind fun _ =>
                blind_setFlags _

/-! ## Procedures -/

theorem blind_logCallChain : Blind c logCallChain :=
  blind_log _ _

theorem blind_pushRegisters (rs : List Register) : Blind c (pushRegisters rs) := by
  unfold pushRegisters
  induction rs.reverse with
  | nil => exact blind_pure _
  | cons r rest ih =>
    exact ((blind_getRegister r).bind fun _ => blind_push _).bind fun _ => ih

theorem blind_popRegisters (rs : List Register) : Blind c (popRegisters rs) := by
  unfold popRegisters
  induction rs with
  | nil => exact blind_pure _
  | cons r rest ih => exact (blind_pop.bind fun _ => blind_setRegister _ _).bind fun _ => ih

theorem blind_enterProcedure (call : Call) : Blind c (enterProcedure call) :=
  (blind_push _).bind fun _ => (blind_getRegister _).bind fun _ => (blind_setRegister _ _).bind
    fun _ => (blind_pushRegisters _).bind fun _ => (blind_getRegister _).bind fun _ =>
      (blind_push _).bind fun _ => (blind_getRegister _).bind fun _ => (blind_push _).bind fun _ =>
        (blind_getRegister _).bind fun _ => (blind_push _).bind fun _ => blind_getFlags.bind
          fun _ => (blind_push _).bind fun _ => (blind_push _).bind fun _ =>
            (blind_setRegister _ _).bind fun _ => (blind_getRegister _).bind fun _ =>
              (blind_setRegister _ _).bind fun _ => (blind_setPc _).bind fun _ =>
                (blind_setFlags _).bind fun _ =>
                  (blind_modify fun _ _ h => h.pushFrame _).bind fun _ => blind_logCallChain

theorem blind_call : Blind c (call i) :=
  Blind.bind ((blind_locate2 i).bind fun _ => (blind_read _ _).bind fun _ =>
    (blind_addressOf _).bind fun _ => (blind_readWord _).bind fun _ => blind_pure _)
    blind_enterProcedure

theorem blind_unwind : Blind c unwind := by
  have hpop : ∀ r, Blind c (pop >>= fun value => setRegister r value) :=
    fun r => blind_pop.bind fun value => blind_setRegister r value
  refine (blind_getRegister _).bind fun _ => (blind_setRegister _ _).bind fun _ => blind_pop.bind
    fun _ => (blind_setFlags _).bind fun _ => blind_pop.bind fun _ => (blind_setRegister _ _).bind
      fun _ => blind_pop.bind fun _ => (blind_setRegister _ _).bind fun _ => blind_pop.bind
        fun _ => (blind_setPc _).bind fun _ => (blind_popRegisters _).bind fun _ =>
          (blind_getRegister _).bind fun _ => (blind_setRegister _ _).bind fun _ => ?_
  split
  · exact blind_pop.bind fun _ => (blind_getRegister _).bind fun _ => blind_setRegister _ _
  · exact blind_pure _

theorem blind_returnFromCall : Blind c returnFromCall := by
  refine (blind_getRegister _).bind fun _ => ?_
  split
  · exact (blind_getRegister _).bind fun _ => (blind_log _ _).bind fun _ => blind_pure _
  · exact blind_unwind.bind fun _ => (blind_modify fun _ _ h => h.popFrame).bind fun _ =>
      blind_logCallChain.bind fun _ => blind_pure _

/-! ## System calls -/

theorem blind_argument (index : Nat) : Blind c (argument index) :=
  (blind_getRegister _).bind fun _ => blind_readLong _

theorem blind_finishCall (result : UInt32) (failed : Bool) : Blind c (finishCall result failed) :=
  (blind_setRegister _ _).bind fun _ => blind_getFlags.bind fun _ => blind_setFlags _

theorem blind_exitCall : Blind c exitCall :=
  (blind_argument 0).bind fun _ => (blind_log _ _).bind fun _ => blind_pure _

theorem blind_writeCall : Blind c writeCall := by
  refine (blind_argument 0).bind fun _ => (blind_argument 1).bind fun _ =>
    (blind_argument 2).bind fun _ => (blind_log _ _).bind fun _ =>
      blind_get (fun _ _ h => by rw [h.memory_eq]) fun _ => (blind_access _).bind fun _ =>
        blind_get (fun _ _ h => by rw [h.output_eq]) fun _ => ?_
  split
  · exact (blind_modify fun _ _ h => h.setOutput _).bind fun _ => blind_finishCall _ _
  · exact (blind_throw _).bind fun _ => blind_finishCall _ _

theorem blind_ioctlCall : Blind c ioctlCall := by
  refine (blind_argument 0).bind fun _ => (blind_argument 1).bind fun _ => (blind_log _ _).bind
    fun _ => Blind.check (blind_throw _) fun _ => ?_
  split
  · exact blind_finishCall _ _
  · exact blind_finishCall _ _

section Close

variable {m m' : Machine} {file : UInt32}

/-- The first argument of the current procedure. -/
def firstArgument (m : Machine) : Except OutOfRange UInt32 :=
  m.memory.readLong (m.registers.ap + 4)

theorem run_argument_zero (m : Machine) :
    (argument 0).run m = (access (firstArgument m)).run m := rfl

theorem run_closeCall (m : Machine) :
    closeCall.run m =
      if m.log.enabled .debug = true then
        (argument 0 >>= fun file => log .debug (fun _ => callText .close [toString file.toNat]) >>=
          fun _ => finishCall 0 false).run m
      else (finishCall 0 false).run m := by
  change (if m.log.enabled .debug = true then _ else _ : Exec Unit).run m = _
  split <;> rfl

/-- With its argument there a close succeeds, and at most it is logged. -/
theorem run_closeCall_of_argument (hfile : firstArgument m = .ok file) :
    ∃ message, closeCall.run m = (finishCall 0 false).run m ∨
      closeCall.run m = (finishCall 0 false).run (m.logged .debug message) := by
  refine ⟨fun _ => callText .close [toString file.toNat], ?_⟩
  have hrun : (argument 0).run m = .ok file m := by
    rw [run_argument_zero, hfile]
    rfl
  rw [run_closeCall]
  split
  · rw [run_bind_ok hrun]
    exact .inr rfl
  · exact .inl rfl

/-- Without its argument a close faults if it would be logged. -/
theorem run_closeCall_of_logged {e : OutOfRange} (hfile : firstArgument m = .error e)
    (hlogged : m.log.enabled .debug = true) : closeCall.run m = .error (.memory e) m := by
  have hrun : (argument 0).run m = .error (.memory e) m := by
    rw [run_argument_zero, hfile]
    rfl
  rw [run_closeCall, if_pos hlogged, run_bind_error hrun]

theorem run_closeCall_of_not_logged (hlogged : ¬ m.log.enabled .debug = true) :
    ∃ after, closeCall.run m = .ok () after := by
  rw [run_closeCall, if_neg hlogged]
  exact ⟨_, rfl⟩

theorem same_closeCall (h : m.Alike c m')
    (hclose : c.AgreesOn .debug ∨ ∃ file, firstArgument m = .ok file) :
    Same c (closeCall.run m) (closeCall.run m') := by
  rcases hclose with hlevel | ⟨file, hfile⟩
  · rw [run_closeCall, run_closeCall, h.enabled_eq hlevel]
    split
    · exact ((blind_argument 0).bind fun _ => (blind_log _ _).bind fun _ =>
        blind_finishCall _ _) m m' h
    · exact blind_finishCall _ _ m m' h
  · have hfile' : firstArgument m' = .ok file := by
      rw [firstArgument, h.memory_eq, h.registers_eq]
      exact hfile
    obtain ⟨message, hrun⟩ := run_closeCall_of_argument hfile
    obtain ⟨message', hrun'⟩ := run_closeCall_of_argument hfile'
    have hfinish := blind_finishCall (c := c) 0 false
    rcases hrun with hrun | hrun <;> rcases hrun' with hrun' | hrun' <;> rw [hrun, hrun']
    · exact hfinish _ _ h
    · exact hfinish _ _ (h.logged_right _ _)
    · exact hfinish _ _ (h.logged_left _ _)
    · exact hfinish _ _ (h.logged _ _ _)

end Close

/-- The instruction closes a file, and the number of the file cannot be read. -/
def ClosesUnread (i : Instruction) (m : Machine) : Prop :=
  i.descriptor.action = .systemCall ∧ ∃ number located e,
    (locate1 i >>= read .word).run m = .ok number located ∧
      SystemCall.ofNumber? number.toNat = some .close ∧ firstArgument located = .error e

/-- Serves the call with a number. -/
def serve (number : Nat) : Exec (Option Halt) :=
  match SystemCall.ofNumber? number with
  | some .exit => exitCall
  | some .write => do writeCall; return none
  | some .close => do closeCall; return none
  | some .ioctl => do ioctlCall; return none
  | none => throw (.systemCall number)

theorem systemCall_eq (i : Instruction) :
    systemCall i = (locate1 i >>= read .word) >>= fun number => serve number.toNat := by
  rw [bind_assoc]
  rfl

theorem same_serve {m m' : Machine} {number : Nat} (h : m.Alike c m')
    (hclose : SystemCall.ofNumber? number = some .close →
      c.AgreesOn .debug ∨ ∃ file, firstArgument m = .ok file) :
    Same c ((serve number).run m) ((serve number).run m') := by
  unfold serve
  split
  · exact blind_exitCall _ _ h
  · exact (blind_writeCall.bind fun _ => blind_pure _) _ _ h
  · next hcall =>
    exact Same.bind (same_closeCall h (hclose hcall))
      fun a between between' _ => blind_pure _ between between'
  · exact (blind_ioctlCall.bind fun _ => blind_pure _) _ _ h
  · exact blind_throw _ _ _ h

theorem same_systemCall {m m' : Machine} (h : m.Alike c m')
    (haction : i.descriptor.action = .systemCall)
    (hclose : c.AgreesOn .debug ∨ ¬ ClosesUnread i m) :
    Same c ((systemCall i).run m) ((systemCall i).run m') := by
  have hnumber : Same c ((locate1 i >>= read .word).run m) ((locate1 i >>= read .word).run m') :=
    (blind_locate1 i).bind (blind_read .word) m m' h
  rw [systemCall_eq]
  refine hnumber.bind fun number located located' hfirst h => same_serve h fun hcall =>
    hclose.imp_right fun hnot => ?_
  cases hfile : firstArgument located with
  | ok file => exact ⟨file, rfl⟩
  | error e => exact absurd ⟨haction, number, located, e, hfirst, hcall, hfile⟩ hnot

/-! ## Instructions -/

theorem Blind.goesOn {x : Exec Unit} (hx : Blind c x) : Blind c (goesOn x) :=
  hx.bind fun _ => blind_pure _

theorem blind_execute (haction : i.descriptor.action ≠ .systemCall) : Blind c (execute i) := by
  unfold execute
  split
  · exact blind_throw _
  · exact blind_pure _
  · exact (blind_arithmetic _).goesOn
  · exact blind_move.goesOn
  · exact blind_compare.goesOn
  · exact blind_test.goesOn
  · exact blind_clear.goesOn
  · exact blind_increment.goesOn
  · exact blind_decrement.goesOn
  · exact blind_negate.goesOn
  · exact blind_complement.goesOn
  · exact blind_bitTest.goesOn
  · exact blind_zeroExtend.goesOn
  · exact blind_convert.goesOn
  · exact blind_moveAddress.goesOn
  · exact blind_pushAddress.goesOn
  · exact blind_pushLong.goesOn
  · exact blind_shift.goesOn
  · exact (blind_branch _).goesOn
  · exact blind_jump.goesOn
  · exact blind_branchToSubroutine.goesOn
  · exact blind_jumpToSubroutine.goesOn
  · exact blind_returnFromSubroutine.goesOn
  · exact (blind_branchOnBit _ _).goesOn
  · exact (blind_branchOnLowBit _).goesOn
  · exact blind_addCompareBranch.goesOn
  · exact (blind_addOneBranch _).goesOn
  · exact (blind_subtractOneBranch _).goesOn
  · exact blind_select.goesOn
  · exact (blind_extractField _).goesOn
  · exact blind_call.goesOn
  · exact blind_returnFromCall
  · exact blind_longToPacked.goesOn
  · exact blind_editPacked.goesOn
  · exact (blind_scan _).goesOn
  · exact blind_copyString.goesOn
  · next hsystemCall => exact absurd hsystemCall haction
  · exact blind_throw _

/-- An instruction does the same to machines that are alike, unless it is a
close that one of them looks into in vain. -/
theorem same_execute {m m' : Machine} (h : m.Alike c m')
    (hclose : c.AgreesOn .debug ∨ ¬ ClosesUnread i m) :
    Same c ((execute i).run m) ((execute i).run m') := by
  by_cases haction : i.descriptor.action = .systemCall
  · rw [execute, haction]
    exact same_systemCall h haction hclose
  · exact blind_execute haction m m' h

theorem closesUnread_of_alike {m m' : Machine} (h : m.Alike c m') (hunread : ClosesUnread i m) :
    ClosesUnread i m' := by
  obtain ⟨haction, number, located, e, hnumber, hcall, hfile⟩ := hunread
  have hsame : Same c ((locate1 i >>= read .word).run m) ((locate1 i >>= read .word).run m') :=
    (blind_locate1 i).bind (blind_read .word) m m' h
  rw [hnumber] at hsame
  generalize hnumber' : (locate1 i >>= read .word).run m' = result' at hsame
  cases hsame with
  | @ok _ _ located' h =>
    refine ⟨haction, number, located', e, hnumber', hcall, ?_⟩
    rw [firstArgument, h.memory_eq, h.registers_eq]
    exact hfile

/-- A close that cannot read its argument faults with one log and not with
the other. -/
theorem run_execute_of_closesUnread {m : Machine} (h : ClosesUnread i m) :
    (m.log.enabled .debug = true → ∃ cause after, (execute i).run m = .error cause after) ∧
      (¬ m.log.enabled .debug = true → ∃ after, (execute i).run m = .ok none after) := by
  obtain ⟨haction, number, located, e, hnumber, hcall, hfile⟩ := h
  have hlogs : located.log.enabled .debug = m.log.enabled .debug := by
    have hsame : Same _ ((locate1 i >>= read .word).run m) _ :=
      (blind_locate1 i).bind (blind_read .word) m m (.refl m)
    rw [hnumber] at hsame
    cases hsame with
    | ok h => exact Log.enabled_congr h.threshold_eq .debug
  have hserve : serve number.toNat = closeCall >>= fun _ => pure none := by
    rw [serve, hcall]
  rw [execute, haction]
  dsimp only
  rw [systemCall_eq, run_bind_ok hnumber, hserve, ← hlogs]
  constructor
  · intro hlogged
    exact ⟨_, _, run_bind_error (run_closeCall_of_logged hfile hlogged)⟩
  · intro hlogged
    obtain ⟨after, hrun⟩ := run_closeCall_of_not_logged hlogged
    exact ⟨after, by rw [run_bind_ok hrun]; rfl⟩

end Exec

end Vax
