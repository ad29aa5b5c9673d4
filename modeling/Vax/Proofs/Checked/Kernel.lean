import Vax.Machine.Kernel
import Vax.Proofs.Checked.Operand
/-!
# System calls that can fail

The distance of an argument from the argument pointer is computed from its
index.
-/

namespace Vax

namespace Checked

variable {i : Instruction}

def argument (index : Nat) : Checked UInt32 := do
  let distance ← multiply 32 4 (← add 32 index 1)
  readLong ((← getRegister Register.ap.val) + UInt32.ofNat distance)

def finishCall (result : UInt32) (failed : Bool) : Checked Unit := do
  setRegister 0 result
  let flags ← Exec.getFlags
  Exec.setFlags ⟨flags.n, flags.z, flags.v, failed⟩

def exitCall : Checked (Option Halt) := do
  let status := (← argument 0).toBitVec.toInt
  Exec.log .debug fun _ => Exec.callText .exit [toString status]
  return some (.exit status)

def writeCall : Checked Unit := do
  let file ← argument 0
  let buffer ← argument 1
  let length ← argument 2
  Exec.log .debug fun _ => Exec.callText .write
    [toString file.toNat, Text.marked buffer.toNat, toString length.toNat]
  let bytes ← slice buffer length.toNat
  match (← get).output.write bytes with
  | .ok output => modify fun m => { m with output := output }
  | .error cause => throw (.output cause)
  finishCall length false

def closeCall : Checked Unit := do
  if (← get).log.enabled .debug then
    let file ← argument 0
    Exec.log .debug fun _ => Exec.callText .close [toString file.toNat]
  finishCall 0 false

def ioctlCall : Checked Unit := do
  let file ← argument 0
  let request ← argument 1
  Exec.log .debug fun _ =>
    Exec.callText .ioctl [toString file.toNat, Text.marked request.toNat]
  if request ≠ SystemCall.getTerminalModes then
    throw (.systemCall SystemCall.ioctl.number)
  if file ≤ 2 then
    finishCall 0 false
  else
    finishCall 0xffffffff true

def systemCall (i : Instruction) : Checked (Option Halt) := do
  let number ← read .word (← locate1 i)
  match SystemCall.ofNumber? number with
  | some .exit => exitCall
  | some .write => do writeCall; return none
  | some .close => do closeCall; return none
  | some .ioctl => do ioctlCall; return none
  | none => throw (.systemCall number)

theorem follows_argument {index : Nat} (h : index < 3) :
    Follows id (argument index) (Exec.argument index) :=
  .compute (if_pos (by omega)) <| .compute (if_pos (by omega)) <|
    (follows_getRegister _).bind fun _ => follows_readLong _

theorem follows_finishCall (result : UInt32) (failed : Bool) :
    Follows id (finishCall result failed) (Exec.finishCall result failed) :=
  (follows_setRegister 0 _).bind fun _ => (follows_lift Exec.getFlags).bind fun _ =>
    follows_lift (Exec.setFlags _)

theorem follows_exitCall : Follows id exitCall Exec.exitCall :=
  (follows_argument (by decide)).bind fun _ => (follows_lift (Exec.log _ _)).bind fun _ =>
    follows_pure id _

theorem follows_writeCall : Follows id writeCall Exec.writeCall := by
  refine (follows_argument (by decide)).bind fun file =>
    (follows_argument (by decide)).bind fun buffer =>
    (follows_argument (by decide)).bind fun length => (follows_lift (Exec.log _ _)).bind fun _ =>
    (follows_slice buffer length.toNat).bind fun bytes => follows_get.bind fun m => ?_
  dsimp only [id]
  cases m.output.write bytes with
  | ok output => exact (follows_modify _).bind fun _ => follows_finishCall _ _
  | error e => rfl

theorem follows_closeCall : Follows id closeCall Exec.closeCall :=
  follows_get.bind fun _ => .ite Iff.rfl
    ((follows_argument (by decide)).bind fun _ => (follows_lift (Exec.log _ _)).bind fun _ =>
      follows_finishCall _ _)
    (follows_finishCall _ _)

theorem follows_ioctlCall : Follows id ioctlCall Exec.ioctlCall :=
  (follows_argument (by decide)).bind fun _ => (follows_argument (by decide)).bind fun _ =>
    (follows_lift (Exec.log _ _)).bind fun _ => .ite Iff.rfl rfl <|
      .ite Iff.rfl (follows_finishCall _ _) (follows_finishCall _ _)

theorem follows_systemCall : Follows id (systemCall i) (Exec.systemCall i) := by
  refine (follows_locate1 i).bind fun _ => (follows_read .word _).bind fun number => ?_
  dsimp only
  cases SystemCall.ofNumber? number.toNat with
  | none => exact follows_throw _
  | some call =>
    cases call with
    | exit => exact follows_exitCall
    | write => exact follows_writeCall.bind fun _ => follows_pure id _
    | close => exact follows_closeCall.bind fun _ => follows_pure id _
    | ioctl => exact follows_ioctlCall.bind fun _ => follows_pure id _

end Checked

end Vax
