import Vax.Machine.Operand
/-!
# System calls of the running program

A program traps into the kernel from a stub procedure, so the arguments of a
call are the argument list of the stub.  The result comes back in `r0`, and
the carry says whether the call failed.
-/

namespace Vax

namespace Exec

/-- The argument of the current procedure with an index that counts from zero. -/
def argument (index : Nat) : Exec UInt32 := do
  readLong ((← getRegister Register.ap) + UInt32.ofNat (4 * (index + 1)))

/-- Ends a call with a result. -/
def finishCall (result : UInt32) (failed : Bool) : Exec Unit := do
  setRegister 0 result
  let flags ← getFlags
  setFlags ⟨flags.n, flags.z, flags.v, failed⟩

def callText (call : SystemCall) (arguments : List String) : String :=
  call.name ++ "(" ++ ", ".intercalate arguments ++ ")"

def exitCall : Exec (Option Halt) := do
  let status := (← argument 0).toBitVec.toInt
  log .debug fun _ => callText .exit [toString status]
  return some (.exit status)

def writeCall : Exec Unit := do
  let file ← argument 0
  let buffer ← argument 1
  let length ← argument 2
  log .debug fun _ =>
    callText .write [toString file.toNat, Text.marked buffer.toNat, toString length.toNat]
  let bytes ← access ((← get).memory.slice buffer length.toNat)
  match (← get).output.write bytes with
  | .ok output => modify fun m => { m with output := output }
  | .error cause => throw (.output cause)
  finishCall length false

/-- Closing always succeeds.  The argument is looked at only for the log. -/
def closeCall : Exec Unit := do
  if (← get).log.enabled .debug then
    let file ← argument 0
    log .debug fun _ => callText .close [toString file.toNat]
  finishCall 0 false

/-- The three standard streams are terminals and nothing else is; no other
request is known. -/
def ioctlCall : Exec Unit := do
  let file ← argument 0
  let request ← argument 1
  log .debug fun _ => callText .ioctl [toString file.toNat, Text.marked request.toNat]
  if request ≠ SystemCall.getTerminalModes then
    throw (.systemCall SystemCall.ioctl.number)
  if file ≤ 2 then
    finishCall 0 false
  else
    finishCall 0xffffffff true

/-- Serves a system call; exit ends the program. -/
def systemCall (i : Instruction) : Exec (Option Halt) := do
  let number := (← read .word (← locate1 i)).toNat
  match SystemCall.ofNumber? number with
  | some .exit => exitCall
  | some .write => do writeCall; return none
  | some .close => do closeCall; return none
  | some .ioctl => do ioctlCall; return none
  | none => throw (.systemCall number)

end Exec

end Vax
