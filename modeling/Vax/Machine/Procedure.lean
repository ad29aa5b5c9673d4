import Vax.Machine.Operand
import Vax.Registers.CallStatus
/-!
# Procedure calls

A call builds this frame, from high addresses to low:

```text
        argument list          <- ap
        (0-3 alignment bytes)
        saved r11..r0, per mask
        saved pc
        saved fp
        saved ap
        call status
fp ->   condition handler (0)
```

A return takes it apart again.  The entry procedure has no frame, which a
return recognizes by the frame pointer the program began with.
-/

namespace Vax

/-- The registers `r0` to `r11` that a mask selects, in ascending order. -/
def maskedRegisters (mask : Nat) : List Register :=
  (List.range 12).filterMap fun i =>
    if mask.testBit i then some (Fin.ofNat 16 i) else none

/-- The bits of an entry mask that name a register to save. -/
def saveMask (mask : UInt16) : Nat :=
  mask.toNat % 2 ^ 12

/-- The status longword of a call. -/
def CallStatus.ofCall (flags : Flags) (mask : Nat) (sp : UInt32) : CallStatus :=
  (((CallStatus.mk 0).setFlags flags |>.setMask mask).setCounted true).setAlign (sp.toNat % 4)

/-- What a call is asked to do. -/
structure Call where
  /-- The number of arguments, of which the low byte counts. -/
  count : UInt32
  /-- The address of the procedure's entry mask. -/
  procedure : UInt32
  /-- The registers to save, bit 0 being `r0`. -/
  mask : Nat

/-- The frame pointer of the entry procedure. -/
def entryFp : UInt32 := 0

namespace Exec

def logCallChain : Exec Unit :=
  log .debug fun m => m.callChain Frame.name

/-- Pushes registers, the last first. -/
def pushRegisters (rs : List Register) : Exec Unit :=
  rs.reverse.forM fun r => do push (← getRegister r)

/-- Pops registers, the first first. -/
def popRegisters (rs : List Register) : Exec Unit :=
  rs.forM fun r => do setRegister r (← pop)

/-- What the operands of a call say. -/
def callOperands (i : Instruction) : Exec Call := do
  let (count, destination) ← locate2 i
  let count ← read .long count
  let procedure ← addressOf destination
  return ⟨UInt32.ofBitVec count, procedure, saveMask (← readWord procedure)⟩

/-- Builds the frame of a procedure and goes on at its entry. -/
def enterProcedure (call : Call) : Exec Unit := do
  push call.count
  let ap ← getRegister Register.sp
  setRegister Register.sp (ap - ap % 4)
  pushRegisters (maskedRegisters call.mask)
  push (← getRegister Register.pc)
  push (← getRegister Register.fp)
  push (← getRegister Register.ap)
  push (CallStatus.ofCall (← getFlags) call.mask ap).word
  push 0
  setRegister Register.ap ap
  setRegister Register.fp (← getRegister Register.sp)
  setPc (call.procedure + 2)
  setFlags Flags.clear
  modify fun m => m.pushFrame call.procedure
  logCallChain

def call (i : Instruction) : Exec Unit := do
  enterProcedure (← callOperands i)

def unwind : Exec Unit := do
  setRegister Register.sp ((← getRegister Register.fp) + 4)
  let status := CallStatus.mk (← pop)
  setFlags status.flags
  setRegister Register.ap (← pop)
  setRegister Register.fp (← pop)
  setPc (← pop)
  popRegisters (maskedRegisters status.mask)
  setRegister Register.sp ((← getRegister Register.sp) + UInt32.ofNat status.align)
  if status.counted then
    let count ← pop
    setRegister Register.sp ((← getRegister Register.sp) + 4 * (count % 256))

/-- Returns from a procedure; a return from the entry ends the program. -/
def returnFromCall : Exec (Option Halt) := do
  if (← getRegister Register.fp) = entryFp then
    let r0 ← getRegister 0
    log .debug fun _ => "returned from entry with r0 = " ++ Text.marked r0.toNat
    return some (.returned r0)
  unwind
  modify Machine.popFrame
  logCallChain
  return none

end Exec

end Vax
