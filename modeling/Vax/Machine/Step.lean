import Vax.Machine.BitField
import Vax.Machine.CharacterString
import Vax.Machine.Control
import Vax.Machine.Integer
import Vax.Machine.Kernel
import Vax.Machine.PackedDecimal
import Vax.Machine.Procedure
import Vax.Text.Row
/-!
# Running a program

A step fetches the instruction at the program counter, moves the counter past
it, and does what the catalog says it does.  A program that has halted or
faulted stays as it is.
-/

namespace Vax

namespace Memory

/-- The outcome of a fetch, with an access that failed as a fault. -/
def fetched {α : Type} (outcome : Except OutOfRange α) : Except Fault.Cause α :=
  outcome.mapError Fault.Cause.memory

/-- The instruction at an address.  No byte is read behind one that is neither
an opcode nor an escape. -/
def instructionAt (m : Memory) (address : UInt32) : Except Fault.Cause Instruction := do
  let (first, position) ← fetched ((Fetch.byte m).run address)
  match Catalog.find? first.toUInt16 with
  | some descriptor =>
    Prod.fst <$> fetched ((Instruction.fetchOperands m address descriptor).run position)
  | none =>
    if isEscape first then
      let (second, position) ← fetched ((Fetch.byte m).run position)
      let code := Opcode.twoByteCode first second
      match Catalog.find? code with
      | some descriptor =>
        Prod.fst <$> fetched ((Instruction.fetchOperands m address descriptor).run position)
      | none => throw (.unknownOpcode code 2)
    else
      throw (.unknownOpcode first.toUInt16 1)

end Memory

namespace Exec

/-- An action that does not end the program. -/
def goesOn (action : Exec Unit) : Exec (Option Halt) := do
  action
  return none

def execute (i : Instruction) : Exec (Option Halt) :=
  match i.descriptor.action with
  | .privileged => throw (.privileged i.descriptor.mnemonic)
  | .nothing => return none
  | .arithmetic operation => goesOn (arithmetic i operation)
  | .move => goesOn (move i)
  | .compare => goesOn (compare i)
  | .test => goesOn (test i)
  | .clear => goesOn (clear i)
  | .increment => goesOn (increment i)
  | .decrement => goesOn (decrement i)
  | .negate => goesOn (negate i)
  | .complement => goesOn (complement i)
  | .bitTest => goesOn (bitTest i)
  | .zeroExtend => goesOn (zeroExtend i)
  | .convert => goesOn (convert i)
  | .moveAddress => goesOn (moveAddress i)
  | .pushAddress => goesOn (pushAddress i)
  | .pushLong => goesOn (pushLong i)
  | .shift => goesOn (shift i)
  | .branch condition => goesOn (branch i condition)
  | .jump => goesOn (jump i)
  | .branchToSubroutine => goesOn (branchToSubroutine i)
  | .jumpToSubroutine => goesOn (jumpToSubroutine i)
  | .returnFromSubroutine => goesOn returnFromSubroutine
  | .branchOnBit onSet update => goesOn (branchOnBit i onSet update)
  | .branchOnLowBit onSet => goesOn (branchOnLowBit i onSet)
  | .addCompareBranch => goesOn (addCompareBranch i)
  | .addOneBranch inclusive => goesOn (addOneBranch i inclusive)
  | .subtractOneBranch inclusive => goesOn (subtractOneBranch i inclusive)
  | .select => goesOn (select i)
  | .extractField isSigned => goesOn (extractField i isSigned)
  | .call => goesOn (call i)
  | .returnFromCall => returnFromCall
  | .longToPacked => goesOn (longToPacked i)
  | .editPacked => goesOn (editPacked i)
  | .scan forEqual => goesOn (scan i forEqual)
  | .copyString => goesOn (copyString i)
  | .systemCall => systemCall i
  | .unimplemented => throw (.unimplemented i.descriptor.code i.descriptor.mnemonic)

/-- The instruction at the program counter, which moves past it. -/
def fetchNext : Exec Instruction := do
  let m ← get
  match m.memory.instructionAt m.registers.pc with
  | .ok i =>
    setPc i.nextAddress
    return i
  | .error cause => throw cause

end Exec

namespace Machine

/-- The state before an instruction, as the log shows it. -/
def traceLine (m : Machine) : String :=
  let registers := (List.finRange 16).map fun r => Text.hexLong (m.registers.get r)
  let text :=
    match m.disassembler.decodeAt m.registers.pc with
    | .ok decoded => decoded.text
    | .error e => e.message
  m.registers.flags.text ++ " " ++ " ".intercalate registers ++ " " ++ text

/-- Begins the instruction at the program counter. -/
def begun (m : Machine) : Machine :=
  { m with current := m.registers.pc }.logged .trace fun _ => m.traceLine

/-- Passes on what the program has written, once it has ended. -/
def flushed (m : Machine) : Machine :=
  match m.output.flush with
  | .ok () => m
  | .error cause => m.logged .warn fun _ => "failed to flush output: " ++ cause

def ended (m : Machine) (status : Status) : Machine :=
  { m with status := status }.flushed

/-- Enters the program: its entry procedure joins the call stack and its
register mask is skipped. -/
def start (m : Machine) : Machine :=
  match m.status with
  | .notStarted =>
    let entered := m.pushFrame m.registers.pc
    { entered with
      registers := entered.registers.set Register.pc (entered.registers.pc + 2)
      status := .running }
  | _ => m

def executeNext (m : Machine) : Machine :=
  match (Exec.fetchNext >>= Exec.execute).run m.begun with
  | .ok none after => after
  | .ok (some halt) after => after.ended (.halted halt)
  | .error cause after => after.ended (.faulted ⟨after.current, cause⟩)

/-- Executes one instruction, starting the program first if need be. -/
def step (m : Machine) : Machine :=
  match m.status with
  | .notStarted => m.start.executeNext
  | .running => m.executeNext
  | .halted _ | .faulted _ => m

def isStopped (m : Machine) : Bool :=
  match m.status with
  | .notStarted | .running => false
  | .halted _ | .faulted _ => true

/-- Runs until the program stops, for at most `steps` steps. -/
def run : Nat → Machine → Machine
  | 0, m => m
  | steps + 1, m => if m.isStopped then m else run steps m.step

/-- A fault with what led to it: the call stack, the instruction, and the
registers. -/
def diagnosis (m : Machine) (fault : Fault) : List String :=
  let chain := if m.frames.isEmpty then [] else [m.callChain Frame.text]
  let code :=
    match m.disassembler.decodeAt fault.address with
    | .ok decoded =>
      match m.memory.slice fault.address decoded.length.toNat with
      | .ok bytes => Text.entryRows fault.address bytes decoded.text
      | .error _ => []
    | .error _ => []
  fault.message :: chain ++ code ++ m.registers.dump

end Machine

end Vax
