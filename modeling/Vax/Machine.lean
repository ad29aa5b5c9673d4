import Vax.Disassembler
import Vax.Fault
import Vax.Log
import Vax.Output
/-!
# The machine

The state of a processor that runs one user program: registers, memory, what
the program has written, and what diagnosis needs (symbols, the call stack, a
log).  Instructions are computations over that state; a fault stops one and
leaves the state as it was at that point.
-/

namespace Vax

/-- How a program stopped of its own accord. -/
inductive Halt where
  | exit (status : Int)
  /-- The program returned from its entry, leaving this in `r0`. -/
  | returned (r0 : UInt32)
  deriving DecidableEq, Repr

namespace Halt

def status : Halt → Int
  | exit status => status
  | returned r0 => r0.toBitVec.toInt

def text : Halt → String
  | exit status => "Exit(" ++ toString status ++ ")"
  | returned r0 => "Return(" ++ toString r0.toNat ++ ")"

end Halt

inductive Status where
  | notStarted
  | running
  | halted (halt : Halt)
  | faulted (fault : Fault)
  deriving DecidableEq, Repr

/-- A procedure that was called and has not returned. -/
structure Frame where
  address : UInt32
  name : String
  deriving DecidableEq, Repr

def Frame.text (f : Frame) : String :=
  Text.hexLong f.address ++ "(" ++ f.name ++ ")"

structure Machine where
  registers : Registers
  memory : Memory
  symbols : SymbolTable
  entry : UInt32
  status : Status
  /-- The call stack, the entry procedure first. -/
  frames : Array Frame
  output : Output
  log : Log
  /-- The address of the instruction begun last. -/
  current : UInt32

namespace Machine

def disassembler (m : Machine) : Disassembler :=
  ⟨m.memory, m.symbols, some m.entry⟩

def logged (m : Machine) (level : Level) (message : Unit → String) : Machine :=
  { m with log := m.log.add level message }

/-- Enters a procedure on the call stack. -/
def pushFrame (m : Machine) (address : UInt32) : Machine :=
  { m with frames := m.frames.push ⟨address, (m.symbols.nameAt? address).getD "???"⟩ }

/-- Leaves the innermost procedure.  The entry procedure is never left. -/
def popFrame (m : Machine) : Machine :=
  if 1 < m.frames.size then { m with frames := m.frames.pop } else m

def callChain (m : Machine) (form : Frame → String) : String :=
  " > ".intercalate (m.frames.toList.map form)

end Machine

/-- A computation of the machine that may end in a fault. -/
abbrev Exec (α : Type) : Type :=
  EStateM Fault.Cause Machine α

namespace Exec

/-- The outcome of an access to memory. -/
def access {α : Type} : Except OutOfRange α → Exec α
  | .ok value => pure value
  | .error e => throw (.memory e)

def getRegister (r : Register) : Exec UInt32 :=
  return (← get).registers.get r

def setRegister (r : Register) (value : UInt32) : Exec Unit :=
  modify fun m => { m with registers := m.registers.set r value }

def getFlags : Exec Flags :=
  return (← get).registers.flags

def setFlags (flags : Flags) : Exec Unit :=
  modify fun m => { m with registers := m.registers.setFlags flags }

def setPc (address : UInt32) : Exec Unit :=
  setRegister Register.pc address

def readNat (address : UInt32) (length : Nat) : Exec Nat := do
  access ((← get).memory.readNat address length)

def readByte (address : UInt32) : Exec UInt8 := do
  access ((← get).memory.readByte address)

def readWord (address : UInt32) : Exec UInt16 := do
  access ((← get).memory.readWord address)

def readLong (address : UInt32) : Exec UInt32 := do
  access ((← get).memory.readLong address)

/-- Stores bytes, all of them or none. -/
def store (address : UInt32) (bytes : List UInt8) : Exec Unit := do
  let memory ← access ((← get).memory.store address bytes)
  modify fun m => { m with memory := memory }

def writeByte (address : UInt32) (value : UInt8) : Exec Unit :=
  store address [value]

def writeNat (address : UInt32) (length value : Nat) : Exec Unit :=
  store address (LittleEndian.toBytes length value)

def writeLong (address value : UInt32) : Exec Unit :=
  writeNat address 4 value.toNat

/-- Pushes a longword.  The stack pointer moves before the store. -/
def push (value : UInt32) : Exec Unit := do
  let sp := (← getRegister Register.sp) - 4
  setRegister Register.sp sp
  writeLong sp value

/-- Pops a longword.  The stack pointer moves after the read. -/
def pop : Exec UInt32 := do
  let sp ← getRegister Register.sp
  let value ← readLong sp
  setRegister Register.sp (sp + 4)
  return value

def log (level : Level) (message : Machine → String) : Exec Unit :=
  modify fun m => m.logged level fun _ => message m

end Exec

end Vax
