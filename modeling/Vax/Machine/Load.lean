import Vax.Machine
import Vax.Program
/-!
# Loading a program

The text lies at the base of memory, the data behind it on the next aligned
address, and the arguments of the program at the top, where the stack begins:
the argument count, a pointer to each argument, a zero that ends the pointers,
a zero that stands for an empty environment, and the arguments themselves,
each ended by a zero byte.
-/

namespace Vax

inductive LoadError where
  /-- There is no header, so neither an entry nor a layout. -/
  | notExecutable
  /-- The program with its initial stack needs more memory than there is. -/
  | tooLarge (needed available : Nat)
  | memory (access : OutOfRange)
  deriving DecidableEq, Repr

def LoadError.message : LoadError → String
  | .notExecutable => "not an executable"
  | .tooLarge needed available =>
    "program needs " ++ Text.marked needed ++ " bytes of memory but only " ++
      Text.marked available ++ " are available"
  | .memory access => access.message

namespace Machine

/-- The bytes of the arguments, each with the zero that ends it. -/
def argumentBytes (arguments : List (List UInt8)) : Nat :=
  arguments.foldr (fun argument rest => argument.length + 1 + rest) 0

def imageLength (h : Header) (p : Program) : Nat :=
  h.dataOffset.toNat + p.data.length + h.bss.toNat

/-- The room that the initial stack may take, alignment included. -/
def stackLength (arguments : List (List UInt8)) : Nat :=
  argumentBytes arguments + 3 + 4 * (arguments.length + 3)

/-- The address of the first argument below `top`, a multiple of four. -/
def argumentsAddress (top : UInt32) (arguments : List (List UInt8)) : UInt32 :=
  let lowest := top - UInt32.ofNat (argumentBytes arguments)
  lowest - lowest % 4

/-- The initial stack pointer, where the argument count is. -/
def initialSp (top : UInt32) (arguments : List (List UInt8)) : UInt32 :=
  argumentsAddress top arguments - UInt32.ofNat ((arguments.length + 2) * 4) - 4

/-- What is stored for the arguments: at `pointer` the address of each, and at
that address the argument and its zero. -/
def argumentStores (pointer address : UInt32) : List (List UInt8) → List (UInt32 × List UInt8)
  | [] => []
  | argument :: rest =>
    let final := address + UInt32.ofNat argument.length
    (pointer, LittleEndian.toBytes 4 address.toNat) :: (address, argument) :: (final, [0]) ::
      argumentStores (pointer + 4) (final + 1) rest

/-- Everything that the initial stack holds, with its addresses. -/
def stackStores (top : UInt32) (arguments : List (List UInt8)) : List (UInt32 × List UInt8) :=
  let address := argumentsAddress top arguments
  let sp := initialSp top arguments
  (address - 8, LittleEndian.toBytes 8 0) ::
    (sp, LittleEndian.toBytes 4 arguments.length) ::
      argumentStores (sp + 4) address arguments

/-- Memory with the program and the initial stack in it. -/
def initialMemory (h : Header) (p : Program) (arguments : List (List UInt8)) (size : Nat) :
    Except OutOfRange Memory := do
  let memory := Memory.zeroed h.base size
  let memory ← memory.store h.base p.text
  let memory ← memory.store p.dataAddress p.data
  (stackStores memory.top arguments).foldlM
    (fun memory (address, bytes) => memory.store address bytes) memory

/-- Loads an executable into `size` bytes of memory.  The first argument is
by convention the name of the program.  The machine goes on with `log`. -/
def load (p : Program) (arguments : List String) (size : Nat) (log : Log) :
    Except LoadError Machine := do
  let h ← match p.header with
    | some h => pure h
    | none => throw .notExecutable
  let arguments := arguments.map Utf8.encode
  let needed := imageLength h p + stackLength arguments
  if size < needed then
    throw (.tooLarge needed size)
  let memory ← match initialMemory h p arguments size with
    | .ok memory => pure memory
    | .error e => throw (.memory e)
  let sp := initialSp memory.top arguments
  let registers := (Registers.zeroed.set Register.pc h.entry).set Register.sp sp
  let machine : Machine :=
    ⟨registers, memory, p.symbols, h.entry, .notStarted, #[], Output.unlimited, log, h.entry⟩
  return machine.logged .debug fun _ =>
    "loaded " ++ Text.marked (imageLength h p) ++ " bytes at " ++ Text.hexLong h.base ++
      "; entry = " ++ Text.hexLong h.entry ++ ", sp = " ++ Text.hexLong sp

end Machine

end Vax
