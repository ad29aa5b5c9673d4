import Vax.Arithmetic
import Vax.Machine.Operand
/-!
# Control instructions

Branches, jumps, subroutines, loops, and dispatch through a table.  Apart from
loops and dispatch they leave the condition codes alone.
-/

namespace Vax

def Condition.holds (flags : Flags) : Condition → Bool
  | always => true
  | notEqual => !flags.z
  | equal => flags.z
  | greater => !(flags.n || flags.z)
  | lessOrEqual => flags.n || flags.z
  | greaterOrEqual => !flags.n
  | less => flags.n
  | greaterUnsigned => !(flags.c || flags.z)
  | lessOrEqualUnsigned => flags.c || flags.z
  | greaterOrEqualUnsigned => !flags.c
  | lessUnsigned => flags.c
  | noOverflow => !flags.v
  | overflow => flags.v

namespace Exec

def branchTo (target : Location) (taken : Bool) : Exec Unit :=
  match target with
  | .value address => if taken then setPc address else pure ()
  | _ => pure ()

def branch (i : Instruction) (condition : Condition) : Exec Unit := do
  let target ← locate1 i
  branchTo target (condition.holds (← getFlags))

def jump (i : Instruction) : Exec Unit := do
  setPc (← addressOf (← locate1 i))

def branchToSubroutine (i : Instruction) : Exec Unit := do
  let target ← locate1 i
  push (← getRegister Register.pc)
  branchTo target true

def jumpToSubroutine (i : Instruction) : Exec Unit := do
  let address ← addressOf (← locate1 i)
  push (← getRegister Register.pc)
  setPc address

def returnFromSubroutine : Exec Unit := do
  setPc (← pop)

def branchOnLowBit (i : Instruction) (onSet : Bool) : Exec Unit := do
  let (source, target) ← locate2 i
  let value ← read .long source
  branchTo target (value.getLsbD 0 == onSet)

/-- Writes the new index of a loop.  The carry stays as it was. -/
def stepIndex (w : Width) (result : ArithmeticResult w.bits) (index : Location) : Exec Unit := do
  write w result.value index
  setResult result.value result.overflow none

/-- Adds to the index and branches until it has passed the limit, in the
direction that the sign of the addend gives. -/
def addCompareBranch (i : Instruction) : Exec Unit := do
  let w ← match i.operandWidth? 0 with
    | some w => pure w
    | none => reservedOperand i
  let (limit, addend, index, target) ← locate4 i
  let limit ← read w limit
  let addend ← read w addend
  let result := Arithmetic.sum addend (← read w index)
  stepIndex w result index
  branchTo target (if addend.msb then limit.sle result.value else result.value.sle limit)

/-- Adds one to the index and branches below the limit, or up to it. -/
def addOneBranch (i : Instruction) (inclusive : Bool) : Exec Unit := do
  let (limit, index, target) ← locate3 i
  let limit ← read .long limit
  let result := Arithmetic.sum 1 (← read .long index)
  stepIndex .long result index
  branchTo target (if inclusive then result.value.sle limit else result.value.slt limit)

/-- Subtracts one from the index and branches above zero, or down to it. -/
def subtractOneBranch (i : Instruction) (inclusive : Bool) : Exec Unit := do
  let (index, target) ← locate2 i
  let result := Arithmetic.difference 1 (← read .long index)
  stepIndex .long result index
  branchTo target (if inclusive then BitVec.sle 0 result.value else BitVec.slt 0 result.value)

/-- Goes through the table behind the instruction, whose entries are word
displacements from its start, or past the table when the selector is out of
its range. -/
def select (i : Instruction) : Exec Unit := do
  let (selector, base, limit) ← locate3 i
  let selector ← read i.width selector
  let base ← read i.width base
  let limit ← read i.width limit
  let entry := selector - base
  setComparison entry limit
  let table ← getRegister Register.pc
  if entry.ule limit then
    let displacement ← readWord (table + UInt32.ofNat (2 * entry.toNat))
    setPc (table + UInt32.ofInt displacement.toBitVec.toInt)
  else
    setPc (table + UInt32.ofNat (2 * (limit.toNat + 1)))

end Exec

end Vax
