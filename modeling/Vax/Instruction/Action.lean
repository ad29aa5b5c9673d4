/-!
# What instructions do

The catalog gives every opcode an action.  Instructions that differ only in
the width of their operands, or in a flag of their definition, share one.
-/

namespace Vax

inductive Arithmetic where
  | add
  | subtract
  | multiply
  | divide
  | setBits
  | clearBits
  | exclusiveOr
  deriving DecidableEq, Repr

inductive Condition where
  | always
  | notEqual
  | equal
  | greater
  | lessOrEqual
  | greaterOrEqual
  | less
  | greaterUnsigned
  | lessOrEqualUnsigned
  | greaterOrEqualUnsigned
  | lessUnsigned
  | noOverflow
  | overflow
  deriving DecidableEq, Repr

inductive Action where
  /-- Needs a privilege that user programs do not have. -/
  | privileged
  | nothing
  | arithmetic (operation : Arithmetic)
  | move
  | compare
  | test
  | clear
  | increment
  | decrement
  | negate
  | complement
  /-- Tests the bits of one operand in the other. -/
  | bitTest
  | zeroExtend
  | convert
  | moveAddress
  | pushAddress
  | pushLong
  | shift
  | branch (condition : Condition)
  | jump
  | branchToSubroutine
  | jumpToSubroutine
  | returnFromSubroutine
  /-- Branches when a bit has the value `onSet`; `update` is what it then becomes. -/
  | branchOnBit (onSet : Bool) (update : Option Bool)
  | branchOnLowBit (onSet : Bool)
  /-- Adds to an index and branches until it has passed a limit. -/
  | addCompareBranch
  /-- Adds one and branches below the limit, or up to it when `inclusive`. -/
  | addOneBranch (inclusive : Bool)
  /-- Subtracts one and branches above zero, or down to it when `inclusive`. -/
  | subtractOneBranch (inclusive : Bool)
  /-- Branches through the table that follows the instruction. -/
  | select
  | extractField (isSigned : Bool)
  | call
  | returnFromCall
  | longToPacked
  | editPacked
  /-- Looks for the first byte that equals a character, or differs from it. -/
  | scan (forEqual : Bool)
  | copyString
  | systemCall
  /-- Known to the disassembler but not executed. -/
  | unimplemented
  deriving DecidableEq, Repr

end Vax
