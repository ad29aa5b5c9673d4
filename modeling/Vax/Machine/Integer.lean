import Vax.Arithmetic
import Vax.Machine.Operand
/-!
# Integer instructions

Arithmetic and logic, moves and conversions between widths, and instructions
that deal in the addresses of their operands.
-/

namespace Vax

namespace Exec

def writeResult (w : Width) (result : ArithmeticResult w.bits) (destination : Location) :
    Exec Unit := do
  write w result.value destination
  setResult result.value result.overflow result.carry

/-- Two operands, the second being source and destination, or three. -/
def arithmetic (i : Instruction) (operation : Arithmetic) : Exec Unit := do
  let (source, destination, out) ← match ← locateAll i with
    | [source, destination] => pure (source, destination, destination)
    | [source, destination, out] => pure (source, destination, out)
    | _ => reservedOperand i
  let source ← read i.width source
  let destination ← read i.width destination
  writeResult i.width (operation.apply source destination) out

def move (i : Instruction) : Exec Unit := do
  let (source, destination) ← locate2 i
  let value ← read i.width source
  writeResult i.width ⟨value, false, none⟩ destination

def compare (i : Instruction) : Exec Unit := do
  let (left, right) ← locate2 i
  let left ← read i.width left
  let right ← read i.width right
  setComparison left right

def test (i : Instruction) : Exec Unit := do
  let value ← read i.width (← locate1 i)
  setResult value false (some false)

def clear (i : Instruction) : Exec Unit := do
  let destination ← locate1 i
  writeResult i.width ⟨0, false, none⟩ destination

/-- Adds one; only the greatest value overflows and only all ones carries. -/
def increment (i : Instruction) : Exec Unit := do
  let destination ← locate1 i
  let value ← read i.width destination
  let result := value + 1
  writeResult i.width ⟨result, !value.msb && result.msb, some (result == 0)⟩ destination

/-- Subtracts one; only the least value overflows and only zero borrows. -/
def decrement (i : Instruction) : Exec Unit := do
  let destination ← locate1 i
  let value ← read i.width destination
  let result := value - 1
  writeResult i.width ⟨result, value.msb && !result.msb, some (value == 0)⟩ destination

/-- Only the least value is, other than zero, its own negation. -/
def negate (i : Instruction) : Exec Unit := do
  let (source, destination) ← locate2 i
  let value ← read i.width source
  let result := -value
  writeResult i.width ⟨result, value != 0 && value == result, some (result != 0)⟩ destination

def complement (i : Instruction) : Exec Unit := do
  let (source, destination) ← locate2 i
  let value ← read i.width source
  writeResult i.width ⟨~~~value, false, none⟩ destination

def bitTest (i : Instruction) : Exec Unit := do
  let (mask, source) ← locate2 i
  let mask ← read i.width mask
  let source ← read i.width source
  setResult (mask &&& source) false none

/-- The width of an operand that the opcode does not encode. -/
def operandWidth (i : Instruction) (index : Nat) : Exec Width :=
  match i.operandWidth? index with
  | some w => pure w
  | none => reservedOperand i

/-- The result is never negative, whatever its top bit. -/
def zeroExtend (i : Instruction) : Exec Unit := do
  let narrow ← operandWidth i 0
  let wide ← operandWidth i 1
  let (source, destination) ← locate2 i
  let value ← read narrow source
  write wide (value.setWidth wide.bits) destination
  setFlags ⟨false, value == 0, false, (← getFlags).c⟩

/-- Sign-extends or truncates, which overflows when bits that count are lost. -/
def convert (i : Instruction) : Exec Unit := do
  let sourceWidth ← operandWidth i 0
  let resultWidth ← operandWidth i 1
  let (source, destination) ← locate2 i
  let value ← read sourceWidth source
  writeResult resultWidth (Arithmetic.narrow resultWidth.bits value.toInt) destination

def moveAddress (i : Instruction) : Exec Unit := do
  let (source, destination) ← locate2 i
  let address ← addressOf source
  writeResult .long ⟨address.toBitVec, false, none⟩ destination

def pushAddress (i : Instruction) : Exec Unit := do
  let address ← addressOf (← locate1 i)
  push address
  setResult address.toBitVec false none

def pushLong (i : Instruction) : Exec Unit := do
  let value ← read .long (← locate1 i)
  push (UInt32.ofBitVec value)
  setResult value false none

/-- Shifts left by a positive count and right, keeping the sign, by a negative one. -/
def shift (i : Instruction) : Exec Unit := do
  let (count, source, destination) ← locate3 i
  let count ← read .byte count
  let value ← read .long source
  writeResult .long (Arithmetic.shifted count.toInt value) destination

end Exec

end Vax
