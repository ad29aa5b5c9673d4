import Vax.Machine.PackedDecimal
import Vax.Proofs.Machine.Stages
/-!
# Packed decimal instructions in stages

Both instructions find out where their strings lie before they touch any of
them.
-/

namespace Vax

namespace Exec

/-! ## Conversion -/

/-- What the operands of a conversion say: the number, how many digits to
store, and where. -/
def packedOperands (i : Instruction) : Exec (Int × Nat × UInt32) := do
  let (source, length, destination) ← locate3 i
  let value := (← read .long source).toInt
  let length := (← read .word length).toNat
  return (value, length, ← addressOf destination)

def storePacked (i : Instruction) (value : Int) (length : Nat) (address : UInt32) :
    Exec Unit := do
  if Packed.maxDigits < length then
    reservedOperand i
  let last := address + UInt32.ofNat (length / 2)
  storeZeros (length / 2) address
  writeByte last (Packed.signOf (value < 0))
  let (first, rest) ← storeDigits length true last value.natAbs
  setRegister 0 0
  setRegister 1 0
  setRegister 2 0
  setRegister 3 first
  setFlags ⟨value < 0, value == 0, 0 < rest, false⟩

theorem longToPacked_eq (i : Instruction) : longToPacked i = (do
    let (value, length, address) ← packedOperands i
    storePacked i value length address) := by
  simp only [longToPacked, packedOperands, storePacked, bind_assoc, pure_bind]

theorem execute_longToPacked {i : Instruction} (h : i.descriptor.action = .longToPacked) :
    execute i = goesOn (packedOperands i >>= fun operands =>
      storePacked i operands.1 operands.2.1 operands.2.2) := by
  rw [execute, h]
  exact congrArg goesOn (longToPacked_eq i)

theorem evaluates_packedOperands (i : Instruction) : Evaluates i (packedOperands i) :=
  (evaluates_locate3 i).bind fun _ => (still_read _ _).bind fun _ =>
    (still_read _ _).bind fun _ => (still_addressOf _).bind fun _ => still_pure _

/-! ## Editing -/

/-- What the operands of an edit say: how many digits there are and where,
the pattern, and where the text goes. -/
def editOperands (i : Instruction) : Exec (Nat × UInt32 × UInt32 × UInt32) := do
  let (length, source, pattern, destination) ← locate4 i
  let length := (← read .word length).toNat
  let source ← addressOf source
  let pattern ← addressOf pattern
  return (length, source, pattern, ← addressOf destination)

def editString (i : Instruction) (length : Nat) (source pattern destination : UInt32) :
    Exec Unit := do
  if Packed.maxDigits < length then
    reservedOperand i
  let isNegative := Packed.isNegative (← readByte (source + UInt32.ofNat (length / 2)))
  let operators := (← get).memory.size + 1
  let p ← followPattern (Edit.signCharacter isNegative) operators
    ⟨length, source, pattern, destination, true, none⟩
  setRegister 0 (UInt32.ofNat length)
  setRegister 1 (p.significance.getD 0)
  setRegister 2 0
  setRegister 3 p.pattern
  setRegister 4 0
  setRegister 5 p.destination
  setFlags ⟨isNegative && !p.isZero, p.isZero, p.remaining != 0, p.significance.isSome⟩

theorem editPacked_eq (i : Instruction) : editPacked i = (do
    let (length, source, pattern, destination) ← editOperands i
    editString i length source pattern destination) := by
  simp only [editPacked, editOperands, editString, bind_assoc, pure_bind]

theorem execute_editPacked {i : Instruction} (h : i.descriptor.action = .editPacked) :
    execute i = goesOn (editOperands i >>= fun operands =>
      editString i operands.1 operands.2.1 operands.2.2.1 operands.2.2.2) := by
  rw [execute, h]
  exact congrArg goesOn (editPacked_eq i)

theorem evaluates_editOperands (i : Instruction) : Evaluates i (editOperands i) :=
  (evaluates_locate4 i).bind fun _ => (still_read _ _).bind fun _ =>
    (still_addressOf _).bind fun _ => (still_addressOf _).bind fun _ =>
      (still_addressOf _).bind fun _ => still_pure _

end Exec

end Vax
