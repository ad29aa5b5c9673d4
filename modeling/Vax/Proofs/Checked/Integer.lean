import Vax.Proofs.Checked.Operand
/-!
# Integer instructions that can fail
-/

namespace Vax

namespace Checked

/-- The width that an opcode has in two of its bits. -/
def width (i : Instruction) : Option Width := do
  match ← shiftRight 16 (i.descriptor.code.toNat &&& 0x7f) 5 with
  | 0 => return .byte
  | 1 => return .word
  | 2 => return .long
  | _ => return .quad

def operandWidth (i : Instruction) (index : Nat) : Checked Width :=
  match i.operandWidth? index with
  | some w => pure w
  | none => reservedOperand i

def arithmetic (i : Instruction) (operation : Arithmetic) : Checked Unit := do
  let w ← width i
  let (source, destination, out) ← match ← locateAll i with
    | [source, destination] => pure (source, destination, destination)
    | [source, destination, out] => pure (source, destination, out)
    | _ => reservedOperand i
  let source ← read w source
  let destination ← read w destination
  writeResult w (← apply operation w source destination) out

def move (i : Instruction) : Checked Unit := do
  let w ← width i
  let (source, destination) ← locate2 i
  let value ← read w source
  writeResult w ⟨value, false, none⟩ destination

def compare (i : Instruction) : Checked Unit := do
  let w ← width i
  let (left, right) ← locate2 i
  let left ← read w left
  let right ← read w right
  setComparison w left right

def test (i : Instruction) : Checked Unit := do
  let w ← width i
  let value ← read w (← locate1 i)
  setResult w value false (some false)

def clear (i : Instruction) : Checked Unit := do
  let w ← width i
  let destination ← locate1 i
  writeResult w ⟨0, false, none⟩ destination

def increment (i : Instruction) : Checked Unit := do
  let w ← width i
  let destination ← locate1 i
  let value ← read w destination
  let result ← truncate w (wrappingAdd value 1)
  write w result destination
  let overflow := !(← isNegative w value) && (← isNegative w result)
  setResult w result overflow (some (result == 0))

def decrement (i : Instruction) : Checked Unit := do
  let w ← width i
  let destination ← locate1 i
  let value ← read w destination
  let result ← truncate w (wrappingSubtract value 1)
  write w result destination
  let overflow := (← isNegative w value) && !(← isNegative w result)
  setResult w result overflow (some (value == 0))

def negate (i : Instruction) : Checked Unit := do
  let w ← width i
  let (source, destination) ← locate2 i
  let value ← read w source
  let result ← truncate w (wrappingSubtract 0 value)
  writeResult w ⟨result, value != 0 && value == result, some (result != 0)⟩ destination

def complement (i : Instruction) : Checked Unit := do
  let w ← width i
  let (source, destination) ← locate2 i
  let value ← read w source
  writeResult w ⟨← truncate w (invert value), false, none⟩ destination

def bitTest (i : Instruction) : Checked Unit := do
  let w ← width i
  let (mask, source) ← locate2 i
  let mask ← read w mask
  let source ← read w source
  setResult w (mask &&& source) false none

def zeroExtend (i : Instruction) : Checked Unit := do
  let narrow ← operandWidth i 0
  let wide ← operandWidth i 1
  let (source, destination) ← locate2 i
  let value ← read narrow source
  write wide value destination
  Exec.setFlags ⟨false, value == 0, false, (← Exec.getFlags).c⟩

def convert (i : Instruction) : Checked Unit := do
  let sourceWidth ← operandWidth i 0
  let resultWidth ← operandWidth i 1
  let (source, destination) ← locate2 i
  let value ← signExtend sourceWidth (← read sourceWidth source)
  writeResult resultWidth (← narrow resultWidth value) destination

def moveAddress (i : Instruction) : Checked Unit := do
  let (source, destination) ← locate2 i
  let address ← addressOf source
  writeResult .long ⟨address.toNat, false, none⟩ destination

def pushAddress (i : Instruction) : Checked Unit := do
  let address ← addressOf (← locate1 i)
  push address
  setResult .long address.toNat false none

def pushLong (i : Instruction) : Checked Unit := do
  let value ← read .long (← locate1 i)
  push (UInt32.ofNat value)
  setResult .long value false none

def shift (i : Instruction) : Checked Unit := do
  let (count, source, destination) ← locate3 i
  let count ← signExtend .byte (← read .byte count)
  let value ← signExtend .long (← read .long source)
  writeResult .long (← shifted count value) destination

variable {i : Instruction}

theorem width_eq (i : Instruction) : width i = some i.width := by
  have hbits : (i.descriptor.code.toNat &&& 0x7f) / 2 ^ 5 = i.descriptor.code.toNat / 32 % 4 := by
    have hlow : i.descriptor.code.toNat &&& 0x7f = i.descriptor.code.toNat % 128 :=
      Nat.and_two_pow_sub_one_eq_mod _ 7
    omega
  refine bind_eq_some (if_pos (by decide)) ?_
  rw [hbits, Instruction.width, Width.ofOpcode]
  generalize i.descriptor.code.toNat / 32 % 4 = band
  rcases band with _ | _ | _ | band <;> rfl

theorem follows_operandWidth (index : Nat) :
    Follows id (operandWidth i index) (Exec.operandWidth i index) := by
  unfold operandWidth Exec.operandWidth
  cases i.operandWidth? index with
  | some w => exact follows_pure id w
  | none => exact follows_reservedOperand i

theorem follows_arithmetic (operation : Arithmetic) :
    Follows id (arithmetic i operation) (Exec.arithmetic i operation) := by
  have hrest : ∀ source destination out, Follows id (do
        let source ← read i.width source
        let destination ← read i.width destination
        writeResult i.width (← apply operation i.width source destination) out) (do
        let source ← Exec.read i.width source
        let destination ← Exec.read i.width destination
        Exec.writeResult i.width (operation.apply source destination) out) := fun _ _ _ =>
    (follows_read _ _).bind fun _ => (follows_read _ _).bind fun _ =>
      .compute (apply_eq _ _ _) <| follows_writeResult _ _ _
  refine .compute (width_eq i) <| (follows_locateAll i).bind fun locations => ?_
  rcases locations with _ | ⟨a, _ | ⟨b, _ | ⟨c, _ | ⟨d, rest⟩⟩⟩⟩
  · exact (follows_reservedOperand i).bind fun _ => hrest _ _ _
  · exact (follows_reservedOperand i).bind fun _ => hrest _ _ _
  · exact (follows_pure id _).bind fun _ => hrest _ _ _
  · exact (follows_pure id _).bind fun _ => hrest _ _ _
  · exact (follows_reservedOperand i).bind fun _ => hrest _ _ _

theorem follows_move : Follows id (move i) (Exec.move i) :=
  .compute (width_eq i) <| (follows_locate2 i).bind fun _ => (follows_read _ _).bind fun value =>
    follows_writeResult _ ⟨value, false, none⟩ _

theorem follows_compare : Follows id (compare i) (Exec.compare i) :=
  .compute (width_eq i) <| (follows_locate2 i).bind fun _ => (follows_read _ _).bind fun _ =>
    (follows_read _ _).bind fun _ => follows_setComparison _ _ _

theorem follows_test : Follows id (test i) (Exec.test i) :=
  .compute (width_eq i) <| (follows_locate1 i).bind fun _ => (follows_read _ _).bind fun _ =>
    follows_setResult _ _ _ _

theorem follows_clear : Follows id (clear i) (Exec.clear i) :=
  .compute (width_eq i) <| (follows_locate1 i).bind fun _ =>
    follows_writeResult _ ⟨0, false, none⟩ _

theorem truncate_succ {w : Width} (value : BitVec w.bits) :
    truncate w (wrappingAdd value.toNat 1) = some (value + 1).toNat := by
  have hone : (1 : BitVec w.bits).toNat = 1 := by cases w <;> rfl
  rw [← truncate_wrappingAdd 1 value, hone]

theorem truncate_pred {w : Width} (value : BitVec w.bits) :
    truncate w (wrappingSubtract value.toNat 1) = some (value - 1).toNat := by
  have hone : (1 : BitVec w.bits).toNat = 1 := by cases w <;> rfl
  rw [← truncate_wrappingSubtract 1 value, hone]

theorem truncate_neg {w : Width} (value : BitVec w.bits) :
    truncate w (wrappingSubtract 0 value.toNat) = some (-value).toNat := by
  have hneg : -value = 0 - value := (BitVec.zero_sub value).symm
  rw [hneg]
  exact truncate_wrappingSubtract value 0

theorem toNat_beq_zero {n : Nat} (v : BitVec n) : (v.toNat == 0) = (v == 0) :=
  toNat_beq v 0

theorem toNat_bne_zero {n : Nat} (v : BitVec n) : (v.toNat != 0) = (v != 0) :=
  congrArg not (toNat_beq_zero v)

theorem follows_increment : Follows id (increment i) (Exec.increment i) := by
  refine .compute (width_eq i) <| (follows_locate1 i).bind fun _ => (follows_read _ _).bind
    fun value => .compute (truncate_succ value) <| (follows_write _ _ _).bind fun _ =>
      .compute (isNegative_eq _ _) <| .compute (isNegative_eq _ _) ?_
  rw [toNat_beq_zero]
  exact follows_setResult _ _ _ _

theorem follows_decrement : Follows id (decrement i) (Exec.decrement i) := by
  refine .compute (width_eq i) <| (follows_locate1 i).bind fun _ => (follows_read _ _).bind
    fun value => .compute (truncate_pred value) <| (follows_write _ _ _).bind fun _ =>
      .compute (isNegative_eq _ _) <| .compute (isNegative_eq _ _) ?_
  rw [toNat_beq_zero]
  exact follows_setResult _ _ _ _

theorem follows_negate : Follows id (negate i) (Exec.negate i) := by
  refine .compute (width_eq i) <| (follows_locate2 i).bind fun _ => (follows_read _ _).bind
    fun value => .compute (truncate_neg value) ?_
  rw [toNat_bne_zero, toNat_bne_zero, toNat_beq]
  exact follows_writeResult _ ⟨-value, value != 0 && value == -value, some (-value != 0)⟩ _

theorem follows_complement : Follows id (complement i) (Exec.complement i) :=
  .compute (width_eq i) <| (follows_locate2 i).bind fun _ => (follows_read _ _).bind
    fun value => .compute (truncate_invert value) <|
      follows_writeResult _ ⟨~~~value, false, none⟩ _

theorem follows_bitTest : Follows id (bitTest i) (Exec.bitTest i) := by
  refine .compute (width_eq i) <| (follows_locate2 i).bind fun _ => (follows_read _ _).bind
    fun mask => (follows_read _ _).bind fun source => ?_
  rw [← BitVec.toNat_and]
  exact follows_setResult _ _ _ _

theorem follows_zeroExtend : Follows id (zeroExtend i) (Exec.zeroExtend i) := by
  refine (follows_operandWidth 0).bind fun narrow => (follows_operandWidth 1).bind fun wide =>
    (follows_locate2 i).bind fun _ => (follows_read _ _).bind fun value => ?_
  have hwide : value.setWidth wide.bits = wide.truncate value.toNat :=
    (BitVec.ofNat_toNat wide.bits value).symm
  rw [toNat_beq_zero, hwide]
  exact (follows_write_truncate wide value.toNat _).bind fun _ =>
    (follows_lift Exec.getFlags).bind fun _ => follows_lift _

theorem follows_convert : Follows id (convert i) (Exec.convert i) :=
  (follows_operandWidth 0).bind fun _ => (follows_operandWidth 1).bind fun _ =>
    (follows_locate2 i).bind fun _ => (follows_read _ _).bind fun _ =>
      .compute (signExtend_eq _ _) <| .compute (narrow_eq _ _) <| follows_writeResult _ _ _

theorem follows_moveAddress : Follows id (moveAddress i) (Exec.moveAddress i) :=
  (follows_locate2 i).bind fun _ => (follows_addressOf _).bind fun address =>
    follows_writeResult .long ⟨address.toBitVec, false, none⟩ _

theorem follows_pushAddress : Follows id (pushAddress i) (Exec.pushAddress i) :=
  (follows_locate1 i).bind fun _ => (follows_addressOf _).bind fun address =>
    (follows_push _).bind fun _ => follows_setResult .long address.toBitVec _ _

theorem follows_pushLong : Follows id (pushLong i) (Exec.pushLong i) := by
  refine (follows_locate1 i).bind fun _ => (follows_read .long _).bind fun value => ?_
  rw [ofNat_toNat]
  exact (follows_push _).bind fun _ => follows_setResult .long value _ _

theorem follows_shift : Follows id (shift i) (Exec.shift i) :=
  (follows_locate3 i).bind fun _ => (follows_read .byte _).bind fun count =>
    .compute (signExtend_eq .byte count) <| (follows_read .long _).bind fun value =>
      .compute (signExtend_eq .long value) <| .compute (shifted_eq count value) <|
        follows_writeResult .long _ _

end Checked

end Vax
