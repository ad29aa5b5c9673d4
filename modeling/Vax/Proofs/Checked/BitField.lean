import Vax.Proofs.Checked.Control
/-!
# Bit fields that can fail

A bit position is an unsigned longword here, and the bits of registers, bytes
and fields are reached with shifts.
-/

namespace Vax

namespace Checked

/-- The address of the byte that holds a bit, and the place of the bit in it. -/
def bitAddress (base : UInt32) (position : Nat) : Option (UInt32 × Nat) := do
  let step ← Signed.shiftRight 32 (Signed.ofNat 32 position) 3
  return (base + UInt32.ofInt step, position &&& 7)

def registerPosition (i : Instruction) (position : Nat) : Checked Nat :=
  if 31 < position then reservedOperand i else pure position

/-- A number with its bit at a position set or cleared. -/
def withBit {n : Nat} (value : BitVec n) (position : Nat) (set : Bool) : Option (BitVec n) := do
  let bit := BitVec.ofNat n (← shiftLeft n 1 position)
  return if set then value ||| bit else value &&& ~~~bit

def readBitAt (base : UInt32) (position : Nat) : Checked Bool := do
  let (address, place) ← bitAddress base position
  let byte ← readByte address
  return (← shiftRight 8 byte.toNat place) &&& 1 == 1

def readBit (i : Instruction) (position : Nat) : Location → Checked Bool
  | .register r => do
    let position ← registerPosition i position
    return (← shiftRight 32 (← getRegister r.val).toNat position) &&& 1 == 1
  | base => do readBitAt (← addressOf base) position

def writeBitAt (base : UInt32) (position : Nat) (set : Bool) : Checked Unit := do
  let (address, place) ← bitAddress base position
  let byte ← readByte address
  writeByte address (UInt8.ofBitVec (← withBit byte.toBitVec place set))

def writeBit (i : Instruction) (position : Nat) (set : Bool) : Location → Checked Unit
  | .register r => do
    let position ← registerPosition i position
    let value ← getRegister r.val
    setRegister r.val (UInt32.ofBitVec (← withBit value.toBitVec position set))
  | base => do writeBitAt (← addressOf base) position set

def branchOnBit (i : Instruction) (onSet : Bool) (update : Option Bool) : Checked Unit := do
  let (position, base, target) ← locate3 i
  let position ← read .long position
  let wasSet ← readBit i position base
  match update with
  | some set => writeBit i position set base
  | none => pure ()
  branchTo target (wasSet == onSet)

def fieldMask (size : Nat) : Option Nat := do
  shiftRight 64 (2 ^ 64 - 1) (← subtract 64 size)

/-- The number of bytes that a field reaches into. -/
def fieldLength (place size : Nat) : Option Nat := do
  divide (← add 32 (← add 32 place size) 7) 8

def readField (i : Instruction) (position size : Nat) (base : Location) : Checked Nat := do
  if size = 0 then
    return 0
  let mask ← fieldMask size
  match base with
  | .register r =>
    let position ← registerPosition i position
    let low ← getRegister r.val
    let next ← getRegister (← add 64 r.val 1)
    let pair := low.toNat ||| (← shiftLeft 64 next.toNat 32)
    return (← shiftRight 64 pair position) &&& mask
  | base =>
    let (address, place) ← bitAddress (← addressOf base) position
    let value ← readNat address (← fieldLength place size)
    return (← shiftRight 64 value place) &&& mask

/-- The field with its sign. -/
def fieldToInt (size field : Nat) : Option Int := do
  let shift ← subtract 64 size
  Signed.shiftRight 64 (Signed.ofNat 64 (← shiftLeft 64 field shift)) shift

/-- The field in a longword, extended by its sign or by zeros. -/
def fieldValue (isSigned : Bool) (size field : Nat) : Option Nat :=
  if isSigned ∧ 0 < size then do
    truncate .long (Signed.toNat 64 (← fieldToInt size field))
  else
    truncate .long field

def extractField (i : Instruction) (isSigned : Bool) : Checked Unit := do
  let (position, size, base, destination) ← locate4 i
  let position ← read .long position
  let size ← read .byte size
  if 32 < size then
    reservedOperand i
  let field ← readField i position size base
  let value ← fieldValue isSigned size field
  write .long value destination
  setResult .long value false (some false)

/-! ## Bits -/

theorem bitAddress_eq (base : UInt32) (position : BitVec 32) :
    bitAddress base position.toNat =
      some (Exec.byteOfBit base position.toInt, Exec.placeInByte position.toInt) := by
  have hofNat : Signed.ofNat 32 position.toNat = position.toInt := by
    rw [Signed.ofNat, BitVec.ofNat_toNat, BitVec.setWidth_eq]
  have hlow : position.toNat &&& 7 = position.toNat % 8 :=
    Nat.and_two_pow_sub_one_eq_mod position.toNat 3
  have hplace : position.toNat &&& 7 = Exec.placeInByte position.toInt := by
    rw [hlow, Exec.placeInByte, BitVec.toInt_eq_toNat_cond]
    split <;> omega
  rw [bitAddress, hofNat, hplace]
  rfl

theorem lt_of_registerPosition {i : Instruction} {position : Int} {m after : Machine} {p : Nat}
    (h : (Exec.registerPosition i position).run m = .ok p after) : p < 32 := by
  rw [Exec.registerPosition] at h
  split at h
  · next hin =>
    obtain ⟨rfl, -⟩ := Exec.run_pure_eq_ok.1 h
    omega
  · exact absurd h (Exec.run_reservedOperand_ne_ok i)

theorem withBit_eq {n position : Nat} (h : position < n) (value : BitVec n) (set : Bool) :
    withBit value position set = some (Exec.withBit value position set) := by
  have hbit : BitVec.ofNat n (1 * 2 ^ position % 2 ^ n) = BitVec.twoPow n position := by
    apply BitVec.eq_of_toNat_eq
    rw [BitVec.toNat_ofNat, Nat.mod_mod, Nat.one_mul, BitVec.toNat_twoPow]
  refine bind_eq_some (if_pos h) ?_
  rw [hbit]
  rfl

variable {i : Instruction}

theorem follows_registerPosition (position : BitVec 32) :
    Follows id (registerPosition i position.toNat)
      (Exec.registerPosition i position.toInt) := by
  have hcond : 0 ≤ position.toInt ∧ position.toInt < 32 ↔ ¬ 31 < position.toNat := by
    have hlt := position.isLt
    rw [BitVec.toInt_eq_toNat_cond]
    split <;> omega
  by_cases hfar : 31 < position.toNat
  · rw [registerPosition, if_pos hfar, Exec.registerPosition, if_neg fun h => hcond.1 h hfar]
    exact follows_reservedOperand i
  · have hin := hcond.2 hfar
    have hsame : position.toInt.toNat = position.toNat := by
      rw [BitVec.toInt_eq_toNat_cond] at hin ⊢
      split at hin <;> omega
    rw [registerPosition, if_neg hfar, Exec.registerPosition, if_pos hin, hsame]
    exact follows_pure id _

theorem follows_readBitAt (base : UInt32) (position : BitVec 32) :
    Follows id (readBitAt base position.toNat) (do
      let byte ← Exec.readByte (Exec.byteOfBit base position.toInt)
      return byte.toBitVec.getLsbD (Exec.placeInByte position.toInt)) := by
  refine .compute (bitAddress_eq base position) <| (follows_readByte _).bind fun byte =>
    .compute (if_pos (Exec.placeInByte_lt _)) ?_
  rw [and_one_beq]
  exact follows_pure id _

theorem follows_readBit (position : BitVec 32) (base : Location) :
    Follows id (readBit i position.toNat base) (Exec.readBit i position.toInt base) := by
  cases base with
  | register r =>
    refine (follows_registerPosition position).bind_of (fun _ _ _ => lt_of_registerPosition)
      fun p hp => (follows_getRegister r).bind fun value => .compute (if_pos hp) ?_
    rw [and_one_beq]
    exact follows_pure id _
  | memory address | value word =>
    exact (follows_addressOf _).bind fun address => follows_readBitAt address position

theorem follows_writeBitAt (base : UInt32) (position : BitVec 32) (set : Bool) :
    Follows id (writeBitAt base position.toNat set) (do
      let byte ← Exec.readByte (Exec.byteOfBit base position.toInt)
      Exec.writeByte (Exec.byteOfBit base position.toInt) (UInt8.ofBitVec
        (Exec.withBit byte.toBitVec (Exec.placeInByte position.toInt) set))) :=
  .compute (bitAddress_eq base position) <| (follows_readByte _).bind fun byte =>
    .compute (withBit_eq (Exec.placeInByte_lt _) byte.toBitVec set) <| follows_writeByte _ _

theorem follows_writeBit (position : BitVec 32) (set : Bool) (base : Location) :
    Follows id (writeBit i position.toNat set base)
      (Exec.writeBit i position.toInt set base) := by
  cases base with
  | register r =>
    exact (follows_registerPosition position).bind_of (fun _ _ _ => lt_of_registerPosition)
      fun p hp => (follows_getRegister r).bind fun value =>
        .compute (withBit_eq hp value.toBitVec set) <| follows_setRegister r _
  | memory address | value word =>
    exact (follows_addressOf _).bind fun address => follows_writeBitAt address position set

theorem follows_branchOnBit (onSet : Bool) (update : Option Bool) :
    Follows id (branchOnBit i onSet update) (Exec.branchOnBit i onSet update) := by
  refine (follows_locate3 i).bind fun _ => (follows_read .long _).bind fun position =>
    (follows_readBit position _).bind fun wasSet => ?_
  cases update with
  | some set => exact (follows_writeBit position set _).bind fun _ => follows_branchTo _ _
  | none => exact follows_branchTo _ _

/-! ## Fields -/

theorem fieldMask_eq {size : Nat} (hpos : 0 < size) (hle : size ≤ 64) :
    fieldMask size = some (2 ^ size - 1) := by
  have hsplit : 2 ^ 64 = 2 ^ size * 2 ^ (64 - size) := by
    rw [← Nat.pow_add, Nat.add_sub_cancel' hle]
  have hmask : (2 ^ 64 - 1) / 2 ^ (64 - size) = 2 ^ size - 1 := by
    have hunit : 0 < 2 ^ (64 - size) := Nat.two_pow_pos _
    have hsize : 0 < 2 ^ size := Nat.two_pow_pos _
    have hless : 2 ^ (64 - size) ≤ 2 ^ 64 := Nat.pow_le_pow_right (by decide) (by omega)
    apply Nat.div_eq_of_lt_le
    · rw [Nat.sub_one_mul, ← hsplit]
      omega
    · rw [Nat.sub_add_cancel hsize, ← hsplit]
      decide
  rw [← hmask]
  exact bind_eq_some (if_pos hle) (if_pos (by omega))

theorem fieldLength_eq {place size : Nat} (hplace : place < 8) (hsize : size ≤ 32) :
    fieldLength place size = some ((place + size + 7) / 8) :=
  bind_eq_some (if_pos (by omega)) <| bind_eq_some (if_pos (by omega)) (if_neg (by decide))

theorem and_mask (n size : Nat) : n &&& (2 ^ size - 1) = n % 2 ^ size :=
  Nat.and_two_pow_sub_one_eq_mod n size

/-- Two registers that are read one after the other. -/
theorem pair_eq {α : Type} (r : Register) (f : BitVec 64 → Exec α) :
    (get >>= fun m : Machine => f (m.registers.pair r)) = (do
      let low ← Exec.getRegister r
      let next ← Exec.getRegister (r + 1)
      f (next.toBitVec ++ low.toBitVec)) :=
  rfl

theorem follows_readField (position : BitVec 32) {size : Nat} (hsize : size ≤ 32)
    (base : Location) :
    Follows id (readField i position.toNat size base)
      (Exec.readField i position.toInt size base) := by
  rcases Nat.eq_zero_or_pos size with rfl | hpos
  · exact follows_pure id 0
  have hmask := fieldMask_eq hpos (Nat.le_trans hsize (by decide))
  refine .ite Iff.rfl (follows_pure id 0) ?_
  cases base with
  | register r =>
    refine .compute hmask <| (follows_registerPosition position).bind_of
      (fun _ _ _ => lt_of_registerPosition) fun p hp => ?_
    have hshift : p < 64 := Nat.lt_trans hp (by decide)
    rw [id, pair_eq r fun pair => pure (pair.toNat / 2 ^ p % 2 ^ size)]
    refine (follows_getRegister r).bind fun low => .compute (add_one_eq r) <|
      (follows_getRegister_succ r).bind fun next => .compute (if_pos (by decide)) <|
        .compute (if_pos hshift) ?_
    rw [id, id, and_mask, ← toNat_append]
    exact follows_pure id _
  | memory address | value word =>
    refine .compute hmask <| (follows_addressOf _).bind fun address =>
      .compute (bitAddress_eq _ _) <| .compute (fieldLength_eq (Exec.placeInByte_lt _) hsize) ?_
    have hplace := Exec.placeInByte_lt position.toInt
    refine (follows_readNat _ (by omega)).bind fun value => .compute (if_pos (by omega)) ?_
    rw [and_mask]
    exact follows_pure id _

theorem lt_of_readField {position : Int} {size : Nat} {base : Location} {m after : Machine}
    {field : Nat} (h : (Exec.readField i position size base).run m = .ok field after) :
    field < 2 ^ size := by
  have hunit : 0 < 2 ^ size := Nat.two_pow_pos size
  rcases Nat.eq_zero_or_pos size with rfl | hpos
  · obtain ⟨rfl, -⟩ := Exec.run_pure_eq_ok.1 h
    exact hunit
  unfold Exec.readField at h
  rw [if_neg (Nat.ne_of_gt hpos)] at h
  cases base
  all_goals
    obtain ⟨_, _, -, h⟩ := Exec.run_bind_eq_ok.1 h
    obtain ⟨_, _, -, h⟩ := Exec.run_bind_eq_ok.1 h
    obtain ⟨rfl, -⟩ := Exec.run_pure_eq_ok.1 h
    exact Nat.mod_lt _ hunit

theorem fieldToInt_eq {size field : Nat} (hpos : 0 < size) (hle : size ≤ 64)
    (hfield : field < 2 ^ size) :
    fieldToInt size field = some (BitVec.ofNat size field).toInt := by
  have hshift := shiftRight_shiftLeft hpos hle (BitVec.ofNat size field)
  rw [BitVec.toNat_ofNat, Nat.mod_eq_of_lt hfield] at hshift
  exact bind_eq_some (if_pos hle) hshift

theorem fieldValue_eq (isSigned : Bool) {size field : Nat} (hsize : size ≤ 32)
    (hfield : field < 2 ^ size) :
    fieldValue isSigned size field = some
      (if isSigned then (BitVec.ofNat size field).signExtend 32
        else BitVec.ofNat 32 field : BitVec 32).toNat := by
  cases isSigned with
  | false => exact truncate_eq .long field
  | true =>
    rcases Nat.eq_zero_or_pos size with rfl | hpos
    · obtain rfl : field = 0 := Nat.lt_one_iff.1 hfield
      rfl
    · rw [fieldValue, if_pos ⟨rfl, hpos⟩]
      exact bind_eq_some (fieldToInt_eq hpos (Nat.le_trans hsize (by decide)) hfield)
        (truncate_toNat .long _)

theorem follows_extractField (isSigned : Bool) :
    Follows id (extractField i isSigned) (Exec.extractField i isSigned) := by
  refine (follows_locate4 i).bind fun _ => (follows_read .long _).bind fun position =>
    (follows_read .byte _).bind fun size => ?_
  dsimp only
  by_cases hlarge : 32 < size.toNat
  · rw [if_pos hlarge, if_pos hlarge]
    exact follows_reservedOperand_bind i _ _
  · have hsize := Nat.le_of_not_lt hlarge
    rw [if_neg hlarge, if_neg hlarge]
    exact (follows_readField position hsize _).bind_of (fun _ _ _ => lt_of_readField)
      fun field hfield => .compute (fieldValue_eq isSigned hsize hfield) <|
        (follows_write .long _ _).bind fun _ => follows_setResult .long _ _ _

end Checked

end Vax
