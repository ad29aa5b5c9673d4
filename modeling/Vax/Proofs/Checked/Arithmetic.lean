import Vax.Arithmetic
import Vax.Width
/-!
# Arithmetic that can fail

Plain operators on integers of a fixed size, each of which fails where its
exact result is outside the size: a sum, difference or product that does not
fit, a zero divisor, a shift by as many bits as there are, an index past an
array.  Unsigned numbers are naturals and signed ones integers; only the
conversions `Signed.ofNat` and `Signed.toNat` wrap.

The arithmetic of the operand widths is written down with these operators in
64-bit and 128-bit numbers.  It never fails, and gives what is said of bit
vectors in `Vax.Arithmetic`.
-/

namespace Vax

namespace Checked

theorem bind_eq_some {α β : Type} {o : Option α} {f : α → Option β} {a : α} {b : β}
    (h : o = some a) (hf : f a = some b) : (o >>= f) = some b := by
  rw [h]
  exact hf

/-! ## Operators -/

def add (bits a b : Nat) : Option Nat :=
  if a + b < 2 ^ bits then some (a + b) else none

def subtract (a b : Nat) : Option Nat :=
  if b ≤ a then some (a - b) else none

def multiply (bits a b : Nat) : Option Nat :=
  if a * b < 2 ^ bits then some (a * b) else none

def divide (a b : Nat) : Option Nat :=
  if b = 0 then none else some (a / b)

def remainder (a b : Nat) : Option Nat :=
  if b = 0 then none else some (a % b)

/-- Shifts to the left.  Bits that are shifted out are lost, which is no failure. -/
def shiftLeft (bits a count : Nat) : Option Nat :=
  if count < bits then some (a * 2 ^ count % 2 ^ bits) else none

def shiftRight (bits a count : Nat) : Option Nat :=
  if count < bits then some (a / 2 ^ count) else none

/-- An index into an array. -/
def index (length i : Nat) : Option (Fin length) :=
  if h : i < length then some ⟨i, h⟩ else none

namespace Signed

/-- The same number without a sign, modulo `2 ^ bits`. -/
def toNat (bits : Nat) (n : Int) : Nat :=
  (BitVec.ofInt bits n).toNat

/-- The same bits with a sign. -/
def ofNat (bits n : Nat) : Int :=
  (BitVec.ofNat bits n).toInt

/-- A signed number, if it fits. -/
def exact (bits : Nat) (n : Int) : Option Int :=
  if -2 ^ (bits - 1) ≤ n ∧ n < 2 ^ (bits - 1) then some n else none

def negate (bits : Nat) (a : Int) : Option Int :=
  exact bits (-a)

def multiply (bits : Nat) (a b : Int) : Option Int :=
  exact bits (a * b)

def divide (bits : Nat) (a b : Int) : Option Int :=
  if b = 0 then none else exact bits (a.tdiv b)

def shiftLeft (bits : Nat) (a : Int) (count : Nat) : Option Int :=
  if count < bits then some (BitVec.ofInt bits (a * 2 ^ count)).toInt else none

/-- Shifts to the right, keeping the sign. -/
def shiftRight (bits : Nat) (a : Int) (count : Nat) : Option Int :=
  if count < bits then some (a / 2 ^ count) else none

theorem exact_eq {bits : Nat} {n : Int} (h : n.natAbs < 2 ^ (bits - 1)) :
    exact bits n = some n := by
  have hcast : ((2 ^ (bits - 1) : Nat) : Int) = 2 ^ (bits - 1) := by simp
  exact if_pos ⟨by omega, by omega⟩

/-- A left shift that loses no bit. -/
theorem shiftLeft_eq {bits : Nat} {a : Int} {count : Nat} (hcount : count < bits)
    (h : (a * 2 ^ count).natAbs < 2 ^ (bits - 1)) :
    shiftLeft bits a count = some (a * 2 ^ count) := by
  have hdouble : 2 ^ bits = 2 * 2 ^ (bits - 1) := by
    rw [← Nat.pow_succ', Nat.succ_eq_add_one, Nat.sub_add_cancel (by omega)]
  rw [shiftLeft, if_pos hcount, BitVec.toInt_ofInt, Int.bmod_eq_of_le] <;> omega

end Signed

/-! ## Widths -/

def bits (w : Width) : Option Nat :=
  multiply 32 w.size 8

def mask (w : Width) : Option Nat := do
  shiftRight 64 (2 ^ 64 - 1) (← subtract 64 (← bits w))

def truncate (w : Width) (n : Nat) : Option Nat :=
  return n &&& (← mask w)

/-- Moves the sign bit to the top and back. -/
def signExtend (w : Width) (n : Nat) : Option Int := do
  let shift ← subtract 64 (← bits w)
  Signed.shiftRight 64 (Signed.ofNat 64 (← shiftLeft 64 n shift)) shift

def isNegative (w : Width) (n : Nat) : Option Bool := do
  let sign ← shiftRight 64 n (← subtract (← bits w) 1)
  return sign &&& 1 == 1

theorem bits_eq (w : Width) : bits w = some w.bits := by
  cases w <;> rfl

theorem mask_eq (w : Width) : mask w = some w.mask := by
  cases w <;> rfl

theorem truncate_eq (w : Width) (n : Nat) : truncate w n = some (w.truncate n).toNat := by
  rw [truncate, mask_eq]
  exact congrArg some (Nat.and_two_pow_sub_one_eq_mod n w.bits)

theorem bits_le (w : Width) : w.bits ≤ 64 := by
  cases w <;> decide

/-- A number that was moved to the top of 64 bits comes back with its sign. -/
theorem shiftRight_shiftLeft {n : Nat} (hpos : 0 < n) (hle : n ≤ 64) (v : BitVec n) :
    (do Signed.shiftRight 64 (Signed.ofNat 64 (← shiftLeft 64 v.toNat (64 - n))) (64 - n)) =
      some v.toInt := by
  have hlt : v.toNat < 2 ^ n := v.isLt
  have hsplit : 2 ^ 64 = 2 ^ n * 2 ^ (64 - n) := by
    rw [← Nat.pow_add, Nat.add_sub_cancel' hle]
  have hunit : 0 < 2 ^ (64 - n) := Nat.two_pow_pos _
  have hraised : v.toNat * 2 ^ (64 - n) < 2 ^ 64 := by
    rw [hsplit]
    exact Nat.mul_lt_mul_of_pos_right hlt hunit
  have hshift : 64 - n < 64 := by omega
  have hsign : 2 * (v.toNat * 2 ^ (64 - n)) < 2 ^ 64 ↔ 2 * v.toNat < 2 ^ n := by
    rw [hsplit, ← Nat.mul_assoc]
    exact Nat.mul_lt_mul_right hunit
  have hunit' : ((2 ^ (64 - n) : Nat) : Int) ≠ 0 := by omega
  have hcast : ((2 ^ (64 - n) : Nat) : Int) = 2 ^ (64 - n) := by simp
  rw [shiftLeft, if_pos hshift, Nat.mod_eq_of_lt hraised, Option.bind_eq_bind, Option.bind_some,
    Signed.shiftRight, if_pos hshift, Signed.ofNat, BitVec.toInt_eq_toNat_cond,
    BitVec.toNat_ofNat, Nat.mod_eq_of_lt hraised, BitVec.toInt_eq_toNat_cond, ← hcast]
  simp only [hsign]
  congr 1
  split
  · rw [Int.natCast_mul, Int.mul_ediv_cancel _ hunit']
  · rw [hsplit, Int.natCast_mul, Int.natCast_mul, ← Int.sub_mul, Int.mul_ediv_cancel _ hunit']

theorem signExtend_eq (w : Width) (v : BitVec w.bits) : signExtend w v.toNat = some v.toInt :=
  bind_eq_some (bits_eq w) <| bind_eq_some (if_pos (bits_le w)) <|
    shiftRight_shiftLeft w.bits_pos (bits_le w) v

theorem and_one_beq (n place : Nat) : (n / 2 ^ place &&& 1 == 1) = n.testBit place := by
  rw [Nat.testBit_eq_decide_div_mod_eq, Nat.and_one_is_mod]
  rfl

theorem isNegative_eq (w : Width) (v : BitVec w.bits) : isNegative w v.toNat = some v.msb := by
  have hpos := w.bits_pos
  have hle := bits_le w
  have hshift : w.bits - 1 < 64 := by omega
  have hsign : (v.toNat / 2 ^ (w.bits - 1) &&& 1 == 1) = v.msb := by
    rw [and_one_beq, BitVec.msb_eq_getLsbD_last, BitVec.getLsbD]
  exact bind_eq_some (bits_eq w) <| bind_eq_some (if_pos hpos) <|
    bind_eq_some (if_pos hshift) (congrArg some hsign)

/-! ## Results -/

/-- A result in 64 bits, with its overflow and carry. -/
structure Result where
  value : Nat
  overflow : Bool
  carry : Option Bool

def Result.of {n : Nat} (result : ArithmeticResult n) : Result :=
  ⟨result.value.toNat, result.overflow, result.carry⟩

/-- The sum modulo `2 ^ 64`. -/
def wrappingAdd (a b : Nat) : Nat :=
  (a + b) % 2 ^ 64

/-- The difference modulo `2 ^ 64`. -/
def wrappingSubtract (a b : Nat) : Nat :=
  (a + (2 ^ 64 - b)) % 2 ^ 64

/-- All 64 bits the other way. -/
def invert (n : Nat) : Nat :=
  2 ^ 64 - (n + 1)

/-- The low bits of an exact value, which overflows when it does not fit. -/
def narrow (w : Width) (exact : Int) : Option Result := do
  let value ← truncate w (Signed.toNat 64 exact)
  return ⟨value, (← signExtend w value) != exact, some false⟩

def sum (w : Width) (source destination : Nat) : Option Result := do
  let value ← truncate w (wrappingAdd destination source)
  let before ← isNegative w destination
  return ⟨value, (← isNegative w source) == before && (← isNegative w value) != before,
    some (decide (value < destination))⟩

def difference (w : Width) (source destination : Nat) : Option Result := do
  let value ← truncate w (wrappingSubtract destination source)
  let before ← isNegative w destination
  return ⟨value, (← isNegative w source) != before && (← isNegative w value) != before,
    some (decide (destination < source))⟩

def product (w : Width) (source destination : Nat) : Option Result := do
  narrow w (← Signed.multiply 128 (← signExtend w destination) (← signExtend w source))

def quotient (w : Width) (source destination : Nat) : Option Result :=
  if source = 0 then some ⟨destination, true, some false⟩
  else do
    narrow w (← Signed.divide 128 (← signExtend w destination) (← signExtend w source))

def apply (operation : Arithmetic) (w : Width) (source destination : Nat) : Option Result :=
  match operation with
  | .add => sum w source destination
  | .subtract => difference w source destination
  | .multiply => product w source destination
  | .divide => quotient w source destination
  | .setBits => some ⟨destination ||| source, false, none⟩
  | .clearBits => some ⟨destination &&& invert source, false, none⟩
  | .exclusiveOr => some ⟨destination ^^^ source, false, none⟩

/-- A longword shifted by a count; more than 64 bits to the left or 63 to the
right are as good as those. -/
def shifted (count value : Int) : Option Result :=
  if 0 ≤ count then do
    narrow .long (← Signed.shiftLeft 128 value (min count 64).toNat)
  else do
    let value ← Signed.shiftRight 64 value (min (← Signed.negate 64 count) 63).toNat
    return ⟨← truncate .long (Signed.toNat 64 value), false, some false⟩

section Results

variable {w : Width} (source destination : BitVec w.bits)

theorem truncate_mod (w : Width) (n : Nat) :
    truncate w (n % 2 ^ 64) = some (BitVec.ofNat w.bits n).toNat := by
  rw [truncate_eq, Width.truncate, BitVec.toNat_ofNat, BitVec.toNat_ofNat,
    Nat.mod_mod_of_dvd n (Nat.pow_dvd_pow 2 (bits_le w))]

theorem truncate_wrappingAdd :
    truncate w (wrappingAdd destination.toNat source.toNat) =
      some (destination + source).toNat :=
  truncate_mod w _

theorem truncate_wrappingSubtract :
    truncate w (wrappingSubtract destination.toNat source.toNat) =
      some (destination - source).toNat := by
  have hlt : source.toNat < 2 ^ w.bits := source.isLt
  have hle : 2 ^ w.bits ≤ 2 ^ 64 := Nat.pow_le_pow_right (by decide) (bits_le w)
  obtain ⟨k, hk⟩ : 2 ^ w.bits ∣ 2 ^ 64 - 2 ^ w.bits :=
    Nat.dvd_sub (Nat.pow_dvd_pow 2 (bits_le w)) (Nat.dvd_refl _)
  have hsplit : destination.toNat + (2 ^ 64 - source.toNat) =
      2 ^ w.bits - source.toNat + destination.toNat + 2 ^ w.bits * k := by
    omega
  rw [wrappingSubtract, truncate_mod, BitVec.toNat_ofNat, hsplit, Nat.add_mul_mod_self_left,
    BitVec.toNat_sub]

theorem truncate_toNat (w : Width) (n : Int) :
    truncate w (Signed.toNat 64 n) = some (BitVec.ofInt w.bits n).toNat := by
  have hdvd : ((2 ^ w.bits : Nat) : Int) ∣ ((2 ^ 64 : Nat) : Int) :=
    Int.natCast_dvd_natCast.2 (Nat.pow_dvd_pow 2 (bits_le w))
  have hpos : ((2 ^ 64 : Nat) : Int) ≠ 0 := by decide
  rw [truncate_eq, Width.truncate, Signed.toNat, BitVec.toNat_ofNat, BitVec.toNat_ofInt,
    BitVec.toNat_ofInt, ← Int.toNat_natCast ((n % _).toNat % _), Int.natCast_emod,
    Int.toNat_of_nonneg (Int.emod_nonneg n hpos), Int.emod_emod_of_dvd n hdvd]

theorem narrow_eq (w : Width) (exact : Int) :
    narrow w exact = some (.of (Arithmetic.narrow w.bits exact)) :=
  bind_eq_some (truncate_toNat w exact) <| bind_eq_some (signExtend_eq w _) rfl

theorem sum_eq :
    sum w source.toNat destination.toNat = some (.of (Arithmetic.sum source destination)) :=
  bind_eq_some (truncate_wrappingAdd source destination) <|
    bind_eq_some (isNegative_eq w _) <| bind_eq_some (isNegative_eq w _) <|
      bind_eq_some (isNegative_eq w _) rfl

theorem difference_eq :
    difference w source.toNat destination.toNat =
      some (.of (Arithmetic.difference source destination)) :=
  bind_eq_some (truncate_wrappingSubtract source destination) <|
    bind_eq_some (isNegative_eq w _) <| bind_eq_some (isNegative_eq w _) <|
      bind_eq_some (isNegative_eq w _) rfl

theorem natAbs_toInt_le (v : BitVec w.bits) : v.toInt.natAbs ≤ 2 ^ 63 := by
  have hlow := BitVec.le_two_mul_toInt (x := v)
  have hhigh := BitVec.two_mul_toInt_lt (x := v)
  have hle : 2 ^ w.bits ≤ 2 ^ 64 := Nat.pow_le_pow_right (by decide) (bits_le w)
  have hcast : ((2 ^ w.bits : Nat) : Int) = 2 ^ w.bits := by simp
  omega

theorem product_eq :
    product w source.toNat destination.toNat =
      some (.of (Arithmetic.product source destination)) := by
  have hfits : (destination.toInt * source.toInt).natAbs < 2 ^ (128 - 1) := by
    rw [Int.natAbs_mul]
    exact Nat.lt_of_le_of_lt (Nat.mul_le_mul (natAbs_toInt_le _) (natAbs_toInt_le _)) (by decide)
  exact bind_eq_some (signExtend_eq w _) <| bind_eq_some (signExtend_eq w _) <|
    bind_eq_some (Signed.exact_eq hfits) (narrow_eq w _)

theorem quotient_eq :
    quotient w source.toNat destination.toNat =
      some (.of (Arithmetic.quotient source destination)) := by
  rw [quotient, Arithmetic.quotient]
  by_cases hzero : source = 0
  · rw [if_pos hzero, hzero]
    rfl
  have hnat : source.toNat ≠ 0 := fun h => hzero (BitVec.toNat_inj.1 h)
  have hint : source.toInt ≠ 0 := fun h =>
    hzero (BitVec.toInt_inj.1 (h.trans BitVec.toInt_zero.symm))
  have hfits : (destination.toInt.tdiv source.toInt).natAbs < 2 ^ (128 - 1) := by
    rw [Int.natAbs_tdiv]
    exact Nat.lt_of_le_of_lt (Nat.le_trans (Nat.div_le_self _ _) (natAbs_toInt_le _)) (by decide)
  have hdivide : Signed.divide 128 destination.toInt source.toInt =
      some (destination.toInt.tdiv source.toInt) := by
    rw [Signed.divide, if_neg hint, Signed.exact_eq hfits]
  rw [if_neg hzero, if_neg hnat]
  exact bind_eq_some (signExtend_eq w _) <| bind_eq_some (signExtend_eq w _) <|
    bind_eq_some hdivide (narrow_eq w _)

theorem and_invert : destination.toNat &&& invert source.toNat =
    (destination &&& ~~~source).toNat := by
  have hle : 2 ^ w.bits ≤ 2 ^ 64 := Nat.pow_le_pow_right (by decide) (bits_le w)
  have hsource : source.toNat < 2 ^ 64 := Nat.lt_of_lt_of_le source.isLt hle
  apply Nat.eq_of_testBit_eq
  intro i
  rw [Nat.testBit_and, invert, Nat.testBit_two_pow_sub_succ hsource,
    BitVec.testBit_toNat, BitVec.testBit_toNat, BitVec.testBit_toNat, BitVec.getLsbD_and,
    BitVec.getLsbD_not]
  by_cases hi : i < w.bits
  · rw [decide_eq_true (Nat.lt_of_lt_of_le hi (bits_le w)), decide_eq_true hi]
  · rw [BitVec.getLsbD_of_ge _ _ (Nat.le_of_not_lt hi)]
    rfl

theorem truncate_invert : truncate w (invert source.toNat) = some (~~~source).toNat := by
  have hlt : source.toNat < 2 ^ w.bits := source.isLt
  have hle : 2 ^ w.bits ≤ 2 ^ 64 := Nat.pow_le_pow_right (by decide) (bits_le w)
  obtain ⟨k, hk⟩ : 2 ^ w.bits ∣ 2 ^ 64 - 2 ^ w.bits :=
    Nat.dvd_sub (Nat.pow_dvd_pow 2 (bits_le w)) (Nat.dvd_refl _)
  have hsplit : invert source.toNat = 2 ^ w.bits - 1 - source.toNat + 2 ^ w.bits * k := by
    rw [invert]
    omega
  rw [truncate_eq, Width.truncate, BitVec.toNat_ofNat, hsplit, Nat.add_mul_mod_self_left,
    BitVec.toNat_not, Nat.mod_eq_of_lt (by omega)]

theorem apply_eq (operation : Arithmetic) :
    apply operation w source.toNat destination.toNat =
      some (.of (operation.apply source destination)) := by
  cases operation with
  | add => exact sum_eq source destination
  | subtract => exact difference_eq source destination
  | multiply => exact product_eq source destination
  | divide => exact quotient_eq source destination
  | setBits => exact congrArg some (congrArg (Result.mk · false none) (BitVec.toNat_or ..).symm)
  | clearBits => exact congrArg some (congrArg (Result.mk · false none) (and_invert _ _))
  | exclusiveOr =>
    exact congrArg some (congrArg (Result.mk · false none) (BitVec.toNat_xor ..).symm)

end Results

/-- A longword that is shifted out to the left leaves nothing. -/
theorem narrow_mul_pow {count : Nat} (hcount : 32 ≤ count) (value : Int) :
    Arithmetic.narrow 32 (value * 2 ^ count) = ⟨0, value != 0, some false⟩ := by
  have hdvd : ((2 ^ 32 : Nat) : Int) ∣ value * 2 ^ count := by
    apply Int.dvd_trans (Int.natCast_dvd_natCast.2 (Nat.pow_dvd_pow 2 hcount))
    rw [Int.natCast_pow]
    exact Int.dvd_mul_left _ _
  have hlow : BitVec.ofInt 32 (value * 2 ^ count) = 0 := by
    apply BitVec.eq_of_toNat_eq
    rw [BitVec.toNat_ofInt, Int.emod_eq_zero_of_dvd hdvd]
    rfl
  have hpow : (2 : Int) ^ count ≠ 0 := Int.pow_ne_zero (by decide)
  have hzero : (0 : BitVec 32).toInt = 0 := BitVec.toInt_zero
  have hover : ((0 : BitVec 32).toInt != value * 2 ^ count) = (value != 0) := by
    rw [hzero, Bool.eq_iff_iff, bne_iff_ne, bne_iff_ne, ne_comm, Int.mul_ne_zero_iff]
    exact and_iff_left hpow
  rw [Arithmetic.narrow, hlow]
  simp only [hover]

/-- A longword that is shifted out to the right leaves its sign. -/
theorem sshiftRight_of_le {count : Nat} (hcount : 63 ≤ count) (value : BitVec 32) :
    value.sshiftRight count = value.sshiftRight 63 := by
  apply BitVec.eq_of_getLsbD_eq
  intro i hi
  rw [BitVec.getLsbD_sshiftRight, BitVec.getLsbD_sshiftRight, if_neg (by omega), if_neg (by omega)]

theorem ofInt_shiftRight (value : BitVec 32) (count : Nat) :
    BitVec.ofInt 32 (value.toInt / 2 ^ count) = value.sshiftRight count := by
  have hfloor : (value.sshiftRight count).toInt = value.toInt / 2 ^ count := by
    rw [BitVec.toInt_sshiftRight, Int.shiftRight_eq_div_pow, Int.natCast_pow]
    rfl
  rw [← hfloor, BitVec.ofInt_toInt]

theorem shifted_eq (count : BitVec 8) (value : BitVec 32) :
    shifted count.toInt value.toInt = some (.of (Arithmetic.shifted count.toInt value)) := by
  have hcount := BitVec.two_mul_toInt_lt (x := count)
  have hcount' := BitVec.le_two_mul_toInt (x := count)
  have hvalue : value.toInt.natAbs ≤ 2 ^ 31 := by
    have hlow := BitVec.le_two_mul_toInt (x := value)
    have hhigh := BitVec.two_mul_toInt_lt (x := value)
    omega
  rw [shifted, Arithmetic.shifted]
  split
  · have hle : (min count.toInt 64).toNat ≤ 64 := by omega
    have hfits : (value.toInt * 2 ^ (min count.toInt 64).toNat).natAbs < 2 ^ (128 - 1) := by
      rw [Int.natAbs_mul, Int.natAbs_pow]
      exact Nat.lt_of_le_of_lt (Nat.mul_le_mul hvalue (Nat.pow_le_pow_right (by decide) hle))
        (by decide)
    have hclamp : Arithmetic.narrow 32 (value.toInt * 2 ^ (min count.toInt 64).toNat) =
        Arithmetic.narrow 32 (value.toInt * 2 ^ count.toInt.toNat) := by
      by_cases hlarge : count.toInt ≤ 64
      · rw [Int.min_eq_left hlarge]
      · rw [narrow_mul_pow (by omega), narrow_mul_pow (by omega)]
    rw [← hclamp]
    exact bind_eq_some (Signed.shiftLeft_eq (by omega) hfits) (narrow_eq .long _)
  · have hnegate : Signed.negate 64 count.toInt = some (-count.toInt) :=
      Signed.exact_eq (by rw [Int.natAbs_neg]; omega)
    have hlt : (min (-count.toInt) 63).toNat < 64 := by omega
    have hclamp : value.sshiftRight (min (-count.toInt) 63).toNat =
        value.sshiftRight count.toInt.natAbs := by
      by_cases hlarge : count.toInt.natAbs ≤ 63
      · congr 1
        omega
      · have hmost : (min (-count.toInt) 63).toNat = 63 := by omega
        rw [hmost, sshiftRight_of_le (Nat.le_of_not_le hlarge)]
    rw [← hclamp, ← ofInt_shiftRight]
    exact bind_eq_some hnegate <| bind_eq_some (if_pos hlt) <|
      bind_eq_some (truncate_toNat .long _) rfl

end Checked

end Vax
