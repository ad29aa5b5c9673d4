import Vax.Arithmetic
import Vax.ByteOrder
/-!
# Exact arithmetic

What an integer operation gives in unbounded arithmetic, and what of it a
result of some width and the condition codes can say.  Each operation at a
width computes its exact result in this sense.
-/

namespace Vax

/-- What an operation gives in unbounded arithmetic. -/
structure Exact where
  value : Int
  /-- The operands, taken as unsigned, carry out of their width or borrow. -/
  carry : Bool
  dividesByZero : Bool

namespace Exact

/-- The value modulo `2 ^ w`. -/
def residue (w : Nat) (x : Exact) : Nat :=
  (x.value % 2 ^ w).toNat

/-- The value lies outside the signed range, or there is none. -/
def overflows (w : Nat) (x : Exact) : Bool :=
  x.value < -2 ^ (w - 1) || 2 ^ (w - 1) ≤ x.value || x.dividesByZero

/-- The condition codes that say so. -/
def flags (w : Nat) (x : Exact) : Flags :=
  ⟨2 ^ (w - 1) ≤ x.residue w, x.residue w == 0, x.overflows w, x.carry⟩

end Exact

/-- The actions that compute with signed values. -/
def Action.isExact : Action → Bool
  | .arithmetic .add | .arithmetic .subtract | .arithmetic .multiply | .arithmetic .divide => true
  | .increment | .decrement | .negate | .convert | .shift => true
  | _ => false

/-- The exact result of an action whose operands have these signed values.
Where carries count, all operands have the width `w`. -/
def Action.exactResult? (w : Nat) : Action → List Int → Option Exact
  | .arithmetic .add, [source, value] =>
    some ⟨value + source, 2 ^ w ≤ value % 2 ^ w + source % 2 ^ w, false⟩
  | .arithmetic .subtract, [source, value] =>
    some ⟨value - source, value % 2 ^ w < source % 2 ^ w, false⟩
  | .arithmetic .multiply, [source, value] => some ⟨value * source, false, false⟩
  | .arithmetic .divide, [source, value] =>
    some (if source = 0 then ⟨value, false, true⟩ else ⟨value.tdiv source, false, false⟩)
  | .increment, [value] => some ⟨value + 1, 2 ^ w ≤ value % 2 ^ w + 1, false⟩
  | .decrement, [value] => some ⟨value - 1, value % 2 ^ w < 1, false⟩
  | .negate, [value] => some ⟨0 - value, 0 < value % 2 ^ w, false⟩
  | .convert, [value] => some ⟨value, false, false⟩
  | .shift, [count, value] =>
    some ⟨value * 2 ^ count.toNat / 2 ^ (-count).toNat, false, false⟩
  | _, _ => none

/-- The result is the exact one as far as its width reaches, and says how far
that is. -/
structure ArithmeticResult.Computes {w : Nat} (result : ArithmeticResult w) (x : Exact) : Prop where
  value : result.value = BitVec.ofInt w x.value
  overflow : result.overflow = x.overflows w
  carry : result.carry = some x.carry

namespace ArithmeticResult

variable {w : Nat} {result other : ArithmeticResult w} {x : Exact}

theorem Computes.toNat_eq (h : result.Computes x) : result.value.toNat = x.residue w := by
  rw [h.value, BitVec.toNat_ofInt, Exact.residue]
  congr 2

theorem Computes.flags_eq (h : result.Computes x) (old : Flags) :
    old.ofResult result.value result.overflow result.carry = x.flags w := by
  have hzero : (result.value == 0) = (x.residue w == 0) := by
    rw [← h.toNat_eq, Bool.eq_iff_iff, beq_iff_eq, beq_iff_eq, ← BitVec.toNat_inj]
    rfl
  rw [Flags.ofResult, BitVec.msb_eq_decide, h.toNat_eq, hzero, h.overflow, h.carry]
  rfl

theorem Computes.eq (h : result.Computes x) (h' : other.Computes x) : result = other := by
  cases result
  cases other
  rw [mk.injEq]
  exact ⟨h.value.trans h'.value.symm, h.overflow.trans h'.overflow.symm,
    h.carry.trans h'.carry.symm⟩

/-- A result that lost no more than one bit has the sign of the exact one or
overflows. -/
theorem Computes.sign (hw : 0 < w) (h : result.Computes x) (hdivides : x.dividesByZero = false)
    (hlow : -2 ^ w ≤ x.value) (hhigh : x.value < 2 ^ w) :
    (result.value.msb ^^ result.overflow) = decide (x.value < 0) := by
  have hpow : (2 : Int) ^ w = 2 * 2 ^ (w - 1) := by
    rw [← Int.pow_succ', Nat.sub_add_cancel hw]
  have hhalf : ((2 ^ (w - 1) : Nat) : Int) = 2 ^ (w - 1) := Int.natCast_pow 2 _
  rw [BitVec.msb_eq_decide, h.toNat_eq, h.overflow, Exact.overflows, hdivides, Exact.residue,
    Bool.or_false]
  by_cases hnegative : x.value < 0
  · have hresidue : x.value % 2 ^ w = x.value + 2 ^ w := by
      rw [← Int.add_emod_right, Int.emod_eq_of_lt (by omega) (by omega)]
    have hsign : 2 ^ (w - 1) ≤ (x.value + 2 ^ w).toNat ↔ ¬ x.value < -2 ^ (w - 1) := by omega
    have hsmall : ¬ 2 ^ (w - 1) ≤ x.value := by omega
    rw [hresidue, decide_eq_decide.2 hsign, decide_eq_false hsmall, decide_eq_true hnegative,
      decide_not]
    cases decide (x.value < -2 ^ (w - 1)) <;> rfl
  · have hresidue : x.value % 2 ^ w = x.value := Int.emod_eq_of_lt (by omega) hhigh
    have hsign : 2 ^ (w - 1) ≤ x.value.toNat ↔ 2 ^ (w - 1) ≤ x.value := by omega
    have hlarge : ¬ x.value < -2 ^ (w - 1) := by omega
    rw [hresidue, decide_eq_decide.2 hsign, decide_eq_false hlarge, decide_eq_false hnegative]
    cases decide (2 ^ (w - 1) ≤ x.value) <;> rfl

end ArithmeticResult

namespace Arithmetic

open ArithmeticResult

variable {w : Nat}

/-- An unsigned value is the residue of the signed one. -/
theorem toInt_emod (a : BitVec w) : a.toInt % 2 ^ w = a.toNat := by
  have hpow : (2 : Int) ^ w = ((2 ^ w : Nat) : Int) := (Int.natCast_pow 2 w).symm
  rw [hpow, BitVec.toInt_eq_toNat_bmod, Int.bmod_emod, ← Int.natCast_emod,
    Nat.mod_eq_of_lt a.isLt]

theorem pow_eq_natCast (n : Nat) : (2 : Int) ^ n = ((2 ^ n : Nat) : Int) :=
  (Int.natCast_pow 2 n).symm

/-! ## Results that are cut to a width -/

/-- A value is kept by a width exactly if it lies in its signed range. -/
theorem toInt_ofInt_bne (hw : 0 < w) (n : Int) :
    ((BitVec.ofInt w n).toInt != n) = (decide (n < -2 ^ (w - 1)) || decide (2 ^ (w - 1) ≤ n)) := by
  rw [Bool.eq_iff_iff, bne_iff_ne, Bool.or_eq_true, decide_eq_true_iff, decide_eq_true_iff]
  constructor
  · intro hne
    refine Decidable.byContradiction fun hrange => hne ?_
    exact BitVec.toInt_ofInt_eq_self hw (by omega) (by omega)
  · intro hrange heq
    have hlow := (BitVec.ofInt w n).le_toInt
    have hhigh := (BitVec.ofInt w n).toInt_lt
    omega

theorem narrow_computes (hw : 0 < w) (n : Int) : (narrow w n).Computes ⟨n, false, false⟩ where
  value := rfl
  overflow := by
    rw [Exact.overflows, Bool.or_false]
    exact toInt_ofInt_bne hw n
  carry := rfl

theorem product_computes (hw : 0 < w) (source value : BitVec w) :
    (product source value).Computes ⟨value.toInt * source.toInt, false, false⟩ :=
  narrow_computes hw _

theorem quotient_computes (hw : 0 < w) (source value : BitVec w) :
    (quotient source value).Computes
      (if source.toInt = 0 then ⟨value.toInt, false, true⟩
        else ⟨value.toInt.tdiv source.toInt, false, false⟩) := by
  have hzero : source.toInt = 0 ↔ source = 0 := by
    rw [← BitVec.toInt_inj]
    simp
  unfold quotient
  by_cases h : source = 0
  · rw [if_pos h, if_pos (hzero.2 h)]
    exact ⟨BitVec.ofInt_toInt.symm, by simp [Exact.overflows], rfl⟩
  · rw [if_neg h, if_neg fun h' => h (hzero.1 h')]
    exact narrow_computes hw _

/-! ## Sums and differences -/

theorem sum_computes (source value : BitVec w) :
    (sum source value).Computes
      ⟨value.toInt + source.toInt, 2 ^ w ≤ value.toInt % 2 ^ w + source.toInt % 2 ^ w, false⟩ where
  value := by
    rw [BitVec.ofInt_add, BitVec.ofInt_toInt, BitVec.ofInt_toInt]
    rfl
  overflow := by
    have hoverflow := BitVec.saddOverflow_eq value source
    rw [BitVec.saddOverflow] at hoverflow
    change (source.msb == value.msb && (value + source).msb != value.msb) = _
    rw [Exact.overflows, Bool.or_false, Bool.or_comm, bne, Bool.beq_comm (a := source.msb)]
    exact hoverflow.symm
  carry := by
    change some ((value + source).ult value) = _
    have hvalue := value.isLt
    have hsource := source.isLt
    rw [toInt_emod, toInt_emod, BitVec.ult, BitVec.toNat_add, Option.some_inj, decide_eq_decide,
      pow_eq_natCast]
    by_cases hcarry : value.toNat + source.toNat < 2 ^ w
    · rw [Nat.mod_eq_of_lt hcarry]
      omega
    · rw [Nat.mod_eq_sub_mod (Nat.le_of_not_lt hcarry), Nat.mod_eq_of_lt (by omega)]
      omega

theorem difference_computes (source value : BitVec w) :
    (difference source value).Computes
      ⟨value.toInt - source.toInt, value.toInt % 2 ^ w < source.toInt % 2 ^ w, false⟩ where
  value := by
    rw [Int.sub_eq_add_neg, BitVec.ofInt_add, BitVec.ofInt_neg, BitVec.ofInt_toInt,
      BitVec.ofInt_toInt, ← BitVec.sub_eq_add_neg]
    rfl
  overflow := by
    have hoverflow := BitVec.ssubOverflow_eq value source
    rw [BitVec.ssubOverflow] at hoverflow
    change (source.msb != value.msb && (value - source).msb != value.msb) = _
    rw [Exact.overflows, Bool.or_false, Bool.or_comm]
    refine Eq.trans ?_ hoverflow.symm
    cases value.msb <;> cases source.msb <;> simp
  carry := by
    change some (value.ult source) = _
    rw [toInt_emod, toInt_emod, BitVec.ult, Option.some_inj, decide_eq_decide, Int.ofNat_lt]

/-- The operations on the signed values, as against those bit by bit. -/
theorem apply_computes (hw : 0 < w) {operation : Arithmetic} (source value : BitVec w)
    (hexact : (Action.arithmetic operation).isExact = true) :
    ∃ exact, (Action.arithmetic operation).exactResult? w [source.toInt, value.toInt] = some exact ∧
      (operation.apply source value).Computes exact := by
  cases operation with
  | add => exact ⟨_, rfl, sum_computes source value⟩
  | subtract => exact ⟨_, rfl, difference_computes source value⟩
  | multiply => exact ⟨_, rfl, product_computes hw source value⟩
  | divide => exact ⟨_, rfl, quotient_computes hw source value⟩
  | setBits | clearBits | exclusiveOr => exact absurd hexact Bool.false_ne_true

/-! ## One more, one less, and the negation -/

theorem toInt_one (hw : 1 < w) : (1 : BitVec w).toInt = 1 :=
  BitVec.toInt_one hw

theorem msb_one (hw : 1 < w) : (1 : BitVec w).msb = false :=
  BitVec.msb_one.trans (decide_eq_false (by omega))

theorem increment_computes (hw : 1 < w) (value : BitVec w) :
    (⟨value + 1, !value.msb && (value + 1).msb, some (value + 1 == 0)⟩ :
      ArithmeticResult w).Computes ⟨value.toInt + 1, 2 ^ w ≤ value.toInt % 2 ^ w + 1, false⟩ where
  value := by
    have hvalue := (sum_computes 1 value).value
    rw [toInt_one hw] at hvalue
    exact hvalue
  overflow := by
    have hoverflow := (sum_computes 1 value).overflow
    rw [toInt_one hw] at hoverflow
    refine Eq.trans ?_ hoverflow
    change _ = ((1 : BitVec w).msb == value.msb && (value + 1).msb != value.msb)
    rw [msb_one hw]
    cases value.msb <;> simp
  carry := by
    have hvalue := value.isLt
    have hone : (1 : BitVec w).toNat = 1 := Nat.mod_eq_of_lt (Nat.one_lt_two_pow (by omega))
    rw [toInt_emod, Option.some_inj, Bool.eq_iff_iff, beq_iff_eq, decide_eq_true_iff,
      ← BitVec.toNat_inj, BitVec.toNat_add, hone, pow_eq_natCast]
    change (value.toNat + 1) % 2 ^ w = 0 % 2 ^ w ↔ _
    by_cases hcarry : value.toNat + 1 < 2 ^ w
    · rw [Nat.mod_eq_of_lt hcarry, Nat.zero_mod]
      omega
    · have hall : value.toNat + 1 = 2 ^ w := by omega
      rw [hall, Nat.mod_self, Nat.zero_mod]
      omega

theorem decrement_computes (hw : 1 < w) (value : BitVec w) :
    (⟨value - 1, value.msb && !(value - 1).msb, some (value == 0)⟩ :
      ArithmeticResult w).Computes ⟨value.toInt - 1, value.toInt % 2 ^ w < 1, false⟩ where
  value := by
    have hvalue := (difference_computes 1 value).value
    rw [toInt_one hw] at hvalue
    exact hvalue
  overflow := by
    have hoverflow := (difference_computes 1 value).overflow
    rw [toInt_one hw] at hoverflow
    refine Eq.trans ?_ hoverflow
    change _ = ((1 : BitVec w).msb != value.msb && (value - 1).msb != value.msb)
    rw [msb_one hw]
    cases value.msb <;> simp
  carry := by
    rw [toInt_emod, Option.some_inj, Bool.eq_iff_iff, beq_iff_eq, decide_eq_true_iff,
      ← BitVec.toNat_inj]
    change value.toNat = 0 % 2 ^ w ↔ _
    rw [Nat.zero_mod]
    omega

/-- Only the least value is, other than zero, its own negation. -/
theorem negate_overflows (hw : 0 < w) (value : BitVec w) :
    (value != 0 && value == -value) =
      (decide (0 - value.toInt < -2 ^ (w - 1)) || decide (2 ^ (w - 1) ≤ 0 - value.toInt)) := by
  have hvalue := value.isLt
  have hpow : 2 ^ w = 2 * 2 ^ (w - 1) := by
    rw [← Nat.pow_succ', Nat.succ_eq_add_one, Nat.sub_add_cancel hw]
  rw [Bool.eq_iff_iff, Bool.and_eq_true, Bool.or_eq_true, bne_iff_ne, beq_iff_eq,
    decide_eq_true_iff, decide_eq_true_iff, pow_eq_natCast, Ne, ← BitVec.toNat_inj,
    ← BitVec.toNat_inj, BitVec.toInt_eq_toNat_cond, BitVec.toNat_neg]
  change ¬ value.toNat = 0 % 2 ^ w ∧ _ ↔ _
  rw [Nat.zero_mod]
  by_cases hzero : value.toNat = 0
  · rw [hzero, if_pos (by omega)]
    omega
  · rw [Nat.mod_eq_of_lt (by omega)]
    split <;> omega

theorem negate_computes (hw : 0 < w) (value : BitVec w) :
    (⟨-value, value != 0 && value == -value, some (-value != 0)⟩ :
      ArithmeticResult w).Computes ⟨0 - value.toInt, 0 < value.toInt % 2 ^ w, false⟩ where
  value := by
    rw [Int.zero_sub, BitVec.ofInt_neg, BitVec.ofInt_toInt]
  overflow := by
    rw [Exact.overflows, Bool.or_false]
    exact negate_overflows hw value
  carry := by
    have hneg : -value = 0 ↔ value = 0 := BitVec.neg_eq_zero_iff
    rw [toInt_emod, Option.some_inj, Bool.eq_iff_iff, bne_iff_ne, decide_eq_true_iff, Ne, hneg,
      ← BitVec.toNat_inj]
    change ¬ value.toNat = 0 % 2 ^ w ↔ _
    rw [Nat.zero_mod]
    omega

/-! ## Shifts -/

theorem shifted_computes (count : Int) (value : BitVec 32) :
    (shifted count value).Computes
      ⟨value.toInt * 2 ^ count.toNat / 2 ^ (-count).toNat, false, false⟩ := by
  unfold shifted
  by_cases hleft : 0 ≤ count
  · have hright : (-count).toNat = 0 := by omega
    rw [if_pos hleft, hright, Int.pow_zero, Int.ediv_one]
    exact narrow_computes (by decide) _
  · have hnone : count.toNat = 0 := by omega
    have hdistance : (-count).toNat = count.natAbs := by omega
    rw [if_neg hleft, hnone, hdistance, Int.pow_zero, Int.mul_one]
    have hshift : (value.sshiftRight count.natAbs).toInt = value.toInt / 2 ^ count.natAbs := by
      rw [BitVec.toInt_sshiftRight, Int.shiftRight_eq_div_pow, Int.natCast_pow]
      rfl
    refine ⟨?_, ?_, rfl⟩
    · rw [← hshift, BitVec.ofInt_toInt]
    · have hlow := (value.sshiftRight count.natAbs).le_toInt
      have hhigh := (value.sshiftRight count.natAbs).toInt_lt
      rw [hshift] at hlow hhigh
      simp only [Exact.overflows, Bool.or_false, eq_comm (a := false), Bool.or_eq_false_iff,
        decide_eq_false_iff_not]
      omega

end Arithmetic

end Vax
