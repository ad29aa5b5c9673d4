import Vax.CommandLine.Options
import Vax.Text.Number
/-!
# Numbers with a fixed count of digits

An address is written in eight hexadecimal digits and a byte in two.  The
digits are those of the number from the highest place down, none of them ends
a line, and reading them as the command line reads a size gives the number.
-/

namespace Vax.Text

/-- The last `width` hexadecimal digits of `n`. -/
def hexDigits : Nat → Nat → List Char
  | 0, _ => []
  | width + 1, n => hexDigits width (n / 16) ++ [Nat.digitChar (n % 16)]

@[simp] theorem length_hexDigits (width n : Nat) : (hexDigits width n).length = width := by
  induction width generalizing n with
  | zero => rfl
  | succ width ih => rw [hexDigits, List.length_append, ih, List.length_singleton]

theorem hexDigits_zero (width : Nat) : hexDigits width 0 = List.replicate width '0' := by
  induction width with
  | zero => rfl
  | succ width ih => rw [hexDigits, Nat.zero_div, ih, List.replicate_succ']; rfl

theorem hexDigits_two (n : Nat) :
    hexDigits 2 n = [Nat.digitChar (n / 16 % 16), Nat.digitChar (n % 16)] :=
  rfl

/-! ## Writing -/

/-- Padding leaves the last digit where it is. -/
theorem leftpad_concat (width : Nat) (fill : Char) (digits : List Char) (last : Char) :
    (digits ++ [last]).leftpad (width + 1) fill = digits.leftpad width fill ++ [last] := by
  simp [List.leftpad]

/-- A number that fits is written with all its digits, behind zeros. -/
theorem toList_hexPadded {width n : Nat} (hwidth : 0 < width) (hn : n < 16 ^ width) :
    (hexPadded width n).toList = hexDigits width n := by
  rw [hexPadded, String.toList_ofList]
  induction width generalizing n with
  | zero => exact absurd hwidth (Nat.lt_irrefl 0)
  | succ width ih =>
    rw [Nat.toDigits_eq_if (by decide), hexDigits]
    -- A single digit stands behind zeros only; else the last digit comes off both sides.
    by_cases hdigit : n < 16
    · rw [if_pos hdigit, Nat.div_eq_of_lt hdigit, Nat.mod_eq_of_lt hdigit, hexDigits_zero]
      rfl
    · have hlt : n / 16 < 16 ^ width := Nat.div_lt_of_lt_mul (by rwa [← Nat.pow_succ'])
      have hpos : 0 < width :=
        Nat.pos_of_ne_zero fun hzero => hdigit (by simpa [hzero] using hn)
      rw [if_neg hdigit, leftpad_concat, ih hpos hlt]

theorem toList_hexByte (byte : UInt8) : (hexByte byte).toList = hexDigits 2 byte.toNat :=
  toList_hexPadded (by decide) byte.toNat_lt

theorem toList_hexLong (word : UInt32) : (hexLong word).toList = hexDigits 8 word.toNat :=
  toList_hexPadded (by decide) word.toNat_lt

/-! ## Reading -/

theorem digitValue?_digitChar :
    ∀ d < 16, Options.digitValue? 16 (Nat.digitChar d) = some d := by
  decide

theorem digitsValue?_hexDigits {width n : Nat} (hn : n < 16 ^ width) :
    Options.digitsValue? 16 (hexDigits width n) = some n := by
  induction width generalizing n with
  | zero =>
    rw [Nat.lt_one_iff.1 hn]
    rfl
  | succ width ih =>
    have hhigh : Options.digitsValue? 16 (hexDigits width (n / 16)) = some (n / 16) :=
      ih (Nat.div_lt_of_lt_mul (by rwa [← Nat.pow_succ']))
    have hlow := digitValue?_digitChar (n % 16) (Nat.mod_lt n (by decide))
    rw [Options.digitsValue?] at hhigh ⊢
    rw [hexDigits, List.foldlM_append, hhigh]
    simp [hlow, Nat.div_add_mod']

/-! ## Line ends -/

theorem digitChar_ne_newline : ∀ d < 16, Nat.digitChar d ≠ '\n' := by
  decide

theorem newline_notMem_hexDigits (width n : Nat) : '\n' ∉ hexDigits width n := by
  induction width generalizing n with
  | zero => exact List.not_mem_nil
  | succ width ih =>
    rw [hexDigits, List.mem_append, List.mem_singleton]
    rintro (hhigh | hlow)
    · exact ih (n / 16) hhigh
    · exact digitChar_ne_newline _ (Nat.mod_lt n (by decide)) hlow.symm

end Vax.Text
