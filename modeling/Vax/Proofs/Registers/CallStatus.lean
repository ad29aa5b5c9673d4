import Vax.Registers.CallStatus
/-!
# Fields of the call status

A field that was set holds the low bits of what it was set to, and no other
field has changed.
-/

namespace Vax.CallStatus

/-! ## Fields of numbers -/

theorem replace_eq (w value low width : Nat) :
    w - w / 2 ^ low % 2 ^ width * 2 ^ low + value * 2 ^ low =
      2 ^ low * (2 ^ width * (w / 2 ^ low / 2 ^ width) + value) + w % 2 ^ low := by
  have hlow := Nat.div_add_mod w (2 ^ low)
  have hwidth := Nat.div_add_mod (w / 2 ^ low) (2 ^ width)
  have hsplit : w = 2 ^ low * (2 ^ width * (w / 2 ^ low / 2 ^ width)) +
      w / 2 ^ low % 2 ^ width * 2 ^ low + w % 2 ^ low := by
    calc w = 2 ^ low * (w / 2 ^ low) + w % 2 ^ low := hlow.symm
      _ = 2 ^ low * (2 ^ width * (w / 2 ^ low / 2 ^ width) + w / 2 ^ low % 2 ^ width) +
            w % 2 ^ low := by rw [hwidth]
      _ = _ := by rw [Nat.mul_add, Nat.mul_comm (2 ^ low) (w / 2 ^ low % 2 ^ width)]
  rw [Nat.mul_add, Nat.mul_comm (2 ^ low) value]
  generalize 2 ^ low * (2 ^ width * (w / 2 ^ low / 2 ^ width)) = high at hsplit ⊢
  omega

theorem toNat_setField (s : CallStatus) {low width : Nat} (value : Nat)
    (hfits : low + width ≤ 32) :
    (s.setField low width value).word.toNat =
      2 ^ low * (2 ^ width * (s.word.toNat / 2 ^ low / 2 ^ width) + value % 2 ^ width) +
        s.word.toNat % 2 ^ low := by
  rw [setField, field, replace_eq, UInt32.toNat_ofNat', Nat.mod_eq_of_lt]
  have hword := s.word.toNat_lt
  have hlow : s.word.toNat % 2 ^ low < 2 ^ low := Nat.mod_lt _ (Nat.two_pow_pos low)
  have hvalue : value % 2 ^ width < 2 ^ width := Nat.mod_lt _ (Nat.two_pow_pos width)
  have hhigh : s.word.toNat / 2 ^ low / 2 ^ width < 2 ^ (32 - low - width) := by
    rw [Nat.div_div_eq_div_mul, ← Nat.pow_add]
    apply Nat.div_lt_of_lt_mul
    rw [← Nat.pow_add]
    exact Nat.lt_of_lt_of_eq hword (by congr 1; omega)
  have hfield : 2 ^ width * (s.word.toNat / 2 ^ low / 2 ^ width) + value % 2 ^ width <
      2 ^ width * 2 ^ (32 - low - width) := by
    calc _ < 2 ^ width * (s.word.toNat / 2 ^ low / 2 ^ width) + 2 ^ width := by omega
      _ = 2 ^ width * (s.word.toNat / 2 ^ low / 2 ^ width + 1) := by rw [Nat.mul_succ]
      _ ≤ 2 ^ width * 2 ^ (32 - low - width) := Nat.mul_le_mul_left _ hhigh
  have hpow : 2 ^ low * (2 ^ width * 2 ^ (32 - low - width)) = 2 ^ 32 := by
    rw [← Nat.pow_add, ← Nat.pow_add]
    congr 1
    omega
  rw [← hpow]
  calc _ < 2 ^ low * (2 ^ width * (s.word.toNat / 2 ^ low / 2 ^ width) + value % 2 ^ width) +
          2 ^ low := by omega
    _ = 2 ^ low * (2 ^ width * (s.word.toNat / 2 ^ low / 2 ^ width) + value % 2 ^ width + 1) := by
        rw [Nat.mul_succ]
    _ ≤ 2 ^ low * (2 ^ width * 2 ^ (32 - low - width)) := Nat.mul_le_mul_left _ hfield

/-! ## Fields that were set -/

theorem field_setField (s : CallStatus) {low width : Nat} (value : Nat)
    (hfits : low + width ≤ 32) :
    (s.setField low width value).field low width = value % 2 ^ width := by
  have hlow : s.word.toNat % 2 ^ low < 2 ^ low := Nat.mod_lt _ (Nat.two_pow_pos low)
  rw [field, toNat_setField s value hfits, Nat.mul_add_div (Nat.two_pow_pos low),
    Nat.div_eq_of_lt hlow, Nat.add_zero, Nat.mul_add_mod, Nat.mod_mod]

theorem field_setField_of_le (s : CallStatus) {low width low' width' : Nat} (value : Nat)
    (hfits : low + width ≤ 32) (hle : low + width ≤ low') :
    (s.setField low width value).field low' width' = s.field low' width' := by
  obtain ⟨gap, rfl⟩ := Nat.exists_eq_add_of_le hle
  have hlow : s.word.toNat % 2 ^ low < 2 ^ low := Nat.mod_lt _ (Nat.two_pow_pos low)
  have hvalue : value % 2 ^ width < 2 ^ width := Nat.mod_lt _ (Nat.two_pow_pos width)
  have hquotient : ∀ n, n / 2 ^ (low + width + gap) = n / 2 ^ low / 2 ^ width / 2 ^ gap := by
    intro n
    rw [Nat.div_div_eq_div_mul, Nat.div_div_eq_div_mul, Nat.pow_add, Nat.pow_add, Nat.mul_assoc]
  rw [field, field, toNat_setField s value hfits, hquotient, hquotient,
    Nat.mul_add_div (Nat.two_pow_pos low), Nat.div_eq_of_lt hlow, Nat.add_zero,
    Nat.mul_add_div (Nat.two_pow_pos width), Nat.div_eq_of_lt hvalue, Nat.add_zero]

theorem field_setField_of_ge (s : CallStatus) {low width low' width' : Nat} (value : Nat)
    (hfits : low + width ≤ 32) (hle : low' + width' ≤ low) :
    (s.setField low width value).field low' width' = s.field low' width' := by
  have hdvd : 2 ^ low' * 2 ^ width' ∣ 2 ^ low := by
    rw [← Nat.pow_add]
    exact Nat.pow_dvd_pow 2 hle
  have hmod : ∀ high, (2 ^ low * high + s.word.toNat % 2 ^ low) % (2 ^ low' * 2 ^ width') =
      s.word.toNat % (2 ^ low' * 2 ^ width') := by
    intro high
    rw [Nat.add_mod, Nat.mod_eq_zero_of_dvd (Nat.dvd_trans hdvd (Nat.dvd_mul_right _ _)),
      Nat.zero_add, Nat.mod_mod, Nat.mod_mod_of_dvd _ hdvd]
  rw [field, field, toNat_setField s value hfits, ← Nat.mod_mul_right_div_self, hmod,
    Nat.mod_mul_right_div_self]

end Vax.CallStatus
