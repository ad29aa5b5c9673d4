import Mathlib.Data.List.Basic
import Vax.Text.Number
/-!
# Hexadecimal digits are unique

Two numbers with the same digits are equal, and so are the numbers on both
sides of a minus sign, because no digit is one.
-/

namespace Vax.Text

theorem digitChar_inj : ∀ a < 16, ∀ b < 16, Nat.digitChar a = Nat.digitChar b → a = b := by
  decide

theorem toDigits_inj {a b : Nat} (h : Nat.toDigits 16 a = Nat.toDigits 16 b) : a = b := by
  induction a using Nat.strongRecOn generalizing b with
  | ind a ih =>
      rw [Nat.toDigits_eq_if (by decide), Nat.toDigits_eq_if (n := b) (by decide)] at h
      by_cases ha : a < 16
      · by_cases hb : b < 16
        · rw [if_pos ha, if_pos hb] at h
          exact digitChar_inj a ha b hb (List.cons.inj h).1
        · rw [if_pos ha, if_neg hb] at h
          have hlength := congrArg List.length h
          have hpos := Nat.length_toDigits_pos (b := 16) (n := b / 16)
          simp only [List.length_append, List.length_cons, List.length_nil] at hlength
          omega
      · by_cases hb : b < 16
        · rw [if_neg ha, if_pos hb] at h
          have hlength := congrArg List.length h
          have hpos := Nat.length_toDigits_pos (b := 16) (n := a / 16)
          simp only [List.length_append, List.length_cons, List.length_nil] at hlength
          omega
        · rw [if_neg ha, if_neg hb] at h
          obtain ⟨hhigh, hlow⟩ := List.append_inj' h rfl
          have hquotient := ih (a / 16) (by omega) hhigh
          have hremainder := digitChar_inj _ (Nat.mod_lt a (by decide)) _
            (Nat.mod_lt b (by decide)) (List.cons.inj hlow).1
          omega

theorem marked_inj {a b : Nat} (h : marked a = marked b) : a = b := by
  have hdigits := (String.append_right_inj "0x").1 h
  exact toDigits_inj (String.ofList_inj.1 hdigits)

/-! ## Differences -/

theorem digitChar_ne_minus : ∀ a < 16, Nat.digitChar a ≠ '-' := by
  decide

theorem minus_notMem_toDigits (n : Nat) : '-' ∉ Nat.toDigits 16 n := by
  induction n using Nat.strongRecOn with
  | ind n ih =>
      rw [Nat.toDigits_eq_if (by decide)]
      by_cases hn : n < 16
      · rw [if_pos hn, List.mem_singleton]
        exact (digitChar_ne_minus n hn).symm
      · rw [if_neg hn, List.mem_append, List.mem_singleton]
        rintro (hhigh | hlow)
        · exact ih (n / 16) (by omega) hhigh
        · exact digitChar_ne_minus _ (Nat.mod_lt n (by decide)) hlow.symm

theorem minus_notMem_marked (n : Nat) : '-' ∉ (marked n).toList := by
  rw [marked, String.toList_append, List.mem_append]
  rintro (hradix | hdigit)
  · exact absurd hradix (by decide +kernel)
  · rw [hex, String.toList_ofList] at hdigit
    exact minus_notMem_toDigits n hdigit

theorem minus_notMem_decimal : ∀ n < 10, '-' ∉ (toString n).toList := by
  decide +kernel

theorem minus_notMem_unsigned (n : Nat) : '-' ∉ (unsigned n).toList := by
  unfold unsigned
  split
  · next hn => exact minus_notMem_decimal n hn
  · exact minus_notMem_marked n

theorem minus_mem (left right : String) : '-' ∈ (left ++ "-" ++ right).toList := by
  rw [String.toList_append, String.toList_append]
  exact List.mem_append_left _ (List.mem_append_right _ (by decide +kernel))

theorem marked_minus_inj {a b c d : Nat}
    (h : marked a ++ "-" ++ marked b = marked c ++ "-" ++ marked d) : a = c ∧ b = d := by
  have hlist := congrArg String.toList h
  simp only [String.toList_append, List.append_assoc] at hlist
  obtain ⟨hleft, -, hright⟩ := (List.append_cons_inj_of_notMem (minus_notMem_marked a)
    (minus_notMem_marked b)).1 hlist
  exact ⟨marked_inj (String.toList_inj.1 hleft), marked_inj (String.toList_inj.1 hright)⟩

end Vax.Text
