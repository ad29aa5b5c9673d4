import Vax.Machine.PackedDecimal
import Vax.Proofs.PackedDecimal.Digits
/-!
# What a packed decimal string says

The halves of a string's bytes are its digits, the most significant first, and
the sign.  Strings of an even number of digits have an unused half in front.
-/

namespace Vax

namespace Packed

/-! ## Halves -/

/-- The halves of the bytes, the high half of each first. -/
def halves (bytes : List UInt8) : List UInt8 :=
  bytes.flatMap fun byte => [byte / 16, byte % 16]

@[simp] theorem halves_cons (byte : UInt8) (bytes : List UInt8) :
    halves (byte :: bytes) = byte / 16 :: byte % 16 :: halves bytes := rfl

@[simp] theorem length_halves (bytes : List UInt8) :
    (halves bytes).length = 2 * bytes.length := by
  induction bytes with
  | nil => rfl
  | cons byte rest ih =>
      rw [halves_cons, List.length_cons, List.length_cons, List.length_cons, ih]
      omega

theorem getElem?_halves (bytes : List UInt8) (j : Nat) :
    (halves bytes)[j]? =
      bytes[j / 2]?.map fun byte => if j % 2 = 0 then byte / 16 else byte % 16 := by
  induction bytes generalizing j with
  | nil => rfl
  | cons byte rest ih =>
      rcases j with _ | _ | j
      · rfl
      · rfl
      · have hhalf : (j + 2) / 2 = j / 2 + 1 := Nat.add_div_right j (by decide)
        have hparity : (j + 2) % 2 = j % 2 := Nat.add_mod_right j 2
        rw [halves_cons, List.getElem?_cons_succ, List.getElem?_cons_succ, ih, hhalf, hparity,
          List.getElem?_cons_succ]

/-- How many halves of a string stand in front of its digits. -/
def unused (length : Nat) : Nat :=
  (length + 1) % 2

/-- The digits of a string of `length` digits that has these bytes. -/
def digits (length : Nat) (bytes : List UInt8) : List UInt8 :=
  ((halves bytes).drop (unused length)).take length

theorem length_digits {length : Nat} {bytes : List UInt8} (h : bytes.length = length / 2 + 1) :
    (digits length bytes).length = length := by
  rw [digits, List.length_take, List.length_drop, length_halves, h, unused]
  omega

theorem getElem?_digits {length k : Nat} (hk : k < length) (bytes : List UInt8) :
    (digits length bytes)[k]? =
      bytes[(unused length + k) / 2]?.map fun byte =>
        if (unused length + k) % 2 = 0 then byte / 16 else byte % 16 := by
  rw [digits, List.getElem?_take_of_lt hk, List.getElem?_drop, getElem?_halves]

/-- The sign, which is the last half, is a minus. -/
def isMinus (bytes : List UInt8) : Bool :=
  (halves bytes).getLast? == some 0x0b || (halves bytes).getLast? == some 0x0d

theorem isMinus_eq {bytes : List UInt8} {last : UInt8} (h : bytes.getLast? = some last) :
    isMinus bytes = isNegative last := by
  have hsign : (halves bytes).getLast? = some (last % 16) := by
    obtain ⟨front, rfl⟩ := List.getLast?_eq_some_iff.1 h
    rw [halves, List.flatMap_append]
    exact List.getLast?_append_of_ne_nil _ (List.cons_ne_nil _ _)
  have hall : ∀ n < 256, (some (UInt8.ofNat n % 16) == some 0x0b ||
      some (UInt8.ofNat n % 16) == some 0x0d) = isNegative (UInt8.ofNat n) := by
    decide +kernel
  have hlast := hall last.toNat last.toNat_lt
  rw [UInt8.ofNat_toNat] at hlast
  rw [isMinus, hsign, hlast]

/-! ## Numbers -/

/-- The last `length` decimal digits of a number, the most significant first. -/
def columns (length n : Nat) : List UInt8 :=
  (List.range length).reverse.map fun k => UInt8.ofNat (digit n k)

/-- The halves of the string that represents a number. -/
def layout (length n : Nat) (sign : UInt8) : List UInt8 :=
  List.replicate (unused length) 0 ++ columns length n ++ [sign]

/-- The bytes of the string that represents a number. -/
def bytes (length n sign : Nat) : List UInt8 :=
  (List.range (length / 2 + 1)).map fun i => byte n sign (length / 2 - i)

@[simp] theorem length_bytes (length n sign : Nat) :
    (bytes length n sign).length = length / 2 + 1 := by
  rw [bytes, List.length_map, List.length_range]

theorem Represents.holds {m : Memory} {address : UInt32} {length n sign : Nat}
    (h : Represents m address length n sign) :
    m.HoldsBytes address (bytes length n sign) := by
  intro i hi
  rw [length_bytes] at hi
  have hplace : length / 2 - (length / 2 - i) = i := by omega
  have hread := h (length / 2 - i) (Nat.sub_le _ _)
  rw [hplace] at hread
  simpa only [bytes, List.getElem_map, List.getElem_range] using hread

theorem length_columns (length n : Nat) : (columns length n).length = length := by
  rw [columns, List.length_map, List.length_reverse, List.length_range]

theorem getElem?_columns {length j : Nat} (hj : j < length) (n : Nat) :
    (columns length n)[j]? = some (UInt8.ofNat (digit n (length - 1 - j))) := by
  rw [columns, List.getElem?_map, List.getElem?_reverse (by simpa using hj), List.length_range,
    List.getElem?_range (by omega)]
  rfl

section Layout

variable {length n j : Nat} {sign : UInt8}

theorem length_front (length n : Nat) :
    (List.replicate (unused length) 0 ++ columns length n).length = 2 * (length / 2) + 1 := by
  rw [List.length_append, List.length_replicate, length_columns, unused]
  omega

theorem length_layout (length n : Nat) (sign : UInt8) :
    (layout length n sign).length = 2 * (length / 2) + 2 := by
  rw [layout, List.length_append, length_front, List.length_singleton]

theorem getElem?_layout_sign :
    (layout length n sign)[2 * (length / 2) + 1]? = some sign := by
  rw [layout, ← length_front length n]
  exact List.getElem?_concat_length

theorem getElem?_layout_digit (hn : n < 10 ^ length) (hj : j ≤ 2 * (length / 2)) :
    (layout length n sign)[j]? = some (UInt8.ofNat (digit n (2 * (length / 2) - j))) := by
  have hunused : (List.replicate (unused length) (0 : UInt8)).length = unused length :=
    List.length_replicate
  have hwhole : unused length + length = 2 * (length / 2) + 1 := by
    unfold unused
    omega
  rw [layout, List.getElem?_append_left (by rw [length_front]; omega)]
  by_cases hblank : j < unused length
  · have hplace : 2 * (length / 2) - j = length := by
      unfold unused at hblank hwhole
      omega
    rw [List.getElem?_append_left (by omega), List.getElem?_replicate, if_pos hblank, hplace,
      digit, Nat.div_eq_of_lt hn]
    rfl
  · have hplace : length - 1 - (j - unused length) = 2 * (length / 2) - j := by omega
    rw [List.getElem?_append_right (by omega), hunused, getElem?_columns (by omega), hplace]

end Layout

theorem halves_bytes {length n sign : Nat} (hn : n < 10 ^ length) (hsign : sign < 16) :
    halves (bytes length n sign) = layout length n (UInt8.ofNat sign) := by
  apply List.ext_getElem?
  intro j
  rw [getElem?_halves]
  by_cases hj : j < 2 * (length / 2) + 2
  · rw [bytes, List.getElem?_map, List.getElem?_range (by omega), Option.map_some,
      Option.map_some]
    by_cases hlast : j = 2 * (length / 2) + 1
    · have hodd : ¬ j % 2 = 0 := by omega
      have hplace : length / 2 - j / 2 = 0 := by omega
      rw [if_neg hodd, hplace, lowHalf_byte hsign, hlast, getElem?_layout_sign]
      rfl
    · rw [getElem?_layout_digit hn (by omega)]
      by_cases heven : j % 2 = 0
      · have hplace : 2 * (length / 2 - j / 2) = 2 * (length / 2) - j := by omega
        rw [if_pos heven, highHalf_byte hsign, hplace]
      · obtain ⟨i, hi⟩ : ∃ i, length / 2 - j / 2 = i + 1 := ⟨length / 2 - j / 2 - 1, by omega⟩
        have hplace : 2 * i + 1 = 2 * (length / 2) - j := by omega
        rw [if_neg heven, lowHalf_byte hsign, hi, lowHalf, hplace]
  · rw [List.getElem?_eq_none (by rw [length_bytes]; omega),
      List.getElem?_eq_none (by rw [length_layout]; omega)]
    rfl

/-- The digits that are read are the columns of the number. -/
theorem digits_bytes {length n sign : Nat} (hn : n < 10 ^ length) (hsign : sign < 16) :
    digits length (bytes length n sign) = columns length n := by
  have hunused : (List.replicate (unused length) (0 : UInt8)).length = unused length :=
    List.length_replicate
  rw [digits, halves_bytes hn hsign, layout, List.append_assoc, List.drop_left' hunused,
    List.take_left' (length_columns length n)]

theorem toNat_signOf_lt (isNegative : Bool) : (signOf isNegative).toNat < 16 := by
  cases isNegative <;> decide

theorem isMinus_bytes {length n : Nat} (hn : n < 10 ^ length) (isNegative : Bool) :
    isMinus (bytes length n (signOf isNegative).toNat) = isNegative := by
  rw [isMinus, halves_bytes hn (toNat_signOf_lt _), layout, List.getLast?_concat]
  cases isNegative <;> rfl

end Packed

end Vax
