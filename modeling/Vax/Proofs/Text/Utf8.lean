import Vax.Text.Utf8
/-!
# Text survives its bytes

The decoder reads every character back from the bytes that encode it, so bytes
that are UTF-8 are those of the text that they are read as.
-/

namespace Vax.Utf8

/-- A byte behind the first of a character, with the six bits of a number that
it carries. -/
def continuation (n : Nat) : UInt8 :=
  UInt8.ofNat (n % 64 + 0x80)

theorem toNat_continuation (n : Nat) : (continuation n).toNat = n % 64 + 0x80 := by
  rw [continuation, UInt8.toNat_ofNat']
  omega

theorem decodeFrom_of_feed {pending next : Option Pending} {byte : UInt8} {chars : List Char}
    (h : feed pending byte = (chars, next)) (rest : List UInt8) :
    decodeFrom pending (byte :: rest) = chars ++ decodeFrom next rest := by
  rw [decodeFrom, h]

/-! ## Inside a character -/

section Continuation

variable {low high : UInt8} {n bits : Nat}

theorem feed_last (hlow : low.toNat ≤ n % 64 + 0x80) (hhigh : n % 64 + 0x80 ≤ high.toNat) :
    feed (some ⟨1, low, high, bits⟩) (continuation n) =
      ([Char.ofNat (bits * 64 + n % 64)], none) := by
  have hwithin : low ≤ continuation n ∧ continuation n ≤ high := by
    rw [UInt8.le_iff_toNat_le, UInt8.le_iff_toNat_le, toNat_continuation]
    exact ⟨hlow, hhigh⟩
  have hbits : (n % 64 + 0x80) % 64 = n % 64 := by omega
  simp only [feed, if_pos hwithin, toNat_continuation, hbits, Nat.le_refl, if_true]

theorem feed_next {missing : Nat} (hlow : low.toNat ≤ n % 64 + 0x80)
    (hhigh : n % 64 + 0x80 ≤ high.toNat) :
    feed (some ⟨missing + 2, low, high, bits⟩) (continuation n) =
      ([], some ⟨missing + 1, 0x80, 0xbf, bits * 64 + n % 64⟩) := by
  have hwithin : low ≤ continuation n ∧ continuation n ≤ high := by
    rw [UInt8.le_iff_toNat_le, UInt8.le_iff_toNat_le, toNat_continuation]
    exact ⟨hlow, hhigh⟩
  have hbits : (n % 64 + 0x80) % 64 = n % 64 := by omega
  have hmore : ¬ missing + 2 ≤ 1 := by omega
  simp only [feed, if_pos hwithin, toNat_continuation, hbits, if_neg hmore]
  rfl

end Continuation

/-! ## First bytes -/

/-- What may come next leaves out overlong forms, surrogates and numbers past
the last character. -/
theorem feed_none_of_two {n : Nat} (hleast : 0x80 ≤ n) (hmost : n < 0x800) :
    feed none (UInt8.ofNat (n / 64 % 32 + 0xc0)) = ([], some ⟨1, 0x80, 0xbf, n / 64⟩) := by
  have hbyte : (UInt8.ofNat (n / 64 % 32 + 0xc0)).toNat = n / 64 + 0xc0 := by
    rw [UInt8.toNat_ofNat']
    omega
  have hbits : (n / 64 + 0xc0) % 32 = n / 64 := by omega
  simp only [feed, lead, hbyte]
  rw [if_neg (by omega), if_neg (by omega), if_pos (by omega), hbits]

theorem feed_none_of_three {n : Nat} (hleast : 0x800 ≤ n) (hmost : n < 0x10000)
    (hscalar : n < 0xd800 ∨ 0xdfff < n) :
    ∃ low high : UInt8,
      feed none (UInt8.ofNat (n / 4096 % 16 + 0xe0)) = ([], some ⟨2, low, high, n / 4096⟩) ∧
      low.toNat ≤ n / 64 % 64 + 0x80 ∧ n / 64 % 64 + 0x80 ≤ high.toNat := by
  have hbyte : (UInt8.ofNat (n / 4096 % 16 + 0xe0)).toNat = n / 4096 + 0xe0 := by
    rw [UInt8.toNat_ofNat']
    omega
  have hlow : (0x80 : UInt8).toNat = 0x80 := rfl
  have hhigh : (0xbf : UInt8).toNat = 0xbf := rfl
  simp only [feed, lead, hbyte]
  rw [if_neg (by omega), if_neg (by omega), if_neg (by omega)]
  by_cases hfirst : n / 4096 = 0
  · rw [if_pos (by omega), hfirst]
    exact ⟨0xa0, 0xbf, rfl, by change 0xa0 ≤ _; omega, by omega⟩
  rw [if_neg (by omega)]
  by_cases hsurrogate : n / 4096 = 13
  · rw [if_pos (by omega), hsurrogate]
    exact ⟨0x80, 0x9f, rfl, by omega, by change _ ≤ 0x9f; omega⟩
  have hbits : (n / 4096 + 0xe0) % 16 = n / 4096 := by omega
  rw [if_neg (by omega), if_pos (by omega), hbits]
  exact ⟨0x80, 0xbf, rfl, by omega, by omega⟩

theorem feed_none_of_four {n : Nat} (hleast : 0x10000 ≤ n) (hmost : n < 0x110000) :
    ∃ low high : UInt8,
      feed none (UInt8.ofNat (n / 262144 % 8 + 0xf0)) = ([], some ⟨3, low, high, n / 262144⟩) ∧
      low.toNat ≤ n / 4096 % 64 + 0x80 ∧ n / 4096 % 64 + 0x80 ≤ high.toNat := by
  have hbyte : (UInt8.ofNat (n / 262144 % 8 + 0xf0)).toNat = n / 262144 + 0xf0 := by
    rw [UInt8.toNat_ofNat']
    omega
  have hlow : (0x80 : UInt8).toNat = 0x80 := rfl
  have hhigh : (0xbf : UInt8).toNat = 0xbf := rfl
  simp only [feed, lead, hbyte]
  rw [if_neg (by omega), if_neg (by omega), if_neg (by omega), if_neg (by omega),
    if_neg (by omega), if_neg (by omega)]
  by_cases hfirst : n / 262144 = 0
  · rw [if_pos (by omega), hfirst]
    exact ⟨0x90, 0xbf, rfl, by change 0x90 ≤ _; omega, by omega⟩
  rw [if_neg (by omega)]
  by_cases hlast : n / 262144 = 4
  · rw [if_neg (by omega), if_pos (by omega), hlast]
    exact ⟨0x80, 0x8f, rfl, by omega, by change _ ≤ 0x8f; omega⟩
  have hbits : (n / 262144 + 0xf0) % 8 = n / 262144 := by omega
  rw [if_pos (by omega), hbits]
  exact ⟨0x80, 0xbf, rfl, by omega, by omega⟩

/-! ## Whole characters -/

section Character

variable {n : Nat} (rest : List UInt8)

theorem decodeFrom_of_one (hmost : n < 0x80) :
    decodeFrom none (UInt8.ofNat n :: rest) = Char.ofNat n :: decodeFrom none rest := by
  have hbyte : (UInt8.ofNat n).toNat = n := by
    rw [UInt8.toNat_ofNat']
    omega
  have hfirst : feed none (UInt8.ofNat n) = ([Char.ofNat n], none) := by
    simp only [feed, lead, hbyte, if_pos hmost]
  rw [decodeFrom_of_feed hfirst, List.singleton_append]

theorem within_continuation (n : Nat) :
    (0x80 : UInt8).toNat ≤ n % 64 + 0x80 ∧ n % 64 + 0x80 ≤ (0xbf : UInt8).toNat := by
  change 0x80 ≤ _ ∧ _ ≤ 0xbf
  omega

theorem decodeFrom_of_two (hleast : 0x80 ≤ n) (hmost : n < 0x800) :
    decodeFrom none (UInt8.ofNat (n / 64 % 32 + 0xc0) :: continuation n :: rest) =
      Char.ofNat n :: decodeFrom none rest := by
  obtain ⟨hlow, hhigh⟩ := within_continuation n
  have hbits : n / 64 * 64 + n % 64 = n := by omega
  rw [decodeFrom_of_feed (feed_none_of_two hleast hmost), List.nil_append,
    decodeFrom_of_feed (feed_last hlow hhigh), List.singleton_append, hbits]

theorem decodeFrom_of_three (hleast : 0x800 ≤ n) (hmost : n < 0x10000)
    (hscalar : n < 0xd800 ∨ 0xdfff < n) :
    decodeFrom none (UInt8.ofNat (n / 4096 % 16 + 0xe0) :: continuation (n / 64) ::
      continuation n :: rest) = Char.ofNat n :: decodeFrom none rest := by
  obtain ⟨low, high, hfirst, hsecond, hsecond'⟩ := feed_none_of_three hleast hmost hscalar
  obtain ⟨hlow, hhigh⟩ := within_continuation n
  have hbits : (n / 4096 * 64 + n / 64 % 64) * 64 + n % 64 = n := by omega
  rw [decodeFrom_of_feed hfirst, List.nil_append,
    decodeFrom_of_feed (feed_next hsecond hsecond'), List.nil_append,
    decodeFrom_of_feed (feed_last hlow hhigh), List.singleton_append, hbits]

theorem decodeFrom_of_four (hleast : 0x10000 ≤ n) (hmost : n < 0x110000) :
    decodeFrom none (UInt8.ofNat (n / 262144 % 8 + 0xf0) :: continuation (n / 4096) ::
      continuation (n / 64) :: continuation n :: rest) =
      Char.ofNat n :: decodeFrom none rest := by
  obtain ⟨low, high, hfirst, hsecond, hsecond'⟩ := feed_none_of_four hleast hmost
  obtain ⟨hthird, hthird'⟩ := within_continuation (n / 64)
  obtain ⟨hlow, hhigh⟩ := within_continuation n
  have hbits : ((n / 262144 * 64 + n / 4096 % 64) * 64 + n / 64 % 64) * 64 + n % 64 = n := by
    omega
  rw [decodeFrom_of_feed hfirst, List.nil_append,
    decodeFrom_of_feed (feed_next hsecond hsecond'), List.nil_append,
    decodeFrom_of_feed (feed_next hthird hthird'), List.nil_append,
    decodeFrom_of_feed (feed_last hlow hhigh), List.singleton_append, hbits]

theorem decodeFrom_utf8EncodeChar (c : Char) :
    decodeFrom none (String.utf8EncodeChar c ++ rest) = c :: decodeFrom none rest := by
  obtain ⟨hscalar, hlast⟩ : (c.val.toNat < 0xd800 ∨ 0xdfff < c.val.toNat) ∧
      c.val.toNat < 0x110000 := by
    obtain h | ⟨h, h'⟩ := c.valid
    · exact ⟨.inl h, Nat.lt_trans h (by decide)⟩
    · exact ⟨.inr h, h'⟩
  have hchar : Char.ofNat c.val.toNat = c := Char.ofNat_toNat c
  unfold String.utf8EncodeChar
  generalize c.val.toNat = n at hscalar hlast hchar
  rw [← hchar]
  dsimp only
  split
  · exact decodeFrom_of_one rest (by omega)
  split
  · exact decodeFrom_of_two rest (by omega) (by omega)
  split
  · exact decodeFrom_of_three rest (by omega) (by omega) hscalar
  · exact decodeFrom_of_four rest (by omega) hlast

end Character

/-! ## Texts -/

theorem decode_encode (text : String) : decode (encode text) = text := by
  have hchars : ∀ chars : List Char,
      decodeFrom none (chars.flatMap String.utf8EncodeChar) = chars := by
    intro chars
    induction chars with
    | nil => rfl
    | cons c rest ih => rw [List.flatMap_cons, decodeFrom_utf8EncodeChar, ih]
  rw [decode, encode, hchars, String.ofList_toList]

/-- Bytes that are UTF-8 are those of the text that they hold. -/
theorem encode_decode {bytes : List UInt8} (h : bytes.toByteArray.IsValidUTF8) :
    encode (decode bytes) = bytes := by
  obtain ⟨chars, hchars⟩ := h
  have hbytes : bytes = encode (String.ofList chars) := by
    rw [encode, String.toList_ofList]
    exact List.toByteArray_inj.1 hchars
  rw [hbytes, decode_encode]

end Vax.Utf8
