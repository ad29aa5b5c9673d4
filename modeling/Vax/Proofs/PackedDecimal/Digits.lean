import Mathlib.Data.Nat.Digits.Lemmas
import Vax.Proofs.Machine.Execution
import Vax.Proofs.Memory.Bytes
/-!
# Packed decimal strings in memory

A string represents a number when each of its bytes holds the digits that the
layout gives it.  Digits are stored from the least significant up, so what is
represented meanwhile is the number modulo a power of ten.
-/

namespace Vax

namespace Packed

/-! ## Digits -/

/-- The digit that counts `10 ^ k`. -/
def digit (n k : Nat) : Nat :=
  n / 10 ^ k % 10

theorem digit_lt (n k : Nat) : digit n k < 10 :=
  Nat.mod_lt _ (by decide)

theorem digit_mod (n j k : Nat) : digit (n % 10 ^ k) j = if j < k then digit n j else 0 := by
  unfold digit
  split
  · next hlt =>
      obtain ⟨d, rfl⟩ := Nat.exists_eq_add_of_lt hlt
      have hpow : 10 ^ (j + d + 1) = 10 ^ j * (10 ^ d * 10) := by
        rw [Nat.pow_succ, Nat.pow_add, Nat.mul_assoc]
      rw [hpow, Nat.mod_mul_right_div_self,
        Nat.mod_mod_of_dvd _ (Nat.dvd_mul_left 10 (10 ^ d))]
  · next hle =>
      have hsmall : n % 10 ^ k < 10 ^ j :=
        Nat.lt_of_lt_of_le (Nat.mod_lt _ (Nat.pow_pos (by decide)))
          (Nat.pow_le_pow_right (by decide) (Nat.le_of_not_lt hle))
      rw [Nat.div_eq_of_lt hsmall]

/-- Another digit changes only the one it counts. -/
theorem digit_mod_succ_of_ne {n j k : Nat} (h : j ≠ k) :
    digit (n % 10 ^ (k + 1)) j = digit (n % 10 ^ k) j := by
  rw [digit_mod, digit_mod]
  by_cases hlt : j < k
  · rw [if_pos hlt, if_pos (Nat.lt_succ_of_lt hlt)]
  · rw [if_neg hlt, if_neg (by omega)]

/-- How many digits are stored in a string of `length` digits: those that the
number has, as far as they fit. -/
def stored (length n : Nat) : Nat :=
  min length (Nat.digits 10 n).length

theorem lt_stored_iff {length n k : Nat} : k < stored length n ↔ k < length ∧ 10 ^ k ≤ n := by
  rw [stored, Nat.lt_min, Nat.lt_digits_length_iff (by decide)]

/-- The digits give out behind the last that is stored. -/
theorem stored_eq_of_div_eq_zero {length n k : Nat} (hk : k ≤ stored length n)
    (h : n / 10 ^ k = 0) : stored length n = k := by
  refine Nat.le_antisymm (Nat.le_of_not_lt fun hlt => ?_) hk
  have hle := (lt_stored_iff.1 hlt).2
  have hlt' := (Nat.div_eq_zero_iff_lt (Nat.pow_pos (by decide))).1 h
  omega

/-! ## Bytes -/

/-- The low half of the byte that is `i` before the last. -/
def lowHalf (n sign : Nat) : Nat → Nat
  | 0 => sign
  | i + 1 => digit n (2 * i + 1)

/-- The byte that is `i` before the last. -/
def byte (n sign i : Nat) : UInt8 :=
  UInt8.ofNat (digit n (2 * i) * 16 + lowHalf n sign i)

theorem lowHalf_lt {sign : Nat} (hsign : sign < 16) (n i : Nat) : lowHalf n sign i < 16 := by
  cases i with
  | zero => exact hsign
  | succ i => exact Nat.lt_trans (digit_lt n _) (by decide)

theorem highHalf_byte {n sign i : Nat} (hsign : sign < 16) :
    byte n sign i / 16 = UInt8.ofNat (digit n (2 * i)) := by
  have hhalf : ∀ high < 10, ∀ low < 16,
      UInt8.ofNat (high * 16 + low) / 16 = UInt8.ofNat high := by decide
  exact hhalf _ (digit_lt n _) _ (lowHalf_lt hsign n i)

theorem lowHalf_byte {n sign i : Nat} (hsign : sign < 16) :
    byte n sign i % 16 = UInt8.ofNat (lowHalf n sign i) := by
  have hhalf : ∀ high < 10, ∀ low < 16,
      UInt8.ofNat (high * 16 + low) % 16 = UInt8.ofNat low := by decide
  exact hhalf _ (digit_lt n _) _ (lowHalf_lt hsign n i)

theorem lowHalf_mod_succ_of_ne {n sign i k : Nat} (h : 2 * i ≠ k + 1) :
    lowHalf (n % 10 ^ (k + 1)) sign i = lowHalf (n % 10 ^ k) sign i := by
  cases i with
  | zero => rfl
  | succ i => exact digit_mod_succ_of_ne (by omega)

theorem byte_mod_succ_of_ne {n sign i k : Nat} (h : i ≠ (k + 1) / 2) :
    byte (n % 10 ^ (k + 1)) sign i = byte (n % 10 ^ k) sign i := by
  unfold byte
  rw [digit_mod_succ_of_ne (by omega), lowHalf_mod_succ_of_ne (by omega)]

/-- An even digit joins the low half that is there already. -/
theorem byte_even {n sign k : Nat} (hsign : sign < 16) (hk : k % 2 = 0) :
    byte (n % 10 ^ k) sign (k / 2) ||| UInt8.ofNat (n / 10 ^ k % 10 * 16) =
      byte (n % 10 ^ (k + 1)) sign (k / 2) := by
  have hor : ∀ high < 10, ∀ low < 16,
      UInt8.ofNat (0 * 16 + low) ||| UInt8.ofNat (high * 16) = UInt8.ofNat (high * 16 + low) := by
    decide
  have heven : 2 * (k / 2) = k := by omega
  unfold byte
  rw [heven, digit_mod, digit_mod, if_neg (Nat.lt_irrefl k), if_pos (Nat.lt_succ_self k),
    lowHalf_mod_succ_of_ne (by omega)]
  exact hor _ (digit_lt n k) _ (lowHalf_lt hsign _ _)

/-- An odd digit begins a byte. -/
theorem byte_odd {n sign k : Nat} (hk : k % 2 = 1) :
    UInt8.ofNat (n / 10 ^ k % 10) = byte (n % 10 ^ (k + 1)) sign (k / 2 + 1) := by
  have hodd : 2 * (k / 2) + 1 = k := by omega
  rw [byte, lowHalf, hodd, digit_mod, digit_mod, if_neg (by omega), if_pos (Nat.lt_succ_self k),
    Nat.zero_mul, Nat.zero_add]
  rfl

/-! ## Strings -/

/-- The string of `length` digits at an address represents `n`. -/
def Represents (m : Memory) (address : UInt32) (length n sign : Nat) : Prop :=
  ∀ i ≤ length / 2,
    m.readByte (address + UInt32.ofNat (length / 2 - i)) = .ok (byte n sign i)

/-- Storing the byte of digit `k` makes the string represent one digit more. -/
theorem Represents.store {m m' : Memory} {address : UInt32} {length n sign k : Nat}
    (h : Represents m address length (n % 10 ^ k) sign) (hlength : length < 2 ^ 32)
    (hk : k < length)
    (hstore : m.store (address + UInt32.ofNat (length / 2 - (k + 1) / 2))
      [byte (n % 10 ^ (k + 1)) sign ((k + 1) / 2)] = .ok m') :
    Represents m' address length (n % 10 ^ (k + 1)) sign := by
  intro i hi
  by_cases hplace : i = (k + 1) / 2
  · rw [hplace, Memory.readByte_store_self hstore]
  · have hne : address + UInt32.ofNat (length / 2 - i) ≠
        address + UInt32.ofNat (length / 2 - (k + 1) / 2) := by
      intro heq
      have hindex := ofNat_add_inj (by omega) (by omega) heq
      omega
    rw [Memory.readByte_store_of_ne hstore hne, h i hi, byte_mod_succ_of_ne hplace]

end Packed

namespace Exec

variable {m : Machine}

theorem run_storeZeros {start : Memory} {address : UInt32} {bytes : List UInt8} {count : Nat}
    (hcovers : ∀ other ∈ area address (bytes.length + count), start.Covers other)
    (hroom : bytes.length + count ≤ 2 ^ 32) (h : start.Writes m.memory address bytes) :
    ∃ memory, (storeZeros count (address + UInt32.ofNat bytes.length)).run m =
        .ok () (m.withMemory memory) ∧
      start.Writes memory address (bytes ++ List.replicate count 0) := by
  induction count generalizing m bytes with
  | zero => exact ⟨m.memory, rfl, by simpa using h⟩
  | succ count ih =>
      have hin := hcovers _ (mem_area (Nat.lt_add_of_pos_right (Nat.succ_pos count)))
      obtain ⟨memory, hstore⟩ := Memory.exists_store ((h.same.covers _).2 hin) 0
      have hlength : (bytes ++ [0]).length = bytes.length + 1 := by simp
      have hnext : address + UInt32.ofNat bytes.length + 1 =
          address + UInt32.ofNat (bytes ++ [0]).length := by
        rw [hlength, UInt32.ofNat_add, UInt32.add_assoc]
        rfl
      have hpushed : start.Writes (m.withMemory memory).memory address (bytes ++ [0]) :=
        h.push (by omega) hstore
      obtain ⟨last, hrun, hwrites⟩ := ih
        (by rw [hlength, Nat.add_assoc, Nat.add_comm 1]; exact hcovers)
        (by rw [hlength]; omega) hpushed
      refine ⟨last, ?_, ?_⟩
      · rw [storeZeros, run_bind_ok (run_writeByte hstore), hnext]
        exact hrun
      · rw [List.append_assoc] at hwrites
        exact hwrites

/-- The address at which digit `k` is stored. -/
theorem sub_one_of_lt {address : UInt32} {i j : Nat} (h : j < i) :
    address + UInt32.ofNat (i - j) - 1 = address + UInt32.ofNat (i - (j + 1)) := by
  have hsucc : i - j = i - (j + 1) + 1 := by omega
  rw [hsucc, UInt32.ofNat_add, ← UInt32.add_assoc]
  exact UInt32.add_sub_cancel _ _

theorem run_storeDigits {address : UInt32} {length n sign k count : Nat}
    (hlength : length = k + count) (hsmall : length < 2 ^ 32) (hk : k ≤ Packed.stored length n)
    (hsign : sign < 16)
    (hcovers : ∀ other ∈ area address (length / 2 + 1), m.memory.Covers other)
    (h : Packed.Represents m.memory address length (n % 10 ^ k) sign) :
    ∃ memory, (storeDigits count (k % 2 == 0)
        (address + UInt32.ofNat (length / 2 - k / 2)) (n / 10 ^ k)).run m =
          .ok (address + UInt32.ofNat (length / 2 - Packed.stored length n / 2), n / 10 ^ length)
            (m.withMemory memory) ∧
      Packed.Represents memory address length (n % 10 ^ length) sign ∧
      m.memory.SameOutside memory (area address (length / 2 + 1)) := by
  induction count generalizing m k with
  | zero =>
      obtain rfl : length = k := hlength
      have hall : Packed.stored length n = length := Nat.le_antisymm (Nat.min_le_left _ _) hk
      rw [hall]
      exact ⟨m.memory, rfl, h, .refl _ _⟩
  | succ count ih =>
      rw [storeDigits]
      by_cases hrest : n / 10 ^ k = 0
      · -- The digits that are left out are zero, and so are their bytes.
        have hlt : n < 10 ^ k := (Nat.div_eq_zero_iff_lt (Nat.pow_pos (by decide))).1 hrest
        have hlt' : n < 10 ^ length :=
          Nat.lt_of_lt_of_le hlt (Nat.pow_le_pow_right (by decide) (by omega))
        rw [Nat.mod_eq_of_lt hlt] at h
        rw [if_pos hrest, Packed.stored_eq_of_div_eq_zero hk hrest, Nat.div_eq_of_lt hlt',
          Nat.mod_eq_of_lt hlt']
        exact ⟨m.memory, rfl, h, .refl _ _⟩
      · have hle : 10 ^ k ≤ n := by
          have hpow := Nat.pow_pos (n := k) (a := 10) (by decide)
          exact Nat.le_of_not_lt fun hlt => hrest (Nat.div_eq_of_lt hlt)
        have hstored : k + 1 ≤ Packed.stored length n := Packed.lt_stored_iff.2 ⟨by omega, hle⟩
        have hin : m.memory.Covers (address + UInt32.ofNat (length / 2 - (k + 1) / 2)) :=
          hcovers _ (mem_area (by omega))
        obtain ⟨memory, hstore⟩ := Memory.exists_store hin
          (Packed.byte (n % 10 ^ (k + 1)) sign ((k + 1) / 2))
        have hnext := h.store hsmall (by omega) hstore
        have hsame : m.memory.SameOutside memory (area address (length / 2 + 1)) :=
          (Memory.SameOutside.refl m.memory _).store (mem_area (by omega)) hstore
        have hcovers' : ∀ other ∈ area address (length / 2 + 1), memory.Covers other :=
          fun other hother => (hsame.covers other).2 (hcovers other hother)
        obtain ⟨last, hrun, hrepresents, hsame'⟩ :=
          ih (m := m.withMemory memory) (k := k + 1) (by omega) hstored hcovers' hnext
        have hdiv : n / 10 ^ k / 10 = n / 10 ^ (k + 1) := by
          rw [Nat.div_div_eq_div_mul, Nat.pow_succ]
        refine ⟨last, ?_, hrepresents, hsame.trans hsame'⟩
        rw [if_neg hrest]
        by_cases heven : k % 2 = 0
        · have hodd : (k + 1) % 2 ≠ 0 := by omega
          have hplace : (k + 1) / 2 = k / 2 := by omega
          have hread := h (k / 2) (by omega)
          rw [hplace, ← Packed.byte_even hsign heven] at hstore
          rw [if_pos (by simpa using heven), run_bind_ok (run_readByte hread),
            run_bind_ok (run_writeByte hstore), hdiv]
          rw [hplace, beq_eq_false_iff_ne.2 hodd] at hrun
          exact hrun
        · have hodd : (k + 1) % 2 = 0 := by omega
          have hplace : (k + 1) / 2 = k / 2 + 1 := by omega
          rw [hplace, ← Packed.byte_odd (by omega)] at hstore
          rw [if_neg (by simpa using heven), sub_one_of_lt (by omega),
            run_bind_ok (run_writeByte hstore), hdiv]
          rw [hplace, hodd] at hrun
          exact hrun

end Exec

end Vax
