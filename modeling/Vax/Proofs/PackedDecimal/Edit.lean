import Vax.Proofs.PackedDecimal.Contents
import Vax.Proofs.PackedDecimal.Formatter
/-!
# What a floating pattern makes of a number

A format reads the digits from the most significant down and writes one
character for each, and the sign once.  What has been read so far is the
number without its last digits, and what has been written is its numeral,
ended in the column that it has reached.
-/

namespace Vax

namespace Edit

/-! ## Text -/

/-- The decimal digits of a number as text. -/
def numeral (n : Nat) : List UInt8 :=
  (Nat.toDigits 10 n).map Char.toUInt8

/-- A numeral behind its sign, with blanks in front, in `width` columns and
one for the sign. -/
def signed (sign : UInt8) (width n : Nat) : List UInt8 :=
  List.replicate (width - (numeral n).length) 0x20 ++ sign :: numeral n

/-- What floating moves write of a number in `width` columns. -/
def floated (sign : UInt8) (width n : Nat) : List UInt8 :=
  if n = 0 then List.replicate width 0x20 else signed sign width n

/-- The same once the sign is written in any case. -/
def anchored (sign : UInt8) (width n : Nat) : List UInt8 :=
  floated sign width n ++ if n = 0 then [sign] else []

variable {sign : UInt8} {width n d : Nat}

theorem numeral_of_lt (hd : d < 10) : numeral d = [0x30 + UInt8.ofNat d] := by
  have hchar : ∀ d < 10, (Nat.digitChar d).toUInt8 = 0x30 + UInt8.ofNat d := by decide
  rw [numeral, Nat.toDigits_of_lt_base hd, List.map_singleton, hchar d hd]

theorem numeral_push (hn : n ≠ 0) (hd : d < 10) :
    numeral (10 * n + d) = numeral n ++ [0x30 + UInt8.ofNat d] := by
  rw [← numeral_of_lt hd, numeral, numeral, numeral, ← List.map_append,
    Nat.toDigits_append_toDigits (by decide) (Nat.pos_of_ne_zero hn) hd]

theorem length_numeral_le (hwidth : 0 < width) (hn : n < 10 ^ width) :
    (numeral n).length ≤ width := by
  rw [numeral, List.length_map]
  exact (Nat.length_toDigits_le_iff (by decide) hwidth).2 hn

theorem length_signed (sign : UInt8) (hwidth : 0 < width) (hn : n < 10 ^ width) :
    (signed sign width n).length = width + 1 := by
  have hlength := length_numeral_le hwidth hn
  rw [signed, List.length_append, List.length_replicate, List.length_cons]
  omega

/-- A digit behind a significant one. -/
theorem floated_push (hn : n ≠ 0) (hd : d < 10) :
    floated sign (width + 1) (10 * n + d) =
      floated sign width n ++ [0x30 + UInt8.ofNat d] := by
  rw [floated, floated, if_neg (by omega), if_neg hn, signed, signed, numeral_push hn hd,
    List.length_append, List.length_singleton, Nat.add_sub_add_right, List.append_assoc,
    List.cons_append]

/-- A zero before the first significant digit. -/
theorem floated_blank : floated sign (width + 1) 0 = floated sign width 0 ++ [0x20] := by
  rw [floated, floated, if_pos rfl, if_pos rfl, List.replicate_succ']

/-- The last digit, which is significant whatever it is. -/
theorem signed_push (sign : UInt8) (width n : Nat) (hd : d < 10) :
    signed sign (width + 1) (10 * n + d) =
      anchored sign width n ++ [0x30 + UInt8.ofNat d] := by
  by_cases hn : n = 0
  · rw [anchored, floated, if_pos hn, if_pos hn, signed, hn, Nat.mul_zero, Nat.zero_add,
      numeral_of_lt hd, List.length_singleton, Nat.add_sub_cancel, List.append_assoc]
    rfl
  · rw [anchored, if_neg hn, List.append_nil, ← floated_push hn hd, floated, if_neg (by omega)]

/-- The first significant digit. -/
theorem floated_begin (hd : d < 10) (hne : d ≠ 0) :
    floated sign (width + 1) d = floated sign width 0 ++ [sign] ++ [0x30 + UInt8.ofNat d] := by
  have hsigned := signed_push sign width 0 hd
  rw [Nat.mul_zero, Nat.zero_add] at hsigned
  rw [floated, if_neg hne, hsigned, anchored, if_pos rfl]

/-! ## Patterns -/

/-- The operator that moves digits, floating. -/
def floatByte (count : Nat) : UInt8 :=
  UInt8.ofNat (0xa0 + count)

/-- The pattern of a string of `length` digits: floating operators for all but
the last, the end of the float, and a move of the last. -/
def pattern (counts : List Nat) : List UInt8 :=
  counts.map floatByte ++ [0x01, 0x91, 0x00]

theorem length_pattern (counts : List Nat) : (pattern counts).length = counts.length + 3 := by
  rw [pattern, List.length_append, List.length_map]
  rfl

theorem moves_floatByte {count : Nat} (hcount : 1 ≤ count ∧ count ≤ 15) :
    Moves (floatByte count) ∧ floatByte count / 16 = 10 ∧
      (floatByte count % 16).toNat = count := by
  have hall : ∀ count < 16, Moves (floatByte count) ∧ floatByte count / 16 = 10 ∧
      (floatByte count % 16).toNat = count := by
    decide
  exact hall count (by omega)

/-! ## Columns -/

/-- The number in the first `count` of its columns. -/
def front (length n count : Nat) : Nat :=
  n / 10 ^ (length - count)

theorem front_zero {length : Nat} (hn : n < 10 ^ length) : front length n 0 = 0 :=
  Nat.div_eq_of_lt hn

theorem front_self (length n : Nat) : front length n length = n := by
  rw [front, Nat.sub_self, Nat.pow_zero, Nat.div_one]

theorem front_succ {length count : Nat} (h : count < length) (n : Nat) :
    front length n (count + 1) =
      10 * front length n count + Packed.digit n (length - 1 - count) := by
  have hbefore : length - count = length - 1 - count + 1 := by omega
  have hafter : length - (count + 1) = length - 1 - count := by omega
  have hdiv : front length n count = n / 10 ^ (length - 1 - count) / 10 := by
    rw [front, hbefore, Nat.pow_succ, Nat.div_div_eq_div_mul]
  rw [hdiv, front, hafter]
  exact (Nat.div_add_mod _ 10).symm

theorem ofNat_digit_beq (n k : Nat) :
    (UInt8.ofNat (Packed.digit n k) == 0) = (Packed.digit n k == 0) := by
  have hbeq : ∀ d < 10, (UInt8.ofNat d == 0) = (d == 0) := by decide
  exact hbeq _ (Packed.digit_lt n k)

/-- Columns that are all zero are those of zero. -/
theorem all_take_columns {length count : Nat} (hn : n < 10 ^ length) (hcount : count ≤ length) :
    ((Packed.columns length n).take count).all (· == 0) = (front length n count == 0) := by
  induction count with
  | zero =>
      rw [front_zero hn]
      rfl
  | succ count ih =>
      rw [List.take_add_one, Packed.getElem?_columns hcount, Option.toList_some, List.all_append,
        ih (Nat.le_of_succ_le hcount), front_succ hcount, List.all_cons, List.all_nil,
        Bool.and_true, ofNat_digit_beq, Bool.eq_iff_iff, Bool.and_eq_true, beq_iff_eq, beq_iff_eq,
        beq_iff_eq]
      omega

/-! ## Floating -/

/-- A draft that floating moves have made of the first `count` columns. -/
structure Floats (sign : UInt8) (length n : Nat) (d : Draft) (count : Nat) : Prop where
  text_eq : d.text = floated sign count (front length n count)
  read_eq : d.read = count
  isSome_eq : d.significance.isSome = (front length n count != 0)

namespace Floats

variable {length count : Nat} {counts : List Nat} {d : Draft}

theorem blank (sign : UInt8) (hn : n < 10 ^ length) : Floats sign length n .blank 0 := by
  have hfront := front_zero hn
  refine ⟨?_, rfl, ?_⟩
  · rw [hfront]
    rfl
  · rw [hfront]
    rfl

theorem next (h : Floats sign length n d count) : Floats sign length n d.next count :=
  ⟨h.text_eq, h.read_eq, h.isSome_eq⟩

/-- A floating move takes one column into account.  The sign goes before the
first significant digit, and behind it every digit is significant. -/
theorem move (h : Floats sign length n d count) (hcount : count < length) :
    Floats sign length n
      (d.move sign true (UInt8.ofNat (Packed.digit n (length - 1 - count)))) (count + 1) := by
  have hdigit := Packed.digit_lt n (length - 1 - count)
  have hfront := front_succ hcount n
  have htext := h.text_eq
  have hsome := h.isSome_eq
  have hread : d.read + 1 = count + 1 := congrArg (· + 1) h.read_eq
  cases hsignificance : d.significance with
  | some first =>
      rw [hsignificance] at hsome
      have hne : front length n count ≠ 0 := bne_iff_ne.1 hsome.symm
      rw [Draft.move_of_significant hsignificance]
      refine ⟨?_, hread, ?_⟩
      · rw [hfront, floated_push hne hdigit, ← htext]
      · exact (bne_iff_ne.2 (by omega)).symm
  | none =>
      rw [hsignificance] at hsome
      have hzero : front length n count = 0 := by simpa using hsome.symm
      rw [hzero] at htext
      rw [hzero, Nat.mul_zero, Nat.zero_add] at hfront
      by_cases hblank : Packed.digit n (length - 1 - count) = 0
      · have hdraft : d.move sign true (UInt8.ofNat 0) = _ := Draft.move_of_zero hsignificance
        rw [hblank] at hfront ⊢
        rw [hdraft]
        refine ⟨?_, hread, ?_⟩
        · rw [hfront, floated_blank, ← htext]
        · rw [hfront]
          rfl
      · have hne : UInt8.ofNat (Packed.digit n (length - 1 - count)) ≠ 0 :=
          beq_eq_false_iff_ne.1 ((ofNat_digit_beq _ _).trans (beq_eq_false_iff_ne.2 hblank))
        rw [Draft.move_of_ne_zero hsignificance hne]
        refine ⟨?_, hread, ?_⟩
        · rw [hfront, floated_begin hdigit hblank, ← htext]
          rfl
        · rw [hfront]
          exact (bne_iff_ne.2 hblank).symm

theorem moves {moved : Nat} (h : Floats sign length n d count) (hmoved : count + moved ≤ length) :
    ∃ d', Draft.moves sign true (Packed.columns length n) moved d = .ok d' ∧
      Floats sign length n d' (count + moved) := by
  induction moved generalizing d count with
  | zero => exact ⟨d, rfl, h⟩
  | succ moved ih =>
      have hcount : count < length := by omega
      obtain ⟨d', hmoves, hlast⟩ := ih (h.move hcount) (by omega)
      refine ⟨d', ?_, ?_⟩
      · rw [Draft.moves, h.read_eq, Packed.getElem?_columns hcount]
        exact hmoves
      · rw [Nat.add_comm moved, ← Nat.add_assoc]
        exact hlast

/-- Floating operators take the columns that they count into account. -/
theorem formats {rest : List UInt8} (h : Floats sign length n d count)
    (hlength : count + counts.sum ≤ length) (hcounts : ∀ moved ∈ counts, 1 ≤ moved ∧ moved ≤ 15) :
    ∃ d', Floats sign length n d' (count + counts.sum) ∧ ∀ final stop,
      Formats sign (Packed.columns length n) rest d' final stop →
        Formats sign (Packed.columns length n) (counts.map floatByte ++ rest) d final stop := by
  induction counts generalizing d count with
  | nil => exact ⟨d, h, fun _ _ hrest => hrest⟩
  | cons moved counts ih =>
      obtain ⟨hmoved, hothers⟩ := List.forall_mem_cons.1 hcounts
      rw [List.sum_cons, ← Nat.add_assoc] at hlength ⊢
      obtain ⟨d', hmoves, hfloats⟩ := h.moves (Nat.le_trans (Nat.le_add_right _ _) hlength)
      obtain ⟨last, hlast, hformats⟩ := ih hfloats.next hlength hothers
      obtain ⟨hoperator, hfloating, hcount⟩ := moves_floatByte hmoved
      refine ⟨last, hlast, fun final stop hrest => .move hoperator ?_ (hformats final stop hrest)⟩
      rw [hcount, decide_eq_true hfloating]
      exact hmoves

/-- Ending the float writes the sign unless it was written. -/
theorem endFloat (h : Floats sign length n d count) :
    ∃ first, d.endFloat sign =
      ⟨anchored sign count (front length n count), count, some first, d.followed⟩ := by
  have hsome := h.isSome_eq
  cases hsignificance : d.significance with
  | some first =>
      rw [hsignificance] at hsome
      have hne : front length n count ≠ 0 := bne_iff_ne.1 hsome.symm
      refine ⟨first, ?_⟩
      rw [Draft.endFloat, if_pos (by rw [hsignificance]; rfl), anchored, if_neg hne,
        List.append_nil, ← h.text_eq, ← hsignificance, ← h.read_eq]
  | none =>
      rw [hsignificance] at hsome
      have hzero : front length n count = 0 := by simpa using hsome.symm
      refine ⟨d.read, ?_⟩
      rw [Draft.endFloat, if_neg (by rw [hsignificance]; decide), anchored, if_pos hzero,
        ← h.text_eq, ← h.read_eq]

/-- The operators behind the floating ones write the sign, unless a digit has
come before, and the last digit, even if it is zero. -/
theorem formats_end (h : Floats sign (count + 1) n d count) :
    ∃ final, Formats sign (Packed.columns (count + 1) n) [0x01, 0x91, 0x00] d final .finished ∧
      final.text = signed sign (count + 1) n ∧ final.read = count + 1 ∧
      final.significance.isSome = true := by
  have hplace : count + 1 - 1 - count = 0 := by omega
  have hall : 10 * front (count + 1) n count + Packed.digit n 0 = n := by
    have hsucc := front_succ (Nat.lt_succ_self count) n
    rw [hplace] at hsucc
    exact hsucc.symm.trans (front_self (count + 1) n)
  have htext := signed_push sign count (front (count + 1) n count) (Packed.digit_lt n 0)
  rw [hall] at htext
  obtain ⟨first, hended⟩ := h.endFloat
  have hmoves : Draft.moves sign false (Packed.columns (count + 1) n) 1 (d.endFloat sign).next =
      .ok ⟨signed sign (count + 1) n, count + 1, some first, d.followed + 1⟩ := by
    rw [hended, Draft.next, Draft.moves, Packed.getElem?_columns (Nat.lt_succ_self count), hplace,
      htext]
    rfl
  have hlast : Formats sign (Packed.columns (count + 1) n) [0x91, 0x00] (d.endFloat sign).next
      _ .finished := .move (by decide) hmoves (.finish [] _)
  exact ⟨_, .endFloat hlast, rfl, rfl, rfl⟩

end Floats

/-- A pattern for all columns but the last writes the numeral behind its sign. -/
theorem formats_pattern (sign : UInt8) {length : Nat} {counts : List Nat} (hn : n < 10 ^ length)
    (hcounts : ∀ count ∈ counts, 1 ≤ count ∧ count ≤ 15) (hsum : counts.sum + 1 = length) :
    ∃ final, Formats sign (Packed.columns length n) (pattern counts) .blank final .finished ∧
      final.text = signed sign length n ∧ final.read = length ∧
      final.significance.isSome = true := by
  subst hsum
  obtain ⟨d, hfloats, hformats⟩ := (Floats.blank sign hn).formats (by omega) hcounts
  rw [Nat.zero_add] at hfloats
  obtain ⟨final, hend, htext, hread, hsome⟩ := hfloats.formats_end
  exact ⟨final, hformats final .finished hend, htext, hread, hsome⟩

end Edit

end Vax
