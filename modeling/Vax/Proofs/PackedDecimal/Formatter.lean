import Vax.ByteOrder
/-!
# The reference formatter

What an edit writes is a function of the digits and of the pattern alone.  It
is given here over lists: each operator as it is documented, with no memory
and no addresses.
-/

namespace Vax.Edit

/-- How far a format has got. -/
structure Draft where
  text : List UInt8
  /-- How many digits were read. -/
  read : Nat
  /-- Which digit began significance, or would have been read next when the end
  of a float began it. -/
  significance : Option Nat
  /-- How many operators were followed. -/
  followed : Nat
  deriving DecidableEq

/-- What stops a format. -/
inductive Stop where
  | finished
  /-- A move asks for a digit behind the last. -/
  | exhausted
  | unknown (operator : UInt8)
  deriving DecidableEq

namespace Draft

def blank : Draft :=
  ⟨[], 0, none, 0⟩

/-- Moves a digit.  It is written once significance has begun, which the first
digit that is not zero does, and is a blank until then.  A floating move writes
the sign in front of the digit that begins significance. -/
def move (d : Draft) (sign : UInt8) (isFloating : Bool) (digit : UInt8) : Draft :=
  if d.significance.isSome then
    { d with text := d.text ++ [0x30 + digit], read := d.read + 1 }
  else if digit = 0 then
    { d with text := d.text ++ [0x20], read := d.read + 1 }
  else
    { d with
      text := d.text ++ (if isFloating then [sign] else []) ++ [0x30 + digit]
      read := d.read + 1
      significance := some d.read }

/-- Moves so many digits, or stops where they give out. -/
def moves (sign : UInt8) (isFloating : Bool) (digits : List UInt8) :
    Nat → Draft → Except Draft Draft
  | 0, d => .ok d
  | count + 1, d =>
    match digits[d.read]? with
    | some digit => moves sign isFloating digits count (d.move sign isFloating digit)
    | none => .error d

/-- Ends the float: begins significance, and writes the sign, unless it has
begun. -/
def endFloat (d : Draft) (sign : UInt8) : Draft :=
  if d.significance.isSome then d
  else { d with text := d.text ++ [sign], significance := some d.read }

/-- Goes on to the next operator. -/
def next (d : Draft) : Draft :=
  { d with followed := d.followed + 1 }

end Draft

/-- Formats digits by a pattern, going on from a draft.  A pattern that ends
before anything has stopped the format has no result. -/
def format (sign : UInt8) (digits : List UInt8) : List UInt8 → Draft → Option (Draft × Stop)
  | [], _ => none
  | operator :: pattern, d =>
    if operator = 0x00 then
      some (d, .finished)
    else if operator = 0x01 then
      format sign digits pattern (d.endFloat sign).next
    else if operator / 16 = 9 ∨ operator / 16 = 10 then
      match Draft.moves sign (operator / 16 = 10) digits (operator % 16).toNat d with
      | .ok moved => format sign digits pattern moved.next
      | .error moved => some (moved, .exhausted)
    else
      some (d, .unknown operator)

/-! ## What a format keeps -/

namespace Draft

variable {sign digit : UInt8} {isFloating : Bool} {digits : List UInt8} {count length : Nat}
  {d d' d'' : Draft}

/-- The draft goes on where another has stopped. -/
structure Extends (d d' : Draft) : Prop where
  text : d.text <+: d'.text
  read : d.read ≤ d'.read

namespace Extends

theorem refl (d : Draft) : d.Extends d :=
  ⟨List.prefix_refl _, Nat.le_refl _⟩

theorem trans (h : d.Extends d') (h' : d'.Extends d'') : d.Extends d'' :=
  ⟨h.text.trans h'.text, Nat.le_trans h.read h'.read⟩

end Extends

theorem move_of_significant {first : Nat} (h : d.significance = some first) :
    d.move sign isFloating digit =
      ⟨d.text ++ [0x30 + digit], d.read + 1, some first, d.followed⟩ := by
  rw [move, if_pos (by rw [h]; rfl), h]

theorem move_of_zero (h : d.significance = none) :
    d.move sign isFloating 0 = ⟨d.text ++ [0x20], d.read + 1, none, d.followed⟩ := by
  rw [move, if_neg (by rw [h]; decide), if_pos rfl, h]

theorem move_of_ne_zero (h : d.significance = none) (hdigit : digit ≠ 0) :
    d.move sign isFloating digit =
      ⟨d.text ++ (if isFloating then [sign] else []) ++ [0x30 + digit], d.read + 1, some d.read,
        d.followed⟩ := by
  rw [move, if_neg (by rw [h]; decide), if_neg hdigit]

theorem extends_move (d : Draft) (sign : UInt8) (isFloating : Bool) (digit : UInt8) :
    d.Extends (d.move sign isFloating digit) := by
  unfold move
  split
  · exact ⟨List.prefix_append _ _, Nat.le_succ _⟩
  · split
    · exact ⟨List.prefix_append _ _, Nat.le_succ _⟩
    · exact ⟨by rw [List.append_assoc]; exact List.prefix_append _ _, Nat.le_succ _⟩

theorem extends_endFloat (d : Draft) (sign : UInt8) : d.Extends (d.endFloat sign) := by
  unfold endFloat
  split
  · exact .refl d
  · exact ⟨List.prefix_append _ _, Nat.le_refl _⟩

theorem followed_endFloat (d : Draft) (sign : UInt8) :
    (d.endFloat sign).followed = d.followed := by
  unfold endFloat
  split <;> rfl

@[simp] theorem text_next (d : Draft) : d.next.text = d.text := rfl

@[simp] theorem read_next (d : Draft) : d.next.read = d.read := rfl

@[simp] theorem followed_next (d : Draft) : d.next.followed = d.followed + 1 := rfl

theorem extends_next (d : Draft) : d.Extends d.next :=
  ⟨List.prefix_refl _, Nat.le_refl _⟩

/-- A digit is never moved without a trace. -/
theorem length_text_lt_move (d : Draft) (sign : UInt8) (isFloating : Bool) (digit : UInt8) :
    d.text.length < (d.move sign isFloating digit).text.length := by
  unfold move
  split
  · simp only [List.length_append, List.length_singleton]
    omega
  · split
    · simp only [List.length_append, List.length_cons, List.length_nil]
      omega
    · simp only [List.length_append, List.length_singleton]
      omega

theorem followed_move (d : Draft) (sign : UInt8) (isFloating : Bool) (digit : UInt8) :
    (d.move sign isFloating digit).followed = d.followed := by
  unfold move
  split
  · rfl
  · split <;> rfl

theorem extends_of_moves (h : moves sign isFloating digits count d = .ok d') :
    d.Extends d' ∧ d'.followed = d.followed := by
  induction count generalizing d with
  | zero =>
      obtain rfl : d = d' := Except.ok.inj h
      exact ⟨.refl d, rfl⟩
  | succ count ih =>
      rw [moves] at h
      split at h
      · obtain ⟨hextends, hfollowed⟩ := ih h
        exact ⟨(d.extends_move _ _ _).trans hextends, hfollowed.trans (d.followed_move _ _ _)⟩
      · exact absurd h nofun

/-- Nor are digits. -/
theorem length_text_lt_of_moves (h : moves sign isFloating digits count d = .ok d')
    (hcount : count ≠ 0) : d.text.length < d'.text.length := by
  cases count with
  | zero => exact absurd rfl hcount
  | succ count =>
      rw [moves] at h
      split at h
      · exact Nat.lt_of_lt_of_le (d.length_text_lt_move _ _ _)
          (extends_of_moves h).1.text.length_le
      · exact absurd h nofun

theorem extends_of_moves_error (h : moves sign isFloating digits count d = .error d') :
    d.Extends d' ∧ d'.followed = d.followed := by
  induction count generalizing d with
  | zero => exact absurd h nofun
  | succ count ih =>
      rw [moves] at h
      split at h
      · obtain ⟨hextends, hfollowed⟩ := ih h
        exact ⟨(d.extends_move _ _ _).trans hextends, hfollowed.trans (d.followed_move _ _ _)⟩
      · obtain rfl : d = d' := Except.error.inj h
        exact ⟨.refl d, rfl⟩

/-- No more digits were read than there are, and no more was written than one
character for each and one sign. -/
structure Bounded (d : Draft) (length : Nat) : Prop where
  read : d.read ≤ length
  text : d.text.length ≤ d.read + d.significance.isSome.toNat

theorem bounded_blank (length : Nat) : blank.Bounded length :=
  ⟨Nat.zero_le _, Nat.le_refl _⟩

theorem Bounded.move (h : d.Bounded length) (hread : d.read < length) (sign : UInt8)
    (isFloating : Bool) (digit : UInt8) : (d.move sign isFloating digit).Bounded length := by
  have htext := h.text
  cases hsignificance : d.significance with
  | some first =>
      rw [move_of_significant hsignificance]
      rw [hsignificance] at htext
      exact ⟨hread, by simp at htext ⊢; omega⟩
  | none =>
      rw [hsignificance] at htext
      by_cases hzero : digit = 0
      · rw [hzero, move_of_zero hsignificance]
        exact ⟨hread, by simp at htext ⊢; omega⟩
      · rw [move_of_ne_zero hsignificance hzero]
        refine ⟨hread, ?_⟩
        cases isFloating <;> simp at htext ⊢ <;> omega

theorem Bounded.text_le (h : d.Bounded length) : d.text.length ≤ length + 1 := by
  have hsign : d.significance.isSome.toNat ≤ 1 := Bool.toNat_le _
  have hread := h.read
  have htext := h.text
  omega

end Draft

/-! ## A format as a relation -/

/-- The operator moves digits. -/
def Moves (operator : UInt8) : Prop :=
  operator / 16 = 9 ∨ operator / 16 = 10

instance (operator : UInt8) : Decidable (Moves operator) :=
  inferInstanceAs (Decidable (_ ∨ _))

/-- The operator stops a format in this way. -/
def Stop.StopsAt (operator : UInt8) : Stop → Prop
  | finished => operator = 0x00
  | exhausted => Moves operator ∧ operator % 16 ≠ 0
  | unknown other => other = operator ∧ ¬ Moves operator

/-- One rule for each operator: following the pattern from one draft leads to
another, where it stops. -/
inductive Formats (sign : UInt8) (digits : List UInt8) :
    List UInt8 → Draft → Draft → Stop → Prop where
  | finish (pattern : List UInt8) (d : Draft) :
    Formats sign digits (0x00 :: pattern) d d .finished
  | endFloat {pattern : List UInt8} {d final : Draft} {stop : Stop}
    (hrest : Formats sign digits pattern (d.endFloat sign).next final stop) :
    Formats sign digits (0x01 :: pattern) d final stop
  | move {operator : UInt8} {pattern : List UInt8} {d moved final : Draft} {stop : Stop}
    (hoperator : Moves operator)
    (hmoves : Draft.moves sign (operator / 16 = 10) digits (operator % 16).toNat d = .ok moved)
    (hrest : Formats sign digits pattern moved.next final stop) :
    Formats sign digits (operator :: pattern) d final stop
  | exhaust {operator : UInt8} (pattern : List UInt8) {d moved : Draft}
    (hoperator : Moves operator)
    (hmoves : Draft.moves sign (operator / 16 = 10) digits (operator % 16).toNat d =
      .error moved) :
    Formats sign digits (operator :: pattern) d moved .exhausted
  | refuse {operator : UInt8} (pattern : List UInt8) (d : Draft)
    (hoperator : operator ≠ 0x00 ∧ operator ≠ 0x01 ∧ ¬ Moves operator) :
    Formats sign digits (operator :: pattern) d d (.unknown operator)

theorem formats_of_format {sign : UInt8} {digits pattern : List UInt8} {d final : Draft}
    {stop : Stop} (h : format sign digits pattern d = some (final, stop)) :
    Formats sign digits pattern d final stop := by
  induction pattern generalizing d with
  | nil => exact absurd h nofun
  | cons operator pattern ih =>
      rw [format] at h
      split at h
      · next hfinish =>
          obtain ⟨rfl, rfl⟩ := Prod.mk.inj (Option.some.inj h)
          exact hfinish ▸ .finish pattern _
      · next hfinish =>
          split at h
          · next hend => exact hend ▸ .endFloat (ih h)
          · next hend =>
              split at h
              · next hoperator =>
                  split at h
                  · next hmoves => exact .move hoperator hmoves (ih h)
                  · next hmoves =>
                      obtain ⟨rfl, rfl⟩ := Prod.mk.inj (Option.some.inj h)
                      exact .exhaust pattern hoperator hmoves
              · next hoperator =>
                  obtain ⟨rfl, rfl⟩ := Prod.mk.inj (Option.some.inj h)
                  exact .refuse pattern _ ⟨hfinish, hend, hoperator⟩

namespace Formats

variable {sign : UInt8} {digits pattern : List UInt8} {d final : Draft} {stop : Stop}

theorem grows (h : Formats sign digits pattern d final stop) : d.Extends final := by
  induction h with
  | finish pattern d => exact .refl d
  | endFloat hrest ih => exact ((Draft.extends_endFloat _ _).trans (Draft.extends_next _)).trans ih
  | move hoperator hmoves hrest ih =>
      exact ((Draft.extends_of_moves hmoves).1.trans (Draft.extends_next _)).trans ih
  | exhaust pattern hoperator hmoves => exact (Draft.extends_of_moves_error hmoves).1
  | refuse pattern d hoperator => exact .refl d

/-- What stops the format is the operator behind those that were followed. -/
theorem stops (h : Formats sign digits pattern d final stop) :
    ∃ k operator, final.followed = d.followed + k ∧ pattern[k]? = some operator ∧
      stop.StopsAt operator := by
  induction h with
  | finish pattern d => exact ⟨0, _, rfl, rfl, rfl⟩
  | @endFloat pattern d final stop hrest ih =>
      obtain ⟨k, operator, hfollowed, hget, hstop⟩ := ih
      have hcount : (d.endFloat sign).next.followed = d.followed + 1 := by
        rw [Draft.followed_next, Draft.followed_endFloat]
      exact ⟨k + 1, operator, by omega, hget, hstop⟩
  | @move operator pattern d moved final stop hoperator hmoves hrest ih =>
      obtain ⟨k, other, hfollowed, hget, hstop⟩ := ih
      have hcount : moved.next.followed = d.followed + 1 := by
        rw [Draft.followed_next, (Draft.extends_of_moves hmoves).2]
      exact ⟨k + 1, other, by omega, hget, hstop⟩
  | exhaust pattern hoperator hmoves =>
      refine ⟨0, _, (Draft.extends_of_moves_error hmoves).2, rfl, hoperator, fun hzero => ?_⟩
      rw [hzero] at hmoves
      exact absurd hmoves nofun
  | refuse pattern d hoperator => exact ⟨0, _, rfl, rfl, rfl, hoperator.2.2⟩

theorem stops_of_blank (h : Formats sign digits pattern .blank final stop) :
    ∃ operator, pattern[final.followed]? = some operator ∧ stop.StopsAt operator := by
  obtain ⟨k, operator, hfollowed, hget, hstop⟩ := h.stops
  have hcount : final.followed = k := hfollowed.trans (Nat.zero_add k)
  exact ⟨operator, hcount ▸ hget, hstop⟩

/-- As long as nothing is written, all operators that are followed are moves of
no digits. -/
theorem silent (h : Formats sign digits pattern d final stop) (hnone : d.significance = none)
    (htext : final.text.length ≤ d.text.length) {k : Nat} (hk : d.followed + k < final.followed) :
    ∃ operator, pattern[k]? = some operator ∧ Moves operator ∧ operator % 16 = 0 := by
  induction h generalizing k with
  | finish pattern d => omega
  | @endFloat pattern d final stop hrest ih =>
      have hsign := hrest.grows.text.length_le
      have hgrown : d.text.length < (d.endFloat sign).next.text.length := by
        simp [Draft.next, Draft.endFloat, hnone]
      omega
  | @move operator pattern d moved final stop hoperator hmoves hrest ih =>
      have hgrown := hrest.grows.text.length_le
      by_cases hzero : operator % 16 = 0
      · rw [hzero] at hmoves
        obtain rfl : d = moved := Except.ok.inj hmoves
        cases k with
        | zero => exact ⟨operator, rfl, hoperator, hzero⟩
        | succ k => exact ih hnone htext (by rw [Draft.followed_next]; omega)
      · have hcount : (operator % 16).toNat ≠ 0 := fun heq =>
          hzero (UInt8.toNat_inj.1 heq)
        have hmoved := Draft.length_text_lt_of_moves hmoves hcount
        rw [Draft.text_next] at hgrown
        omega
  | exhaust pattern hoperator hmoves =>
      have hfollowed := (Draft.extends_of_moves_error hmoves).2
      omega
  | refuse pattern d hoperator => omega

end Formats

end Vax.Edit
