import Vax.Proofs.Machine.Listed
import Vax.Proofs.PackedDecimal.Contents
import Vax.Proofs.PackedDecimal.Formatter
import Vax.Proofs.PackedDecimal.Operands
/-!
# Edits and the reference formatter

An edit keeps in step with the reference formatter: each operator takes the
machine from a state that tracks a draft to one that tracks the next draft.
-/

namespace Vax

/-- A string of digits and a pattern in memory, and room for text that overlaps
neither. -/
structure Edit.Job where
  start : Memory
  source : UInt32
  length : Nat
  bytes : List UInt8
  program : UInt32
  pattern : List UInt8
  destination : UInt32
  room : Nat
  length_le : length ≤ 31
  length_bytes : bytes.length = length / 2 + 1
  holds_bytes : start.HoldsBytes source bytes
  holds_pattern : start.HoldsBytes program pattern
  covers : ∀ address ∈ area destination room, start.Covers address
  spares_bytes : ∀ address ∈ area source bytes.length, address ∉ area destination room
  spares_pattern : ∀ address ∈ area program pattern.length, address ∉ area destination room

namespace Exec

/-! ## Operators -/

variable {m : Machine} {p : Edit.Progress} {sign : UInt8} {operators : Nat}

theorem run_followPattern_moveDigits {count : Nat} {isFloating : Bool} {byte : UInt8}
    {moved : Edit.Progress} {after : Machine}
    (hmove : (moveDigits isFloating sign count p).run m = .ok moved after)
    (hread : m.memory.readByte p.pattern = .ok byte)
    (hbyte : Edit.Operator.ofByte? byte = some (.moveDigits count isFloating)) :
    (followPattern sign (operators + 1) p).run m =
      (followPattern sign operators { moved with pattern := moved.pattern + 1 }).run after := by
  rw [followPattern, run_bind_ok (run_readByte hread), hbyte]
  dsimp only
  rw [run_bind_ok hmove]

theorem run_followPattern_endFloat {ended : Edit.Progress} {after : Machine}
    (hend : (endFloat sign p).run m = .ok ended after)
    (hread : m.memory.readByte p.pattern = .ok 0x01) :
    (followPattern sign (operators + 1) p).run m =
      (followPattern sign operators { ended with pattern := ended.pattern + 1 }).run after := by
  rw [followPattern, run_bind_ok (run_readByte hread)]
  change (endFloat sign p >>= fun ended =>
    followPattern sign operators { ended with pattern := ended.pattern + 1 }).run m = _
  rw [run_bind_ok hend]

theorem run_followPattern_finish (hread : m.memory.readByte p.pattern = .ok 0x00) :
    (followPattern sign (operators + 1) p).run m = .ok p m := by
  rw [followPattern, run_bind_ok (run_readByte hread)]
  rfl

theorem run_followPattern_exhaust {count : Nat} {isFloating : Bool} {byte : UInt8}
    {cause : Fault.Cause} {after : Machine}
    (hmove : (moveDigits isFloating sign count p).run m = .error cause after)
    (hread : m.memory.readByte p.pattern = .ok byte)
    (hbyte : Edit.Operator.ofByte? byte = some (.moveDigits count isFloating)) :
    (followPattern sign (operators + 1) p).run m = .error cause after := by
  rw [followPattern, run_bind_ok (run_readByte hread), hbyte]
  dsimp only
  rw [run_bind_error hmove]

theorem run_followPattern_refuse {byte : UInt8} (hread : m.memory.readByte p.pattern = .ok byte)
    (hbyte : Edit.Operator.ofByte? byte = none) :
    (followPattern sign (operators + 1) p).run m = .error (.editPattern byte) m := by
  rw [followPattern, run_bind_ok (run_readByte hread), hbyte]
  rfl

end Exec

namespace Edit

theorem ofByte?_of_moves {operator : UInt8} (h : Moves operator) :
    Operator.ofByte? operator =
      some (.moveDigits (operator % 16).toNat (operator / 16 = 10)) := by
  have hall : ∀ n < 256, Moves (UInt8.ofNat n) → Operator.ofByte? (UInt8.ofNat n) =
      some (.moveDigits (UInt8.ofNat n % 16).toNat (UInt8.ofNat n / 16 = 10)) := by
    decide +kernel
  have hoperator := hall operator.toNat operator.toNat_lt
  rw [UInt8.ofNat_toNat] at hoperator
  exact hoperator h

theorem ofByte?_of_refused {operator : UInt8}
    (h : operator ≠ 0x00 ∧ operator ≠ 0x01 ∧ ¬ Moves operator) :
    Operator.ofByte? operator = none := by
  have hall : ∀ n < 256, UInt8.ofNat n ≠ 0x00 ∧ UInt8.ofNat n ≠ 0x01 ∧ ¬ Moves (UInt8.ofNat n) →
      Operator.ofByte? (UInt8.ofNat n) = none := by
    decide +kernel
  have hoperator := hall operator.toNat operator.toNat_lt
  rw [UInt8.ofNat_toNat] at hoperator
  exact hoperator h

/-- The fault that an edit stops with. -/
def Stop.cause? : Stop → Option Fault.Cause
  | finished => none
  | exhausted => some .decimalSourceExhausted
  | unknown operator => some (.editPattern operator)

theorem Stop.cause?_eq_exhausted {stop : Stop} :
    stop.cause? = some .decimalSourceExhausted ↔ stop = .exhausted := by
  cases stop <;> simp [cause?]

theorem Stop.cause?_eq_unknown {stop : Stop} {operator : UInt8} :
    stop.cause? = some (.editPattern operator) ↔ stop = .unknown operator := by
  cases stop <;> simp [cause?]

theorem Stop.cause?_eq_none {stop : Stop} : stop.cause? = none ↔ stop = .finished := by
  cases stop <;> simp [cause?]

/-- How following a pattern ends that has stopped. -/
def Stop.outcome (stop : Stop) (p : Progress) (m : Machine) :
    EStateM.Result Fault.Cause Machine Progress :=
  match stop with
  | finished => .ok p m
  | exhausted => .error .decimalSourceExhausted m
  | unknown operator => .error (.editPattern operator) m

/-- The address of the byte that holds digit `k` of a string. -/
def digitAddress (source : UInt32) (length k : Nat) : UInt32 :=
  source + UInt32.ofNat ((Packed.unused length + k) / 2)

namespace Job

variable (t : Job)

def digits : List UInt8 :=
  Packed.digits t.length t.bytes

def digitAddress (k : Nat) : UInt32 :=
  Edit.digitAddress t.source t.length k

variable {t} {m : Memory} {k : Nat} {byte : UInt8}

/-- Writing does not reach the digits. -/
theorem readByte_bytes (h : t.start.SameOutside m (area t.destination t.room))
    (hbyte : t.bytes[k]? = some byte) : m.readByte (t.source + UInt32.ofNat k) = .ok byte := by
  obtain ⟨hk, rfl⟩ := List.getElem?_eq_some_iff.1 hbyte
  rw [h.read _ (t.spares_bytes _ (mem_area hk))]
  exact t.holds_bytes k hk

/-- Nor the pattern. -/
theorem readByte_pattern (h : t.start.SameOutside m (area t.destination t.room))
    (hbyte : t.pattern[k]? = some byte) : m.readByte (t.program + UInt32.ofNat k) = .ok byte := by
  obtain ⟨hk, rfl⟩ := List.getElem?_eq_some_iff.1 hbyte
  rw [h.read _ (t.spares_pattern _ (mem_area hk))]
  exact t.holds_pattern k hk

end Job

/-- The state of an edit that has got as far as a draft. -/
structure Tracks (t : Job) (m : Memory) (p : Progress) (d : Draft) : Prop where
  remaining_eq : p.remaining = t.length - d.read
  source_eq : p.source = t.digitAddress d.read
  pattern_eq : p.pattern = t.program + UInt32.ofNat d.followed
  destination_eq : p.destination = t.destination + UInt32.ofNat d.text.length
  isZero_eq : p.isZero = (t.digits.take d.read).all (· == 0)
  significance_eq : p.significance = d.significance.map t.digitAddress
  writes : t.start.Writes m t.destination d.text
  bounded : d.Bounded t.length

namespace Tracks

variable {t : Job} {m : Memory} {p : Progress} {d : Draft}

theorem sameOutside (h : Tracks t m p d) (hroom : d.text.length ≤ t.room) :
    t.start.SameOutside m (area t.destination t.room) :=
  h.writes.same.mono (area_mono hroom)

/-- Reading a digit, which may begin significance. -/
theorem read (h : Tracks t m p d) {digit : UInt8} (hdigit : t.digits[d.read]? = some digit)
    (significance : Option Nat) :
    Tracks t m
      { p with
        remaining := t.length - (d.read + 1)
        source := t.digitAddress (d.read + 1)
        isZero := p.isZero && digit == 0
        significance := significance.map t.digitAddress }
      { d with read := d.read + 1, significance := significance } where
  remaining_eq := rfl
  source_eq := rfl
  pattern_eq := h.pattern_eq
  destination_eq := h.destination_eq
  isZero_eq := by
    rw [List.take_add_one, hdigit, List.all_append, ← h.isZero_eq]
    simp
  significance_eq := rfl
  writes := h.writes
  bounded := by
    have hread : d.read < t.digits.length := (List.getElem?_eq_some_iff.1 hdigit).1
    have hsign : d.significance.isSome.toNat ≤ 1 := Bool.toNat_le _
    have htext := h.bounded.text
    rw [Job.digits, Packed.length_digits t.length_bytes] at hread
    exact ⟨hread, by dsimp only; omega⟩

theorem next (h : Tracks t m p d) : Tracks t m { p with pattern := p.pattern + 1 } d.next where
  remaining_eq := h.remaining_eq
  source_eq := h.source_eq
  pattern_eq := by
    rw [h.pattern_eq, Draft.followed_next, UInt32.ofNat_add, UInt32.add_assoc]
    rfl
  destination_eq := h.destination_eq
  isZero_eq := h.isZero_eq
  significance_eq := h.significance_eq
  writes := h.writes
  bounded := ⟨h.bounded.read, h.bounded.text⟩

/-! ## Digits -/

section Run

open Exec

variable {m : Machine} {sign digit : UInt8} {isFloating : Bool} {count : Nat} {d' : Draft}

theorem read_lt (h : t.digits[d.read]? = some digit) : d.read < t.length := by
  have hlt := (List.getElem?_eq_some_iff.1 h).1
  rwa [Job.digits, Packed.length_digits t.length_bytes] at hlt

theorem run_nextDigit (h : Tracks t m.memory p d) (hroom : d.text.length ≤ t.room)
    (hdigit : t.digits[d.read]? = some digit) :
    (nextDigit p).run m =
      .ok (digit, { p with
        remaining := t.length - (d.read + 1), source := t.digitAddress (d.read + 1) }) m := by
  have hread := read_lt hdigit
  rw [Job.digits, Packed.getElem?_digits hread, Option.map_eq_some_iff] at hdigit
  obtain ⟨byte, hbyte, hhalf⟩ := hdigit
  have hbyteRead := Job.readByte_bytes (h.sameOutside hroom) hbyte
  have hne : ¬ p.remaining = 0 := by
    rw [h.remaining_eq]
    omega
  have hleft : p.remaining - 1 = t.length - (d.read + 1) := by
    rw [h.remaining_eq]
    omega
  have hsource := h.source_eq
  rw [Job.digitAddress, digitAddress] at hsource
  rw [← hsource] at hbyteRead
  rw [nextDigit, if_neg hne, run_bind_ok (run_readByte hbyteRead)]
  by_cases hhigh : (Packed.unused t.length + d.read) % 2 = 0
  · have hodd : p.remaining % 2 = 1 := by
      rw [h.remaining_eq]
      unfold Packed.unused at hhigh
      omega
    have hsame : p.source = t.digitAddress (d.read + 1) := by
      rw [hsource, Job.digitAddress, digitAddress]
      congr 2
      omega
    rw [if_pos hhigh] at hhalf
    rw [if_pos hodd, hleft, hhalf, ← hsame]
    rfl
  · have heven : ¬ p.remaining % 2 = 1 := by
      rw [h.remaining_eq]
      unfold Packed.unused at hhigh
      omega
    have hnext : p.source + 1 = t.digitAddress (d.read + 1) := by
      have hplace : (Packed.unused t.length + (d.read + 1)) / 2 =
          (Packed.unused t.length + d.read) / 2 + 1 := by omega
      rw [hsource, Job.digitAddress, digitAddress, hplace, UInt32.ofNat_add, UInt32.add_assoc]
      rfl
    rw [if_neg hhigh] at hhalf
    rw [if_neg heven, hleft, hhalf, hnext]
    rfl

theorem run_nextDigit_error (h : Tracks t m.memory p d) (hdigit : t.digits[d.read]? = none) :
    (nextDigit p).run m = .error .decimalSourceExhausted m := by
  have hread := List.getElem?_eq_none_iff.1 hdigit
  rw [Job.digits, Packed.length_digits t.length_bytes] at hread
  have hzero : p.remaining = 0 := by
    rw [h.remaining_eq]
    omega
  rw [nextDigit, if_pos hzero]
  rfl

theorem run_emit (h : Tracks t m.memory p d) (hroom : d.text.length < t.room) (character : UInt8)
    (hbounded : { d with text := d.text ++ [character] }.Bounded t.length) :
    ∃ memory, (emit p character).run m =
        .ok { p with destination := p.destination + 1 } (m.withMemory memory) ∧
      Tracks t memory { p with destination := p.destination + 1 }
        { d with text := d.text ++ [character] } := by
  have hlength := t.length_le
  have htext := h.bounded.text_le
  have hcovers := t.covers _ (mem_area hroom)
  obtain ⟨memory, hstore⟩ := Memory.exists_store ((h.writes.same.covers _).2 hcovers) character
  have hwrites := h.writes.push (by omega) hstore
  rw [← h.destination_eq] at hstore
  refine ⟨memory, ?_, h.remaining_eq, h.source_eq, h.pattern_eq, ?_, h.isZero_eq,
    h.significance_eq, hwrites, hbounded⟩
  · rw [emit, run_bind_ok (run_writeByte hstore)]
    rfl
  · rw [h.destination_eq, List.length_append, List.length_singleton, UInt32.ofNat_add,
      UInt32.add_assoc]
    rfl

/-- What a move writes, once it has read its digit. -/
theorem run_moveDigit_eq (h : Tracks t m.memory p d) (hdigit : t.digits[d.read]? = some digit)
    (hroom : d.text.length ≤ t.room) {begins : Bool}
    (hbegins : begins = (digit != 0 && d.significance.isNone)) {read : Progress}
    (hread : read = { p with
      remaining := t.length - (d.read + 1)
      source := t.digitAddress (d.read + 1)
      isZero := p.isZero && digit == 0
      significance :=
        (if begins then some d.read else d.significance).map t.digitAddress }) :
    (moveDigit isFloating sign p).run m =
      ((if begins && isFloating then emit read sign else pure read) >>= fun written =>
        emit written (character written.significance.isSome digit)).run m := by
  rw [moveDigit, run_bind_ok (h.run_nextDigit hroom hdigit)]
  dsimp only
  have hnone : (digit != 0 && p.significance.isNone) = begins := by
    rw [hbegins, h.significance_eq, Option.isNone_map]
  have hsignificance : (if begins then some p.source else p.significance) =
      (if begins then some d.read else d.significance).map t.digitAddress := by
    rw [h.source_eq, h.significance_eq]
    cases begins <;> rfl
  rw [hnone, hsignificance, hread]
  by_cases hsign : (begins && isFloating) = true
  · rw [if_pos hsign, if_pos hsign]
  · rw [if_neg hsign, if_neg hsign]

theorem run_moveDigit (h : Tracks t m.memory p d) (hdigit : t.digits[d.read]? = some digit)
    (hroom : (d.move sign isFloating digit).text.length ≤ t.room) :
    ∃ p' memory, (moveDigit isFloating sign p).run m = .ok p' (m.withMemory memory) ∧
      Tracks t memory p' (d.move sign isFloating digit) := by
  have hgrown := d.length_text_lt_move sign isFloating digit
  have hbefore : d.text.length < t.room := by omega
  have hmoved := h.bounded.move (read_lt hdigit) sign isFloating digit
  cases hsignificance : d.significance with
  | some first =>
      have hbegins : false = (digit != 0 && d.significance.isNone) := by
        rw [hsignificance, Option.isNone_some, Bool.and_false]
      rw [Draft.move_of_significant hsignificance] at hmoved ⊢
      rw [h.run_moveDigit_eq hdigit (by omega) hbegins rfl, Bool.false_and, if_neg (by decide),
        if_neg (by decide), pure_bind, hsignificance]
      obtain ⟨memory, hrun, htracks⟩ :=
        (h.read hdigit (some first)).run_emit hbefore (0x30 + digit) hmoved
      exact ⟨_, memory, hrun, htracks⟩
  | none =>
      by_cases hzero : digit = 0
      · subst hzero
        have hbegins : false = ((0 : UInt8) != 0 && d.significance.isNone) := by
          rw [bne_self_eq_false, Bool.false_and]
        rw [Draft.move_of_zero hsignificance] at hmoved ⊢
        rw [h.run_moveDigit_eq hdigit (by omega) hbegins rfl, Bool.false_and, if_neg (by decide),
          if_neg (by decide), pure_bind, hsignificance]
        obtain ⟨memory, hrun, htracks⟩ := (h.read hdigit none).run_emit hbefore 0x20 hmoved
        exact ⟨_, memory, hrun, htracks⟩
      · have hbegins : true = (digit != 0 && d.significance.isNone) := by
          rw [hsignificance, Option.isNone_none, Bool.and_true, bne_iff_ne.2 hzero]
        have hread := h.read hdigit (some d.read)
        rw [Draft.move_of_ne_zero hsignificance hzero] at hmoved hroom ⊢
        rw [h.run_moveDigit_eq hdigit (by omega) hbegins rfl, Bool.true_and, if_pos rfl]
        cases isFloating with
        | false =>
            simp only [Bool.false_eq_true, reduceIte, List.append_nil, pure_bind] at hmoved ⊢
            obtain ⟨memory, hrun, htracks⟩ := hread.run_emit hbefore (0x30 + digit) hmoved
            exact ⟨_, memory, hrun, htracks⟩
        | true =>
            simp only [reduceIte] at hmoved hroom ⊢
            have hsign : { d with
                text := d.text ++ [sign], read := d.read + 1, significance := some d.read }.Bounded
                t.length := ⟨hmoved.read, by have htext := hmoved.text; simp at htext ⊢; omega⟩
            obtain ⟨marked, hrun, hmarked⟩ := hread.run_emit hbefore sign hsign
            obtain ⟨memory, hrun', htracks⟩ := run_emit (m := m.withMemory marked) hmarked
              (by simp at hroom ⊢; omega) (0x30 + digit) hmoved
            rw [run_bind_ok hrun]
            exact ⟨_, memory, hrun', htracks⟩

theorem run_moveDigits (h : Tracks t m.memory p d)
    (hmoves : Draft.moves sign isFloating t.digits count d = .ok d')
    (hroom : d'.text.length ≤ t.room) :
    ∃ p' memory, (moveDigits isFloating sign count p).run m = .ok p' (m.withMemory memory) ∧
      Tracks t memory p' d' := by
  induction count generalizing m p d with
  | zero =>
      obtain rfl : d = d' := Except.ok.inj hmoves
      exact ⟨p, m.memory, rfl, h⟩
  | succ count ih =>
      rw [Draft.moves] at hmoves
      split at hmoves
      · next digit hdigit =>
          have hgrown := (Draft.extends_of_moves hmoves).1.text.length_le
          obtain ⟨moved, memory, hmove, hmoved⟩ :=
            h.run_moveDigit hdigit (Nat.le_trans hgrown hroom)
          obtain ⟨p', last, hrest, hlast⟩ := ih (m := m.withMemory memory) hmoved hmoves
          refine ⟨p', last, ?_, hlast⟩
          rw [moveDigits, run_bind_ok hmove]
          exact hrest
      · cases hmoves

theorem run_moveDigits_error (h : Tracks t m.memory p d)
    (hmoves : Draft.moves sign isFloating t.digits count d = .error d')
    (hroom : d'.text.length ≤ t.room) :
    ∃ p' memory, (moveDigits isFloating sign count p).run m =
        .error .decimalSourceExhausted (m.withMemory memory) ∧
      Tracks t memory p' d' := by
  induction count generalizing m p d with
  | zero => cases hmoves
  | succ count ih =>
      rw [Draft.moves] at hmoves
      split at hmoves
      · next digit hdigit =>
          have hgrown := (Draft.extends_of_moves_error hmoves).1.text.length_le
          obtain ⟨moved, memory, hmove, hmoved⟩ :=
            h.run_moveDigit hdigit (Nat.le_trans hgrown hroom)
          obtain ⟨p', last, hrest, hlast⟩ := ih (m := m.withMemory memory) hmoved hmoves
          refine ⟨p', last, ?_, hlast⟩
          rw [moveDigits, run_bind_ok hmove]
          exact hrest
      · next hdigit =>
          obtain rfl : d = d' := Except.error.inj hmoves
          refine ⟨p, m.memory, ?_, h⟩
          rw [moveDigits, moveDigit]
          exact run_bind_error (run_bind_error (h.run_nextDigit_error hdigit))

/-! ## Operators -/

theorem run_endFloat (h : Tracks t m.memory p d) (hroom : (d.endFloat sign).text.length ≤ t.room) :
    ∃ p' memory, (endFloat sign p).run m = .ok p' (m.withMemory memory) ∧
      Tracks t memory p' (d.endFloat sign) := by
  have hp := h.significance_eq
  rw [endFloat, hp]
  cases hsignificance : d.significance with
  | some first =>
      have hdraft : d.endFloat sign = d := by
        rw [Draft.endFloat, if_pos (by rw [hsignificance]; rfl)]
      rw [hdraft]
      exact ⟨p, m.memory, rfl, h⟩
  | none =>
      have hdraft : d.endFloat sign =
          { d with text := d.text ++ [sign], significance := some d.read } := by
        rw [Draft.endFloat, if_neg (by rw [hsignificance]; decide)]
      have htext := h.bounded.text
      rw [hsignificance] at htext
      have hbegun : Tracks t m.memory { p with significance := some p.source }
          { d with significance := some d.read } :=
        ⟨h.remaining_eq, h.source_eq, h.pattern_eq, h.destination_eq, h.isZero_eq,
          congrArg some h.source_eq, h.writes, h.bounded.read, by simp at htext ⊢; omega⟩
      rw [hdraft] at hroom ⊢
      obtain ⟨memory, hrun, htracks⟩ := hbegun.run_emit (by simp at hroom ⊢; omega) sign
        ⟨h.bounded.read, by simp at htext ⊢; omega⟩
      exact ⟨_, memory, hrun, htracks⟩

theorem readByte_pattern (h : Tracks t m.memory p d) (hroom : d.text.length ≤ t.room)
    {operator : UInt8} {rest : List UInt8}
    (hpattern : operator :: rest = t.pattern.drop d.followed) :
    m.memory.readByte p.pattern = .ok operator ∧ rest = t.pattern.drop (d.followed + 1) := by
  have hget : t.pattern[d.followed]? = some operator := by
    rw [← List.head?_drop, ← hpattern, List.head?_cons]
  constructor
  · rw [h.pattern_eq]
    exact Job.readByte_pattern (h.sameOutside hroom) hget
  · rw [← List.tail_drop, ← hpattern, List.tail_cons]

/-- An edit follows the pattern as the reference formatter does, and stops
where it stops. -/
theorem run_followPattern {final : Draft} {stop : Stop} {pattern : List UInt8} {operators : Nat}
    (hformats : Formats sign t.digits pattern d final stop) (h : Tracks t m.memory p d)
    (hpattern : pattern = t.pattern.drop d.followed) (hroom : final.text.length ≤ t.room)
    (hoperators : final.followed < d.followed + operators) :
    ∃ p' memory, (followPattern sign operators p).run m = stop.outcome p' (m.withMemory memory) ∧
      Tracks t memory p' final := by
  induction operators generalizing m p d pattern with
  | zero =>
      obtain ⟨k, -, hfollowed, -⟩ := hformats.stops
      omega
  | succ operators ih =>
      have hgrown := hformats.grows.text.length_le
      cases hformats with
      | finish rest d =>
          obtain ⟨hread, -⟩ := h.readByte_pattern hroom hpattern
          exact ⟨p, m.memory, run_followPattern_finish hread, h⟩
      | @endFloat rest d final stop hrest =>
          obtain ⟨hread, hnext⟩ := h.readByte_pattern (by omega) hpattern
          have hbefore := hrest.grows.text.length_le
          have hroom' : (d.endFloat sign).text.length ≤ t.room := by
            rw [Draft.text_next] at hbefore
            omega
          obtain ⟨ended, marked, hend, hended⟩ := h.run_endFloat hroom'
          obtain ⟨p', memory, hrun, hlast⟩ := ih (m := m.withMemory marked) hrest hended.next
            (by rw [hnext, Draft.followed_next, Draft.followed_endFloat])
            (by rw [Draft.followed_next, Draft.followed_endFloat]; omega)
          refine ⟨p', memory, ?_, hlast⟩
          rw [run_followPattern_endFloat hend hread]
          exact hrun
      | @move operator rest d moved final stop hoperator hmoves hrest =>
          obtain ⟨hread, hnext⟩ := h.readByte_pattern (by omega) hpattern
          have hbefore := hrest.grows.text.length_le
          have hfollowed := (Draft.extends_of_moves hmoves).2
          obtain ⟨moving, written, hmove, hmoving⟩ := h.run_moveDigits hmoves
            (by simp at hbefore; omega)
          obtain ⟨p', memory, hrun, hlast⟩ := ih (m := m.withMemory written) hrest hmoving.next
            (by rw [hnext, Draft.followed_next, hfollowed])
            (by rw [Draft.followed_next, hfollowed]; omega)
          refine ⟨p', memory, ?_, hlast⟩
          rw [run_followPattern_moveDigits hmove hread (ofByte?_of_moves hoperator)]
          exact hrun
      | @exhaust operator rest d moved hoperator hmoves =>
          obtain ⟨hread, -⟩ := h.readByte_pattern (by omega) hpattern
          obtain ⟨p', memory, hmove, hlast⟩ := h.run_moveDigits_error hmoves hroom
          exact ⟨p', memory,
            run_followPattern_exhaust hmove hread (ofByte?_of_moves hoperator), hlast⟩
      | @refuse operator rest d hoperator =>
          obtain ⟨hread, -⟩ := h.readByte_pattern hroom hpattern
          exact ⟨p, m.memory, run_followPattern_refuse hread (ofByte?_of_refused hoperator), h⟩

end Run

end Tracks

theorem tracks_blank (t : Job) :
    Tracks t t.start ⟨t.length, t.source, t.program, t.destination, true, none⟩ .blank where
  remaining_eq := rfl
  source_eq := by
    have hfirst : (Packed.unused t.length + 0) / 2 = 0 := by
      unfold Packed.unused
      omega
    rw [Job.digitAddress, digitAddress, Draft.blank, hfirst]
    exact (UInt32.add_zero _).symm
  pattern_eq := (UInt32.add_zero _).symm
  destination_eq := (UInt32.add_zero _).symm
  isZero_eq := rfl
  significance_eq := rfl
  writes := .nil _ _
  bounded := Draft.bounded_blank _

/-- No operator that a format follows without writing anything can stop it. -/
theorem Stop.not_stopsAt {stop : Stop} {operator : UInt8} (hmoves : Moves operator)
    (hcount : operator % 16 = 0) : ¬ stop.StopsAt operator := by
  cases stop with
  | finished =>
      rintro rfl
      exact absurd hmoves (by decide)
  | exhausted => exact fun hstops => hstops.2 hcount
  | unknown other => exact fun hstops => hstops.2 hmoves

section Fuel

variable {t : Job} {sign : UInt8} {final : Draft} {stop : Stop}
  (h : Formats sign t.digits t.pattern .blank final stop) (hroom : t.room = final.text.length)

include h hroom

/-- A pattern that fills the address space leaves no room for text, and goes on
as it began. -/
theorem followed_lt : final.followed < 2 ^ 32 := by
  obtain ⟨operator, hget, hstops⟩ := h.stops_of_blank
  refine Nat.lt_of_not_le fun hle => ?_
  obtain ⟨hend, rfl⟩ := List.getElem?_eq_some_iff.1 hget
  have hempty : t.room = 0 := by
    refine Nat.eq_zero_of_not_pos fun hpos => ?_
    have hwhole : t.destination ∈ area t.program t.pattern.length :=
      Nat.lt_of_lt_of_le (UInt32.toNat_lt _) (Nat.le_trans hle (Nat.le_of_lt hend))
    have hfirst : t.destination ∈ area t.destination t.room := by
      change (t.destination - t.destination).toNat < t.room
      rw [UInt32.sub_self]
      exact hpos
    exact t.spares_pattern _ hwhole hfirst
  obtain ⟨j, hfollowed⟩ := Nat.exists_eq_add_of_le' hle
  have hearlier : j < t.pattern.length := by omega
  have hplace : UInt32.ofNat final.followed = UInt32.ofNat j := by
    apply UInt32.toNat_inj.1
    rw [hfollowed, UInt32.toNat_ofNat', UInt32.toNat_ofNat', Nat.add_mod_right]
  have hread := t.holds_pattern _ hend
  rw [hplace, t.holds_pattern _ hearlier] at hread
  have hbefore : Draft.blank.followed + j < final.followed := by
    change 0 + j < final.followed
    omega
  obtain ⟨silent, hsilent, hmoves, hcount⟩ := h.silent rfl (by omega) hbefore
  rw [List.getElem?_eq_getElem hearlier, Except.ok.inj hread] at hsilent
  obtain rfl := Option.some.inj hsilent
  exact Stop.not_stopsAt hmoves hcount hstops

theorem followed_lt_size : final.followed < t.start.size := by
  have hlt := followed_lt h hroom
  obtain ⟨operator, hget, -⟩ := h.stops_of_blank
  obtain ⟨hend, -⟩ := List.getElem?_eq_some_iff.1 hget
  have hlength : (t.pattern.take (final.followed + 1)).length = final.followed + 1 := by
    rw [List.length_take]
    omega
  have hholds : t.start.HoldsBytes t.program (t.pattern.take (final.followed + 1)) := by
    intro i hi
    rw [List.getElem_take]
    exact t.holds_pattern i (by omega)
  have hsize := Memory.length_le_size hholds (by omega)
  omega

end Fuel

end Edit

namespace Exec

open Edit

/-- The registers that an edit leaves. -/
def editRegisters (registers : Registers) (length : Nat) (isNegative : Bool) (p : Progress) :
    Registers :=
  ((((((registers.set 0 (UInt32.ofNat length)).set 1 (p.significance.getD 0)).set 2 0).set 3
    p.pattern).set 4 0).set 5 p.destination).setFlags
      ⟨isNegative && !p.isZero, p.isZero, p.remaining != 0, p.significance.isSome⟩

section EditRegisters

variable (registers : Registers) (length : Nat) (isNegative : Bool) (p : Progress)

theorem get_editRegisters_of_lt {r : Register} (hr : 5 < r.val) :
    (editRegisters registers length isNegative p).get r = registers.get r := by
  have hne : ∀ s : Register, s.val ≤ 5 → s ≠ r := by
    rintro s hs rfl
    omega
  rw [editRegisters, Registers.get_setFlags, Registers.get_set_of_ne _ _ (hne 5 (by decide)),
    Registers.get_set_of_ne _ _ (hne 4 (by decide)),
    Registers.get_set_of_ne _ _ (hne 3 (by decide)),
    Registers.get_set_of_ne _ _ (hne 2 (by decide)),
    Registers.get_set_of_ne _ _ (hne 1 (by decide)),
    Registers.get_set_of_ne _ _ (hne 0 (by decide))]

variable {p} {t : Job} {m : Memory} {d : Draft}

/-- The registers point to where the edit has got. -/
theorem get_editRegisters (h : Tracks t m p d) :
    (editRegisters registers t.length isNegative p).get 0 = UInt32.ofNat t.length ∧
      (editRegisters registers t.length isNegative p).get 1 =
        (d.significance.map t.digitAddress).getD 0 ∧
      (editRegisters registers t.length isNegative p).get 2 = 0 ∧
      (editRegisters registers t.length isNegative p).get 3 =
        t.program + UInt32.ofNat d.followed ∧
      (editRegisters registers t.length isNegative p).get 4 = 0 ∧
      (editRegisters registers t.length isNegative p).get 5 =
        t.destination + UInt32.ofNat d.text.length := by
  rw [← h.significance_eq, ← h.pattern_eq, ← h.destination_eq]
  simp [editRegisters, Registers.get_set]

/-- The condition codes say what was read of the digits. -/
theorem flags_editRegisters (h : Tracks t m p d) :
    (editRegisters registers t.length isNegative p).flags =
      ⟨isNegative && !(t.digits.take d.read).all (· == 0), (t.digits.take d.read).all (· == 0),
        d.read != t.length, d.significance.isSome⟩ := by
  have hleft : (p.remaining != 0) = (d.read != t.length) := by
    have hread := h.bounded.read
    rw [h.remaining_eq, Bool.eq_iff_iff, bne_iff_ne, bne_iff_ne]
    omega
  rw [editRegisters, Registers.flags_setFlags, hleft, h.isZero_eq, h.significance_eq,
    Option.isSome_map]

end EditRegisters

theorem run_editString_of_formats {t : Job} {m : Machine} {i : Instruction} {final : Draft}
    {stop : Stop} (hstart : t.start = m.memory)
    (hformats : Formats (signCharacter (Packed.isMinus t.bytes)) t.digits t.pattern .blank
      final stop) (hroom : t.room = final.text.length) :
    ∃ p memory, Tracks t memory p final ∧
      (stop.cause? = none →
        (editString i t.length t.source t.program t.destination).run m =
          .ok () ((m.withMemory memory).withRegisters
            (editRegisters m.registers t.length (Packed.isMinus t.bytes) p))) ∧
      ∀ cause, stop.cause? = some cause →
        (editString i t.length t.source t.program t.destination).run m =
          .error cause (m.withMemory memory) := by
  have hallowed : ¬ Packed.maxDigits < t.length := Nat.not_lt.2 t.length_le
  have hlast : t.length / 2 < t.bytes.length := by
    rw [t.length_bytes]
    exact Nat.lt_succ_self _
  have hsign : Packed.isMinus t.bytes = Packed.isNegative t.bytes[t.length / 2] := by
    apply Packed.isMinus_eq
    rw [List.getLast?_eq_getElem?, t.length_bytes, Nat.add_sub_cancel,
      List.getElem?_eq_getElem hlast]
  have hread := t.holds_bytes _ hlast
  have hsize := followed_lt_size hformats hroom
  rw [hstart] at hread hsize
  have hoperators : final.followed < Draft.blank.followed + (m.memory.size + 1) := by
    rw [Draft.blank]
    omega
  obtain ⟨p, memory, hfollow, htracks⟩ := Tracks.run_followPattern (m := m.withMemory t.start)
    hformats (tracks_blank t) rfl (Nat.le_of_eq hroom.symm) hoperators
  have hm : m.withMemory t.start = m := by rw [hstart]; rfl
  rw [hm] at hfollow
  refine ⟨p, memory, htracks, fun hstop => ?_, fun cause hstop => ?_⟩
  all_goals
    rw [editString]
    dsimp only
    rw [if_neg hallowed, run_bind_ok (run_readByte hread), ← hsign]
    change (followPattern _ (m.memory.size + 1) _ >>= _).run m = _
  · cases stop with
    | finished =>
      rw [run_bind_ok hfollow]
      rfl
    | exhausted => exact absurd hstop (Option.some_ne_none _)
    | unknown operator => exact absurd hstop (Option.some_ne_none _)
  · cases stop with
    | finished => exact absurd hstop.symm (Option.some_ne_none _)
    | exhausted =>
      obtain rfl := Option.some.inj hstop
      exact run_bind_error hfollow
    | unknown operator =>
      obtain rfl := Option.some.inj hstop
      exact run_bind_error hfollow

end Exec

open Exec Edit

/-- An edit does what the reference formatter does with the digits and the
pattern.  It writes the text and nothing else, points `r1`, `r3` and `r5` to the
digit that began significance, to the end of the pattern and behind the text,
and faults exactly as the formatter stops. -/
theorem edit_equals_reference_formatter {m located : Machine} {i : Instruction} {length : Nat}
    {source program destination : UInt32} {bytes pattern : List UInt8} {final : Draft} {stop : Stop}
    (hrunning : m.status = .running) (hfetch : m.memory.instructionAt m.registers.pc = .ok i)
    (haction : i.descriptor.action = .editPacked)
    (hoperands : (editOperands i).run (m.fetched i) =
      .ok (length, source, program, destination) located)
    (hlength : length ≤ 31) (hbytes : bytes.length = length / 2 + 1)
    (hsource : m.memory.HoldsBytes source bytes) (hprogram : m.memory.HoldsBytes program pattern)
    (hformat : format (if Packed.isMinus bytes then 0x2d else 0x20) (Packed.digits length bytes)
      pattern .blank = some (final, stop))
    (hcovers : ∀ address ∈ area destination final.text.length, m.memory.Covers address)
    (hsourceSpared : ∀ address ∈ area source bytes.length,
      address ∉ area destination final.text.length)
    (hprogramSpared : ∀ address ∈ area program pattern.length,
      address ∉ area destination final.text.length) :
    m.memory.Writes m.step.memory destination final.text ∧
    (stop = .finished →
      m.step.status = .running ∧
      m.step.registers.get 0 = UInt32.ofNat length ∧
      m.step.registers.get 1 = (final.significance.map (digitAddress source length)).getD 0 ∧
      m.step.registers.get 2 = 0 ∧
      pattern[final.followed]? = some 0x00 ∧
      m.step.registers.get 3 = program + UInt32.ofNat final.followed ∧
      m.step.registers.get 4 = 0 ∧
      m.step.registers.get 5 = destination + UInt32.ofNat final.text.length ∧
      (let isZero := ((Packed.digits length bytes).take final.read).all (· == 0)
      m.step.registers.flags =
        ⟨Packed.isMinus bytes && !isZero, isZero, final.read != length,
          final.significance.isSome⟩) ∧
      ∀ r : Register, 5 < r.val → m.step.registers.get r = located.registers.get r) ∧
    (stop ≠ .finished → m.step.registers = located.registers) ∧
    (m.step.status = .faulted ⟨m.registers.pc, .decimalSourceExhausted⟩ ↔ stop = .exhausted) ∧
    ∀ operator, m.step.status = .faulted ⟨m.registers.pc, .editPattern operator⟩ ↔
      stop = .unknown operator := by
  have hlocated := (evaluates_editOperands i).differsIn hoperands
  obtain ⟨hmemory, hstatus, hcurrent⟩ := Machine.eq_of_located hlocated
  rw [← hmemory] at hsource hprogram hcovers ⊢
  have hformats := formats_of_format hformat
  let t : Job :=
    { start := located.memory, source, length, bytes, program, pattern, destination
      room := final.text.length
      length_le := hlength
      length_bytes := hbytes
      holds_bytes := hsource
      holds_pattern := hprogram
      covers := hcovers
      spares_bytes := hsourceSpared
      spares_pattern := hprogramSpared }
  obtain ⟨p, memory, htracks, hfinished, hfaulted⟩ :=
    run_editString_of_formats (t := t) (i := i) rfl hformats rfl
  have hexecute := execute_editPacked haction
  cases hcause : stop.cause? with
  | none =>
      obtain rfl := Stop.cause?_eq_none.1 hcause
      have hstep := Machine.step_of_stages hrunning hfetch hexecute hoperands (hfinished hcause)
      have hstatus' : m.step.status = .running := by
        rw [hstep]
        exact hstatus.trans hrunning
      obtain ⟨operator, hget, hstops⟩ := hformats.stops_of_blank
      have hend : pattern[final.followed]? = some 0x00 := hget.trans (congrArg some hstops)
      obtain ⟨h0, h1, h2, h3, h4, h5⟩ :=
        get_editRegisters located.registers (Packed.isMinus bytes) htracks
      have hflags := flags_editRegisters located.registers (Packed.isMinus bytes) htracks
      refine ⟨?_, fun _ => ?_, fun hne => absurd rfl hne, ?_, fun operator => ?_⟩
      · rw [hstep]
        exact htracks.writes
      · rw [hstep]
        exact ⟨hstatus.trans hrunning, h0, h1, h2, hend, h3, h4, h5, hflags,
          fun r hr => get_editRegisters_of_lt _ _ _ _ hr⟩
      · rw [hstatus']
        exact ⟨nofun, nofun⟩
      · rw [hstatus']
        exact ⟨nofun, nofun⟩
  | some cause =>
      obtain ⟨log, hstep⟩ := Machine.step_of_stages_error hrunning hfetch hexecute hoperands
        (hfaulted cause hcause)
      have hfault : ∀ other, m.step.status = .faulted ⟨m.registers.pc, other⟩ ↔
          stop.cause? = some other := by
        intro other
        rw [hstep, ← hcurrent, hcause]
        simp [Machine.withMemory]
      have hne : stop ≠ .finished := by
        rintro rfl
        exact absurd hcause nofun
      rw [hfault, Stop.cause?_eq_exhausted]
      refine ⟨?_, fun hfinish => absurd hfinish hne, fun _ => ?_, Iff.rfl, fun operator => ?_⟩
      · rw [hstep]
        exact htracks.writes
      · rw [hstep]
        rfl
      · rw [hfault, Stop.cause?_eq_unknown]

/-- Programs that edit two negative numbers of five digits and leave the last
digit.  The first floats its sign in a move, the second has it written where the
float ends. -/
theorem edit_equals_reference_formatter_floating :
    let m (bytes : List UInt8) : Machine :=
      { registers := ((Registers.zeroed.set 6 8).set 7 12).set 8 16
        memory := ⟨0, 32, ([0x38, 0x05, 0x66, 0x67, 0x68, 0, 0, 0] ++ bytes ++
          [0, 0xa3, 0x01, 0x91, 0x00]).toByteArray⟩
        symbols := .empty, entry := 0, status := .running, frames := #[],
        output := .unlimited, log := .empty none, current := 0 }
    let moved := m [0x01, 0x23, 0x4d]
    let ended := m [0x00, 0x01, 0x2d]
    (moved.memory.Writes moved.step.memory 16 [0x20, 0x2d, 0x31, 0x32, 0x33] ∧
      moved.step.status = .running ∧ moved.step.registers.get 1 = 8 ∧
      moved.step.registers.get 3 = 15 ∧ moved.step.registers.get 5 = 21 ∧
      moved.step.registers.flags = ⟨true, false, true, true⟩) ∧
    ended.memory.Writes ended.step.memory 16 [0x20, 0x20, 0x20, 0x2d, 0x31] ∧
      ended.step.status = .running ∧ ended.step.registers.get 1 = 9 ∧
      ended.step.registers.get 3 = 15 ∧ ended.step.registers.get 5 = 21 ∧
      ended.step.registers.flags = ⟨true, false, true, true⟩ := by
  intro m moved ended
  let i : Instruction :=
    { address := 0, length := 5
      descriptor := ⟨0x38, "editpc", [.word, .byte, .byte, .byte], .editPacked⟩
      operands := [⟨.word, .plain (.literal 5)⟩, ⟨.byte, .plain (.deferred 6)⟩,
        ⟨.byte, .plain (.deferred 7)⟩, ⟨.byte, .plain (.deferred 8)⟩] }
  constructor
  · have hfetch : moved.memory.instructionAt moved.registers.pc = .ok i :=
      Memory.instructionAt_of_toOption (by decide +kernel)
    obtain ⟨located, hoperands⟩ : ∃ located, (editOperands i).run (moved.fetched i) =
        .ok (5, 8, 12, 16) located := exists_run (by decide +kernel)
    have hformat : format (if Packed.isMinus [0x01, 0x23, 0x4d] then 0x2d else 0x20)
        (Packed.digits 5 [0x01, 0x23, 0x4d]) [0xa3, 0x01, 0x91, 0x00] .blank =
          some (⟨[0x20, 0x2d, 0x31, 0x32, 0x33], 4, some 1, 3⟩, .finished) := by
      decide +kernel
    obtain ⟨hwrites, hfinished, -⟩ := edit_equals_reference_formatter rfl hfetch rfl hoperands
      (by decide) rfl (by decide +kernel) (by decide +kernel) hformat
      (forall_mem_area (by decide +kernel)) (forall_mem_area (by decide +kernel))
      (forall_mem_area (by decide +kernel))
    obtain ⟨hstatus, -, hfirst, -, -, hend, -, hbehind, hflags, -⟩ := hfinished rfl
    exact ⟨hwrites, hstatus, hfirst, hend, hbehind, hflags⟩
  · have hfetch : ended.memory.instructionAt ended.registers.pc = .ok i :=
      Memory.instructionAt_of_toOption (by decide +kernel)
    obtain ⟨located, hoperands⟩ : ∃ located, (editOperands i).run (ended.fetched i) =
        .ok (5, 8, 12, 16) located := exists_run (by decide +kernel)
    have hformat : format (if Packed.isMinus [0x00, 0x01, 0x2d] then 0x2d else 0x20)
        (Packed.digits 5 [0x00, 0x01, 0x2d]) [0xa3, 0x01, 0x91, 0x00] .blank =
          some (⟨[0x20, 0x20, 0x20, 0x2d, 0x31], 4, some 3, 3⟩, .finished) := by
      decide +kernel
    obtain ⟨hwrites, hfinished, -⟩ := edit_equals_reference_formatter rfl hfetch rfl hoperands
      (by decide) rfl (by decide +kernel) (by decide +kernel) hformat
      (forall_mem_area (by decide +kernel)) (forall_mem_area (by decide +kernel))
      (forall_mem_area (by decide +kernel))
    obtain ⟨hstatus, -, hfirst, -, -, hend, -, hbehind, hflags, -⟩ := hfinished rfl
    exact ⟨hwrites, hstatus, hfirst, hend, hbehind, hflags⟩

end Vax
