import Vax.Proofs.PackedDecimal.Formatting
/-!
# Every edit ends

An edit that follows its pattern without any bound still ends: each turn of it
takes one byte of the pattern and leaves the image where it is, so the pattern
either ends or climbs to the top of the image.  The number of operators that
`followPattern` is given is never what stops it.
-/

namespace Vax

namespace Exec

variable {m after : Machine} {p q : Edit.Progress} {sign : UInt8} {operators turns : Nat}

/-! ## One turn -/

/-- Follows the operator at which an edit has arrived.  The edit has then ended,
or it goes on behind that byte of the pattern. -/
def followOperator (sign : UInt8) (p : Edit.Progress) : Exec (Edit.Progress ⊕ Edit.Progress) := do
  let byte ← readByte p.pattern
  match Edit.Operator.ofByte? byte with
  | some .finish => return .inl p
  | some .endFloat =>
    let p ← endFloat sign p
    return .inr { p with pattern := p.pattern + 1 }
  | some (.moveDigits count isFloating) =>
    let p ← moveDigits isFloating sign count p
    return .inr { p with pattern := p.pattern + 1 }
  | none => throw (.editPattern byte)

theorem followPattern_succ (sign : UInt8) (operators : Nat) (p : Edit.Progress) :
    followPattern sign (operators + 1) p =
      followOperator sign p >>= Sum.elim pure (followPattern sign operators) := by
  rw [followPattern, followOperator, bind_assoc]
  refine bind_congr fun byte => ?_
  cases Edit.Operator.ofByte? byte with
  | none => rfl
  | some operator =>
    cases operator with
    | finish => rfl
    | endFloat | moveDigits count isFloating =>
      simp only [bind_assoc, pure_bind, Sum.elim_inr]

/-- A computation that goes on from `p` leaves the image and the place in the
pattern where they are. -/
def KeepsPlace (p : Edit.Progress) (x : Exec Edit.Progress) : Prop :=
  ∀ m q after, x.run m = .ok q after →
    q.pattern = p.pattern ∧ after.memory.base = m.memory.base ∧
      after.memory.size = m.memory.size

theorem keepsPlace_pure (h : q.pattern = p.pattern) : KeepsPlace p (pure q) := by
  intro m q' after hrun
  obtain ⟨rfl, rfl⟩ := run_pure_eq_ok.1 hrun
  exact ⟨h, rfl, rfl⟩

theorem KeepsPlace.bind {x : Exec Edit.Progress} {f : Edit.Progress → Exec Edit.Progress}
    (hx : KeepsPlace p x) (hf : ∀ q, q.pattern = p.pattern → KeepsPlace p (f q)) :
    KeepsPlace p (x >>= f) := by
  intro m r after hrun
  obtain ⟨q, between, hfirst, hrest⟩ := run_bind_eq_ok.1 hrun
  obtain ⟨hpattern, hbase, hsize⟩ := hx m q between hfirst
  obtain ⟨hpattern', hbase', hsize'⟩ := hf q hpattern between r after hrest
  exact ⟨hpattern', hbase'.trans hbase, hsize'.trans hsize⟩

theorem keepsPlace_emit (h : q.pattern = p.pattern) (character : UInt8) :
    KeepsPlace p (emit q character) := by
  intro m r after hrun
  obtain ⟨_, between, hwrite, hrest⟩ := run_bind_eq_ok.1 hrun
  obtain ⟨memory, hstore, rfl⟩ := run_store_eq_ok.1 hwrite
  obtain ⟨-, rfl⟩ := Memory.store_eq_ok_iff.1 hstore
  obtain ⟨rfl, rfl⟩ := run_pure_eq_ok.1 hrest
  exact ⟨h, rfl, rfl⟩

theorem keepsPlace_endFloat (sign : UInt8) (p : Edit.Progress) :
    KeepsPlace p (endFloat sign p) := by
  unfold endFloat
  split
  · exact keepsPlace_pure rfl
  · exact keepsPlace_emit rfl sign

theorem pattern_of_nextDigit {digit : UInt8} (h : (nextDigit p).run m = .ok (digit, q) after) :
    q.pattern = p.pattern := by
  by_cases hnone : p.remaining = 0
  · rw [nextDigit, if_pos hnone] at h
    exact absurd h (run_throw_ne_ok _)
  · rw [nextDigit, if_neg hnone, run_bind_eq_ok] at h
    obtain ⟨byte, between, -, h⟩ := h
    split at h
    all_goals
      obtain ⟨heq, -⟩ := run_pure_eq_ok.1 h
      obtain ⟨-, rfl⟩ := Prod.mk.inj heq
      rfl

theorem keepsPlace_moveDigit (isFloating : Bool) (sign : UInt8) (p : Edit.Progress) :
    KeepsPlace p (moveDigit isFloating sign p) := by
  intro m r after hrun
  rw [moveDigit, run_bind_eq_ok] at hrun
  obtain ⟨⟨digit, q⟩, between, hdigit, hrest⟩ := hrun
  have hpattern := pattern_of_nextDigit hdigit
  obtain rfl := (still_nextDigit p).ok _ _ _ hdigit
  -- What is left writes the sign, perhaps, and then a character.
  dsimp only at hrest
  split at hrest
  · refine KeepsPlace.bind ?_ ?_ _ _ _ hrest
    · apply keepsPlace_emit
      exact hpattern
    · exact fun _ hwritten => keepsPlace_emit hwritten _
  · refine KeepsPlace.bind ?_ ?_ _ _ _ hrest
    · apply keepsPlace_pure
      exact hpattern
    · exact fun _ hwritten => keepsPlace_emit hwritten _

theorem keepsPlace_moveDigits (isFloating : Bool) (sign : UInt8) (count : Nat)
    (p : Edit.Progress) : KeepsPlace p (moveDigits isFloating sign count p) := by
  induction count generalizing p with
  | zero => exact keepsPlace_pure rfl
  | succ count ih =>
    refine (keepsPlace_moveDigit isFloating sign p).bind fun q hq => ?_
    intro m r after hrun
    obtain ⟨hpattern, hextent⟩ := ih q m r after hrun
    exact ⟨hpattern.trans hq, hextent⟩

/-- A turn after which an edit goes on has read a byte of the pattern, left the
image where it is, and moved on by one byte. -/
theorem climbs_followOperator (h : (followOperator sign p).run m = .ok (.inr q) after) :
    m.memory.Covers p.pattern ∧ q.pattern = p.pattern + 1 ∧
      after.memory.base = m.memory.base ∧ after.memory.size = m.memory.size := by
  rw [followOperator, run_bind_eq_ok] at h
  obtain ⟨byte, between, hread, h⟩ := h
  obtain ⟨hread, hsame⟩ := run_access_eq_ok.1 hread
  rw [hsame] at h
  refine ⟨(Memory.readByte_eq_ok_iff.1 hread).1, ?_⟩
  have hmoved : ∀ {x : Exec Edit.Progress}, KeepsPlace p x →
      (x >>= fun r => pure (Sum.inr { r with pattern := r.pattern + 1 })).run m =
        .ok (Sum.inr (α := Edit.Progress) q) after →
      q.pattern = p.pattern + 1 ∧
        after.memory.base = m.memory.base ∧ after.memory.size = m.memory.size := by
    intro x hx hrun
    obtain ⟨r, between, hfirst, hrest⟩ := run_bind_eq_ok.1 hrun
    obtain ⟨heq, rfl⟩ := run_pure_eq_ok.1 hrest
    obtain rfl := Sum.inr.inj heq
    obtain ⟨hpattern, hextent⟩ := hx m r after hfirst
    exact ⟨congrArg (· + 1) hpattern, hextent⟩
  split at h
  · exact absurd (run_pure_eq_ok.1 h).1 nofun
  · exact hmoved (keepsPlace_endFloat sign p) h
  · exact hmoved (keepsPlace_moveDigits _ sign _ p) h
  · exact absurd h (run_throw_ne_ok _)

/-! ## Turns -/

/-- Following a pattern from a state on, without any bound, ends with a result
after so many turns, each of which has read one byte of the pattern. -/
inductive EndsAfter (sign : UInt8) :
    Nat → Edit.Progress → Machine → EStateM.Result Fault.Cause Machine Edit.Progress → Prop where
  | finished {p q : Edit.Progress} {m after : Machine}
      (hturn : (followOperator sign p).run m = .ok (.inl q) after) :
      EndsAfter sign 1 p m (.ok q after)
  | faulted {p : Edit.Progress} {m after : Machine} {cause : Fault.Cause}
      (hturn : (followOperator sign p).run m = .error cause after) :
      EndsAfter sign 1 p m (.error cause after)
  | next {turns : Nat} {p q : Edit.Progress} {m between : Machine}
      {result : EStateM.Result Fault.Cause Machine Edit.Progress}
      (hturn : (followOperator sign p).run m = .ok (.inr q) between)
      (hrest : EndsAfter sign turns q between result) :
      EndsAfter sign (turns + 1) p m result

/-- An edit that ends at all ends the same with as many operators as it has
turns, or any more. -/
theorem EndsAfter.run_followPattern
    {result : EStateM.Result Fault.Cause Machine Edit.Progress}
    (h : EndsAfter sign turns p m result) (hoperators : turns ≤ operators) :
    (followPattern sign operators p).run m = result := by
  induction h generalizing operators with
  | finished hturn =>
    obtain ⟨operators, rfl⟩ := Nat.exists_eq_add_of_le' hoperators
    rw [followPattern_succ, run_bind_ok hturn]
    rfl
  | faulted hturn =>
    obtain ⟨operators, rfl⟩ := Nat.exists_eq_add_of_le' hoperators
    rw [followPattern_succ, run_bind_error hturn]
  | @next turns p q m between result hturn hrest ih =>
    obtain ⟨operators, rfl⟩ : ∃ n, operators = n + 1 := ⟨operators - 1, by omega⟩
    rw [followPattern_succ, run_bind_ok hturn]
    exact ih (by omega)

theorem endsAfter_one_or_next (sign : UInt8) (p : Edit.Progress) (m : Machine) :
    (∃ result, EndsAfter sign 1 p m result) ∨
      ∃ q between, (followOperator sign p).run m = .ok (.inr q) between := by
  cases hturn : (followOperator sign p).run m with
  | error cause after => exact .inl ⟨_, .faulted hturn⟩
  | ok arrived after =>
    cases arrived with
    | inl q => exact .inl ⟨_, .finished hturn⟩
    | inr q => exact .inr ⟨q, after, rfl⟩

/-- In an image below 2^32 bytes every edit ends, at the latest when its pattern
has run off the image. -/
theorem exists_endsAfter (hsize : m.memory.size < 2 ^ 32) (sign : UInt8) (p : Edit.Progress) :
    ∃ turns ≤ m.memory.size - m.memory.offset p.pattern + 1, ∃ result,
      EndsAfter sign turns p m result := by
  -- Of the bytes from the pattern to the top of the image each turn takes one.
  generalize hroom : m.memory.size - m.memory.offset p.pattern = room
  induction room generalizing m p with
  | zero =>
    obtain ⟨result, hends⟩ | ⟨q, between, hturn⟩ := endsAfter_one_or_next sign p m
    · exact ⟨1, Nat.le_refl _, result, hends⟩
    · have hcovers : m.memory.offset p.pattern < m.memory.size :=
        (climbs_followOperator hturn).1
      omega
  | succ room ih =>
    obtain ⟨result, hends⟩ | ⟨q, between, hturn⟩ := endsAfter_one_or_next sign p m
    · exact ⟨1, by omega, result, hends⟩
    · obtain ⟨hcovers, hpattern, hbase, hkept⟩ := climbs_followOperator hturn
      have hcovers : m.memory.offset p.pattern < m.memory.size := hcovers
      have hoffset : between.memory.offset q.pattern = m.memory.offset p.pattern + 1 := by
        have hnext := Memory.offset_add m.memory p.pattern 1
        rw [Nat.mod_eq_of_lt (by omega)] at hnext
        rw [hpattern, ← hnext, Memory.offset, hbase]
        rfl
      obtain ⟨turns, hturns, result, hends⟩ := ih (m := between) (by omega) q (by omega)
      exact ⟨turns + 1, by omega, result, .next hturn hends⟩

end Exec

/-! ## The instruction -/

open Exec

namespace Instruction

variable {m : Machine} {i : Instruction}

/-- What an edit comes to that follows its pattern without any bound, and how
many bytes of the pattern it reads for that. -/
inductive EditEnds (i : Instruction) (m : Machine) :
    Nat → EStateM.Result Fault.Cause Machine Unit → Prop where
  | misplaced {cause : Fault.Cause} {after : Machine}
      (hoperands : (editOperands i).run m = .error cause after) :
      EditEnds i m 0 (.error cause after)
  | oversized {length : Nat} {source pattern destination : UInt32} {located : Machine}
      (hoperands : (editOperands i).run m = .ok (length, source, pattern, destination) located)
      (hlength : 31 < length) :
      EditEnds i m 0 (.error (.reservedOperand i.descriptor.mnemonic) located)
  | unsigned {length : Nat} {source pattern destination : UInt32} {located : Machine}
      {e : OutOfRange}
      (hoperands : (editOperands i).run m = .ok (length, source, pattern, destination) located)
      (hlength : length ≤ 31)
      (hsign : located.memory.readByte (source + UInt32.ofNat (length / 2)) = .error e) :
      EditEnds i m 0 (.error (.memory e) located)
  | faulted {length reads : Nat} {source pattern destination : UInt32} {located after : Machine}
      {last : UInt8} {cause : Fault.Cause}
      (hoperands : (editOperands i).run m = .ok (length, source, pattern, destination) located)
      (hlength : length ≤ 31)
      (hsign : located.memory.readByte (source + UInt32.ofNat (length / 2)) = .ok last)
      (hends : EndsAfter (Edit.signCharacter (Packed.isNegative last)) reads
        ⟨length, source, pattern, destination, true, none⟩ located (.error cause after)) :
      EditEnds i m reads (.error cause after)
  | finished {length reads : Nat} {source pattern destination : UInt32} {located after : Machine}
      {last : UInt8} {p : Edit.Progress}
      (hoperands : (editOperands i).run m = .ok (length, source, pattern, destination) located)
      (hlength : length ≤ 31)
      (hsign : located.memory.readByte (source + UInt32.ofNat (length / 2)) = .ok last)
      (hends : EndsAfter (Edit.signCharacter (Packed.isNegative last)) reads
        ⟨length, source, pattern, destination, true, none⟩ located (.ok p after)) :
      EditEnds i m reads (.ok () (after.withRegisters
        (editRegisters after.registers length (Packed.isNegative last) p)))

/-- The edit that is bounded comes to what the one without a bound does. -/
theorem exists_editEnds (hsize : m.memory.size < 2 ^ 32) (i : Instruction) :
    ∃ reads ≤ m.memory.size + 1, i.EditEnds m reads ((editPacked i).run m) := by
  rw [editPacked_eq]
  cases hoperands : (editOperands i).run m with
  | error cause after =>
    rw [run_bind_error hoperands]
    exact ⟨0, Nat.zero_le _, .misplaced hoperands⟩
  | ok operands located =>
    obtain ⟨length, source, pattern, destination⟩ := operands
    have hmemory : located.memory = m.memory :=
      ((evaluates_editOperands i).differsIn hoperands).memory_eq
    rw [run_bind_ok hoperands]
    dsimp only
    rw [editString]
    dsimp only
    by_cases hlength : Packed.maxDigits < length
    · rw [if_pos hlength]
      exact ⟨0, Nat.zero_le _, .oversized hoperands hlength⟩
    rw [if_neg hlength]
    cases hsign : located.memory.readByte (source + UInt32.ofNat (length / 2)) with
    | error e =>
      rw [run_bind_error (run_readByte_error hsign)]
      exact ⟨0, Nat.zero_le _, .unsigned hoperands (Nat.not_lt.1 hlength) hsign⟩
    | ok last =>
      obtain ⟨reads, hreads, result, hends⟩ := exists_endsAfter (m := located)
        (hmemory ▸ hsize) (Edit.signCharacter (Packed.isNegative last))
        ⟨length, source, pattern, destination, true, none⟩
      have hbound : reads ≤ located.memory.size + 1 := by omega
      have hfollow := hends.run_followPattern hbound
      rw [run_bind_ok (run_readByte hsign), run_bind_ok run_get]
      refine ⟨reads, hmemory ▸ hbound, ?_⟩
      cases result with
      | error cause after =>
        rw [run_bind_error hfollow]
        exact .faulted hoperands (Nat.not_lt.1 hlength) hsign hends
      | ok p after =>
        rw [run_bind_ok hfollow]
        exact .finished hoperands (Nat.not_lt.1 hlength) hsign hends

end Instruction

/-- The step went on from where its instruction ended, or it faulted there. -/
def Machine.StepsTo (m : Machine) : EStateM.Result Fault.Cause Machine Unit → Prop
  | .ok _ after => m.step = after ∧ m.step.status = .running
  | .error cause after => m.step.status = .faulted ⟨m.registers.pc, cause⟩ ∧
      m.step.registers = after.registers ∧ m.step.memory = after.memory

theorem Machine.stepsTo_of_goesOn {m : Machine} {i : Instruction} {x : Exec Unit}
    (hrunning : m.status = .running) (hfetch : m.memory.instructionAt m.registers.pc = .ok i)
    (hexecute : execute i = goesOn x) : m.StepsTo (x.run (m.fetched i)) := by
  have houtcome := Machine.outcome_of_running hrunning hfetch
  generalize hstep : m.step = next at houtcome
  cases houtcome with
  | continued hrun hchanges =>
    rw [hexecute] at hrun
    rw [run_of_goesOn hrun]
    exact ⟨hstep, (congrArg Machine.status hstep).trans (hchanges.status.trans hrunning)⟩
  | @halted halt after hrun hchanges =>
    rw [hexecute, goesOn] at hrun
    obtain ⟨_, between, -, hrest⟩ := run_bind_eq_ok.1 hrun
    exact absurd (run_pure_eq_ok.1 hrest).1 (Option.some_ne_none halt)
  | @faulted cause after hrun hchanges =>
    rw [hexecute, goesOn] at hrun
    obtain hfails | ⟨_, between, -, hrest⟩ := run_bind_eq_error.1 hrun
    · obtain ⟨log, hended⟩ := ended_eq after (.faulted ⟨m.registers.pc, cause⟩)
      rw [hfails, StepsTo, hstep, hended]
      exact ⟨rfl, rfl, rfl⟩
    · cases hrest

/-- Every edit ends, whatever it overwrites on its way: followed without any
bound, it comes to a result after reading at most one byte of the pattern more
than the image has, and to this result the step leads, a success or a fault. -/
theorem edit_always_ends {m : Machine} {i : Instruction} (hrunning : m.status = .running)
    (hfetch : m.memory.instructionAt m.registers.pc = .ok i)
    (haction : i.descriptor.action = .editPacked) (hsize : m.memory.size < 2 ^ 32) :
    ∃ reads ≤ m.memory.size + 1, ∃ result,
      i.EditEnds (m.fetched i) reads result ∧ m.StepsTo result := by
  obtain ⟨reads, hreads, hends⟩ := Instruction.exists_editEnds (m := m.fetched i) hsize i
  have hexecute : execute i = goesOn (editPacked i) := by rw [execute, haction]
  exact ⟨reads, hreads, _, hends, Machine.stepsTo_of_goesOn hrunning hfetch hexecute⟩

/-- The sign that an edit writes over the end of its pattern is met as an
operator, which it is not.  Written elsewhere it leaves the end where it is. -/
theorem edit_always_ends_overwritten :
    let m (destination : UInt32) : Machine :=
      { registers := ((Registers.zeroed.set 6 8).set 7 12).set 8 destination
        memory := ⟨0, 20, [0x38, 0x05, 0x66, 0x67, 0x68, 0, 0, 0, 0x00, 0x12, 0x3c, 0,
          0x90, 0x01, 0x90, 0x00, 0x90, 0x90, 0x90, 0x90].toByteArray⟩
        symbols := .empty, entry := 0, status := .running, frames := #[],
        output := .unlimited, log := .empty none, current := 0 }
    let i : Instruction :=
      { address := 0, length := 5
        descriptor := ⟨0x38, "editpc", [.word, .byte, .byte, .byte], .editPacked⟩
        operands := [⟨.word, .plain (.literal 5)⟩, ⟨.byte, .plain (.deferred 6)⟩,
          ⟨.byte, .plain (.deferred 7)⟩, ⟨.byte, .plain (.deferred 8)⟩] }
    (∃ reads ≤ 21, ∃ result, i.EditEnds ((m 15).fetched i) reads result ∧ (m 15).StepsTo result) ∧
      (m 15).step.status = .faulted ⟨0, .editPattern 0x20⟩ ∧ (m 5).step.status = .running := by
  intro m i
  have hfetch : (m 15).memory.instructionAt (m 15).registers.pc = .ok i :=
    Memory.instructionAt_of_toOption (by decide +kernel)
  exact ⟨edit_always_ends rfl hfetch rfl (by decide), by decide +kernel, by decide +kernel⟩

end Vax
