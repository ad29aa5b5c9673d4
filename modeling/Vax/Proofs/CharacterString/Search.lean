import Mathlib.Order.Bounds.Basic
import Mathlib.Order.Nat
import Vax.Proofs.Machine.Evaluation
import Vax.Proofs.Machine.Listed
import Vax.Proofs.Machine.Stages
import Vax.Proofs.Memory.Bytes
/-!
# Searching a string

A search goes on as long as bytes can be read and do not match, so it finds the
first match of the string, or ends behind it, or faults at the first byte that
cannot be read, whichever comes first.
-/

namespace Vax

/-! ## Matches -/

/-- The byte at an address is this character, or is another one. -/
def Memory.Matches (m : Memory) (character : UInt8) (forEqual : Bool) (address : UInt32) : Prop :=
  ∃ byte, m.readByte address = .ok byte ∧ (byte = character ↔ forEqual = true)

example : [true, false].map (fun forEqual => Catalog.mnemonics (.scan forEqual)) =
    [["locc"], ["skpc"]] := by
  decide +kernel

instance (m : Memory) (character : UInt8) (forEqual : Bool) (address : UInt32) :
    Decidable (m.Matches character forEqual address) :=
  decidable_of_iff (m.Covers address ∧
      (m.byteAt (m.offset address) = character ↔ forEqual = true))
    (by simp only [Memory.Matches, Memory.readByte_eq_ok_iff, and_assoc, exists_and_left,
      exists_eq_left])

/-- The search passes over the byte at an address. -/
def Memory.Passes (m : Memory) (character : UInt8) (forEqual : Bool) (address : UInt32) : Prop :=
  m.Covers address ∧ ¬ m.Matches character forEqual address

theorem Memory.readByte_of_passes {m : Memory} {character : UInt8} {forEqual : Bool}
    {address : UInt32} (h : m.Passes character forEqual address) :
    ∃ byte, m.readByte address = .ok byte ∧ ¬ ((byte == character) == forEqual) = true := by
  have hread := Memory.readByte_eq_ok_iff.2 ⟨h.1, rfl⟩
  refine ⟨_, hread, fun hbyte => h.2 ⟨_, hread, ?_⟩⟩
  rw [← beq_iff_eq (b := character), beq_iff_eq.1 hbyte]

theorem Memory.readByte_of_matches {m : Memory} {character : UInt8} {forEqual : Bool}
    {address : UInt32} (h : m.Matches character forEqual address) :
    ∃ byte, m.readByte address = .ok byte ∧ ((byte == character) == forEqual) = true := by
  obtain ⟨byte, hread, hbyte⟩ := h
  refine ⟨byte, hread, beq_iff_eq.2 (Bool.eq_iff_iff.2 ?_)⟩
  rw [beq_iff_eq, hbyte]

theorem Memory.readByte_of_not_covers {m : Memory} {address : UInt32} (h : ¬ m.Covers address) :
    m.readByte address = .error ⟨address, 1⟩ := by
  obtain ⟨byte, hread⟩ | hread := m.readByte_cases address
  · exact absurd (Memory.readByte_eq_ok_iff.1 hread).1 h
  · exact hread

namespace Exec

variable {m : Machine} {i : Instruction} {character : UInt8} {forEqual : Bool} {start : UInt32}
  {n k : Nat}

/-! ## The loop -/

/-- What the search passes over takes it on by as many bytes. -/
theorem run_scanFrom_of_passes (hk : k ≤ n)
    (hpasses : ∀ j < k, m.memory.Passes character forEqual (start + UInt32.ofNat j)) :
    (scanFrom character forEqual n start).run m =
      (scanFrom character forEqual (n - k) (start + UInt32.ofNat k)).run m := by
  induction k with
  | zero =>
    rw [Nat.sub_zero]
    exact congrArg (fun address => (scanFrom character forEqual n address).run m)
      (UInt32.add_zero start).symm
  | succ k ih =>
    rw [ih (by omega) fun j hj => hpasses j (Nat.lt_succ_of_lt hj)]
    obtain ⟨byte, hread, hbyte⟩ := Memory.readByte_of_passes (hpasses k (Nat.lt_succ_self k))
    have hremaining : n - k = n - (k + 1) + 1 := by omega
    rw [hremaining, scanFrom, run_bind_ok (run_readByte hread), if_neg hbyte, UInt32.ofNat_add,
      UInt32.add_assoc]
    rfl

theorem run_scanFrom_found (hk : k ≤ n)
    (hpasses : ∀ j < k, m.memory.Passes character forEqual (start + UInt32.ofNat j))
    (hlast : k < n → m.memory.Matches character forEqual (start + UInt32.ofNat k)) :
    (scanFrom character forEqual n start).run m = .ok (n - k, start + UInt32.ofNat k) m := by
  rw [run_scanFrom_of_passes hk hpasses]
  obtain rfl | hlt := Nat.eq_or_lt_of_le hk
  · rw [Nat.sub_self]
    rfl
  · obtain ⟨byte, hread, hbyte⟩ := Memory.readByte_of_matches (hlast hlt)
    obtain ⟨remaining, hremaining⟩ : ∃ remaining, n - k = remaining + 1 := ⟨n - k - 1, by omega⟩
    rw [hremaining, scanFrom, run_bind_ok (run_readByte hread), if_pos hbyte]
    rfl

theorem run_scanFrom_unreadable (hk : k < n)
    (hpasses : ∀ j < k, m.memory.Passes character forEqual (start + UInt32.ofNat j))
    (hlast : ¬ m.memory.Covers (start + UInt32.ofNat k)) :
    (scanFrom character forEqual n start).run m =
      .error (.memory ⟨start + UInt32.ofNat k, 1⟩) m := by
  rw [run_scanFrom_of_passes (Nat.le_of_lt hk) hpasses]
  obtain ⟨remaining, hremaining⟩ : ∃ remaining, n - k = remaining + 1 := ⟨n - k - 1, by omega⟩
  rw [hremaining, scanFrom]
  exact run_bind_error (run_readByte_error (Memory.readByte_of_not_covers hlast))

/-! ## The instruction -/

/-- What the operands of a search say: the character, how long the string is,
and where. -/
def scanOperands (i : Instruction) : Exec (UInt8 × Nat × UInt32) := do
  let (character, length, address) ← locate3 i
  let character := UInt8.ofBitVec (← read .byte character)
  let length := (← read .word length).toNat
  return (character, length, ← addressOf address)

def scanString (forEqual : Bool) (character : UInt8) (length : Nat) (start : UInt32) :
    Exec Unit := do
  let (remaining, found) ← scanFrom character forEqual length start
  setRegister 0 (UInt32.ofNat remaining)
  setRegister 1 found
  setFlags ⟨false, remaining == 0, false, false⟩

theorem scan_eq (i : Instruction) (forEqual : Bool) : scan i forEqual = (do
    let (character, length, start) ← scanOperands i
    scanString forEqual character length start) := by
  simp only [scan, scanOperands, scanString, bind_assoc, pure_bind]

theorem execute_scan (h : i.descriptor.action = .scan forEqual) :
    execute i = goesOn (scanOperands i >>= fun operands =>
      scanString forEqual operands.1 operands.2.1 operands.2.2) := by
  rw [execute, h]
  exact congrArg goesOn (scan_eq i forEqual)

theorem evaluates_scanOperands (i : Instruction) : Evaluates i (scanOperands i) :=
  (evaluates_locate3 i).bind fun _ => (still_read _ _).bind fun _ =>
    (still_read _ _).bind fun _ => (still_addressOf _).bind fun _ => still_pure _

/-- A length is a word. -/
theorem length_lt_of_scanOperands {located : Machine}
    (h : (scanOperands i).run m = .ok (character, n, start) located) : n < 2 ^ 16 := by
  obtain ⟨locations, between, -, h⟩ := run_bind_eq_ok.1 h
  obtain ⟨value, between, -, h⟩ := run_bind_eq_ok.1 h
  obtain ⟨length, between, -, h⟩ := run_bind_eq_ok.1 h
  obtain ⟨address, between, -, h⟩ := run_bind_eq_ok.1 h
  obtain ⟨heq, -⟩ := run_pure_eq_ok.1 h
  obtain ⟨-, heq⟩ := Prod.mk.inj heq
  obtain ⟨rfl, -⟩ := Prod.mk.inj heq
  exact length.isLt

/-- Evaluating operands moves the registers by their strides. -/
theorem Evaluates.moved {α : Type} {x : Exec α} {a : α} {located : Machine} (h : Evaluates i x)
    (hx : x.run m = .ok a located) : located = m.moved (Operand.strides i.operands) := by
  obtain ⟨look, rfl, hlook⟩ := h
  obtain ⟨locations, between, hall, hlooks⟩ := run_bind_eq_ok.1 hx
  rw [(hlook locations).ok _ _ _ hlooks]
  obtain ⟨locations', after, hrun, hevaluated⟩ | ⟨cause, after, index, operand, hrun, -⟩ :=
    evaluated_or_endsAt i.operands m
  · obtain ⟨-, rfl⟩ := EStateM.Result.ok.inj (hall.symm.trans hrun)
    exact hevaluated.moved
  · exact absurd (hall.symm.trans hrun) nofun

end Exec

namespace Machine

variable {m located : Machine} {i : Instruction} {forEqual : Bool} {character : UInt8}
  {n k : Nat} {start : UInt32}

/-- The registers once an instruction was fetched and its operands were
evaluated. -/
def evaluatedRegisters (m : Machine) (i : Instruction) : Registers :=
  (m.registers.set Register.pc i.nextAddress).moved (Operand.strides i.operands)

/-- What a search finds is all that it leaves in the registers. -/
theorem step_of_scanFrom {remaining : Nat} {found : UInt32} (hrunning : m.status = .running)
    (hfetch : m.memory.instructionAt m.registers.pc = .ok i)
    (haction : i.descriptor.action = .scan forEqual)
    (hoperands : (Exec.scanOperands i).run (m.fetched i) = .ok (character, n, start) located)
    (hscan : (Exec.scanFrom character forEqual n start).run located =
      .ok (remaining, found) located) (hremaining : remaining < 2 ^ 32) :
    m.step.status = .running ∧ m.step.memory = m.memory ∧
      (m.step.registers.get 0).toNat = remaining ∧ m.step.registers.get 1 = found ∧
      m.step.registers.flags = ⟨false, remaining == 0, false, false⟩ ∧
      ∀ r : Register, r ≠ 0 → r ≠ 1 →
        m.step.registers.get r = (m.evaluatedRegisters i).get r := by
  obtain rfl := (Exec.evaluates_scanOperands i).moved hoperands
  have hbody : (Exec.scanString forEqual character n start).run
      ((m.fetched i).moved (Operand.strides i.operands)) = .ok () _ := Exec.run_bind_ok hscan
  obtain ⟨hstatus, hmemory, hregisters⟩ : m.step.status = .running ∧ m.step.memory = m.memory ∧
      m.step.registers = Registers.setFlags
        (((m.evaluatedRegisters i).set 0 (UInt32.ofNat remaining)).set 1 found)
        ⟨false, remaining == 0, false, false⟩ := by
    rw [step_of_stages hrunning hfetch (Exec.execute_scan haction) hoperands hbody]
    exact ⟨hrunning, rfl, rfl⟩
  refine ⟨hstatus, hmemory, ?_, ?_, ?_, fun r h0 h1 => ?_⟩
  · rw [hregisters, Registers.get_setFlags, Registers.get_set_of_ne _ _ (by decide),
      Registers.get_set_self, UInt32.toNat_ofNat_of_lt' hremaining]
  · rw [hregisters, Registers.get_setFlags, Registers.get_set_self]
  · rw [hregisters, Registers.flags_setFlags]
  · rw [hregisters, Registers.get_setFlags, Registers.get_set_of_ne _ _ h1.symm,
      Registers.get_set_of_ne _ _ h0.symm]

theorem step_of_scanFrom_error {cause : Fault.Cause} (hrunning : m.status = .running)
    (hfetch : m.memory.instructionAt m.registers.pc = .ok i)
    (haction : i.descriptor.action = .scan forEqual)
    (hoperands : (Exec.scanOperands i).run (m.fetched i) = .ok (character, n, start) located)
    (hscan : (Exec.scanFrom character forEqual n start).run located = .error cause located) :
    m.step.status = .faulted ⟨m.registers.pc, cause⟩ ∧ m.step.memory = m.memory ∧
      m.step.registers = m.evaluatedRegisters i := by
  obtain rfl := (Exec.evaluates_scanOperands i).moved hoperands
  have hbody : (Exec.scanString forEqual character n start).run
      ((m.fetched i).moved (Operand.strides i.operands)) = .error cause _ :=
    Exec.run_bind_error hscan
  obtain ⟨log, hstep⟩ := step_of_stages_error hrunning hfetch (Exec.execute_scan haction)
    hoperands hbody
  rw [hstep]
  exact ⟨rfl, rfl, rfl⟩

end Machine

open Machine

/-- A search of `n` bytes ends at the first that matches, or behind them if none
does, whatever lies beyond.  It leaves the number of bytes from there on in `r0`
and the address in `r1`.  If a byte that it comes to cannot be read, it faults
there, and only its operands have had an effect. -/
theorem search_ends_at_first_match {m located : Machine} {i : Instruction} {forEqual : Bool}
    {character : UInt8} {n : Nat} {start : UInt32} (hrunning : m.status = .running)
    (hfetch : m.memory.instructionAt m.registers.pc = .ok i)
    (haction : i.descriptor.action = .scan forEqual)
    (hoperands : (Exec.scanOperands i).run (m.fetched i) = .ok (character, n, start) located) :
    ∃ first, IsLeast
        {k | k = n ∨ k < n ∧ m.memory.Matches character forEqual (start + UInt32.ofNat k)} first ∧
      ((∀ k < n, k ≤ first → m.memory.Covers (start + UInt32.ofNat k)) →
        m.step.status = .running ∧ m.step.memory = m.memory ∧
        (m.step.registers.get 0).toNat = n - first ∧
        m.step.registers.get 1 = start + UInt32.ofNat first ∧
        m.step.registers.flags = ⟨false, first == n, false, false⟩ ∧
        ∀ r : Register, r ≠ 0 → r ≠ 1 →
          m.step.registers.get r = (m.evaluatedRegisters i).get r) ∧
      ((∃ k < n, k ≤ first ∧ ¬ m.memory.Covers (start + UInt32.ofNat k)) →
        ∃ unread, IsLeast {k | k < n ∧ ¬ m.memory.Covers (start + UInt32.ofNat k)} unread ∧
          m.step.status =
            .faulted ⟨m.registers.pc, .memory ⟨start + UInt32.ofNat unread, 1⟩⟩ ∧
          m.step.memory = m.memory ∧ m.step.registers = m.evaluatedRegisters i) := by
  classical
  have hmemory : located.memory = m.memory :=
    (eq_of_located ((Exec.evaluates_scanOperands i).differsIn hoperands)).1
  have hn : n < 2 ^ 16 := Exec.length_lt_of_scanOperands hoperands
  have hends : ∃ k, k = n ∨ k < n ∧ m.memory.Matches character forEqual (start + UInt32.ofNat k) :=
    ⟨n, .inl rfl⟩
  obtain ⟨hfirst, hleast⟩ := Nat.isLeast_find hends
  generalize Nat.find hends = first at hfirst hleast
  have hle : first ≤ n := hleast (.inl rfl)
  have hearlier : ∀ k < first, ¬ m.memory.Matches character forEqual (start + UInt32.ofNat k) :=
    fun k hk hmatches => Nat.not_le.2 hk (hleast (.inr ⟨by omega, hmatches⟩))
  refine ⟨first, ⟨hfirst, hleast⟩, fun hcovers => ?_, fun hunread => ?_⟩
  · have hscan : (Exec.scanFrom character forEqual n start).run located =
        .ok (n - first, start + UInt32.ofNat first) located := by
      apply Exec.run_scanFrom_found hle
      · rw [hmemory]
        exact fun k hk => ⟨hcovers k (by omega) (Nat.le_of_lt hk), hearlier k hk⟩
      · rw [hmemory]
        exact fun hlt => (hfirst.resolve_left (Nat.ne_of_lt hlt)).2
    have hall : (first == n) = (n - first == 0) := by
      rw [Bool.eq_iff_iff, beq_iff_eq, beq_iff_eq]
      omega
    rw [hall]
    exact step_of_scanFrom hrunning hfetch haction hoperands hscan (by omega)
  · obtain ⟨k, hk, hkFirst, hkUnread⟩ := hunread
    have hsome : ∃ k, k < n ∧ ¬ m.memory.Covers (start + UInt32.ofNat k) := ⟨k, hk, hkUnread⟩
    obtain ⟨⟨hlt, hfails⟩, hleast'⟩ := Nat.isLeast_find hsome
    generalize Nat.find hsome = unread at hlt hfails hleast'
    have hbefore : unread ≤ first := Nat.le_trans (hleast' ⟨hk, hkUnread⟩) hkFirst
    refine ⟨unread, ⟨⟨hlt, hfails⟩, hleast'⟩, ?_⟩
    apply step_of_scanFrom_error hrunning hfetch haction hoperands
    apply Exec.run_scanFrom_unreadable hlt
    · rw [hmemory]
      intro j hj
      refine ⟨?_, hearlier j (by omega)⟩
      by_contra hfail
      exact Nat.not_le.2 hj (hleast' ⟨by omega, hfail⟩)
    · rw [hmemory]
      exact hfails

/-- The string runs past the end of the image.  A slash is found in front of the
end; a search for a point gets to it. -/
theorem search_ends_at_first_match_cut :
    let m (character : UInt8) : Machine :=
      { registers := Registers.zeroed.set 6 8
        memory := ⟨0, 12, [0x3a, character, 0x08, 0x86, 0, 0, 0, 0, 0x75, 0x73, 0x72,
          0x2f].toByteArray⟩
        symbols := .empty, entry := 0, status := .running, frames := #[],
        output := .unlimited, log := .empty none, current := 0 }
    ((m 0x2f).step.status = .running ∧ ((m 0x2f).step.registers.get 0).toNat = 5 ∧
      (m 0x2f).step.registers.get 1 = 11 ∧ (m 0x2f).step.registers.get 6 = 9) ∧
    (m 0x2e).step.status = .faulted ⟨0, .memory ⟨12, 1⟩⟩ ∧
      (m 0x2e).step.registers.get 0 = 0 ∧ (m 0x2e).step.registers.get 6 = 9 := by
  intro m
  let i (character : UInt8) : Instruction :=
    { address := 0, length := 4
      descriptor := ⟨0x3a, "locc", [.byte, .word, .byte], .scan true⟩
      operands := [⟨.byte, .plain (.literal character)⟩, ⟨.word, .plain (.literal 8)⟩,
        ⟨.byte, .plain (.autoincrement 6)⟩] }
  have hleast {character : UInt8} {k : Nat}
      (hk : k = 8 ∨ k < 8 ∧ (m character).memory.Matches character true (8 + UInt32.ofNat k))
      (hnone : ∀ j < k, ¬ (j = 8 ∨ j < 8 ∧
        (m character).memory.Matches character true (8 + UInt32.ofNat j))) :
      IsLeast {k | k = 8 ∨ k < 8 ∧
        (m character).memory.Matches character true (8 + UInt32.ofNat k)} k :=
    ⟨hk, fun j hj => Nat.not_lt.1 fun hlt => hnone j hlt hj⟩
  constructor
  · have hfetch : (m 0x2f).memory.instructionAt (m 0x2f).registers.pc = .ok (i 0x2f) :=
      Memory.instructionAt_of_toOption (by decide +kernel)
    obtain ⟨located, hoperands⟩ : ∃ located, (Exec.scanOperands (i 0x2f)).run
        ((m 0x2f).fetched (i 0x2f)) = .ok (0x2f, 8, 8) located :=
      Exec.exists_run (by decide +kernel)
    obtain ⟨first, hfirst, hfound, -⟩ := search_ends_at_first_match rfl hfetch rfl hoperands
    obtain rfl : first = 3 :=
      hfirst.unique (hleast (.inr (by decide +kernel)) (by decide +kernel))
    obtain ⟨hstatus, -, hremaining, haddress, -, hothers⟩ := hfound (by decide +kernel)
    exact ⟨hstatus, hremaining, haddress,
      (hothers 6 (by decide) (by decide)).trans (by decide +kernel)⟩
  · have hfetch : (m 0x2e).memory.instructionAt (m 0x2e).registers.pc = .ok (i 0x2e) :=
      Memory.instructionAt_of_toOption (by decide +kernel)
    obtain ⟨located, hoperands⟩ : ∃ located, (Exec.scanOperands (i 0x2e)).run
        ((m 0x2e).fetched (i 0x2e)) = .ok (0x2e, 8, 8) located :=
      Exec.exists_run (by decide +kernel)
    obtain ⟨first, hfirst, -, hunread⟩ := search_ends_at_first_match rfl hfetch rfl hoperands
    obtain rfl : first = 8 := hfirst.unique (hleast (.inl rfl) (by decide +kernel))
    obtain ⟨unread, hfails, hstatus, -, hregisters⟩ :=
      hunread ⟨4, by decide, by decide, by decide +kernel⟩
    obtain rfl : unread = 4 := by
      refine hfails.unique ⟨⟨by decide, by decide +kernel⟩, fun j hj => Nat.not_lt.1 fun hlt => ?_⟩
      have hreadable : ∀ j < 4, (m 0x2e).memory.Covers (8 + UInt32.ofNat j) := by decide +kernel
      exact hj.2 (hreadable j hlt)
    refine ⟨hstatus, ?_, ?_⟩
    · rw [hregisters]
      decide +kernel
    · rw [hregisters]
      decide +kernel

end Vax
