import Mathlib.Order.Bounds.Defs
import Vax.Proofs.Machine.Listed
import Vax.Proofs.PackedDecimal.Contents
import Vax.Proofs.PackedDecimal.Operands
/-!
# Converting a number to a packed decimal string

A conversion clears the string, stores the sign, and then the digits from the
least significant up, as many as the number has and the string takes.
-/

namespace Vax

namespace Packed

/-- The digits of a string that is all zeros but for its sign. -/
theorem represents_zero {start memory : Memory} {address : UInt32} {length : Nat} {sign : UInt8}
    (h : start.Writes memory address (List.replicate (length / 2) 0 ++ [sign])) :
    Represents memory address length 0 sign.toNat := by
  intro i hi
  have hlast : length / 2 - i < (List.replicate (length / 2) 0 ++ [sign]).length := by
    rw [List.length_append, List.length_replicate, List.length_singleton]
    omega
  rw [h.holds _ hlast]
  congr 1
  cases i with
  | zero => simp [byte, digit, lowHalf]
  | succ i =>
      have hzero : length / 2 - (i + 1) < (List.replicate (length / 2) (0 : UInt8)).length := by
        rw [List.length_replicate]
        omega
      rw [List.getElem_append_left hzero, List.getElem_replicate]
      simp [byte, digit, lowHalf]

/-- The places of the bytes that digits are stored to, leading zeros not being
stored. -/
def storedPlaces (length n : Nat) : Set Nat :=
  { place | ∃ k < length, 10 ^ k ≤ n ∧ place = length / 2 - (k + 1) / 2 }

/-- The first byte that a digit is stored to or, if there is none, the byte of
the sign. -/
def IsFirst (length n place : Nat) : Prop :=
  IsLeast (storedPlaces length n) place ∨ storedPlaces length n = ∅ ∧ place = length / 2

theorem isFirst_stored (length n : Nat) : IsFirst length n (length / 2 - stored length n / 2) := by
  have hmem : ∀ place, place ∈ storedPlaces length n ↔
      ∃ k < stored length n, place = length / 2 - (k + 1) / 2 :=
    fun place => exists_congr fun k => by rw [lt_stored_iff, and_assoc]
  by_cases hstored : stored length n = 0
  · refine .inr ⟨Set.eq_empty_iff_forall_notMem.2 fun place hplace => ?_, by rw [hstored]; rfl⟩
    obtain ⟨k, hk, -⟩ := (hmem place).1 hplace
    omega
  · refine .inl ⟨(hmem _).2 ⟨stored length n - 1, by omega, ?_⟩, fun place hplace => ?_⟩
    · rw [Nat.sub_add_cancel (Nat.pos_of_ne_zero hstored)]
    · obtain ⟨k, hk, rfl⟩ := (hmem place).1 hplace
      omega

end Packed

namespace Exec

variable {m : Machine} {i : Instruction} {value : Int} {length : Nat} {address : UInt32}

/-- The registers that a conversion leaves. -/
def packedRegisters (registers : Registers) (first : UInt32) (flags : Flags) : Registers :=
  ((((registers.set 0 0).set 1 0).set 2 0).set 3 first).setFlags flags

theorem get_packedRegisters (registers : Registers) (first : UInt32) (flags : Flags)
    (r : Register) : (packedRegisters registers first flags).get r =
      if r.val < 3 then 0 else if r = 3 then first else registers.get r := by
  have hlow : r.val < 3 ↔ 0 = r ∨ 1 = r ∨ 2 = r := by
    revert r
    decide
  simp only [packedRegisters, Registers.get_setFlags, Registers.get_set, hlow, eq_comm (b := r)]
  grind

theorem run_storePacked (hlength : length ≤ 31)
    (hcovers : ∀ other ∈ area address (length / 2 + 1), m.memory.Covers other) :
    ∃ memory, (storePacked i value length address).run m =
        .ok () ((m.withMemory memory).withRegisters (packedRegisters m.registers
          (address + UInt32.ofNat (length / 2 - Packed.stored length value.natAbs / 2))
          ⟨value < 0, value == 0, 0 < value.natAbs / 10 ^ length, false⟩)) ∧
      Packed.Represents memory address length (value.natAbs % 10 ^ length)
        (Packed.signOf (value < 0)).toNat ∧
      m.memory.SameOutside memory (area address (length / 2 + 1)) := by
  have hempty : address + UInt32.ofNat ([] : List UInt8).length = address := UInt32.add_zero _
  obtain ⟨zeros, hzeros, hzeroed⟩ := run_storeZeros
    (by
      rw [List.length_nil, Nat.zero_add]
      exact fun other hother => hcovers other (area_mono (Nat.le_succ _) _ hother))
    (by rw [List.length_nil]; omega) (.nil m.memory address)
  rw [hempty] at hzeros
  rw [List.nil_append] at hzeroed
  have hlast := hcovers _ (mem_area (Nat.lt_succ_self (length / 2)))
  obtain ⟨marked, hstore⟩ := Memory.exists_store ((hzeroed.same.covers _).2 hlast)
    (Packed.signOf (value < 0))
  have hmarked := hzeroed.push (by rw [List.length_replicate]; omega)
    (by rw [List.length_replicate]; exact hstore)
  have hsame := hmarked.same
  rw [List.length_append, List.length_replicate, List.length_singleton] at hsame
  have hzero := Packed.represents_zero hmarked
  rw [← Nat.mod_one value.natAbs] at hzero
  obtain ⟨memory, hdigits, hrepresents, hsame'⟩ := run_storeDigits
    (m := m.withMemory marked) (k := 0) (Nat.zero_add length).symm (by omega) (Nat.zero_le _)
    (Packed.toNat_signOf_lt _) (fun other hother => (hsame.covers other).2 (hcovers other hother))
    hzero
  have hhigh : (0 % 2 == 0) = true := rfl
  rw [hhigh, Nat.zero_div, Nat.sub_zero, Nat.pow_zero, Nat.div_one] at hdigits
  have hmark : (writeByte (address + UInt32.ofNat (length / 2)) (Packed.signOf (value < 0))).run
      (m.withMemory zeros) = .ok () (m.withMemory marked) := run_writeByte hstore
  have hallowed : ¬ Packed.maxDigits < length := Nat.not_lt.2 hlength
  refine ⟨memory, ?_, hrepresents, hsame.trans hsame'⟩
  rw [storePacked]
  dsimp only
  rw [if_neg hallowed, run_bind_ok hzeros, run_bind_ok hmark, run_bind_ok hdigits]
  rfl

theorem run_storePacked_error (hlength : 31 < length) :
    (storePacked i value length address).run m =
      .error (.reservedOperand i.descriptor.mnemonic) m := by
  have hrefused : Packed.maxDigits < length := hlength
  rw [storePacked, if_pos hrefused]
  rfl

end Exec

open Exec

/-- A conversion to a string of up to 31 digits writes the last digits of the
number, its sign, and nothing else.  It overflows when there are more digits,
and points `r3` to the first byte that it stored a digit to.  For longer
strings it faults before it writes. -/
theorem conversion_stores_digits_that_fit {m located : Machine} {i : Instruction} {value : Int}
    {length : Nat} {address : UInt32} (hrunning : m.status = .running)
    (hfetch : m.memory.instructionAt m.registers.pc = .ok i)
    (haction : i.descriptor.action = .longToPacked)
    (hoperands : (packedOperands i).run (m.fetched i) = .ok (value, length, address) located) :
    (length ≤ 31 → (∀ other ∈ area address (length / 2 + 1), m.memory.Covers other) →
      m.step.status = .running ∧
      (∃ bytes, bytes.length = length / 2 + 1 ∧ m.memory.Writes m.step.memory address bytes ∧
        Packed.halves bytes = Packed.layout length (value.natAbs % 10 ^ length)
          (if value < 0 then 13 else 12)) ∧
      m.step.registers.flags = ⟨value < 0, value == 0, 10 ^ length ≤ value.natAbs, false⟩ ∧
      (∀ r : Register, r.val < 3 → m.step.registers.get r = 0) ∧
      (∃ place, Packed.IsFirst length value.natAbs place ∧
        m.step.registers.get 3 = address + UInt32.ofNat place) ∧
      ∀ r : Register, 3 < r.val → m.step.registers.get r = located.registers.get r) ∧
    (31 < length →
      m.step.status = .faulted ⟨m.registers.pc, .reservedOperand i.descriptor.mnemonic⟩ ∧
      m.step.memory = m.memory) := by
  have hlocated := (evaluates_packedOperands i).differsIn hoperands
  have hexecute := execute_longToPacked haction
  obtain ⟨hmemory, hstatus, hcurrent⟩ := Machine.eq_of_located hlocated
  constructor
  · intro hlength hcovers
    rw [← hmemory] at hcovers ⊢
    obtain ⟨memory, hstore, hrepresents, hsame⟩ := run_storePacked (i := i) hlength hcovers
    have hstep := Machine.step_of_stages hrunning hfetch hexecute hoperands hstore
    have hmod : value.natAbs % 10 ^ length < 10 ^ length :=
      Nat.mod_lt _ (Nat.pow_pos (by decide))
    have hbytes := Packed.length_bytes length (value.natAbs % 10 ^ length)
      (Packed.signOf (value < 0)).toNat
    have hoverflow : decide (0 < value.natAbs / 10 ^ length) =
        decide (10 ^ length ≤ value.natAbs) := by
      rw [decide_eq_decide, Nat.div_pos_iff]
      exact and_iff_right (Nat.pow_pos (by decide))
    rw [hstep]
    refine ⟨hstatus.trans hrunning,
      ⟨_, hbytes, ⟨hrepresents.holds, by rw [hbytes]; exact hsame⟩, ?_⟩,
      congrArg (fun v => Flags.mk (decide (value < 0)) (value == 0) v false) hoverflow,
      fun r hr => ?_, ⟨_, Packed.isFirst_stored _ _, ?_⟩, fun r hr => ?_⟩
    · rw [Packed.halves_bytes hmod (Packed.toNat_signOf_lt _), UInt8.ofNat_toNat]
      congr 1
      by_cases hnegative : value < 0 <;> simp [Packed.signOf, hnegative]
    · exact (get_packedRegisters _ _ _ r).trans (if_pos hr)
    · exact get_packedRegisters _ _ _ 3
    · have hne : r ≠ 3 := by
        rintro rfl
        exact absurd hr (by decide)
      exact (get_packedRegisters _ _ _ r).trans ((if_neg (by omega)).trans (if_neg hne))
  · intro hlength
    obtain ⟨log, hstep⟩ := Machine.step_of_stages_error hrunning hfetch hexecute hoperands
      (run_storePacked_error hlength)
    rw [hstep]
    exact ⟨by rw [hcurrent], hmemory⟩

/-- A program that converts -12345 to a string of four digits. -/
theorem conversion_stores_digits_that_fit_four :
    let m : Machine :=
      { registers := (Registers.zeroed.set 6 16).set 7 24
        memory := ⟨0, 32, [0xf9, 0x8f, 0xc7, 0xcf, 0xff, 0xff, 0x04, 0x66].toByteArray⟩
        symbols := .empty, entry := 0, status := .running, frames := #[],
        output := .unlimited, log := .empty none, current := 0 }
    m.step.status = .running ∧
      (∃ bytes, bytes.length = 3 ∧ m.memory.Writes m.step.memory 16 bytes ∧
        Packed.halves bytes = [0, 2, 3, 4, 5, 13]) ∧
      m.step.registers.flags = ⟨true, false, true, false⟩ := by
  intro m
  let i : Instruction :=
    { address := 0, length := 8, descriptor := ⟨0xf9, "cvtlp", [.long, .word, .byte], .longToPacked⟩
      operands := [⟨.long, .plain (.immediate 2 0xffffcfc7)⟩, ⟨.word, .plain (.literal 4)⟩,
        ⟨.byte, .plain (.deferred 6)⟩] }
  have hfetch : m.memory.instructionAt m.registers.pc = .ok i :=
    Memory.instructionAt_of_toOption (by decide +kernel)
  obtain ⟨located, hoperands⟩ : ∃ located, (packedOperands i).run (m.fetched i) =
      .ok (-12345, 4, 16) located := exists_run (by decide +kernel)
  obtain ⟨hstatus, hbytes, hflags, -⟩ := (conversion_stores_digits_that_fit rfl hfetch rfl
    hoperands).1 (by decide) (forall_mem_area (by decide +kernel))
  exact ⟨hstatus, hbytes, hflags⟩

end Vax
