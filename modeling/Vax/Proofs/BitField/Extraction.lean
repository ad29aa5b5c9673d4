import Vax.Proofs.BitField.Storage
import Vax.Proofs.Machine.Results
import Vax.Proofs.Machine.Stages
/-!
# Extracting bit fields

A field that is read has the bits of storage from its position on, whether it
lies in memory or in registers, and is extended from there.
-/

namespace Vax

namespace Exec

variable {i : Instruction} {m after : Machine} {base destination : Location} {address : UInt32}
  {r : Register} {position : Int} {size : Nat}

/-- The number of bytes that a field in memory reaches into. -/
def fieldLength (position : Int) (size : Nat) : Nat :=
  (placeInByte position + size + 7) / 8

/-! ## Fields in memory -/

theorem covers_of_bits (hpos : 0 < size)
    (hbits : ∀ k < size, (m.bitAt? (.memory address) (position + k)).isSome) :
    ∀ j < fieldLength position size,
      m.memory.Covers (byteOfBit address position + UInt32.ofNat j) := by
  intro j hj
  have hplace := placeInByte_lt position
  rw [fieldLength] at hj
  -- The first bit of the field that lies in this byte.
  have hbyte : (placeInByte position + (8 * j - placeInByte position)) / 8 = j := by omega
  have hbit := hbits (8 * j - placeInByte position) (by omega)
  rw [Machine.bitAt?_memory, byteOfBit_add, hbyte] at hbit
  cases hread : m.memory.readByte (byteOfBit address position + UInt32.ofNat j) with
  | ok byte => exact (Memory.readByte_eq_ok_iff.1 hread).1
  | error e =>
    rw [hread] at hbit
    exact absurd hbit Bool.false_ne_true

theorem bitAt?_of_readNat {n : Nat}
    (hread : m.memory.readNat (byteOfBit address position) (fieldLength position size) = .ok n)
    (hspan : ¬ m.memory.RunsOver (byteOfBit address position) (fieldLength position size)) :
    ∀ k < size, m.bitAt? (.memory address) (position + k) =
      some (n.testBit (placeInByte position + k)) := by
  intro k hk
  have hin : placeInByte position + k < 8 * fieldLength position size := by
    rw [fieldLength]
    omega
  obtain ⟨byte, hbyte, hbit⟩ := Memory.exists_byte_of_readNat hread hspan hin
  rw [Machine.bitAt?_memory, byteOfBit_add, placeInByte_add, hbyte, ← hbit]
  rfl

/-- The bytes of a field can be read if all its bits can. -/
theorem exists_readNat_iff (hpos : 0 < size)
    (hspan : ¬ m.memory.RunsOver (byteOfBit address position) (fieldLength position size)) :
    (∃ n, m.memory.readNat (byteOfBit address position) (fieldLength position size) = .ok n) ↔
      ∀ k < size, (m.bitAt? (.memory address) (position + k)).isSome := by
  constructor
  · rintro ⟨n, hread⟩ k hk
    rw [bitAt?_of_readNat hread hspan k hk]
    rfl
  · intro hbits
    have hlength : 0 < fieldLength position size := by
      rw [fieldLength]
      omega
    have hend := Memory.offset_add_le_of_covers hlength hspan (covers_of_bits hpos hbits)
    have hslice := Memory.slice_eq_ok_iff.2 ⟨hend, rfl⟩
    exact ⟨LittleEndian.ofBytes (m.memory.bytesAt _ _), by rw [Memory.readNat, hslice]; rfl⟩

theorem readField_memory (hpos : 0 < size) :
    readField i position size (.memory address) =
      (readNat (byteOfBit address position) (fieldLength position size) >>= fun value =>
        pure (value / 2 ^ placeInByte position % 2 ^ size)) := by
  rw [readField, if_neg (Nat.ne_of_gt hpos)]
  · rfl
  · exact nofun

/-! ## Fields -/

theorem testBit_field (n place size k : Nat) :
    (n / 2 ^ place % 2 ^ size).testBit k = (decide (k < size) && n.testBit (place + k)) := by
  rw [Nat.testBit_mod_two_pow, Nat.testBit_div_two_pow, Nat.add_comm]

theorem run_readField_register (hsize : size ≤ 32) (hpos : 0 < size)
    (hposition : 0 ≤ position ∧ position < 32) :
    ∃ field < 2 ^ size, (readField i position size (.register r)).run m = .ok field m ∧
      ∀ k < size, m.bitAt? (.register r) (position + k) = some (field.testBit k) := by
  refine ⟨(m.registers.pair r).toNat / 2 ^ position.toNat % 2 ^ size,
    Nat.mod_lt _ (Nat.two_pow_pos _), ?_, ?_⟩
  · rw [readField, if_neg (by omega), registerPosition, if_pos hposition]
    rfl
  · intro k hk
    have hsum : position + k = (position.toNat + k : Nat) := by omega
    rw [hsum, Machine.bitAt?_register (by omega), testBit_field, decide_eq_true hk, Bool.true_and]
    rfl

/-- A field that begins where it may, and lies in storage bit by bit, is read. -/
theorem run_readField (hsize : size ≤ 32) (hbegins : 0 < size → base.Begins position)
    (hspan : ∀ address, base = .memory address →
      ¬ m.memory.RunsOver (byteOfBit address position) (fieldLength position size))
    (hbits : ∀ k < size, (m.bitAt? base (position + k)).isSome) :
    ∃ field < 2 ^ size, (readField i position size base).run m = .ok field m ∧
      ∀ k < size, m.bitAt? base (position + k) = some (field.testBit k) := by
  obtain rfl | hpos := Nat.eq_zero_or_pos size
  · exact ⟨0, by decide, rfl, fun k hk => absurd hk (Nat.not_lt_zero k)⟩
  cases base with
  | value word => exact absurd (hbits 0 hpos) Bool.false_ne_true
  | register r => exact run_readField_register hsize hpos (hbegins hpos r rfl)
  | memory address =>
    obtain ⟨n, hread⟩ := (exists_readNat_iff hpos (hspan address rfl)).2 hbits
    refine ⟨n / 2 ^ placeInByte position % 2 ^ size, Nat.mod_lt _ (Nat.two_pow_pos _), ?_, ?_⟩
    · rw [readField_memory hpos, run_bind_ok (run_readNat_eq_ok.2 ⟨hread, rfl⟩)]
      rfl
    · intro k hk
      rw [bitAt?_of_readNat hread (hspan address rfl) k hk, testBit_field, decide_eq_true hk,
        Bool.true_and]

theorem run_readField_misplaced (hpos : 0 < size) (h : ¬ base.Begins position) :
    (readField i position size base).run m =
      .error (.reservedOperand i.descriptor.mnemonic) m := by
  obtain ⟨r, rfl, hposition⟩ : ∃ r, base = .register r ∧ ¬ (0 ≤ position ∧ position < 32) := by
    simpa [Location.Begins] using h
  rw [readField, if_neg (by omega), registerPosition, if_neg hposition]
  rfl

theorem run_readField_unmapped (hpos : 0 < size)
    (hspan : ¬ m.memory.RunsOver (byteOfBit address position) (fieldLength position size))
    (hbits : ∃ k < size, m.bitAt? (.memory address) (position + k) = none) :
    (readField i position size (.memory address)).run m =
      .error (.memory ⟨byteOfBit address position, fieldLength position size⟩) m := by
  obtain hread | hread := m.memory.readNat_cases (byteOfBit address position)
    (fieldLength position size)
  · obtain ⟨k, hk, hbit⟩ := hbits
    have hsome := (exists_readNat_iff hpos hspan).1 hread k hk
    rw [hbit] at hsome
    exact absurd hsome Bool.false_ne_true
  · rw [readField_memory hpos, run_bind_error (run_readNat_error hread)]

/-! ## Extension -/

/-- The longword that a field is extended to. -/
def extended (isSigned : Bool) (size field : Nat) : BitVec 32 :=
  if isSigned then (BitVec.ofNat size field).signExtend 32 else BitVec.ofNat 32 field

/-- Above its own bits a field has zeros or copies of its last bit. -/
theorem getLsbD_extended (isSigned : Bool) {field k : Nat} (hfield : field < 2 ^ size)
    (hk : k < 32) :
    (extended isSigned size field).getLsbD k =
      if k < size then field.testBit k
      else isSigned && (decide (0 < size) && field.testBit (size - 1)) := by
  have hhigh : size ≤ k → field.testBit k = false := fun hle =>
    Nat.testBit_lt_two_pow (Nat.lt_of_lt_of_le hfield (Nat.pow_le_pow_right (by decide) hle))
  cases isSigned with
  | false =>
    change (BitVec.ofNat 32 field).getLsbD k = _
    rw [BitVec.getLsbD_ofNat, decide_eq_true hk, Bool.true_and, Bool.false_and]
    split
    · rfl
    · next hlow => exact hhigh (Nat.le_of_not_lt hlow)
  | true =>
    have hlast : size - 1 < size ↔ 0 < size := by omega
    change ((BitVec.ofNat size field).signExtend 32).getLsbD k = _
    rw [BitVec.getLsbD_signExtend, decide_eq_true hk, Bool.true_and, Bool.true_and,
      BitVec.msb_eq_getLsbD_last, BitVec.getLsbD_ofNat, BitVec.getLsbD_ofNat]
    split
    · next hlow => rw [decide_eq_true hlow, Bool.true_and]
    · rw [decide_eq_decide.2 hlast]

/-! ## The instruction -/

/-- What the operands of an extraction say: the position, the size, the base,
and where the field goes. -/
def fieldOperands (i : Instruction) : Exec (Int × Nat × Location × Location) := do
  let (position, size, base, destination) ← locate4 i
  let position := (← read .long position).toInt
  let size := (← read .byte size).toNat
  return (position, size, base, destination)

def storeField (i : Instruction) (isSigned : Bool) (position : Int) (size : Nat)
    (base destination : Location) : Exec Unit := do
  if 32 < size then
    reservedOperand i
  let field ← readField i position size base
  writeResult .long ⟨extended isSigned size field, false, some false⟩ destination

theorem extractField_eq (i : Instruction) (isSigned : Bool) : extractField i isSigned = (do
    let (position, size, base, destination) ← fieldOperands i
    storeField i isSigned position size base destination) := by
  simp only [extractField, fieldOperands, storeField, writeResult, extended, bind_assoc, pure_bind]
  rfl

theorem execute_extractField {isSigned : Bool}
    (h : i.descriptor.action = .extractField isSigned) :
    execute i = goesOn (fieldOperands i >>= fun operands =>
      storeField i isSigned operands.1 operands.2.1 operands.2.2.1 operands.2.2.2) := by
  rw [execute, h]
  exact congrArg goesOn (extractField_eq i isSigned)

theorem evaluates_fieldOperands (i : Instruction) : Evaluates i (fieldOperands i) :=
  (evaluates_locate4 i).bind fun _ => (still_read _ _).bind fun _ =>
    (still_read _ _).bind fun _ => still_pure _

theorem run_storeField {isSigned : Bool} {field : Nat} (hsize : size ≤ 32)
    (h : (readField i position size base).run m = .ok field m) :
    (storeField i isSigned position size base destination).run m =
      (writeResult .long ⟨extended isSigned size field, false, some false⟩ destination).run m := by
  have hallowed : ¬ 32 < size := Nat.not_lt.2 hsize
  rw [storeField]
  dsimp only
  rw [if_neg hallowed, run_bind_ok h]

theorem run_storeField_error {isSigned : Bool} {cause : Fault.Cause} (hsize : size ≤ 32)
    (h : (readField i position size base).run m = .error cause m) :
    (storeField i isSigned position size base destination).run m = .error cause m := by
  have hallowed : ¬ 32 < size := Nat.not_lt.2 hsize
  rw [storeField]
  dsimp only
  rw [if_neg hallowed, run_bind_error h]

theorem run_storeField_oversized {isSigned : Bool} (hsize : 32 < size) :
    (storeField i isSigned position size base destination).run m =
      .error (.reservedOperand i.descriptor.mnemonic) m := by
  rw [storeField, if_pos hsize]
  rfl

end Exec

open Exec

/-- What a step makes of the field of `size` bits at a position from a base.  A
field of up to 32 bits goes to its destination, if it begins in its register
and lies in storage bit by bit. -/
structure Instruction.Extracts (i : Instruction) (isSigned : Bool) (position : Int) (size : Nat)
    (base destination : Location) (m located : Machine) : Prop where
  yields : size ≤ 32 → (0 < size → base.Begins position) →
    (∀ k < size, (located.bitAt? base (position + k)).isSome) →
    located.Accepts .long destination →
    m.step.status = .running ∧ ∃ value : BitVec 32,
      (∀ k < size, located.bitAt? base (position + k) = some (value.getLsbD k)) ∧
      (∀ k, size ≤ k → k < 32 →
        value.getLsbD k = (isSigned && (decide (0 < size) && value.getLsbD (size - 1)))) ∧
      located.Receives .long value.toNat m.step destination ∧
      m.step.registers.flags = ⟨value.msb, value == 0, false, false⟩
  oversized : 32 < size →
    m.step.status = .faulted ⟨m.registers.pc, .reservedOperand i.descriptor.mnemonic⟩
  misplaced : size ≤ 32 → 0 < size → ¬ base.Begins position →
    m.step.status = .faulted ⟨m.registers.pc, .reservedOperand i.descriptor.mnemonic⟩
  unmapped : ∀ address, size ≤ 32 → base = .memory address →
    (∃ k < size, located.bitAt? base (position + k) = none) →
    m.step.status = .faulted ⟨m.registers.pc,
      .memory ⟨byteOfBit address position, fieldLength position size⟩⟩

theorem Machine.step_extracts {m located : Machine} {i : Instruction} {isSigned : Bool}
    {position : Int} {size : Nat} {base destination : Location} (hrunning : m.status = .running)
    (hfetch : m.memory.instructionAt m.registers.pc = .ok i)
    (haction : i.descriptor.action = .extractField isSigned)
    (hoperands : (fieldOperands i).run (m.fetched i) =
      .ok (position, size, base, destination) located)
    (hspan : ∀ address, base = .memory address →
      ¬ m.memory.RunsOver (byteOfBit address position) (fieldLength position size)) :
    i.Extracts isSigned position size base destination m located := by
  have hexecute := execute_extractField haction
  obtain ⟨hmemory, hstatus, hcurrent⟩ :=
    Machine.eq_of_located ((evaluates_fieldOperands i).differsIn hoperands)
  rw [← hmemory] at hspan
  -- Every fault of the second stage leaves the located machine as it is.
  have hfaults : ∀ cause, (storeField i isSigned position size base destination).run located =
      .error cause located → m.step.status = .faulted ⟨m.registers.pc, cause⟩ := by
    intro cause hrun
    obtain ⟨log, hstep⟩ := Machine.step_of_stages_error hrunning hfetch hexecute hoperands hrun
    rw [hstep, ← hcurrent]
  constructor
  case oversized =>
    intro hsize
    exact hfaults _ (run_storeField_oversized hsize)
  case misplaced =>
    intro hsize hpos hbegins
    exact hfaults _ (run_storeField_error hsize (run_readField_misplaced hpos hbegins))
  case unmapped =>
    rintro address hsize rfl ⟨k, hk, hbit⟩
    exact hfaults _ (run_storeField_error hsize
      (run_readField_unmapped (by omega) (hspan address rfl) ⟨k, hk, hbit⟩))
  case yields =>
    intro hsize hbegins hbits haccepts
    obtain ⟨field, hfield, hread, hfieldBits⟩ :=
      run_readField (i := i) hsize hbegins hspan hbits
    obtain ⟨after, hwrite⟩ := exists_writeResult haccepts
      ⟨extended isSigned size field, false, some false⟩
    obtain ⟨hreceives, hflags⟩ := run_writeResult (by decide) hwrite
    have hstep := Machine.step_of_stages hrunning hfetch hexecute hoperands
      ((run_storeField hsize hread).trans hwrite)
    rw [hstep]
    refine ⟨hreceives.status_eq.trans (hstatus.trans hrunning), extended isSigned size field,
      fun k hk => ?_, fun k hk hk' => ?_, hreceives, hflags⟩
    · rw [hfieldBits k hk, getLsbD_extended isSigned hfield (by omega), if_pos hk]
    · rw [getLsbD_extended isSigned hfield hk', if_neg (Nat.not_lt.2 hk)]
      by_cases hpos : 0 < size
      · rw [getLsbD_extended isSigned hfield (by omega), if_pos (by omega)]
      · rw [decide_eq_false hpos, Bool.false_and, Bool.false_and]

end Vax
