import Mathlib.Algebra.BigOperators.Group.List.Basic
import Vax.Proofs.Machine.Listed
import Vax.Proofs.Machine.Outcome
import Vax.Proofs.PackedDecimal.Conversion
import Vax.Proofs.PackedDecimal.Edit
import Vax.Proofs.PackedDecimal.Formatting
/-!
# Printing a number

A number that was converted to a packed decimal string and edited by a
floating pattern comes out as its numeral, at the end of its columns.
-/

namespace Vax

/-- The text at the end of `width` columns, behind blanks. -/
def Text.padLeft (width : Nat) (text : String) : String :=
  String.ofList (List.replicate (width - text.length) ' ') ++ text

/-- Text as bytes, all of its characters being one byte. -/
def Text.bytes (text : String) : List UInt8 :=
  text.toList.map Char.toUInt8

theorem Text.bytes_padLeft (width : Nat) (text : String) :
    Text.bytes (Text.padLeft width text) =
      List.replicate (width - text.length) 0x20 ++ Text.bytes text := by
  rw [Text.bytes, Text.padLeft, String.toList_append, String.toList_ofList, List.map_append,
    List.map_replicate]
  rfl

namespace Edit

/-- A signed numeral is the text of the number. -/
theorem signed_eq_bytes {width : Nat} {value : Int} (hwidth : 0 < width)
    (hvalue : value.natAbs < 10 ^ width) :
    signed (signCharacter (value < 0)) width value.natAbs =
      Text.bytes (Text.padLeft (width + 1) (toString value)) := by
  have hlength := length_numeral_le hwidth hvalue
  rw [Text.bytes_padLeft, signed]
  cases value with
  | ofNat n =>
      have htext : Text.bytes (toString (Int.ofNat n)) = numeral n :=
        congrArg (List.map Char.toUInt8) Nat.toList_repr
      have hcount : (toString (Int.ofNat n)).length = (numeral n).length := by
        rw [← htext, Text.bytes, List.length_map, String.length_toList]
      have hwhole : width + 1 - (numeral n).length = width - (numeral n).length + 1 :=
        Nat.succ_sub hlength
      rw [htext, hcount, hwhole, List.replicate_succ', List.append_assoc]
      rfl
  | negSucc n =>
      have htext : Text.bytes (toString (Int.negSucc n)) = 0x2d :: numeral (n + 1) := by
        have hrepr : toString (Int.negSucc n) = "-" ++ Nat.repr (n + 1) := rfl
        rw [hrepr, Text.bytes, String.toList_append, Nat.toList_repr, List.map_append]
        rfl
      have hcount : (toString (Int.negSucc n)).length = (numeral (n + 1)).length + 1 := by
        rw [← List.length_cons, ← htext, Text.bytes, List.length_map, String.length_toList]
      rw [htext, hcount, Nat.add_sub_add_right, decide_eq_true (Int.negSucc_lt_zero n)]
      rfl

end Edit

/-- A string of `length` digits at `source` represents `n` and is to be
written, behind its sign, to `length + 1` bytes that it does not overlap. -/
structure Edit.Task where
  start : Memory
  source : UInt32
  length : Nat
  n : Nat
  half : Nat
  destination : UInt32
  length_le : length ≤ 31
  n_lt : n < 10 ^ length
  half_lt : half < 16
  represents : Packed.Represents start source length n half
  covers : ∀ address ∈ area destination (length + 1), start.Covers address
  disjoint : ∀ address ∈ area source (length / 2 + 1), address ∉ area destination (length + 1)

namespace Edit.Task

variable {t : Task} {program : UInt32} {bytes : List UInt8}

/-- The bytes are there however much has been written. -/
def Spares (t : Task) (pattern : UInt32) (bytes : List UInt8) : Prop :=
  ∀ memory, t.start.SameOutside memory (area t.destination (t.length + 1)) →
    memory.HoldsBytes pattern bytes

/-- Bytes that are there whatever is written lie apart from what is written. -/
theorem Spares.disjoint (h : t.Spares program bytes) :
    ∀ address ∈ area program bytes.length, address ∉ area t.destination (t.length + 1) := by
  intro address hprogram hdestination
  obtain ⟨k, hk, rfl⟩ := exists_of_mem_area hprogram
  obtain ⟨memory, hstore⟩ := Memory.exists_store (t.covers _ hdestination) (bytes[k] + 1)
  have hread := h memory ((Memory.SameOutside.refl _ _).store hdestination hstore) k hk
  rw [Memory.readByte_store_self hstore] at hread
  exact absurd (Except.ok.inj hread) (by simp)

/-- The task as a job with the digits and the pattern in bytes. -/
def job (t : Task) (program : UInt32) (pattern : List UInt8) (h : t.Spares program pattern) :
    Job where
  start := t.start
  source := t.source
  length := t.length
  bytes := Packed.bytes t.length t.n t.half
  program := program
  pattern := pattern
  destination := t.destination
  room := t.length + 1
  length_le := t.length_le
  length_bytes := Packed.length_bytes _ _ _
  holds_bytes := t.represents.holds
  holds_pattern := h t.start (.refl _ _)
  covers := t.covers
  spares_bytes := by
    rw [Packed.length_bytes]
    exact t.disjoint
  spares_pattern := h.disjoint

end Edit.Task

namespace Exec

variable {m : Machine} {i : Instruction}

/-! ## Editing -/

theorem run_editString {t : Edit.Task} {pattern : UInt32} {counts : List Nat} {isNegative : Bool}
    (hstart : t.start = m.memory) (hhalf : t.half = (Packed.signOf isNegative).toNat)
    (hcounts : ∀ count ∈ counts, 1 ≤ count ∧ count ≤ 15) (hsum : 1 + counts.sum = t.length)
    (hpattern : t.Spares pattern (Edit.pattern counts)) :
    ∃ memory registers, (editString i t.length t.source pattern t.destination).run m =
        .ok () ((m.withMemory memory).withRegisters registers) ∧
      m.memory.Writes memory t.destination
        (Edit.signed (Edit.signCharacter isNegative) t.length t.n) ∧
      registers.get 5 = t.destination + UInt32.ofNat (t.length + 1) ∧
      registers.flags = ⟨isNegative && !(t.n == 0), t.n == 0, false, true⟩ := by
  let job := t.job pattern (Edit.pattern counts) hpattern
  have hdigits : job.digits = Packed.columns t.length t.n := Packed.digits_bytes t.n_lt t.half_lt
  have hsign : Packed.isMinus job.bytes = isNegative := by
    change Packed.isMinus (Packed.bytes t.length t.n t.half) = isNegative
    rw [hhalf, Packed.isMinus_bytes t.n_lt]
  obtain ⟨final, hformats, htext, hread, hsome⟩ := Edit.formats_pattern
    (Edit.signCharacter isNegative) t.n_lt hcounts ((Nat.add_comm _ 1).trans hsum)
  have hlength : final.text.length = t.length + 1 := by
    rw [htext, Edit.length_signed _ (by omega) t.n_lt]
  rw [← hsign, ← hdigits] at hformats
  obtain ⟨p, memory, htracks, hrun, -⟩ :=
    run_editString_of_formats (t := job) (i := i) hstart hformats hlength.symm
  have hflags := flags_editRegisters m.registers (Packed.isMinus job.bytes) htracks
  obtain ⟨-, -, -, -, -, hend⟩ :=
    get_editRegisters m.registers (Packed.isMinus job.bytes) htracks
  refine ⟨memory, _, hrun rfl, ?_, ?_, ?_⟩
  · rw [← hstart, ← htext]
    exact htracks.writes
  · rw [hend, hlength]
    rfl
  · have hall : (final.read != job.length) = false := bne_eq_false_iff_eq.2 hread
    rw [hflags, hall, hread, hdigits, Edit.all_take_columns t.n_lt (Nat.le_refl _),
      Edit.front_self, hsign, hsome]

end Exec

namespace Machine

variable {m located : Machine} {i : Instruction}

/-- A conversion leaves the number in packed digits, and nothing else in memory. -/
theorem step_of_longToPacked {value : Int} {length : Nat} {field : UInt32}
    (hrunning : m.status = .running) (hfetch : m.memory.instructionAt m.registers.pc = .ok i)
    (haction : i.descriptor.action = .longToPacked)
    (hoperands : (Exec.packedOperands i).run (m.fetched i) = .ok (value, length, field) located)
    (hlength : length ≤ 31) (hvalue : value.natAbs < 10 ^ length)
    (hcovers : ∀ other ∈ area field (length / 2 + 1), m.memory.Covers other) :
    m.step.status = .running ∧
      Packed.Represents m.step.memory field length value.natAbs
        (Packed.signOf (value < 0)).toNat ∧
      m.memory.SameOutside m.step.memory (area field (length / 2 + 1)) := by
  obtain ⟨hmemory, hstatus, -⟩ :=
    eq_of_located ((Exec.evaluates_packedOperands i).differsIn hoperands)
  rw [← hmemory] at hcovers ⊢
  obtain ⟨packed, hstore, hrepresents, hsame⟩ := Exec.run_storePacked hlength hcovers
  have hstep := step_of_stages hrunning hfetch (Exec.execute_longToPacked haction) hoperands hstore
  rw [hstep]
  rw [Nat.mod_eq_of_lt hvalue] at hrepresents
  exact ⟨hstatus.trans hrunning, hrepresents, hsame⟩

/-- An edit by a floating pattern writes the numeral behind its sign. -/
theorem step_of_editPacked {t : Edit.Task} {pattern : UInt32} {counts : List Nat}
    {isNegative : Bool} (hrunning : m.status = .running)
    (hfetch : m.memory.instructionAt m.registers.pc = .ok i)
    (haction : i.descriptor.action = .editPacked)
    (hoperands : (Exec.editOperands i).run (m.fetched i) =
      .ok (t.length, t.source, pattern, t.destination) located)
    (hstart : t.start = m.memory) (hhalf : t.half = (Packed.signOf isNegative).toNat)
    (hcounts : ∀ count ∈ counts, 1 ≤ count ∧ count ≤ 15) (hsum : 1 + counts.sum = t.length)
    (hpattern : t.Spares pattern (Edit.pattern counts)) :
    m.step.status = .running ∧
      m.memory.Writes m.step.memory t.destination
        (Edit.signed (Edit.signCharacter isNegative) t.length t.n) ∧
      m.step.registers.get 5 = t.destination + UInt32.ofNat (t.length + 1) ∧
      m.step.registers.flags = ⟨isNegative && !(t.n == 0), t.n == 0, false, true⟩ := by
  obtain ⟨hmemory, hstatus, -⟩ :=
    eq_of_located ((Exec.evaluates_editOperands i).differsIn hoperands)
  rw [← hmemory] at hstart ⊢
  obtain ⟨printed, registers, hprint, hwrites, hend, hflags⟩ :=
    Exec.run_editString (i := i) hstart hhalf hcounts hsum hpattern
  have hstep := step_of_stages hrunning hfetch (Exec.execute_editPacked haction) hoperands hprint
  rw [hstep]
  exact ⟨hstatus.trans hrunning, hwrites, hend, hflags⟩

end Machine

namespace Edit

/-- Where a number is converted and edited: the string, the pattern and the
text do not overlap. -/
structure Layout (m : Memory) (length : Nat) (counts : List Nat)
    (field program output : UInt32) : Prop where
  counts_bound : ∀ count ∈ counts, 1 ≤ count ∧ count ≤ 15
  sum_eq : counts.sum + 1 = length
  field_covered : ∀ address ∈ area field (length / 2 + 1), m.Covers address
  output_covered : ∀ address ∈ area output (length + 1), m.Covers address
  holds : m.HoldsBytes program (pattern counts)
  field_output : ∀ address ∈ area field (length / 2 + 1), address ∉ area output (length + 1)
  field_pattern : ∀ address ∈ area field (length / 2 + 1),
    address ∉ area program (pattern counts).length
  pattern_output : ∀ address ∈ area program (pattern counts).length,
    address ∉ area output (length + 1)

/-- The condition codes of an edit are those of the number. -/
theorem flags_eq (value : Int) :
    (⟨decide (value < 0) && !(value.natAbs == 0), value.natAbs == 0, false, true⟩ : Flags) =
      ⟨value < 0, value == 0, false, true⟩ := by
  have hnegative : (decide (value < 0) && !(value.natAbs == 0)) = decide (value < 0) := by
    rw [Bool.eq_iff_iff, Bool.and_eq_true, Bool.not_eq_true', beq_eq_false_iff_ne,
      decide_eq_true_iff]
    omega
  have hzero : (value.natAbs == 0) = (value == 0) := by
    rw [Bool.eq_iff_iff, beq_iff_eq, beq_iff_eq, Int.natAbs_eq_zero]
  rw [hnegative, hzero]

theorem Layout.length_pattern_le {m : Memory} {length : Nat} {counts : List Nat}
    {field program output : UInt32} (h : Layout m length counts field program output) :
    (pattern counts).length ≤ length + 2 := by
  have hcounts : counts.length ≤ counts.sum :=
    List.length_le_sum_of_one_le counts fun count hcount => (h.counts_bound count hcount).1
  have hsum := h.sum_eq
  rw [length_pattern]
  omega

end Edit

open Exec

/-- A number of up to `length` digits that is converted to a packed decimal
string, and later edited by a floating pattern for so many digits, is written
as its numeral at the end of `length + 1` columns.  The string and the pattern
are to stay as the conversion has left them in between. -/
theorem converted_number_is_printed {m later located edited : Machine} {i j : Instruction}
    {value : Int} {length : Nat} {counts : List Nat} {field program output : UInt32}
    (hlength : length ≤ 31) (hvalue : value.natAbs < 10 ^ length)
    (hlayout : Edit.Layout m.memory length counts field program output)
    (hrunning : m.status = .running)
    (hconvert : m.memory.instructionAt m.registers.pc = .ok i)
    (hi : i.descriptor.action = .longToPacked)
    (hoperands : (packedOperands i).run (m.fetched i) = .ok (value, length, field) located)
    (hlater : later.status = .running)
    (hedit : later.memory.instructionAt later.registers.pc = .ok j)
    (hj : j.descriptor.action = .editPacked)
    (hoperands' : (editOperands j).run (later.fetched j) =
      .ok (length, field, program, output) edited)
    (hkept : ∀ address, address ∈ area field (length / 2 + 1) ∨
      address ∈ area program (Edit.pattern counts).length →
        later.memory.readByte address = m.step.memory.readByte address)
    (hcovers : ∀ address, m.step.memory.Covers address → later.memory.Covers address) :
    m.step.status = .running ∧ later.step.status = .running ∧
      later.memory.Writes later.step.memory output
        (Text.bytes (Text.padLeft (length + 1) (toString value))) ∧
      (Text.bytes (Text.padLeft (length + 1) (toString value))).length = length + 1 ∧
      later.step.registers.get 5 = output + UInt32.ofNat (length + 1) ∧
      later.step.registers.flags = ⟨value < 0, value == 0, false, true⟩ := by
  have hpositive : 0 < length := by
    rw [← hlayout.sum_eq]
    exact Nat.succ_pos _
  have hsmall := hlayout.length_pattern_le
  obtain ⟨hstatus, hrepresents, hsame⟩ := Machine.step_of_longToPacked hrunning hconvert hi
    hoperands hlength hvalue hlayout.field_covered
  have hprogram : later.memory.HoldsBytes program (Edit.pattern counts) := by
    apply hlayout.holds.of_read
    intro address haddress
    have hoff : address ∉ area field (length / 2 + 1) := fun hmem =>
      hlayout.field_pattern address hmem haddress
    exact (hkept address (.inr haddress)).trans (hsame.read address hoff)
  let task : Edit.Task :=
    { start := later.memory
      source := field
      length := length
      n := value.natAbs
      half := (Packed.signOf (value < 0)).toNat
      destination := output
      length_le := hlength
      n_lt := hvalue
      half_lt := Packed.toNat_signOf_lt _
      represents := fun k hk =>
        (hkept _ (.inl (mem_area (by omega)))).trans (hrepresents k hk)
      covers := fun address haddress =>
        hcovers address ((hsame.covers address).2 (hlayout.output_covered address haddress))
      disjoint := hlayout.field_output }
  have hspares : task.Spares program (Edit.pattern counts) := fun memory hmemory =>
    hprogram.of_read fun address haddress =>
      hmemory.read address (hlayout.pattern_output address haddress)
  have hhalf : task.half = (Packed.signOf (value < 0)).toNat := rfl
  obtain ⟨hstatus', hwrites, hend, hflags⟩ := Machine.step_of_editPacked (t := task)
    hlater hedit hj hoperands' rfl hhalf hlayout.counts_bound
    ((Nat.add_comm 1 _).trans hlayout.sum_eq) hspares
  have hsigned := Edit.signed_eq_bytes hpositive hvalue
  have htext := Edit.length_signed (Edit.signCharacter (value < 0)) hpositive hvalue
  rw [hsigned] at htext
  exact ⟨hstatus, hstatus', hsigned ▸ hwrites, htext, hend, hflags.trans (Edit.flags_eq value)⟩

/-- A program that converts -42 to three digits and prints them. -/
theorem converted_number_is_printed_negative :
    let m : Machine :=
      { registers := ((Registers.zeroed.set 6 16).set 7 24).set 8 32
        memory := ⟨0, 64, [0xf9, 0x8f, 0xd6, 0xff, 0xff, 0xff, 0x03, 0x66, 0x38, 0x03, 0x66, 0x67,
          0x68, 0, 0, 0, 0, 0, 0, 0, 0, 0, 0, 0, 0xa2, 0x01, 0x91, 0x00].toByteArray⟩
        symbols := .empty, entry := 0, status := .running, frames := #[],
        output := .unlimited, log := .empty none, current := 0 }
    m.step.step.status = .running ∧
      m.step.memory.Writes m.step.step.memory 32 [0x20, 0x2d, 0x34, 0x32] ∧
      m.step.step.registers.get 5 = 36 ∧
      m.step.step.registers.flags = ⟨true, false, false, true⟩ := by
  intro m
  let i : Instruction :=
    { address := 0, length := 8, descriptor := ⟨0xf9, "cvtlp", [.long, .word, .byte], .longToPacked⟩
      operands := [⟨.long, .plain (.immediate 2 0xffffffd6)⟩, ⟨.word, .plain (.literal 3)⟩,
        ⟨.byte, .plain (.deferred 6)⟩] }
  let j : Instruction :=
    { address := 8, length := 5
      descriptor := ⟨0x38, "editpc", [.word, .byte, .byte, .byte], .editPacked⟩
      operands := [⟨.word, .plain (.literal 3)⟩, ⟨.byte, .plain (.deferred 6)⟩,
        ⟨.byte, .plain (.deferred 7)⟩, ⟨.byte, .plain (.deferred 8)⟩] }
  have hconvert : m.memory.instructionAt m.registers.pc = .ok i :=
    Memory.instructionAt_of_toOption (by decide +kernel)
  have hedit : m.step.memory.instructionAt m.step.registers.pc = .ok j :=
    Memory.instructionAt_of_toOption (by decide +kernel)
  have hlayout : Edit.Layout m.memory 3 [2] 16 24 32 :=
    ⟨by decide, rfl, forall_mem_area (by decide +kernel), forall_mem_area (by decide +kernel),
      by decide +kernel, forall_mem_area (by decide +kernel), forall_mem_area (by decide +kernel),
      forall_mem_area (by decide +kernel)⟩
  obtain ⟨located, hoperands⟩ : ∃ located, (packedOperands i).run (m.fetched i) =
      .ok (-42, 3, 16) located := Exec.exists_run (by decide +kernel)
  obtain ⟨edited, hoperands'⟩ : ∃ edited, (editOperands j).run (m.step.fetched j) =
      .ok (3, 16, 24, 32) edited := Exec.exists_run (by decide +kernel)
  obtain ⟨-, hstatus, hwrites, -, hend, hflags⟩ := converted_number_is_printed (by decide)
    (by decide) hlayout rfl hconvert rfl hoperands (by decide +kernel) hedit rfl hoperands'
    (fun _ _ => rfl) (fun _ h => h)
  exact ⟨hstatus, hwrites, hend, hflags⟩

end Vax
