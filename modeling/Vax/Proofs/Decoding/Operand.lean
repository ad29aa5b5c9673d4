import Vax.Proofs.Decoding.Grammar
import Vax.Proofs.Machine.Operand
/-!
# Decoded operands

The operands of a decoded instruction stand encoded in memory.  So a constant
is the number found there, a specifier is a branch just where the kind of the
operand says so, and no mode but autodecrement steps the program counter.
-/

namespace Vax

namespace Mode.Encoding

variable {kind : OperandKind} {position : UInt32} {e : Mode.Encoding}

theorem eq_autodecrement (he : e.WellFormed kind)
    (h : (e.mode position).stepped? = some Register.pc) :
    e.mode position = .autodecrement Register.pc := by
  cases e with
  | autodecrement r =>
      obtain rfl := Option.some.inj h
      rfl
  | autoincrement r | autoincrementDeferred r => exact absurd (Option.some.inj h) he
  | displacement r width offset isDeferred =>
      rw [mode] at h
      split at h <;> exact absurd h nofun
  | _ => exact absurd h nofun

end Mode.Encoding

namespace Operand

/-- The operand is encoded at some place in memory. -/
def IsEncodedIn (m : Memory) (operand : Operand) : Prop :=
  ∃ (e : Operand.Encoding) (position : UInt32),
    e.WellFormed ∧ operand = e.operand position ∧ m.Holds position e.fields

namespace IsEncodedIn

variable {m : Memory} {operand : Operand}

theorem isBranch_iff (h : operand.IsEncodedIn m) :
    operand.kind.isBranch = true ↔ ∃ target, operand.specifier = .branch target := by
  obtain ⟨⟨kind, specifier⟩, position, he, rfl, -⟩ := h
  cases specifier with
  | plain mode =>
      have hkind : kind.isBranch = false := he.1
      simp [Operand.Encoding.operand, Specifier.Encoding.specifier, hkind]
  | indexed base r =>
      have hkind : kind.isBranch = false := he.1
      simp [Operand.Encoding.operand, Specifier.Encoding.specifier, hkind]
  | branch width offset =>
      have hkind : kind.isBranch = true := he.1
      simp [Operand.Encoding.operand, Specifier.Encoding.specifier, hkind]

theorem autodecrement_of_stepped (h : operand.IsEncodedIn m)
    (hpc : operand.specifier.stepped? = some Register.pc) :
    operand.specifier = .plain (.autodecrement Register.pc) ∨
      ∃ r, operand.specifier = .indexed (.autodecrement Register.pc) r := by
  obtain ⟨⟨kind, specifier⟩, position, he, rfl, -⟩ := h
  cases specifier with
  | plain mode => exact Or.inl (congrArg Specifier.plain (mode.eq_autodecrement he.2.1 hpc))
  | indexed base r =>
      exact Or.inr ⟨r, congrArg (Specifier.indexed · r) (base.eq_autodecrement he.2 hpc)⟩
  | branch width offset => exact absurd hpc nofun

/-- A literal is below 64, and an immediate value is the number that stands
where its mode says. -/
theorem constant (h : operand.IsEncodedIn m) {value : Nat}
    (hconstant : operand.specifier.constant? = some value) :
    (∃ byte : UInt8, operand.specifier = .plain (.literal byte) ∧ byte.toNat = value ∧
      value < 64) ∨
    ∃ address, operand.specifier = .plain (.immediate address value) ∧
      value < 256 ^ operand.kind.size ∧
      m.readNat address operand.kind.size = .ok value := by
  obtain ⟨⟨kind, specifier⟩, position, he, rfl, hholds⟩ := h
  cases specifier with
  | plain mode =>
      obtain ⟨-, hmode, -⟩ := he
      cases mode with
      | literal byte =>
          obtain rfl := Option.some.inj hconstant
          exact Or.inl ⟨byte, rfl, rfl, hmode⟩
      | immediate stored =>
          obtain rfl := Option.some.inj hconstant
          have hslice := hholds.2.1
          rw [LittleEndian.length_toBytes] at hslice
          have hread := Memory.readNat_of_slice hslice
          rw [Nat.mod_eq_of_lt hmode] at hread
          exact Or.inr ⟨position + 1, rfl, hmode, hread⟩
      | displacement r width offset isDeferred =>
          simp only [Operand.Encoding.operand, Specifier.Encoding.specifier,
            Mode.Encoding.mode] at hconstant
          split at hconstant <;> exact absurd hconstant nofun
      | _ => exact absurd hconstant nofun
  | indexed base r => exact absurd hconstant nofun
  | branch width offset => exact absurd hconstant nofun

end IsEncodedIn

/-! ## The operands of an instruction -/

theorem isEncodedIn_of_mem {m : Memory} {es : List Operand.Encoding} {position : UInt32}
    (hes : ∀ e ∈ es, e.WellFormed) (h : m.Holds position (es.flatMap Operand.Encoding.fields)) :
    ∀ operand ∈ Operand.Encoding.operands position es, operand.IsEncodedIn m := by
  induction es generalizing position with
  | nil => exact List.forall_mem_nil _
  | cons e rest ih =>
      obtain ⟨he, hrest⟩ := List.forall_mem_cons.1 hes
      rw [List.flatMap_cons, Memory.holds_append] at h
      exact List.forall_mem_cons.2 ⟨⟨e, position, he, rfl, h.1⟩, ih hrest h.2⟩

theorem map_kind_operands (es : List Operand.Encoding) (position : UInt32) :
    (Operand.Encoding.operands position es).map Operand.kind =
      es.map Operand.Encoding.kind := by
  induction es generalizing position with
  | nil => rfl
  | cons e rest ih =>
      rw [Operand.Encoding.operands, List.map_cons, List.map_cons, ih]
      rfl

end Operand

/-- What holds of an instruction that was decoded. -/
structure Instruction.IsEncodedIn (m : Memory) (i : Instruction) : Prop where
  catalogued : i.descriptor ∈ Catalog.descriptors
  kinds : i.operands.map Operand.kind = i.descriptor.operands
  operands : ∀ operand ∈ i.operands, operand.IsEncodedIn m

theorem Memory.isEncodedIn_of_decodes {m : Memory} {address stop : UInt32} {i : Instruction}
    (h : m.Decodes address i stop) : i.IsEncodedIn m := by
  obtain ⟨e, he, hholds, rfl, -⟩ := Decoding.holds_of_decodes h
  rw [Instruction.Encoding.fields, Memory.holds_append, Decoding.length_codeFields] at hholds
  exact ⟨he.catalogued, (Operand.map_kind_operands _ _).trans he.kinds,
    Operand.isEncodedIn_of_mem he.operands hholds.2⟩

/-- An instruction that the machine fetches is one that the disassembler shows. -/
theorem Memory.decodes_of_instructionAt {m : Memory} {address : UInt32} {i : Instruction}
    (h : m.instructionAt address = .ok i) : ∃ stop, m.Decodes address i stop := by
  cases Decoding.reading ⟨m, .empty, none⟩ address with
  | instruction other stop hdecodes hmachine =>
      obtain rfl := Except.ok.inj (h.symm.trans hmachine)
      exact ⟨stop, hdecodes⟩
  | outOfRange e hlisting hmachine => exact absurd (h.symm.trans hmachine) nofun
  | escaped first code position hfirst hescape hopcode hmachine =>
      exact absurd (h.symm.trans hmachine) nofun
  | unknown first hfirst hfind hescape hopcode hmachine =>
      exact absurd (h.symm.trans hmachine) nofun

theorem Memory.isEncodedIn_of_instructionAt {m : Memory} {address : UInt32} {i : Instruction}
    (h : m.instructionAt address = .ok i) : i.IsEncodedIn m := by
  obtain ⟨stop, hdecodes⟩ := decodes_of_instructionAt h
  exact isEncodedIn_of_decodes hdecodes

/-! ## The space that an instruction takes up -/

theorem OperandKind.size_le (kind : OperandKind) : kind.size ≤ 16 := by
  cases kind <;> decide

theorem Width.size_le (w : Width) : w.size ≤ 8 := by
  cases w <;> decide

theorem Mode.Encoding.length_extension_le (kind : OperandKind) (e : Mode.Encoding) :
    (e.extension kind).flatten.length ≤ 16 := by
  have hkind := kind.size_le
  cases e with
  | immediate value => simpa [extension] using hkind
  | displacement r width offset isDeferred =>
    have hwidth := width.size_le
    simp [extension]
    omega
  | _ => simp [extension]

/-- An operand takes up a few bytes. -/
theorem Operand.Encoding.length_fields_le (e : Operand.Encoding) :
    e.fields.flatten.length ≤ 18 := by
  obtain ⟨kind, specifier⟩ := e
  cases specifier with
  | plain mode =>
    have hmode := mode.length_extension_le kind
    simp [Operand.Encoding.fields, Specifier.Encoding.fields] at hmode ⊢
    omega
  | indexed base r =>
    have hbase := base.length_extension_le kind
    simp [Operand.Encoding.fields, Specifier.Encoding.fields] at hbase ⊢
    omega
  | branch width offset =>
    have hwidth := width.size_le
    simp [Operand.Encoding.fields, Specifier.Encoding.fields]
    omega

theorem Operand.Encoding.length_flatMap_fields_le (es : List Operand.Encoding) :
    (es.flatMap Operand.Encoding.fields).flatten.length ≤ 18 * es.length := by
  induction es with
  | nil => exact Nat.le_refl _
  | cons e rest ih =>
    have hfirst := e.length_fields_le
    rw [List.flatMap_cons, List.flatten_append, List.length_append, List.length_cons]
    omega

theorem Catalog.length_operands_le : ∀ d ∈ descriptors, d.operands.length ≤ 6 := by
  decide +kernel

theorem Descriptor.codeLength_le (d : Descriptor) : d.codeLength ≤ 2 := by
  unfold codeLength
  split <;> decide

namespace Decoding

theorem length_bytes_le {e : Instruction.Encoding} (he : e.WellFormed) : e.bytes.length ≤ 110 := by
  have hcode := e.descriptor.codeLength_le
  have hoperands := Catalog.length_operands_le _ he.catalogued
  rw [← he.kinds, List.length_map] at hoperands
  have hfields := Operand.Encoding.length_flatMap_fields_le e.operands
  rw [Instruction.Encoding.bytes, Instruction.Encoding.fields, List.flatten_append,
    List.length_append, length_codeFields, Instruction.Encoding.operandFields]
  omega

end Decoding

/-- The instruction that was read at an address is somewhere else from the next one. -/
theorem Memory.address_of_instructionAt {m : Memory} {address : UInt32} {i : Instruction}
    (h : m.instructionAt address = .ok i) : i.address = address ∧ i.nextAddress ≠ address := by
  obtain ⟨stop, hdecodes⟩ := Memory.decodes_of_instructionAt h
  obtain ⟨e, he, -, rfl, -⟩ := Decoding.holds_of_decodes hdecodes
  refine ⟨rfl, fun hnext => ?_⟩
  have hpos := Decoding.length_bytes_pos e
  have hle := Decoding.length_bytes_le he
  have hsum := congrArg UInt32.toNat hnext
  rw [Instruction.nextAddress, UInt32.toNat_add] at hsum
  change (address.toNat + (UInt32.ofNat e.bytes.length).toNat) % 2 ^ 32 = address.toNat at hsum
  have haddress := address.toNat_lt
  rw [UInt32.toNat_ofNat', Nat.mod_eq_of_lt (a := e.bytes.length) (by omega)] at hsum
  omega

end Vax
