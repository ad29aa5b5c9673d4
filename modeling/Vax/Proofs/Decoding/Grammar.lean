import Vax.Proofs.Decoding.Readers
/-!
# Decoding is exact

An instruction is decoded where one of its encodings stands and nowhere else.
What follows the encoding does not matter, and an image that is cut inside it
holds no instruction there.
-/

namespace Vax.Decoding

open Fetch (Takes)

theorem takes_operand {e : Operand.Encoding} (h : e.WellFormed) (position : UInt32) :
    Takes (fun m => Operand.fetch m e.kind) position e.fields (e.operand position) :=
  (takes_specifier h position).map (Operand.mk e.kind)

theorem takes_operands {es : List Operand.Encoding} (h : ∀ e ∈ es, e.WellFormed)
    (position : UInt32) :
    Takes (fun m => (es.map Operand.Encoding.kind).mapM (Operand.fetch m)) position
      (es.flatMap Operand.Encoding.fields) (Operand.Encoding.operands position es) := by
  induction es generalizing position with
  | nil => exact Takes.pure position []
  | cons e rest ih =>
      obtain ⟨hfirst, hrest⟩ := List.forall_mem_cons.1 h
      simp only [List.map_cons, List.mapM_cons, List.flatMap_cons, Operand.Encoding.operands]
      exact (takes_operand hfirst position).bind (ih hrest _).bind_pure

theorem takes_fetchOperands {d : Descriptor} {es : List Operand.Encoding}
    (hkinds : es.map Operand.Encoding.kind = d.operands) (h : ∀ e ∈ es, e.WellFormed)
    (address position : UInt32) :
    Takes (fun m => Instruction.fetchOperands m address d) position
      (es.flatMap Operand.Encoding.fields)
      ⟨address, position + UInt32.ofNat (es.flatMap Operand.Encoding.fields).flatten.length -
        address, d, Operand.Encoding.operands position es⟩ := by
  have hoperands := (takes_operands h position).bind
    (g := fun operands _ => do
      return Instruction.mk address ((← Fetch.position) - address) d operands)
    (Takes.position_bind (Takes.pure _ (Instruction.mk _ _ _ _)))
  rw [List.append_nil, hkinds] at hoperands
  exact hoperands

theorem exists_operand (m : Memory) (kind : OperandKind) (position : UInt32) :
    ∃ e : Operand.Encoding, e.kind = kind ∧ e.WellFormed ∧
      (m.Holds position e.fields ∨ m.BreaksOff position e.fields) := by
  obtain ⟨specifier, hspecifier, hstands⟩ := exists_specifier m kind position
  exact ⟨⟨kind, specifier⟩, rfl, hspecifier, hstands⟩

theorem exists_operands (m : Memory) (kinds : List OperandKind) (position : UInt32) :
    ∃ es : List Operand.Encoding, es.map Operand.Encoding.kind = kinds ∧
      (∀ e ∈ es, e.WellFormed) ∧
      (m.Holds position (es.flatMap Operand.Encoding.fields) ∨
        m.BreaksOff position (es.flatMap Operand.Encoding.fields)) := by
  induction kinds generalizing position with
  | nil => exact ⟨[], rfl, List.forall_mem_nil _, Or.inl trivial⟩
  | cons kind rest ih =>
      obtain ⟨e, hkind, he, hfirst⟩ := exists_operand m kind position
      obtain ⟨es, hkinds, hes, hrest⟩ :=
        ih (position + UInt32.ofNat e.fields.flatten.length)
      refine ⟨e :: es, by rw [List.map_cons, hkind, hkinds],
        List.forall_mem_cons.2 ⟨he, hes⟩, ?_⟩
      rw [List.flatMap_cons, Memory.holds_append, Memory.breaksOff_append]
      rcases hfirst with hholds | hbreaks
      · exact hrest.imp (fun h => ⟨hholds, h⟩) fun h => Or.inr ⟨hholds, h⟩
      · exact Or.inr (Or.inl hbreaks)

theorem length_bytes_pos (e : Instruction.Encoding) : 0 < e.bytes.length := by
  have hcode : 0 < e.descriptor.codeLength := by
    unfold Descriptor.codeLength
    split <;> decide
  rw [Instruction.Encoding.bytes, Instruction.Encoding.fields, List.flatten_append,
    List.length_append, length_codeFields]
  omega

theorem ofNat_length_bytes (e : Instruction.Encoding) :
    UInt32.ofNat e.bytes.length =
      UInt32.ofNat e.descriptor.codeLength + UInt32.ofNat e.operandFields.flatten.length := by
  rw [Instruction.Encoding.bytes, Instruction.Encoding.fields, List.flatten_append,
    List.length_append, length_codeFields, UInt32.ofNat_add]

theorem run_operands_of_holds {e : Instruction.Encoding} (he : e.WellFormed) {m : Memory}
    {address : UInt32}
    (h : m.Holds (address + UInt32.ofNat e.descriptor.codeLength) e.operandFields) :
    (Instruction.fetchOperands m address e.descriptor).run
        (address + UInt32.ofNat e.descriptor.codeLength) =
      .ok (e.instruction address, address + UInt32.ofNat e.bytes.length) := by
  have hrun := (takes_fetchOperands he.kinds he.operands address _).run m h
  have hend : address + UInt32.ofNat e.descriptor.codeLength +
      UInt32.ofNat (e.operands.flatMap Operand.Encoding.fields).flatten.length =
        address + UInt32.ofNat e.bytes.length := by
    rw [ofNat_length_bytes, UInt32.add_assoc]
    rfl
  have hlength : address + UInt32.ofNat e.bytes.length - address =
      UInt32.ofNat e.bytes.length := by
    rw [UInt32.add_comm, UInt32.add_sub_cancel]
  rw [hend, hlength] at hrun
  exact hrun

/-- An encoding is decoded wherever it stands. -/
theorem decodes_of_holds {e : Instruction.Encoding} (he : e.WellFormed) {m : Memory}
    {address : UInt32} (h : m.Holds address e.fields) :
    m.Decodes address (e.instruction address) (address + UInt32.ofNat e.bytes.length) := by
  obtain ⟨hcode, hoperands⟩ := Memory.holds_append.1 h
  have hopcode := (takes_opcode he.catalogued address).run m hcode
  rw [length_codeFields] at hopcode hoperands
  exact ⟨_, hopcode, run_operands_of_holds he hoperands⟩

/-- Whatever is decoded is an encoding. -/
theorem holds_of_decodes {m : Memory} {address stop : UInt32} {i : Instruction}
    (h : m.Decodes address i stop) :
    ∃ e : Instruction.Encoding, e.WellFormed ∧ m.Holds address e.fields ∧
      i = e.instruction address ∧ stop = address + UInt32.ofNat e.bytes.length := by
  obtain ⟨position, hopcode, hrun⟩ := h
  obtain ⟨hcatalogued, hcode⟩ := holds_of_run_opcode hopcode
  have hposition := (takes_opcode hcatalogued address).run m hcode
  rw [hopcode, length_codeFields] at hposition
  simp only [Except.ok.injEq, Prod.mk.injEq, true_and] at hposition
  subst hposition
  obtain ⟨es, hkinds, hes, hstands⟩ := exists_operands m i.descriptor.operands
    (address + UInt32.ofNat i.descriptor.codeLength)
  rcases hstands with hholds | hbreaks
  · have he : Instruction.Encoding.WellFormed ⟨i.descriptor, es⟩ := ⟨hcatalogued, hkinds, hes⟩
    rw [run_operands_of_holds he hholds] at hrun
    simp only [Except.ok.injEq, Prod.mk.injEq] at hrun
    refine ⟨⟨i.descriptor, es⟩, he, ?_, hrun.1.symm, hrun.2.symm⟩
    rw [Instruction.Encoding.fields, Memory.holds_append, length_codeFields]
    exact ⟨hcode, hholds⟩
  · obtain ⟨e, he⟩ := (takes_fetchOperands hkinds hes address _).fails m hbreaks
    rw [he] at hrun
    exact absurd hrun nofun

/-! ## Encodings that break off -/

/-- Both readers fail at `address`, on the same access. -/
def Fails (m : Memory) (address : UInt32) : Prop :=
  ∃ error, m.instructionAt address = .error (.memory error) ∧
    ∀ symbols entry, (Disassembler.mk m symbols entry).decodeAt address = .error error

theorem fails_of_missing {m : Memory} {address : UInt32} {e : OutOfRange}
    (hfirst : (Fetch.byte m).run address = .error e) : Fails m address :=
  ⟨e, instructionAt_missing hfirst,
    fun _ _ => decodeAt_of_opcode_error (run_opcode_missing hfirst)⟩

theorem fails_of_breaksOff_code {d : Descriptor} (hd : d ∈ Catalog.descriptors) {m : Memory}
    {address : UInt32} (h : m.BreaksOff address d.codeFields) : Fails m address := by
  rcases Nat.lt_or_ge d.code.toNat 256 with hshort | hlong
  · rw [codeFields_of_lt hshort] at h
    obtain ⟨e, he⟩ := (Takes.byte address _).fails m h
    exact fails_of_missing he
  · have hescape := (Catalog.isEscape_of_code d hd).resolve_left (by omega)
    rw [codeFields_of_le hlong] at h
    have hbyte : m.BreaksOff address
        ([[UInt8.ofNat (d.code.toNat / 256)]] ++ [[UInt8.ofNat d.code.toNat]]) := h
    rcases Memory.breaksOff_append.1 hbyte with hfirst | ⟨hfirst, hsecond⟩
    · obtain ⟨e, he⟩ := (Takes.byte address _).fails m hfirst
      exact fails_of_missing he
    · have hrun := (Takes.byte address _).run m hfirst
      obtain ⟨e, he⟩ := (Takes.byte _ _).fails m hsecond
      have hopcode := run_opcode_cutOff hrun (Catalog.find?_of_isEscape hescape) he
      exact ⟨e, instructionAt_cutOff hrun hescape he,
        fun _ _ => decodeAt_of_opcode_error hopcode⟩

/-- Where an encoding breaks off there is no instruction. -/
theorem fails_of_breaksOff {e : Instruction.Encoding} (he : e.WellFormed) {m : Memory}
    {address : UInt32} (h : m.BreaksOff address e.fields) : Fails m address := by
  rcases Memory.breaksOff_append.1 h with hcode | ⟨hcode, hoperands⟩
  · exact fails_of_breaksOff_code he.catalogued hcode
  · have hopcode := (takes_opcode he.catalogued address).run m hcode
    obtain ⟨error, herror⟩ :=
      (takes_fetchOperands he.kinds he.operands address _).fails m hoperands
    refine ⟨error, ?_, fun _ _ => decodeAt_of_operands_error hopcode herror⟩
    rw [instructionAt_of_known hopcode, herror]
    rfl

theorem fields_ne_nil (e : Instruction.Encoding) : e.fields ≠ [] := by
  unfold Instruction.Encoding.fields Descriptor.codeFields
  split <;> exact List.cons_ne_nil _ _

/-- In an image that ends below 2^32 an encoding is one run of bytes. -/
theorem holds_fields_iff {e : Instruction.Encoding} {m : Memory} {address : UInt32}
    (hsize : m.size < 2 ^ 32) :
    m.Holds address e.fields ↔ m.slice address e.bytes.length = .ok e.bytes := by
  constructor
  · intro h
    have hstart := Memory.offset_le_of_holds h (fields_ne_nil e)
    have hend := Memory.offset_add_le_of_holds hsize h hstart
    exact (Memory.holds_iff_slice (by omega) hstart).1 h
  · intro h
    have hend := (Memory.slice_eq_ok_iff.1 h).1
    exact (Memory.holds_iff_slice (by rw [← Instruction.Encoding.bytes]; omega) (by omega)).2 h

/-- In an image that ends below 2^32 the length of an instruction is exact. -/
theorem toNat_length_instruction {e : Instruction.Encoding} {m : Memory} {address : UInt32}
    (hsize : m.size < 2 ^ 32) (h : m.Holds address e.fields) :
    (e.instruction address).length.toNat = e.bytes.length ∧
      m.offset address + e.bytes.length ≤ m.size := by
  have hstart := Memory.offset_le_of_holds h (fields_ne_nil e)
  have hend : m.offset address + e.bytes.length ≤ m.size :=
    Memory.offset_add_le_of_holds hsize h hstart
  refine ⟨?_, hend⟩
  rw [Instruction.Encoding.instruction, UInt32.toNat_ofNat', Nat.mod_eq_of_lt (by omega)]

/-- An encoding decodes to what it means and is taken up as a whole.  Whatever
decodes is such an encoding: the bytes behind it do not matter, and an image
that is cut inside it holds no instruction there. -/
theorem decoding_is_exact :
    (∀ (e : Instruction.Encoding) (m : Memory) (address : UInt32), e.WellFormed →
        m.Holds address e.fields →
        m.Decodes address (e.instruction address) (address + UInt32.ofNat e.bytes.length)) ∧
    (∀ (m : Memory) (address stop : UInt32) (i : Instruction), m.Decodes address i stop →
        ∃ e : Instruction.Encoding, e.WellFormed ∧ m.Holds address e.fields ∧
          i = e.instruction address ∧ stop = address + UInt32.ofNat e.bytes.length ∧
          (∀ other : Memory, other.Holds address e.fields → other.Decodes address i stop) ∧
          ∀ cut : Memory, cut.IsCutOf m → ¬ cut.Holds address e.fields → Fails cut address) ∧
    ∀ (e : Instruction.Encoding) (m : Memory) (address : UInt32), m.size < 2 ^ 32 →
      (m.Holds address e.fields ↔ m.slice address e.bytes.length = .ok e.bytes) := by
  refine ⟨fun e m address he h => decodes_of_holds he h, ?_,
    fun e m address hsize => holds_fields_iff hsize⟩
  intro m address stop i hdecodes
  obtain ⟨e, he, hholds, rfl, rfl⟩ := holds_of_decodes hdecodes
  refine ⟨e, he, hholds, rfl, rfl, ?_, ?_⟩
  · intro other hother
    exact decodes_of_holds he hother
  · intro cut hcut hmissing
    have hbreaks := (hcut.holds_or_breaksOff hholds).resolve_left hmissing
    exact fails_of_breaksOff he hbreaks

end Vax.Decoding
