import Vax.Proofs.Decoding.Opcode
import Vax.Proofs.Machine.Execution
import Vax.Proofs.Text.Number
/-!
# The machine and the disassembler read alike

The machine refuses a first byte that is neither an opcode nor an escape, where
the disassembler reads a second byte and shows a raw word.  Everywhere else
they find the same instruction or fail on the same access.
-/

namespace Vax.Decoding

variable {m : Memory} {address position stop : UInt32} {first second : UInt8}
  {descriptor : Descriptor} {i : Instruction} {e : OutOfRange}

theorem run_byte_eq (m : Memory) (address : UInt32) :
    (Fetch.byte m).run address = (m.readByte address).map fun byte => (byte, address + 1) := by
  change (UInt8.ofNat <$> Fetch.number m 1).run address = _
  rw [StateT.run_map, Memory.readByte]
  change (fun result => (UInt8.ofNat result.1, result.2)) <$>
    (m.readNat address 1 >>= fun value => pure (value, address + 1)) = _
  cases m.readNat address 1 <;> rfl

theorem readByte_eq_ok (h : (Fetch.byte m).run address = .ok (first, position)) :
    m.readByte address = .ok first := by
  rw [run_byte_eq] at h
  cases hread : m.readByte address with
  | ok byte =>
      rw [hread] at h
      obtain ⟨rfl, -⟩ := Prod.mk.inj (Except.ok.inj h)
      rfl
  | error e =>
      rw [hread] at h
      exact absurd h nofun

theorem readByte_eq_error (h : (Fetch.byte m).run address = .error e) :
    m.readByte address = .error e := by
  rw [run_byte_eq] at h
  cases hread : m.readByte address with
  | ok byte =>
      rw [hread] at h
      exact absurd h nofun
  | error e =>
      rw [hread] at h
      obtain rfl := Except.error.inj h
      rfl

theorem run_byte_of_readByte (h : m.readByte address = .ok first) :
    (Fetch.byte m).run address = .ok (first, address + 1) := by
  rw [run_byte_eq, h]
  rfl

section Machine

theorem instructionAt_missing (hfirst : (Fetch.byte m).run address = .error e) :
    m.instructionAt address = .error (.memory e) := by
  rw [Memory.instructionAt, hfirst]
  rfl

theorem instructionAt_short (hfirst : (Fetch.byte m).run address = .ok (first, position))
    (hfind : Catalog.find? first.toUInt16 = some descriptor) :
    m.instructionAt address = Prod.fst <$>
      Memory.fetched ((Instruction.fetchOperands m address descriptor).run position) := by
  rw [Memory.instructionAt, hfirst]
  simp only [Memory.fetched, Except.mapError, bind, Except.bind, hfind]

theorem instructionAt_unknown (hfirst : (Fetch.byte m).run address = .ok (first, position))
    (hfind : Catalog.find? first.toUInt16 = none) (hescape : isEscape first = false) :
    m.instructionAt address = .error (.unknownOpcode first.toUInt16 1) := by
  rw [Memory.instructionAt, hfirst]
  simp only [Memory.fetched, Except.mapError, bind, Except.bind, hfind, hescape]
  rfl

theorem instructionAt_cutOff (hfirst : (Fetch.byte m).run address = .ok (first, position))
    (hescape : isEscape first = true) (hsecond : (Fetch.byte m).run position = .error e) :
    m.instructionAt address = .error (.memory e) := by
  rw [Memory.instructionAt, hfirst]
  simp only [Memory.fetched, Except.mapError, bind, Except.bind,
    Catalog.find?_of_isEscape hescape, hescape, if_true, hsecond]

theorem instructionAt_escaped (hfirst : (Fetch.byte m).run address = .ok (first, position))
    (hescape : isEscape first = true)
    (hsecond : (Fetch.byte m).run position = .ok (second, stop)) :
    m.instructionAt address =
      match Catalog.find? (Opcode.twoByteCode first second) with
      | some descriptor => Prod.fst <$>
          Memory.fetched ((Instruction.fetchOperands m address descriptor).run stop)
      | none => .error (.unknownOpcode (Opcode.twoByteCode first second) 2) := by
  rw [Memory.instructionAt, hfirst]
  simp only [Memory.fetched, Except.mapError, bind, Except.bind,
    Catalog.find?_of_isEscape hescape, hescape, if_true, hsecond]
  rfl

end Machine

section Disassembler

variable {d : Disassembler}

theorem decodeAt_of_opcode_error (hopcode : (Opcode.fetch d.memory).run address = .error e) :
    d.decodeAt address = .error e := by
  rw [Disassembler.decodeAt, hopcode]
  rfl

theorem decodeAt_of_raw {code : UInt16}
    (hopcode : (Opcode.fetch d.memory).run address = .ok (.raw code, position)) :
    d.decodeAt address = .ok (Disassembler.wordAt address (Opcode.raw code).text) := by
  rw [Disassembler.decodeAt, hopcode]
  rfl

theorem decodeAt_of_decodes (h : d.memory.Decodes address i stop) :
    d.decodeAt address =
      .ok ⟨address, i.length, i.render d.symbols, i.targets, i.caseTable?⟩ := by
  obtain ⟨position, hopcode, hoperands⟩ := h
  rw [Disassembler.decodeAt, hopcode]
  simp only [bind, Except.bind, hoperands]
  rfl

theorem decodeAt_of_operands_error
    (hopcode : (Opcode.fetch d.memory).run address = .ok (.known descriptor, position))
    (hoperands : (Instruction.fetchOperands d.memory address descriptor).run position =
      .error e) :
    d.decodeAt address = .error e := by
  rw [Disassembler.decodeAt, hopcode]
  simp only [bind, Except.bind, hoperands]

end Disassembler

/-- The operands of an instruction end where it ends. -/
theorem eq_of_run_fetchOperands
    (h : (Instruction.fetchOperands m address descriptor).run position = .ok (i, stop)) :
    i.address = address ∧ i.descriptor = descriptor ∧ i.nextAddress = stop := by
  rw [Instruction.fetchOperands, StateT.run_bind] at h
  cases hoperands : (descriptor.operands.mapM (Operand.fetch m)).run position with
  | error e =>
      rw [hoperands] at h
      exact absurd h nofun
  | ok result =>
      rw [hoperands] at h
      obtain ⟨rfl, rfl⟩ := Prod.mk.inj (Except.ok.inj h)
      refine ⟨rfl, rfl, ?_⟩
      change address + (result.2 - address) = result.2
      rw [UInt32.add_comm, UInt32.sub_add_cancel]

/-- An opcode of two bytes begins with an escape. -/
theorem isEscape_of_twoByteCode (hfind : Catalog.find? first.toUInt16 = none)
    (hcode : Catalog.find? (Opcode.twoByteCode first second) = some descriptor) :
    isEscape first = true := by
  have hlong : 256 ≤ (Opcode.twoByteCode first second).toNat := twoByteCode_ge hfind
  rcases Catalog.isEscape_of_code descriptor (Catalog.mem_of_find? hcode) with hshort | hescape
  · rw [Catalog.code_of_find? hcode] at hshort
    omega
  · rwa [Catalog.code_of_find? hcode, high_twoByteCode] at hescape

/-! ## Text -/

theorem head?_append (left right : String) (h : left.toByteArray.data.toList.head?.isSome) :
    (left ++ right).toByteArray.data.toList.head? = left.toByteArray.data.toList.head? := by
  rw [String.toByteArray_append, ByteArray.data_append, Array.toList_append,
    List.head?_append_of_ne_nil]
  intro hnil
  rw [hnil] at h
  exact absurd h (by decide)

/-- Directives begin with a full stop, and instructions do not. -/
theorem head?_render_ne (symbols : SymbolTable) (h : i.descriptor ∈ Catalog.descriptors) :
    (i.render symbols).toByteArray.data.toList.head? ≠ some 46 := by
  intro hhead
  have hfront := Catalog.mnemonic_front i.descriptor h
  rw [Option.any_eq_true] at hfront
  obtain ⟨byte, hbyte, hne⟩ := hfront
  simp only [Instruction.render, String.append_assoc] at hhead
  rw [head?_append _ _ (by rw [hbyte]; rfl), hbyte] at hhead
  obtain rfl := Option.some.inj hhead
  exact absurd hne (by decide)

/-- No instruction is shown the way a raw word is. -/
theorem render_ne_raw {symbols : SymbolTable} {code : UInt16}
    (h : i.descriptor ∈ Catalog.descriptors) : i.render symbols ≠ (Opcode.raw code).text := by
  intro heq
  apply head?_render_ne symbols h
  rw [heq, Opcode.text, head?_append _ _ (by decide +kernel)]
  decide +kernel

/-! ## Agreement -/

/-- What the two readers make of an address. -/
inductive Reading (d : Disassembler) (address : UInt32) : Prop where
  | instruction (i : Instruction) (stop : UInt32)
      (hdecodes : d.memory.Decodes address i stop)
      (hmachine : d.memory.instructionAt address = .ok i)
  | outOfRange (e : OutOfRange)
      (hlisting : d.decodeAt address = .error e)
      (hmachine : d.memory.instructionAt address = .error (.memory e))
  | escaped (first : UInt8) (code : UInt16) (position : UInt32)
      (hfirst : d.memory.readByte address = .ok first) (hescape : isEscape first = true)
      (hopcode : (Opcode.fetch d.memory).run address = .ok (.raw code, position))
      (hmachine : d.memory.instructionAt address = .error (.unknownOpcode code 2))
  | unknown (first : UInt8) (hfirst : d.memory.readByte address = .ok first)
      (hfind : Catalog.find? first.toUInt16 = none) (hescape : isEscape first = false)
      (hopcode :
        (∃ second position, d.memory.readByte (address + 1) = .ok second ∧
          (Opcode.fetch d.memory).run address =
            .ok (.raw (Opcode.twoByteCode first second), position)) ∨
        ∃ e, d.memory.readByte (address + 1) = .error e ∧
          (Opcode.fetch d.memory).run address = .error e)
      (hmachine : d.memory.instructionAt address = .error (.unknownOpcode first.toUInt16 1))

theorem instructionAt_of_known
    (hopcode : (Opcode.fetch m).run address = .ok (.known descriptor, position)) :
    m.instructionAt address = Prod.fst <$>
      Memory.fetched ((Instruction.fetchOperands m address descriptor).run position) := by
  cases front m address with
  | missing e hfirst => exact absurd (hopcode.symm.trans (run_opcode_missing hfirst)) nofun
  | cutOff first e hfirst hfind hsecond =>
      exact absurd (hopcode.symm.trans (run_opcode_cutOff hfirst hfind hsecond)) nofun
  | raw first second hfirst hfind hsecond hcode =>
      exact absurd (hopcode.symm.trans (run_opcode_raw hfirst hfind hsecond hcode)) nofun
  | short first other hfirst hfind =>
      rw [run_opcode_short hfirst hfind] at hopcode
      simp only [Except.ok.injEq, Prod.mk.injEq, Opcode.known.injEq] at hopcode
      obtain ⟨rfl, rfl⟩ := hopcode
      exact instructionAt_short hfirst hfind
  | long first second other hfirst hfind hsecond hcode =>
      rw [run_opcode_long hfirst hfind hsecond hcode] at hopcode
      simp only [Except.ok.injEq, Prod.mk.injEq, Opcode.known.injEq] at hopcode
      obtain ⟨rfl, rfl⟩ := hopcode
      rw [instructionAt_escaped hfirst (isEscape_of_twoByteCode hfind hcode) hsecond, hcode]

theorem reading_of_known {d : Disassembler} {address : UInt32}
    (hopcode : (Opcode.fetch d.memory).run address = .ok (.known descriptor, position)) :
    Reading d address := by
  have hmachine := instructionAt_of_known hopcode
  cases hoperands : (Instruction.fetchOperands d.memory address descriptor).run position with
  | ok result =>
      obtain ⟨i, stop⟩ := result
      rw [hoperands] at hmachine
      obtain ⟨-, rfl, -⟩ := eq_of_run_fetchOperands hoperands
      exact .instruction i stop ⟨position, hopcode, hoperands⟩ hmachine
  | error e =>
      rw [hoperands] at hmachine
      exact .outOfRange e (decodeAt_of_operands_error hopcode hoperands) hmachine

section Agreement

variable (d : Disassembler) (address : UInt32)

theorem reading : Reading d address := by
  cases front d.memory address with
  | missing e hfirst =>
      exact .outOfRange e (decodeAt_of_opcode_error (run_opcode_missing hfirst))
        (instructionAt_missing hfirst)
  | short first descriptor hfirst hfind =>
      exact reading_of_known (run_opcode_short hfirst hfind)
  | cutOff first e hfirst hfind hsecond =>
      have hopcode := run_opcode_cutOff hfirst hfind hsecond
      cases hescape : isEscape first with
      | true =>
          exact .outOfRange e (decodeAt_of_opcode_error hopcode)
            (instructionAt_cutOff hfirst hescape hsecond)
      | false =>
          exact .unknown first (readByte_eq_ok hfirst) hfind hescape
            (Or.inr ⟨e, readByte_eq_error hsecond, hopcode⟩)
            (instructionAt_unknown hfirst hfind hescape)
  | long first second descriptor hfirst hfind hsecond hcode =>
      exact reading_of_known (run_opcode_long hfirst hfind hsecond hcode)
  | raw first second hfirst hfind hsecond hcode =>
      have hopcode := run_opcode_raw hfirst hfind hsecond hcode
      cases hescape : isEscape first with
      | true =>
          have hmachine := instructionAt_escaped hfirst hescape hsecond
          rw [hcode] at hmachine
          exact .escaped first _ _ (readByte_eq_ok hfirst) hescape hopcode hmachine
      | false =>
          exact .unknown first (readByte_eq_ok hfirst) hfind hescape
            (Or.inl ⟨second, _, readByte_eq_ok hsecond, hopcode⟩)
            (instructionAt_unknown hfirst hfind hescape)

theorem instructionAt_ok_iff :
    (∃ i, d.memory.instructionAt address = .ok i) ↔
      ∃ decoded descriptor position, d.decodeAt address = .ok decoded ∧
        (Opcode.fetch d.memory).run address = .ok (.known descriptor, position) := by
  constructor
  · rintro ⟨i, hi⟩
    cases reading d address with
    | instruction other stop hdecodes hmachine =>
        have hdecoded := decodeAt_of_decodes hdecodes
        obtain ⟨position, hopcode, -⟩ := hdecodes
        exact ⟨_, _, position, hdecoded, hopcode⟩
    | _ => simp_all
  · rintro ⟨decoded, descriptor, position, hdecoded, hopcode⟩
    cases reading d address with
    | instruction i stop hdecodes hmachine => exact ⟨i, hmachine⟩
    | outOfRange e hlisting hmachine => exact absurd (hdecoded.symm.trans hlisting) nofun
    | escaped first code other hfirst hescape hraw hmachine =>
        exact absurd (hopcode.symm.trans hraw) nofun
    | unknown first hfirst hfind hescape hraw hmachine =>
        rcases hraw with ⟨second, other, -, hraw⟩ | ⟨e, -, hraw⟩ <;>
          exact absurd (hopcode.symm.trans hraw) nofun

theorem decoded_of_instructionAt {i : Instruction} {decoded : Decoded}
    (hi : d.memory.instructionAt address = .ok i) (hdecoded : d.decodeAt address = .ok decoded) :
    d.memory.Decodes address i decoded.nextAddress ∧ i.nextAddress = decoded.nextAddress ∧
      decoded = ⟨address, i.length, i.render d.symbols, i.targets, i.caseTable?⟩ := by
  cases reading d address with
  | instruction other stop hdecodes hmachine =>
      obtain rfl := Except.ok.inj (hi.symm.trans hmachine)
      obtain rfl := Except.ok.inj (hdecoded.symm.trans (decodeAt_of_decodes hdecodes))
      obtain ⟨position, hopcode, hoperands⟩ := hdecodes
      obtain ⟨rfl, -, rfl⟩ := eq_of_run_fetchOperands hoperands
      exact ⟨⟨position, hopcode, hoperands⟩, rfl, rfl⟩
  | _ => simp_all

theorem unknown_word_iff (code : UInt16) :
    d.memory.instructionAt address = .error (.unknownOpcode code 2) ↔
      (∃ first, d.memory.readByte address = .ok first ∧ isEscape first = true) ∧
        d.decodeAt address = .ok (Disassembler.wordAt address (Opcode.raw code).text) := by
  cases reading d address with
  | instruction i stop hdecodes hmachine =>
      have hcatalogued : i.descriptor ∈ Catalog.descriptors := by
        obtain ⟨position, hopcode, -⟩ := hdecodes
        exact (holds_of_run_opcode hopcode).1
      rw [hmachine, decodeAt_of_decodes hdecodes]
      constructor
      · exact nofun
      · rintro ⟨-, hword⟩
        have htext := congrArg Decoded.text (Except.ok.inj hword)
        exact absurd htext (render_ne_raw hcatalogued)
  | outOfRange e hlisting hmachine =>
      rw [hmachine, hlisting]
      constructor
      · exact nofun
      · rintro ⟨-, hword⟩
        exact absurd hword nofun
  | escaped first other position hfirst hescape hopcode hmachine =>
      rw [hmachine, decodeAt_of_raw hopcode]
      constructor
      · intro h
        obtain ⟨rfl, -⟩ := Fault.Cause.unknownOpcode.inj (Except.error.inj h)
        exact ⟨⟨first, hfirst, hescape⟩, rfl⟩
      · rintro ⟨-, hword⟩
        have htext := congrArg Decoded.text (Except.ok.inj hword)
        have hcode := Text.marked_inj ((String.append_right_inj ".word ").1 htext)
        rw [UInt16.toNat_inj.1 hcode]
  | unknown first hfirst hfind hescape hopcode hmachine =>
      rw [hmachine]
      constructor
      · intro h
        exact absurd (Fault.Cause.unknownOpcode.inj (Except.error.inj h)).2 (by decide)
      · rintro ⟨⟨other, hother, hother'⟩, -⟩
        obtain rfl := Except.ok.inj (hfirst.symm.trans hother)
        rw [hescape] at hother'
        exact absurd hother' nofun

theorem unknown_byte_iff (code : UInt16) :
    d.memory.instructionAt address = .error (.unknownOpcode code 1) ↔
      ∃ first, d.memory.readByte address = .ok first ∧
        Catalog.find? first.toUInt16 = none ∧ isEscape first = false ∧
        code = first.toUInt16 := by
  constructor
  · intro h
    cases reading d address with
    | unknown first hfirst hfind hescape hopcode hmachine =>
        obtain ⟨rfl, -⟩ := Fault.Cause.unknownOpcode.inj
          (Except.error.inj (h.symm.trans hmachine))
        exact ⟨first, hfirst, hfind, hescape, rfl⟩
    | _ => simp_all
  · rintro ⟨first, hfirst, hfind, hescape, rfl⟩
    exact instructionAt_unknown (run_byte_of_readByte hfirst) hfind hescape

theorem decodeAt_of_unknown {first : UInt8} (hfirst : d.memory.readByte address = .ok first)
    (hfind : Catalog.find? first.toUInt16 = none) (hescape : isEscape first = false) :
    (∃ second, d.memory.readByte (address + 1) = .ok second ∧
      d.decodeAt address = .ok (Disassembler.wordAt address
        (Opcode.raw (Opcode.twoByteCode first second)).text)) ∨
    ∃ e, d.memory.readByte (address + 1) = .error e ∧ d.decodeAt address = .error e := by
  have hunknown := instructionAt_unknown (run_byte_of_readByte hfirst) hfind hescape
  cases reading d address with
  | unknown other hother hfind hescape hopcode hmachine =>
      obtain rfl := Except.ok.inj (hfirst.symm.trans hother)
      rcases hopcode with ⟨second, position, hsecond, hopcode⟩ | ⟨e, hsecond, hopcode⟩
      · exact Or.inl ⟨second, hsecond, decodeAt_of_raw hopcode⟩
      · exact Or.inr ⟨e, hsecond, decodeAt_of_opcode_error hopcode⟩
  | _ => simp_all

/-- The machine fetches an instruction where the disassembler shows a
catalogued one, and it is the same one: it has the text, the targets and the
case table that are shown, and the machine goes on where the listing does.
Where neither finds one, the machine refuses two bytes behind an escape or one
other byte, or both fail on the same access. -/
theorem machine_and_disassembler_agree :
    ((∃ i, d.memory.instructionAt address = .ok i) ↔
        ∃ decoded descriptor position, d.decodeAt address = .ok decoded ∧
          (Opcode.fetch d.memory).run address = .ok (.known descriptor, position)) ∧
    (∀ i decoded, d.memory.instructionAt address = .ok i →
        d.decodeAt address = .ok decoded →
        d.memory.Decodes address i decoded.nextAddress ∧
        decoded = ⟨address, i.length, i.render d.symbols, i.targets, i.caseTable?⟩ ∧
        ∀ machine : Machine, machine.memory = d.memory → machine.registers.pc = address →
          Exec.fetchNext.run machine = .ok i (machine.withRegisters
            (machine.registers.set Register.pc decoded.nextAddress))) ∧
    (∀ code, d.memory.instructionAt address = .error (.unknownOpcode code 2) ↔
        (∃ first, d.memory.readByte address = .ok first ∧ isEscape first = true) ∧
          d.decodeAt address = .ok (Disassembler.wordAt address (Opcode.raw code).text)) ∧
    (∀ code, d.memory.instructionAt address = .error (.unknownOpcode code 1) ↔
        ∃ first, d.memory.readByte address = .ok first ∧
          Catalog.find? first.toUInt16 = none ∧ isEscape first = false ∧
          code = first.toUInt16) ∧
    (∀ first, d.memory.readByte address = .ok first →
        Catalog.find? first.toUInt16 = none → isEscape first = false →
        (∃ second, d.memory.readByte (address + 1) = .ok second ∧
          d.decodeAt address = .ok (Disassembler.wordAt address
            (Opcode.raw (Opcode.twoByteCode first second)).text)) ∨
        ∃ e, d.memory.readByte (address + 1) = .error e ∧ d.decodeAt address = .error e) ∧
    ((∃ i, d.memory.instructionAt address = .ok i) ∨
      (∃ code, d.memory.instructionAt address = .error (.unknownOpcode code 2)) ∨
      (∃ code, d.memory.instructionAt address = .error (.unknownOpcode code 1)) ∨
      ∃ e, d.memory.instructionAt address = .error (.memory e) ∧
        d.decodeAt address = .error e) := by
  refine ⟨instructionAt_ok_iff d address, ?_, unknown_word_iff d address,
    unknown_byte_iff d address, fun _ => decodeAt_of_unknown d address, ?_⟩
  · intro i decoded hi hdecoded
    obtain ⟨hdecodes, hnext, hshown⟩ := decoded_of_instructionAt d address hi hdecoded
    refine ⟨hdecodes, hshown, ?_⟩
    intro machine hmemory hpc
    have hfetch : machine.memory.instructionAt machine.registers.pc = .ok i := by
      rw [hmemory, hpc]
      exact hi
    rw [Exec.run_fetchNext hfetch, hnext]
  · cases reading d address with
    | instruction i stop hdecodes hmachine => exact Or.inl ⟨i, hmachine⟩
    | outOfRange e hlisting hmachine =>
        exact Or.inr (Or.inr (Or.inr ⟨e, hmachine, hlisting⟩))
    | escaped first code position hfirst hescape hopcode hmachine =>
        exact Or.inr (Or.inl ⟨code, hmachine⟩)
    | unknown first hfirst hfind hescape hopcode hmachine =>
        exact Or.inr (Or.inr (Or.inl ⟨_, hmachine⟩))

end Agreement

end Vax.Decoding
