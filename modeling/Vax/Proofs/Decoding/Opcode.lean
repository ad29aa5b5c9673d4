import Vax.Proofs.Decoding.Specifier
import Vax.Proofs.Instruction.Catalog
/-!
# Opcodes and their bytes
-/

namespace Vax.Decoding

open Fetch (Takes)

theorem codeFields_of_lt {d : Descriptor} (h : d.code.toNat < 256) :
    d.codeFields = [[UInt8.ofNat d.code.toNat]] := by
  have hlength : d.codeLength = 1 := by
    have hle : ¬ d.code > 0xff := by
      simp only [gt_iff_lt, UInt16.lt_iff_toNat_lt, UInt16.reduceToNat]
      omega
    rw [Descriptor.codeLength, if_neg hle]
  rw [Descriptor.codeFields, if_pos hlength]

theorem codeFields_of_le {d : Descriptor} (h : 256 ≤ d.code.toNat) :
    d.codeFields = [[UInt8.ofNat (d.code.toNat / 256)], [UInt8.ofNat d.code.toNat]] := by
  have hlength : d.codeLength = 2 := by
    have hgt : d.code > 0xff := by
      simp only [gt_iff_lt, UInt16.lt_iff_toNat_lt, UInt16.reduceToNat]
      omega
    rw [Descriptor.codeLength, if_pos hgt]
  rw [Descriptor.codeFields, if_neg (by rw [hlength]; decide)]

theorem length_codeFields (d : Descriptor) : d.codeFields.flatten.length = d.codeLength := by
  unfold Descriptor.codeFields Descriptor.codeLength
  split <;> simp_all

theorem toNat_twoByteCode (first second : UInt8) :
    (Opcode.twoByteCode first second).toNat = first.toNat * 256 + second.toNat := by
  have hfirst := first.toNat_lt
  have hsecond := second.toNat_lt
  rw [Opcode.twoByteCode, UInt16.toNat_ofNat']
  omega

theorem high_twoByteCode (first second : UInt8) :
    UInt8.ofNat ((Opcode.twoByteCode first second).toNat / 256) = first := by
  have hfirst := first.toNat_lt
  have hsecond := second.toNat_lt
  apply UInt8.toNat_inj.1
  rw [toNat_twoByteCode, UInt8.toNat_ofNat']
  omega

theorem low_twoByteCode (first second : UInt8) :
    UInt8.ofNat (Opcode.twoByteCode first second).toNat = second := by
  have hsecond := second.toNat_lt
  apply UInt8.toNat_inj.1
  rw [toNat_twoByteCode, UInt8.toNat_ofNat']
  omega

theorem twoByteCode_code (code : UInt16) :
    Opcode.twoByteCode (UInt8.ofNat (code.toNat / 256)) (UInt8.ofNat code.toNat) = code := by
  apply UInt16.toNat_inj.1
  have hcode := code.toNat_lt
  rw [toNat_twoByteCode, UInt8.toNat_ofNat', UInt8.toNat_ofNat']
  omega

theorem takes_opcode {d : Descriptor} (h : d ∈ Catalog.descriptors) (address : UInt32) :
    Takes Opcode.fetch address d.codeFields (.known d) := by
  have hfind := Catalog.find?_code h
  rcases Nat.lt_or_ge d.code.toNat 256 with hshort | hlong
  · have hcode : (UInt8.ofNat d.code.toNat).toUInt16 = d.code := by
      apply UInt16.toNat_inj.1
      rw [UInt8.toNat_toUInt16, UInt8.toNat_ofNat']
      omega
    rw [codeFields_of_lt hshort]
    apply (Takes.byte address (UInt8.ofNat d.code.toNat)).bind
    simp only [hcode, hfind]
    exact Takes.pure _ _
  · have hescape : isEscape (UInt8.ofNat (d.code.toNat / 256)) = true := by
      rcases Catalog.isEscape_of_code d h with hshort | hescape
      · omega
      · exact hescape
    rw [codeFields_of_le hlong]
    apply (Takes.byte address (UInt8.ofNat (d.code.toNat / 256))).bind
    simp only [Catalog.find?_of_isEscape hescape]
    apply (Takes.byte _ (UInt8.ofNat d.code.toNat)).bind
    simp only [twoByteCode_code, hfind]
    exact Takes.pure _ _

/-- A byte is read where one is, and nothing where there is none. -/
theorem run_byte (m : Memory) (address : UInt32) :
    (∃ byte, m.Holds address [[byte]] ∧ (Fetch.byte m).run address = .ok (byte, address + 1)) ∨
      ∃ e, (Fetch.byte m).run address = .error e := by
  obtain ⟨value, -, hholds | hbreaks⟩ := exists_number m address 1
  · exact Or.inl ⟨_, hholds, (Takes.byte address _).run m hholds⟩
  · exact Or.inr ((Takes.byte address _).fails m hbreaks)

/-! ## The bytes at the front -/

/-- What stands at an address, as far as an opcode goes. -/
inductive Front (m : Memory) (address : UInt32) : Prop where
  | missing (e : OutOfRange) (hfirst : (Fetch.byte m).run address = .error e)
  | short (first : UInt8) (d : Descriptor)
      (hfirst : (Fetch.byte m).run address = .ok (first, address + 1))
      (hfind : Catalog.find? first.toUInt16 = some d)
  | cutOff (first : UInt8) (e : OutOfRange)
      (hfirst : (Fetch.byte m).run address = .ok (first, address + 1))
      (hfind : Catalog.find? first.toUInt16 = none)
      (hsecond : (Fetch.byte m).run (address + 1) = .error e)
  | long (first second : UInt8) (d : Descriptor)
      (hfirst : (Fetch.byte m).run address = .ok (first, address + 1))
      (hfind : Catalog.find? first.toUInt16 = none)
      (hsecond : (Fetch.byte m).run (address + 1) = .ok (second, address + 1 + 1))
      (hcode : Catalog.find? (Opcode.twoByteCode first second) = some d)
  | raw (first second : UInt8)
      (hfirst : (Fetch.byte m).run address = .ok (first, address + 1))
      (hfind : Catalog.find? first.toUInt16 = none)
      (hsecond : (Fetch.byte m).run (address + 1) = .ok (second, address + 1 + 1))
      (hcode : Catalog.find? (Opcode.twoByteCode first second) = none)

theorem front (m : Memory) (address : UInt32) : Front m address := by
  rcases run_byte m address with ⟨first, -, hfirst⟩ | ⟨e, he⟩
  · cases hfind : Catalog.find? first.toUInt16 with
    | some d => exact .short first d hfirst hfind
    | none =>
        rcases run_byte m (address + 1) with ⟨second, -, hsecond⟩ | ⟨e, he⟩
        · cases hcode : Catalog.find? (Opcode.twoByteCode first second) with
          | some d => exact .long first second d hfirst hfind hsecond hcode
          | none => exact .raw first second hfirst hfind hsecond hcode
        · exact .cutOff first e hfirst hfind he
  · exact .missing e he

section Fetch

variable {m : Memory} {address position : UInt32} {first second : UInt8} {d : Descriptor}
  {e : OutOfRange}

theorem run_opcode_missing (hfirst : (Fetch.byte m).run address = .error e) :
    (Opcode.fetch m).run address = .error e := by
  rw [Opcode.fetch, StateT.run_bind, hfirst]
  rfl

theorem run_opcode_short (hfirst : (Fetch.byte m).run address = .ok (first, position))
    (hfind : Catalog.find? first.toUInt16 = some d) :
    (Opcode.fetch m).run address = .ok (.known d, position) := by
  rw [Opcode.fetch, StateT.run_bind, hfirst]
  simp only [bind, Except.bind, hfind]
  rfl

theorem run_opcode_cutOff (hfirst : (Fetch.byte m).run address = .ok (first, position))
    (hfind : Catalog.find? first.toUInt16 = none)
    (hsecond : (Fetch.byte m).run position = .error e) :
    (Opcode.fetch m).run address = .error e := by
  rw [Opcode.fetch, StateT.run_bind, hfirst]
  simp only [bind, Except.bind, hfind]
  change (Fetch.byte m).run position >>= _ = _
  rw [hsecond]
  rfl

theorem run_opcode_long (hfirst : (Fetch.byte m).run address = .ok (first, address + 1))
    (hfind : Catalog.find? first.toUInt16 = none)
    (hsecond : (Fetch.byte m).run (address + 1) = .ok (second, position))
    (hcode : Catalog.find? (Opcode.twoByteCode first second) = some d) :
    (Opcode.fetch m).run address = .ok (.known d, position) := by
  rw [Opcode.fetch, StateT.run_bind, hfirst]
  simp only [bind, Except.bind, hfind]
  change (Fetch.byte m).run (address + 1) >>= _ = _
  rw [hsecond]
  simp only [bind, Except.bind, hcode]
  rfl

theorem run_opcode_raw (hfirst : (Fetch.byte m).run address = .ok (first, address + 1))
    (hfind : Catalog.find? first.toUInt16 = none)
    (hsecond : (Fetch.byte m).run (address + 1) = .ok (second, position))
    (hcode : Catalog.find? (Opcode.twoByteCode first second) = none) :
    (Opcode.fetch m).run address = .ok (.raw (Opcode.twoByteCode first second), position) := by
  rw [Opcode.fetch, StateT.run_bind, hfirst]
  simp only [bind, Except.bind, hfind]
  change (Fetch.byte m).run (address + 1) >>= _ = _
  rw [hsecond]
  simp only [bind, Except.bind, hcode]
  rfl

theorem holds_of_run_byte (h : (Fetch.byte m).run address = .ok (first, position)) :
    m.Holds address [[first]] := by
  rcases run_byte m address with ⟨byte, hholds, hrun⟩ | ⟨e, he⟩
  · rw [hrun] at h
    simp only [Except.ok.injEq, Prod.mk.injEq] at h
    exact h.1 ▸ hholds
  · rw [he] at h
    exact absurd h nofun

/-- The first byte of a two-byte code is not zero, because zero is a code. -/
theorem twoByteCode_ge (hfind : Catalog.find? first.toUInt16 = none) :
    256 ≤ (Opcode.twoByteCode first second).toNat := by
  have hne : first.toNat ≠ 0 := by
    intro hzero
    obtain rfl : first = 0 := UInt8.toNat_inj.1 hzero
    exact absurd hfind (by decide +kernel)
  rw [toNat_twoByteCode]
  omega

/-- An opcode that is read stands in memory. -/
theorem holds_of_run_opcode (h : (Opcode.fetch m).run address = .ok (.known d, position)) :
    d ∈ Catalog.descriptors ∧ m.Holds address d.codeFields := by
  cases front m address with
  | missing e hfirst =>
      rw [run_opcode_missing hfirst] at h
      exact absurd h nofun
  | cutOff first e hfirst hfind hsecond =>
      rw [run_opcode_cutOff hfirst hfind hsecond] at h
      exact absurd h nofun
  | raw first second hfirst hfind hsecond hcode =>
      rw [run_opcode_raw hfirst hfind hsecond hcode] at h
      exact absurd h nofun
  | short first d' hfirst hfind =>
      rw [run_opcode_short hfirst hfind] at h
      simp only [Except.ok.injEq, Prod.mk.injEq, Opcode.known.injEq] at h
      obtain ⟨rfl, rfl⟩ := h
      have hcode : d'.code.toNat = first.toNat := by
        rw [Catalog.code_of_find? hfind, UInt8.toNat_toUInt16]
      have hlt := first.toNat_lt
      refine ⟨Catalog.mem_of_find? hfind, ?_⟩
      rw [codeFields_of_lt (by omega), hcode, UInt8.ofNat_toNat]
      exact holds_of_run_byte hfirst
  | long first second d' hfirst hfind hsecond hcode =>
      rw [run_opcode_long hfirst hfind hsecond hcode] at h
      simp only [Except.ok.injEq, Prod.mk.injEq, Opcode.known.injEq] at h
      obtain ⟨rfl, rfl⟩ := h
      have hlong : 256 ≤ d'.code.toNat := by
        rw [Catalog.code_of_find? hcode]
        exact twoByteCode_ge hfind
      refine ⟨Catalog.mem_of_find? hcode, ?_⟩
      rw [codeFields_of_le hlong, Catalog.code_of_find? hcode, high_twoByteCode,
        low_twoByteCode]
      exact ⟨(holds_of_run_byte hfirst).1, holds_of_run_byte hsecond⟩

/-- The two bytes of a raw word stand in memory, and neither the first nor both
together are an opcode. -/
theorem holds_of_run_opcode_raw {code : UInt16}
    (h : (Opcode.fetch m).run address = .ok (.raw code, position)) :
    ∃ first second, m.Holds address [[first], [second]] ∧
      Catalog.find? first.toUInt16 = none ∧
      Catalog.find? (Opcode.twoByteCode first second) = none ∧
      code = Opcode.twoByteCode first second := by
  cases front m address with
  | missing e hfirst =>
      rw [run_opcode_missing hfirst] at h
      exact absurd h nofun
  | cutOff first e hfirst hfind hsecond =>
      rw [run_opcode_cutOff hfirst hfind hsecond] at h
      exact absurd h nofun
  | short first d hfirst hfind =>
      rw [run_opcode_short hfirst hfind] at h
      exact absurd h nofun
  | long first second d hfirst hfind hsecond hcode =>
      rw [run_opcode_long hfirst hfind hsecond hcode] at h
      exact absurd h nofun
  | raw first second hfirst hfind hsecond hcode =>
      rw [run_opcode_raw hfirst hfind hsecond hcode] at h
      simp only [Except.ok.injEq, Prod.mk.injEq, Opcode.raw.injEq] at h
      exact ⟨first, second, ⟨(holds_of_run_byte hfirst).1, holds_of_run_byte hsecond⟩, hfind,
        hcode, h.1.symm⟩

/-- Such bytes are a raw word wherever they stand. -/
theorem run_opcode_raw_of_holds (hholds : m.Holds address [[first], [second]])
    (hfind : Catalog.find? first.toUInt16 = none)
    (hcode : Catalog.find? (Opcode.twoByteCode first second) = none) :
    ∃ position, (Opcode.fetch m).run address =
      .ok (.raw (Opcode.twoByteCode first second), position) := by
  obtain ⟨hfirst, hsecond⟩ := hholds
  have hrun := (Takes.byte address first).run m ⟨hfirst, trivial⟩
  have hrun' := (Takes.byte (address + 1) second).run m hsecond
  exact ⟨_, run_opcode_raw hrun hfind hrun' hcode⟩

end Fetch

end Vax.Decoding
