import Vax.Instruction.Encoding
import Vax.Proofs.Decoding.Takes
/-!
# Specifiers and their encodings

`takes_specifier` says that an encoding decodes to what it means, and
`exists_specifier` that whatever the bytes are, some encoding begins with
them.  Together they make decoding exact.
-/

namespace Vax

open Mode.Encoding (specifierByte displacementSelector)

namespace Mode.Encoding

theorem selector_specifierByte {selector : Nat} (h : selector < 16) (r : Register) :
    Mode.selector (specifierByte selector r) = selector := by
  have hr := r.isLt
  simp only [Mode.selector, specifierByte, UInt8.toNat_ofNat']
  omega

theorem ofByte_specifierByte (selector : Nat) (r : Register) :
    Register.ofByte (specifierByte selector r) = r := by
  apply Fin.ext
  have hr := r.isLt
  simp only [Register.ofByte, specifierByte, UInt8.toNat_ofNat', Fin.val_ofNat]
  omega

theorem specifierByte_selector (byte : UInt8) :
    specifierByte (Mode.selector byte) (Register.ofByte byte) = byte := by
  apply UInt8.toNat_inj.1
  have hbyte := byte.toNat_lt
  simp only [Mode.selector, Register.ofByte, specifierByte, UInt8.toNat_ofNat', Fin.val_ofNat]
  omega

theorem displacementSelector_lt (width : Width) (isDeferred : Bool) :
    displacementSelector width isDeferred < 16 := by
  cases width <;> cases isDeferred <;> decide

end Mode.Encoding

namespace Decoding

open Fetch (Takes)
open Mode.Encoding

theorem ofBytes_toBytes_bits (width : Width) (value : BitVec width.bits) :
    LittleEndian.ofBytes (LittleEndian.toBytes width.size value.toNat) = value.toNat := by
  have hvalue : value.toNat < 256 ^ width.size := by
    have hlt := value.isLt
    unfold Width.bits at hlt
    rwa [Nat.pow_mul] at hlt
  rw [LittleEndian.ofBytes_toBytes, Nat.mod_eq_of_lt hvalue]

theorem takes_displacement {width : Width} (h : width ≠ .quad) (position : UInt32)
    (offset : BitVec width.bits) :
    Takes (fun m => Fetch.displacement m width.size) position
      [LittleEndian.toBytes width.size offset.toNat] offset.toInt := by
  have hnumber := Takes.number position (LittleEndian.toBytes width.size offset.toNat)
  rw [LittleEndian.length_toBytes, ofBytes_toBytes_bits] at hnumber
  have hsigned := hnumber.map fun n => (BitVec.ofNat width.bits n).toInt
  rw [BitVec.ofNat_toNat, BitVec.setWidth_eq] at hsigned
  cases width with
  | byte => exact hsigned
  | word => exact hsigned
  | long => exact hsigned
  | quad => exact absurd rfl h

/-- A displacement counts from the address just behind it. -/
theorem takes_target {α : Type} {width : Width} (h : width ≠ .quad) (position : UInt32)
    (offset : BitVec width.bits) (use : UInt32 → α) :
    Takes (fun m => do
        let offset ← Fetch.displacement m width.size
        return use ((← Fetch.position) + UInt32.ofInt offset))
      position [LittleEndian.toBytes width.size offset.toNat]
      (use (position + UInt32.ofNat width.size + UInt32.ofInt offset.toInt)) := by
  have hlength : [LittleEndian.toBytes width.size offset.toNat].flatten.length = width.size := by
    simp
  have htarget := (takes_displacement h position offset).bind
    (g := fun offset _ => do return use ((← Fetch.position) + UInt32.ofInt offset))
    (Takes.position_bind (Takes.pure _ _))
  rw [hlength] at htarget
  exact htarget

/-- What a displacement means depends on the register it is added to. -/
theorem takes_displaced {width : Width} (h : width ≠ .quad) (position : UInt32) (r : Register)
    (offset : BitVec width.bits) (isDeferred : Bool) :
    Takes (fun m => do
        let offset ← Fetch.displacement m width.size
        if r = Register.pc then
          return Mode.relative ((← Fetch.position) + UInt32.ofInt offset) isDeferred
        else
          return Mode.displacement r offset isDeferred)
      position [LittleEndian.toBytes width.size offset.toNat]
      ((displacement r width offset isDeferred).mode position) := by
  unfold Mode.Encoding.mode
  by_cases hpc : r = Register.pc
  · simp only [if_pos hpc]
    exact takes_target h position offset fun target => Mode.relative target isDeferred
  · simp only [if_neg hpc]
    exact (takes_displacement h position offset).bind_pure

theorem takes_mode {kind : OperandKind} {e : Mode.Encoding} (h : e.WellFormed kind)
    (position : UInt32) :
    Takes (fun m => Mode.fetchAfter m kind e.byte) position (e.extension kind)
      (e.mode position) := by
  unfold Mode.fetchAfter
  cases e with
  | literal value =>
      have hlow : value.toNat < 64 := h
      have hcases : Mode.selector value = 0 ∨ Mode.selector value = 1 ∨
          Mode.selector value = 2 ∨ Mode.selector value = 3 := by
        unfold Mode.selector
        omega
      rcases hcases with hs | hs | hs | hs
      all_goals
        simp only [byte, hs]
        exact Takes.pure position _
  | register r =>
      simp only [byte, selector_specifierByte, ofByte_specifierByte, Nat.reduceLT]
      exact Takes.pure position _
  | deferred r =>
      simp only [byte, selector_specifierByte, ofByte_specifierByte, Nat.reduceLT]
      exact Takes.pure position _
  | autodecrement r =>
      simp only [byte, selector_specifierByte, ofByte_specifierByte, Nat.reduceLT]
      exact Takes.pure position _
  | autoincrement r =>
      simp only [byte, selector_specifierByte, ofByte_specifierByte, Nat.reduceLT, if_neg h]
      exact Takes.pure position _
  | immediate value =>
      have hvalue : LittleEndian.ofBytes (LittleEndian.toBytes kind.size value) = value := by
        rw [LittleEndian.ofBytes_toBytes, Nat.mod_eq_of_lt h]
      have hnumber := Takes.number position (LittleEndian.toBytes kind.size value)
      rw [LittleEndian.length_toBytes, hvalue] at hnumber
      simp only [byte, selector_specifierByte, ofByte_specifierByte, Nat.reduceLT, if_pos]
      exact Takes.position_bind hnumber.bind_pure
  | autoincrementDeferred r =>
      simp only [byte, selector_specifierByte, ofByte_specifierByte, Nat.reduceLT, if_neg h]
      exact Takes.pure position _
  | absolute address =>
      simp only [byte, selector_specifierByte, ofByte_specifierByte, Nat.reduceLT, if_pos]
      exact (Takes.long position address).bind_pure
  | displacement r width offset isDeferred =>
      have hselector := selector_specifierByte (displacementSelector_lt width isDeferred) r
      have hdisplaced := takes_displaced h position r offset isDeferred
      simp only [byte, hselector, ofByte_specifierByte]
      cases width with
      | byte => cases isDeferred <;> exact hdisplaced
      | word => cases isDeferred <;> exact hdisplaced
      | long => cases isDeferred <;> exact hdisplaced
      | quad => exact absurd rfl h
  | reserved r =>
      simp only [byte, selector_specifierByte, Nat.reduceLT, Mode.indexSelector]
      exact Takes.pure position _

theorem selector_byte_ne {kind : OperandKind} {e : Mode.Encoding} (h : e.WellFormed kind)
    (hmode : ∀ r, e ≠ .reserved r) : Mode.selector e.byte ≠ Mode.indexSelector := by
  cases e with
  | literal value =>
      have hlow : value.toNat < 64 := h
      simp only [byte, Mode.selector, Mode.indexSelector]
      omega
  | displacement r width offset isDeferred =>
      rw [byte, selector_specifierByte (displacementSelector_lt width isDeferred)]
      cases width <;> cases isDeferred <;> decide
  | reserved r => exact absurd rfl (hmode r)
  | register r => simp [byte, selector_specifierByte, Mode.indexSelector]
  | deferred r => simp [byte, selector_specifierByte, Mode.indexSelector]
  | autodecrement r => simp [byte, selector_specifierByte, Mode.indexSelector]
  | autoincrement r => simp [byte, selector_specifierByte, Mode.indexSelector]
  | immediate value => simp [byte, selector_specifierByte, Mode.indexSelector]
  | autoincrementDeferred r => simp [byte, selector_specifierByte, Mode.indexSelector]
  | absolute address => simp [byte, selector_specifierByte, Mode.indexSelector]

theorem takes_specifier {kind : OperandKind} {e : Specifier.Encoding} (h : e.WellFormed kind)
    (position : UInt32) :
    Takes (fun m => Specifier.fetch m kind) position (e.fields kind) (e.specifier position) := by
  unfold Specifier.fetch
  cases e with
  | plain mode =>
      obtain ⟨hkind, hmode, hplain⟩ := h
      have hselector := selector_byte_ne hmode hplain
      simp only [hkind, Bool.false_eq_true, if_false]
      apply (Takes.byte position mode.byte).bind
      simp only [if_neg hselector]
      exact (takes_mode hmode (position + 1)).bind_pure
  | indexed base r =>
      obtain ⟨hkind, hbase⟩ := h
      have hselector : Mode.selector (specifierByte Mode.indexSelector r) = Mode.indexSelector :=
        selector_specifierByte (by decide) r
      simp only [hkind, Bool.false_eq_true, if_false]
      apply (Takes.byte position (specifierByte Mode.indexSelector r)).bind
      simp only [if_pos hselector, ofByte_specifierByte]
      have hmode : Takes (fun m => Mode.fetch m kind) (position + 1)
          ([base.byte] :: base.extension kind) (base.mode (position + 1 + 1)) :=
        (Takes.byte (position + 1) base.byte).bind (takes_mode hbase (position + 1 + 1))
      exact hmode.bind_pure
  | branch width offset =>
      obtain ⟨hkind, hsize⟩ := h
      have hwidth : width ≠ .quad := by
        rintro rfl
        revert hkind hsize
        cases kind <;> decide
      simp only [hkind, if_true, ← hsize]
      exact takes_target hwidth position offset Specifier.branch

/-! ## Some encoding stands everywhere -/

/-- The number that stands at an address, unless the image ends before it does. -/
theorem exists_number (m : Memory) (position : UInt32) (n : Nat) :
    ∃ value < 256 ^ n, m.Holds position [LittleEndian.toBytes n value] ∨
      m.BreaksOff position [LittleEndian.toBytes n value] := by
  by_cases hin : m.offset position + n ≤ m.size
  · have hslice := Memory.slice_eq_ok_iff.2 ⟨hin, rfl⟩
    have hlength := Memory.length_bytesAt m (m.offset position) n
    generalize m.bytesAt (m.offset position) n = bytes at hslice hlength
    subst hlength
    refine ⟨LittleEndian.ofBytes bytes, LittleEndian.ofBytes_lt bytes, Or.inl ?_⟩
    rw [LittleEndian.toBytes_ofBytes]
    exact ⟨hslice, trivial⟩
  · refine ⟨0, Nat.pow_pos (by decide), Or.inr (Or.inl ?_)⟩
    rw [LittleEndian.length_toBytes]
    exact Nat.lt_of_not_le hin

theorem toNat_ofNat_bits {width : Width} {value : Nat} (h : value < 256 ^ width.size) :
    (BitVec.ofNat width.bits value).toNat = value := by
  rw [BitVec.toNat_ofNat]
  apply Nat.mod_eq_of_lt
  unfold Width.bits
  rwa [Nat.pow_mul]

theorem exists_displacementSelector {selector : Nat} (hlow : 10 ≤ selector)
    (hhigh : selector < 16) :
    ∃ width ≠ Width.quad, ∃ isDeferred, displacementSelector width isDeferred = selector := by
  have hcases : selector = 10 ∨ selector = 11 ∨ selector = 12 ∨ selector = 13 ∨
      selector = 14 ∨ selector = 15 := by omega
  rcases hcases with rfl | rfl | rfl | rfl | rfl | rfl
  · exact ⟨.byte, by decide, false, rfl⟩
  · exact ⟨.byte, by decide, true, rfl⟩
  · exact ⟨.word, by decide, false, rfl⟩
  · exact ⟨.word, by decide, true, rfl⟩
  · exact ⟨.long, by decide, false, rfl⟩
  · exact ⟨.long, by decide, true, rfl⟩

theorem exists_mode (m : Memory) (kind : OperandKind) (position : UInt32) (front : UInt8) :
    ∃ e : Mode.Encoding, e.WellFormed kind ∧ e.byte = front ∧
      (m.Holds position (e.extension kind) ∨ m.BreaksOff position (e.extension kind)) := by
  have hfront := specifierByte_selector front
  have hlt : Mode.selector front < 16 := by
    have hbyte := front.toNat_lt
    unfold Mode.selector
    omega
  generalize Register.ofByte front = r at hfront
  generalize hs : Mode.selector front = selector at hfront hlt
  have hcases : selector < 4 ∨ selector = 4 ∨ selector = 5 ∨ selector = 6 ∨ selector = 7 ∨
      selector = 8 ∨ selector = 9 ∨ 10 ≤ selector := by omega
  rcases hcases with h | rfl | rfl | rfl | rfl | rfl | rfl | h
  · refine ⟨.literal front, ?_, rfl, Or.inl trivial⟩
    have hlow : Mode.selector front < 4 := hs ▸ h
    unfold Mode.selector at hlow
    change front.toNat < 64
    omega
  · exact ⟨.reserved r, trivial, hfront, Or.inl trivial⟩
  · exact ⟨.register r, trivial, hfront, Or.inl trivial⟩
  · exact ⟨.deferred r, trivial, hfront, Or.inl trivial⟩
  · exact ⟨.autodecrement r, trivial, hfront, Or.inl trivial⟩
  · by_cases hpc : r = Register.pc
    · subst hpc
      obtain ⟨value, hvalue, hstands⟩ := exists_number m position kind.size
      exact ⟨.immediate value, hvalue, hfront, hstands⟩
    · exact ⟨.autoincrement r, hpc, hfront, Or.inl trivial⟩
  · by_cases hpc : r = Register.pc
    · subst hpc
      obtain ⟨value, hvalue, hstands⟩ := exists_number m position 4
      refine ⟨.absolute (UInt32.ofNat value), trivial, hfront, ?_⟩
      have haddress : (UInt32.ofNat value).toNat = value := by
        rw [UInt32.toNat_ofNat']
        exact Nat.mod_eq_of_lt hvalue
      simpa only [extension, haddress] using hstands
    · exact ⟨.autoincrementDeferred r, hpc, hfront, Or.inl trivial⟩
  · obtain ⟨width, hwidth, isDeferred, rfl⟩ := exists_displacementSelector h hlt
    obtain ⟨value, hvalue, hstands⟩ := exists_number m position width.size
    refine ⟨.displacement r width (BitVec.ofNat width.bits value) isDeferred, hwidth, hfront, ?_⟩
    simpa only [extension, toNat_ofNat_bits hvalue] using hstands

/-- A mode with its front byte, unless the image ends before it does. -/
theorem exists_fronted_mode (m : Memory) (kind : OperandKind) (position : UInt32) :
    ∃ e : Mode.Encoding, e.WellFormed kind ∧
      (m.Holds position ([e.byte] :: e.extension kind) ∨
        m.BreaksOff position ([e.byte] :: e.extension kind)) := by
  obtain ⟨value, -, hfront | hbreaks⟩ := exists_number m position 1
  · obtain ⟨e, he, hbyte, hstands⟩ := exists_mode m kind (position + 1) (UInt8.ofNat value)
    refine ⟨e, he, ?_⟩
    rw [hbyte]
    exact hstands.imp (fun h => ⟨hfront.1, h⟩) fun h => Or.inr ⟨hfront.1, h⟩
  · refine ⟨.register 0, trivial, Or.inr (Or.inl ?_)⟩
    exact hbreaks.elim id fun h => h.2.elim

theorem exists_branch_width {kind : OperandKind} (h : kind.isBranch = true) :
    ∃ width : Width, width.size = kind.size := by
  revert h
  cases kind <;> intro h
  case branchByte => exact ⟨.byte, rfl⟩
  case branchWord => exact ⟨.word, rfl⟩
  all_goals exact Bool.noConfusion h

theorem exists_specifier (m : Memory) (kind : OperandKind) (position : UInt32) :
    ∃ e : Specifier.Encoding, e.WellFormed kind ∧
      (m.Holds position (e.fields kind) ∨ m.BreaksOff position (e.fields kind)) := by
  by_cases hkind : kind.isBranch = true
  · obtain ⟨width, hwidth⟩ := exists_branch_width hkind
    obtain ⟨value, hvalue, hstands⟩ := exists_number m position width.size
    refine ⟨.branch width (BitVec.ofNat width.bits value), ⟨hkind, hwidth⟩, ?_⟩
    simpa only [Specifier.Encoding.fields, toNat_ofNat_bits hvalue] using hstands
  · have hplain : kind.isBranch = false := by simpa using hkind
    obtain ⟨e, he, hstands⟩ := exists_fronted_mode m kind position
    by_cases hmode : ∀ r, e ≠ .reserved r
    · exact ⟨.plain e, ⟨hplain, he, hmode⟩, hstands⟩
    · -- The byte at the front is an index, whose base is a mode of its own.
      obtain ⟨r, hr⟩ := Classical.not_forall.1 hmode
      obtain rfl := Classical.not_not.1 hr
      obtain ⟨base, hbase, hstands'⟩ := exists_fronted_mode m kind (position + 1)
      refine ⟨.indexed base r, ⟨hplain, hbase⟩, ?_⟩
      rcases hstands with hfront | hbreaks
      · exact hstands'.imp (fun h => ⟨hfront.1, h⟩) fun h => Or.inr ⟨hfront.1, h⟩
      · exact Or.inr (Or.inl (hbreaks.elim id fun h => h.2.elim))

end Decoding
end Vax
