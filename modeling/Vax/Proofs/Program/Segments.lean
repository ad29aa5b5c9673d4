import Vax.Program
/-!
# Segments of a program file

A file is taken as an executable when it holds all that its header speaks of,
and otherwise the first segment that it is too short for is named.  Sizes are
added up without bound, but for those of the two relocation tables, whose sum
counts modulo 2^32.
-/

namespace Vax

namespace Program

/-- The bytes of a file from `start` on. -/
def bytesFrom (file : List UInt8) (start length : Nat) : List UInt8 :=
  (file.drop start).take length

/-- How many bytes are passed over as relocation tables. -/
def relocationsLength (h : Header) : Nat :=
  (h.trsize.toNat + h.drsize.toNat) % 2 ^ 32

theorem toNat_trsize_add_drsize (h : Header) :
    (h.trsize + h.drsize).toNat = relocationsLength h :=
  UInt32.toNat_add _ _

variable {segment : Segment} {length : UInt32} {rest : List UInt8}

theorem takeSegment_of_le (h : length.toNat ≤ rest.length) :
    takeSegment segment length rest =
      .ok (rest.take length.toNat, rest.drop length.toNat) := by
  rw [takeSegment, if_pos h]

theorem takeSegment_of_lt (h : rest.length < length.toNat) :
    takeSegment segment length rest = .error ⟨segment⟩ := by
  rw [takeSegment, if_neg (Nat.not_le.2 h)]

/-! ## The segments behind the header -/

section Segments

variable {h : Header} {body : List UInt8}

theorem symbolBytes_of_lt (hlt : rest.length < relocationsLength h) :
    symbolBytes h rest = .error ⟨.relocations⟩ := by
  rw [symbolBytes, takeSegment_of_lt (by rw [toNat_trsize_add_drsize]; exact hlt)]
  rfl

theorem symbolBytes_of_le (hle : relocationsLength h ≤ rest.length) :
    symbolBytes h rest =
      if rest.length < relocationsLength h + h.syms.toNat then .error ⟨.symbols⟩
      else .ok ((rest.drop (relocationsLength h)).take h.syms.toNat) := by
  rw [symbolBytes, takeSegment_of_le (by rw [toNat_trsize_add_drsize]; exact hle),
    toNat_trsize_add_drsize]
  change (takeSegment .symbols h.syms (rest.drop (relocationsLength h)) >>= fun x => pure x.1) = _
  have hdrop : (rest.drop (relocationsLength h)).length = rest.length - relocationsLength h :=
    List.length_drop
  split
  · next hlt =>
    rw [takeSegment_of_lt (by omega)]
    rfl
  · next hnot =>
    rw [takeSegment_of_le (by omega)]
    rfl

/-- The body is cut at the ends of its segments, one after the other. -/
theorem ofSegments_eq (h : Header) (body : List UInt8) :
    ofSegments h body =
      if body.length < h.text.toNat then .error ⟨.text⟩
      else if body.length < h.text.toNat + h.data.toNat then .error ⟨.data⟩
      else
        (if h.syms = 0 then .ok SymbolTable.empty
        else (symbolBytes h (body.drop (h.text.toNat + h.data.toNat))).map
          (SymbolTable.ofBytes h.base)).map
        (Program.mk (some h) (body.take h.text.toNat)
          ((body.drop h.text.toNat).take h.data.toNat)) := by
  have hdrop : (body.drop h.text.toNat).length = body.length - h.text.toNat := List.length_drop
  unfold ofSegments
  by_cases htext : body.length < h.text.toNat
  · rw [takeSegment_of_lt htext, if_pos htext]
    rfl
  · rw [takeSegment_of_le (Nat.not_lt.1 htext), if_neg htext]
    by_cases hdata : body.length < h.text.toNat + h.data.toNat
    · rw [if_pos hdata]
      change (takeSegment .data h.data (body.drop h.text.toNat) >>= _) = _
      rw [takeSegment_of_lt (by omega)]
      rfl
    · rw [if_neg hdata]
      change (takeSegment .data h.data (body.drop h.text.toNat) >>= _) = _
      rw [takeSegment_of_le (by omega), List.drop_drop]
      by_cases hsyms : h.syms = 0
      · rw [if_pos hsyms]
        simp only [hsyms, if_true]
        rfl
      · rw [if_neg hsyms]
        change (if h.syms = 0 then _ else _) = _
        rw [if_neg hsyms]
        cases symbolBytes h (body.drop (h.text.toNat + h.data.toNat)) with
        | ok table => rfl
        | error e => rfl

end Segments

/-! ## Files -/

section Files

variable {file : List UInt8} {h : Header}

theorem executableHeader?_eq_some_iff :
    executableHeader? file = some h ↔ Header.length ≤ file.length ∧
      Header.ofBytes (file.take Header.length) = h ∧ h.magic = Header.executableMagic := by
  rw [executableHeader?, Option.filter_eq_some_iff, Header.ofBytes?, beq_iff_eq]
  split
  · next hlength => simp only [Option.some.injEq, hlength, true_and]
  · next hlength => simp only [hlength, reduceCtorEq, false_and]

/-- Where the segments of a file end, counted from its front, decides what is
made of it. -/
theorem ofFile_of_executableHeader? (hheader : executableHeader? file = some h) :
    ofFile file =
      if file.length < Header.length + h.text.toNat then .error ⟨.text⟩
      else if file.length < Header.length + h.text.toNat + h.data.toNat then .error ⟨.data⟩
      else if h.syms = 0 then
        .ok ⟨some h, bytesFrom file Header.length h.text.toNat,
          bytesFrom file (Header.length + h.text.toNat) h.data.toNat, SymbolTable.empty⟩
      else if file.length <
          Header.length + h.text.toNat + h.data.toNat + relocationsLength h then
        .error ⟨.relocations⟩
      else if file.length <
          Header.length + h.text.toNat + h.data.toNat + relocationsLength h + h.syms.toNat then
        .error ⟨.symbols⟩
      else
        .ok ⟨some h, bytesFrom file Header.length h.text.toNat,
          bytesFrom file (Header.length + h.text.toNat) h.data.toNat,
          SymbolTable.ofBytes h.base (bytesFrom file
            (Header.length + h.text.toNat + h.data.toNat + relocationsLength h)
            h.syms.toNat)⟩ := by
  have hlength := (executableHeader?_eq_some_iff.1 hheader).1
  have hbody : (file.drop Header.length).length = file.length - Header.length := List.length_drop
  rw [ofFile, hheader]
  change ofSegments h (file.drop Header.length) = _
  rw [ofSegments_eq]
  by_cases htext : file.length < Header.length + h.text.toNat
  · rw [if_pos (by omega), if_pos htext]
  rw [if_neg (by omega), if_neg htext]
  by_cases hdata : file.length < Header.length + h.text.toNat + h.data.toNat
  · rw [if_pos (by omega), if_pos hdata]
  rw [if_neg (by omega), if_neg hdata, List.drop_drop, List.drop_drop, ← Nat.add_assoc]
  by_cases hsyms : h.syms = 0
  · rw [if_pos hsyms, if_pos hsyms]
    rfl
  rw [if_neg hsyms, if_neg hsyms]
  have hrest : (file.drop (Header.length + h.text.toNat + h.data.toNat)).length =
      file.length - (Header.length + h.text.toNat + h.data.toNat) := List.length_drop
  by_cases hrelocations : file.length <
      Header.length + h.text.toNat + h.data.toNat + relocationsLength h
  · rw [if_pos hrelocations, symbolBytes_of_lt (by omega)]
    rfl
  rw [if_neg hrelocations, symbolBytes_of_le (by omega), List.drop_drop]
  split
  · next hlt =>
    rw [if_pos (by omega)]
    rfl
  · next hnot =>
    rw [if_neg (by omega)]
    rfl

/-- An executable was read from a file that is long enough, segment by segment. -/
theorem eq_of_ofFile {p : Program} (hfile : ofFile file = .ok p) (hheader : p.header = some h) :
    executableHeader? file = some h ∧
      Header.length + h.text.toNat + h.data.toNat ≤ file.length ∧
      (h.syms ≠ 0 → Header.length + h.text.toNat + h.data.toNat + relocationsLength h +
        h.syms.toNat ≤ file.length) ∧
      p.text = bytesFrom file Header.length h.text.toNat ∧
      p.data = bytesFrom file (Header.length + h.text.toNat) h.data.toNat ∧
      p.symbols =
        if h.syms = 0 then SymbolTable.empty
        else SymbolTable.ofBytes h.base (bytesFrom file
          (Header.length + h.text.toNat + h.data.toNat + relocationsLength h) h.syms.toNat) := by
  cases hexecutable : executableHeader? file with
  | none =>
    rw [ofFile, hexecutable] at hfile
    obtain rfl := Except.ok.inj hfile
    exact absurd hheader nofun
  | some other =>
    rw [ofFile_of_executableHeader? hexecutable] at hfile
    split at hfile
    · exact absurd hfile nofun
    split at hfile
    · exact absurd hfile nofun
    split at hfile
    · next hnone =>
      obtain rfl := Except.ok.inj hfile
      obtain rfl := Option.some.inj hheader
      rw [if_pos hnone]
      exact ⟨rfl, by omega, fun hsyms => absurd hnone hsyms, rfl, rfl, rfl⟩
    split at hfile
    · exact absurd hfile nofun
    split at hfile
    · exact absurd hfile nofun
    next hnone _ _ =>
    obtain rfl := Except.ok.inj hfile
    obtain rfl := Option.some.inj hheader
    rw [if_neg hnone]
    exact ⟨rfl, by omega, fun _ => by omega, rfl, rfl, rfl⟩

/-- The segments of an executable that was read are as long as its header says. -/
theorem lengths_of_ofFile {p : Program} (hfile : ofFile file = .ok p)
    (hheader : p.header = some h) :
    p.text.length = h.text.toNat ∧ p.data.length = h.data.toNat := by
  obtain ⟨-, hlength, -, htext, hdata, -⟩ := eq_of_ofFile hfile hheader
  rw [htext, hdata]
  simp only [bytesFrom, List.length_take, List.length_drop]
  omega

/-- A file that begins with a header and the magic number is refused for the
first segment that it is too short for, and for nothing else; a file that is
not refused has the segments that follow its header.  The symbols, and the
relocations in front of them, count only when there are symbols.  Every other
file is text and nothing but text. -/
theorem file_read_when_long_enough (file : List UInt8) :
    (∀ h, Header.length ≤ file.length → Header.ofBytes (file.take Header.length) = h →
      h.magic = Header.executableMagic →
      let dataStart := Header.length + h.text.toNat
      let dataEnd := dataStart + h.data.toNat
      let symbolsStart := dataEnd + relocationsLength h
      let symbolsEnd := symbolsStart + h.syms.toNat
      (ofFile file = .error ⟨.text⟩ ↔ file.length < dataStart) ∧
      (ofFile file = .error ⟨.data⟩ ↔ dataStart ≤ file.length ∧ file.length < dataEnd) ∧
      (ofFile file = .error ⟨.relocations⟩ ↔
        dataEnd ≤ file.length ∧ 0 < h.syms ∧ file.length < symbolsStart) ∧
      (ofFile file = .error ⟨.symbols⟩ ↔
        dataEnd ≤ file.length ∧ 0 < h.syms ∧ symbolsStart ≤ file.length ∧
          file.length < symbolsEnd) ∧
      (dataEnd ≤ file.length → (0 < h.syms → symbolsEnd ≤ file.length) →
        ofFile file = .ok {
          header := some h
          text := bytesFrom file Header.length h.text.toNat
          data := bytesFrom file dataStart h.data.toNat
          symbols :=
            if h.syms = 0 then SymbolTable.empty
            else SymbolTable.ofBytes h.base (bytesFrom file symbolsStart h.syms.toNat) }) ∧
      (h.trsize.toNat + h.drsize.toNat < 2 ^ 32 →
        relocationsLength h = h.trsize.toNat + h.drsize.toNat)) ∧
    (¬ (Header.length ≤ file.length ∧
        (Header.ofBytes (file.take Header.length)).magic = Header.executableMagic) →
      ofFile file = .ok ⟨none, file, [], SymbolTable.empty⟩) := by
  constructor
  · intro h hlength hparse hmagic dataStart dataEnd symbolsStart symbolsEnd
    have hfile := ofFile_of_executableHeader?
      (executableHeader?_eq_some_iff.2 ⟨hlength, hparse, hmagic⟩)
    have hsyms : 0 < h.syms ↔ h.syms ≠ 0 := by
      rw [UInt32.lt_iff_toNat_lt, Ne, ← UInt32.toNat_inj]
      exact Nat.pos_iff_ne_zero
    rw [hfile, hsyms]
    refine ⟨?_, ?_, ?_, ?_, ?_, Nat.mod_eq_of_lt⟩
    · grind
    · grind
    · grind
    · grind
    · intro hdata hsymbols
      rw [if_neg (by omega), if_neg (by omega)]
      by_cases hnone : h.syms = 0
      · rw [if_pos hnone, if_pos hnone]
      · have hend := hsymbols hnone
        rw [if_neg hnone, if_neg (by omega), if_neg (by omega), if_neg hnone]
  · intro hother
    have hnone : executableHeader? file = none := by
      rw [Option.eq_none_iff_forall_not_mem]
      intro h hheader
      obtain ⟨hlength, hparse, hmagic⟩ := executableHeader?_eq_some_iff.1 hheader
      exact hother ⟨hlength, hparse ▸ hmagic⟩
    rw [ofFile, hnone]
    rfl

/-- The data segment has three bytes and the file one of them. -/
theorem file_read_when_long_enough_cut :
    let h : Header :=
      { magic := 0x108, text := 4, data := 3, bss := 0, syms := 0, entry := 0, trsize := 8,
        drsize := 8 }
    let file := h.toBytes ++ [0, 0, 0xd5, 0x51, 0xaa]
    Header.length ≤ file.length ∧ Header.ofBytes (file.take Header.length) = h ∧
      ofFile file = .error ⟨.data⟩ := by
  intro h file
  have hlength : Header.length ≤ file.length := by decide
  have hparse : Header.ofBytes (file.take Header.length) = h := by decide +kernel
  obtain ⟨-, hdata, -⟩ := (file_read_when_long_enough file).1 h hlength hparse rfl
  exact ⟨hlength, hparse, hdata.2 ⟨by decide, by decide⟩⟩

/-- Two relocation tables of 2^31 bytes each are passed over as if they were
empty, so a file that has neither is read to its end. -/
theorem wrapped_relocations_pass :
    let h : Header :=
      { magic := 0x108, text := 0, data := 0, bss := 0, syms := 16, entry := 0,
        trsize := 0x80000000, drsize := 0x80000000 }
    let file := h.toBytes ++ List.replicate 16 0
    Header.ofBytes (file.take Header.length) = h ∧ 0 < h.syms ∧
      file.length < Header.length + h.text.toNat + h.data.toNat + h.trsize.toNat +
        h.drsize.toNat ∧
      ∃ program, ofFile file = .ok program ∧ program.header = some h := by
  intro h file
  have hheader : executableHeader? file = some h := by decide +kernel
  refine ⟨by decide +kernel, by decide, by decide, ?_⟩
  rw [ofFile_of_executableHeader? hheader]
  rw [if_neg (by decide), if_neg (by decide), if_neg (by decide), if_neg (by decide),
    if_neg (by decide)]
  exact ⟨_, rfl, rfl⟩

end Files

end Program

end Vax
