import Vax.Proofs.Listing.Marks
/-!
# Listings come back to every target

What a line names behind it becomes a mark, and no mark is lost before the
listing has come to it.  So an entry begins at every target ahead, whatever
stands between.
-/

namespace Vax

namespace Listing

/-- The line at `address` that reads `text` names `target`: it is the
instruction there, or an entry of a case table. -/
inductive Names (d : Disassembler) (address : UInt32) (text : String) (target : UInt32) : Prop where
  | instruction (decoded : Decoded) (hdecoded : d.decodeAt address = .ok decoded)
      (htext : decoded.text = text) (htarget : target ∈ decoded.targets)
  | entry (base : UInt32)
      (htext : text = ".word " ++ Text.marked target.toNat ++ "-" ++ Text.marked base.toNat)

/-! ## Telling lines apart -/

section Text

variable {d : Disassembler} {address target : UInt32} {text : String} {decoded : Decoded}

/-- An address is decoded as an instruction of the catalog or as a raw word. -/
theorem of_decodeAt (h : d.decodeAt address = .ok decoded) :
    (∃ i : Instruction, i.descriptor ∈ Catalog.descriptors ∧ decoded.text = i.render d.symbols) ∨
      ∃ code, decoded = Disassembler.wordAt address (Opcode.raw code).text := by
  cases Decoding.reading d address with
  | instruction i stop hdecodes hmachine =>
    obtain rfl := Except.ok.inj (h.symm.trans (Decoding.decodeAt_of_decodes hdecodes))
    obtain ⟨position, hopcode, -⟩ := hdecodes
    exact .inl ⟨i, (Decoding.holds_of_run_opcode hopcode).1, rfl⟩
  | outOfRange e hlisting hmachine => exact absurd (h.symm.trans hlisting) nofun
  | escaped first code position hfirst hescape hopcode hmachine =>
    exact .inr ⟨code, Except.ok.inj (h.symm.trans (Decoding.decodeAt_of_raw hopcode))⟩
  | unknown first hfirst hfind hescape hopcode hmachine =>
    rcases hopcode with ⟨second, position, -, hopcode⟩ | ⟨e, -, hopcode⟩
    · exact .inr ⟨_, Except.ok.inj (h.symm.trans (Decoding.decodeAt_of_raw hopcode))⟩
    · exact absurd (h.symm.trans (Decoding.decodeAt_of_opcode_error hopcode)) nofun

/-- What reads like a directive has no targets and no difference in it. -/
theorem of_directive (h : d.decodeAt address = .ok decoded)
    (hfront : decoded.text.toByteArray.data.toList.head? = some 46) :
    decoded.targets = [] ∧ '-' ∉ decoded.text.toList := by
  rcases of_decodeAt h with ⟨i, hcatalogued, htext⟩ | ⟨code, rfl⟩
  · rw [htext] at hfront
    exact absurd hfront (Decoding.head?_render_ne d.symbols hcatalogued)
  · refine ⟨rfl, ?_⟩
    change '-' ∉ (".word " ++ Text.marked code.toNat).toList
    rw [String.toList_append, List.mem_append]
    rintro (hword | hdigit)
    · exact absurd hword (by decide +kernel)
    · exact Text.minus_notMem_marked _ hdigit

theorem head?_word (text : String) :
    (".word " ++ text).toByteArray.data.toList.head? = some 46 := by
  rw [Decoding.head?_append _ _ (by decide +kernel)]
  decide +kernel

theorem head?_byteDirective (bytes : List UInt8) :
    (byteDirective bytes).toByteArray.data.toList.head? = some 46 := by
  rw [byteDirective, Decoding.head?_append _ _ (by decide +kernel)]
  decide +kernel

/-- A directive names a target only as an entry of a case table. -/
theorem Names.of_directive (h : Names d address text target)
    (hfront : text.toByteArray.data.toList.head? = some 46) :
    ∃ base : UInt32,
      text = ".word " ++ Text.marked target.toNat ++ "-" ++ Text.marked base.toNat := by
  cases h with
  | instruction decoded hdecoded htext htarget =>
    rw [(Listing.of_directive hdecoded (htext ▸ hfront)).1] at htarget
    exact absurd htarget List.not_mem_nil
  | entry base htext => exact ⟨base, htext⟩

theorem byteDirective_ne_word (bytes : List UInt8) (text : String) :
    byteDirective bytes ≠ ".word " ++ text := by
  intro h
  have hlist := congrArg (fun text : String => text.toList.take 2) h
  simp only [byteDirective, String.toList_append] at hlist
  rw [List.take_append_of_le_length (by decide +kernel),
    List.take_append_of_le_length (by decide +kernel)] at hlist
  exact absurd hlist (by decide +kernel)

end Text

/-! ## Marking what a line names -/

section Run

variable {d : Disassembler} {stop address target : UInt32} {s next : State} {lines : List Line}
  {bytes : List UInt8} {text : String}

/-- What a line names behind it is a mark from then on. -/
theorem Listed.mem_marks (h : Listed d stop s (.code address bytes text) next)
    (hnames : Names d address text target) (hbehind : next.position ≤ target) :
    (⟨target, .target⟩ : Mark) ∈ next.marks := by
  cases h with
  | raw hnext =>
    obtain ⟨base, htext⟩ := hnames.of_directive (head?_byteDirective bytes)
    rw [String.append_assoc, String.append_assoc] at htext
    exact absurd htext (byteDirective_ne_word bytes _)
  | @mask bytes word hnext =>
    obtain ⟨base, htext⟩ := hnames.of_directive (head?_word _)
    rw [String.append_assoc, String.append_assoc, String.append_right_inj,
      ← String.append_assoc] at htext
    have hminus := Text.minus_mem (Text.marked target.toNat) (Text.marked base.toNat)
    rw [← htext] at hminus
    exact absurd hminus (Text.minus_notMem_unsigned _)
  | @instruction bytes decoded table hdecoded hnext =>
    have htarget : target ∈ decoded.targets := by
      cases hnames with
      | instruction other hother htext htarget =>
        obtain rfl := Except.ok.inj (hdecoded.symm.trans hother)
        exact htarget
      | entry base htext =>
        have hminus := Text.minus_mem (".word " ++ Text.marked target.toNat)
          (Text.marked base.toNat)
        rw [← htext] at hminus
        rw [String.append_assoc, String.append_assoc] at htext
        exact absurd hminus (of_directive hdecoded (htext ▸ head?_word _)).2
    exact mem_withTargets.2
      (.inl ⟨target, List.mem_filter.2 ⟨htarget, decide_eq_true hbehind⟩, rfl⟩)
  | @word bytes other base table hnext =>
    have hfront : (".word " ++ Text.marked other.toNat ++ "-" ++
        Text.marked base.toNat).toByteArray.data.toList.head? = some 46 := by
      rw [String.append_assoc, String.append_assoc]
      exact head?_word _
    obtain ⟨base', htext⟩ := hnames.of_directive hfront
    simp only [String.append_assoc, String.append_right_inj] at htext
    simp only [← String.append_assoc] at htext
    obtain rfl := UInt32.toNat_inj.1 (Text.marked_minus_inj htext).1
    exact mem_withTargets.2 (.inl ⟨other, List.mem_singleton_self _, rfl⟩)

/-- A line of code comes out of a state at its address, and the lines behind it
out of the next one. -/
theorem Runs.of_code (h : Runs d stop s lines) (hordered : Ordered s.marks) {later : List Line}
    (hsuffix : .code address bytes text :: later <:+ lines) :
    ∃ s next, Ordered next.marks ∧ Listed d stop s (.code address bytes text) next ∧
      next.position.toNat = address.toNat + bytes.length ∧ Runs d stop next later := by
  induction h with
  | done => exact absurd (List.suffix_nil.1 hsuffix) (List.cons_ne_nil _ _)
  | @entry s next line bytes' text' rest hshows hlisted hrest ih =>
    have hnext := hlisted.follows.ordered hordered
    rcases suffix_of_headings hsuffix with ⟨mark, -, hmark, -⟩ | hsuffix
    · exact absurd (Mark.of_heading? hmark).1 Bool.false_ne_true
    · rcases List.suffix_cons_iff.1 hsuffix with heq | hsuffix
      · obtain ⟨rfl, rfl⟩ := List.cons.inj heq
        have hline := hshows.line_eq
        obtain ⟨rfl, rfl, rfl⟩ := Line.code.inj hline
        exact ⟨s, next, hnext, hlisted, hshows.toNat_position, hrest⟩
      · exact ih hnext hsuffix

end Run

end Listing

open Listing

/-- A listing comes back to every target that one of its lines names behind
itself: an entry begins there, and none that is still to come runs over it. -/
theorem listing_resynchronizes (d : Disassembler) (start stop : UInt32)
    (htop : d.memory.base.toNat + d.memory.size < 2 ^ 32)
    (hinside : ∀ address, start ≤ address → address < stop →
      d.memory.contains address 1 = true)
    {address target : UInt32} {bytes : List UInt8} {text : String} {later : List Line}
    (hline : .code address bytes text :: later <:+ d.listing start stop)
    (hnames : Names d address text target)
    (hbehind : address.toNat + bytes.length ≤ target.toNat) (hbelow : target < stop) :
    (∃ bytes text, .code target bytes text ∈ later) ∧
      ∀ address bytes text, .code address bytes text ∈ later →
        ¬ (address < target ∧ target.toNat < address.toNat + bytes.length) := by
  by_cases hlt : start < stop
  · have hruns := runs_listing (spans_of_inside htop hlt hinside)
    obtain ⟨s, next, hordered, hlisted, hnext, hrest⟩ :=
      hruns.of_code (ordered_ofSymbol d.symbols) hline
    have hlow : next.position ≤ target := UInt32.le_iff_toNat_le.2 (by omega)
    exact hrest.resynchronize hordered (hlisted.mem_marks hnames hlow) hlow hbelow
  · have hempty : d.listing start stop = [] := linesFrom_of_le (UInt32.not_lt.1 hlt) _
    rw [hempty] at hline
    exact absurd (List.suffix_nil.1 hline) (List.cons_ne_nil _ _)

/-- A case table and a branch that both lead into the middle of what follows. -/
theorem listing_resynchronizes_twice :
    let d : Disassembler := ⟨Memory.ofBytes 0x1000
      [0x8f, 0x51, 0x00, 0x00, 0x05, 0x00, 0x11, 0x03, 0xd0, 0xd0, 0xd0, 0x01], .empty, none⟩
    let behindTable : List Line :=
      [.code 0x1006 [0x11, 0x03] "brb 0x100b", .code 0x1008 [0xd0] ".byte 0xd0",
        .code 0x1009 [0xd0, 0xd0] ".byte 0xd0, 0xd0", .code 0x100b [0x01] "nop"]
    d.listing 0x1000 0x100c =
        .code 0x1000 [0x8f, 0x51, 0x00, 0x00] "caseb r1,$0,$0" ::
          .code 0x1004 [0x05, 0x00] ".word 0x1009-0x1004" :: behindTable ∧
      (∃ bytes text, .code 0x1009 bytes text ∈ behindTable) ∧
      (∃ bytes text, .code 0x100b bytes text ∈ behindTable.tail) ∧
      ∀ address bytes text, .code address bytes text ∈ behindTable.tail →
        ¬ (address < 0x100b ∧ 0x100b < address.toNat + bytes.length) := by
  intro d behindTable
  have hlisting : d.listing 0x1000 0x100c =
      .code 0x1000 [0x8f, 0x51, 0x00, 0x00] "caseb r1,$0,$0" ::
        .code 0x1004 [0x05, 0x00] ".word 0x1009-0x1004" :: behindTable := by
    decide +kernel
  have htop : d.memory.base.toNat + d.memory.size < 2 ^ 32 := by decide +kernel
  have hinside : ∀ address, (0x1000 : UInt32) ≤ address → address < 0x100c →
      d.memory.contains address 1 = true := contains_ofBytes (by decide +kernel) (by decide +kernel)
  have hword : Names d 0x1004 ".word 0x1009-0x1004" 0x1009 := .entry 0x1004 (by decide +kernel)
  have hbranch : Names d 0x1006 "brb 0x100b" 0x100b := by
    have hread : ((d.decodeAt 0x1006).toOption.map fun decoded =>
        (decoded.text, decoded.targets)) = some ("brb 0x100b", [0x100b]) := by
      decide +kernel
    cases hdecoded : d.decodeAt 0x1006 with
    | error e =>
      rw [hdecoded] at hread
      exact absurd hread nofun
    | ok decoded =>
      rw [hdecoded] at hread
      obtain ⟨htext, htargets⟩ := Prod.mk.inj (Option.some.inj hread)
      exact .instruction decoded hdecoded htext (htargets ▸ List.mem_singleton_self _)
  have hfirst : .code 0x1004 [0x05, 0x00] ".word 0x1009-0x1004" :: behindTable <:+
      d.listing 0x1000 0x100c := by
    rw [hlisting]
    exact List.suffix_cons _ _
  have hsecond : .code 0x1006 [0x11, 0x03] "brb 0x100b" :: behindTable.tail <:+
      d.listing 0x1000 0x100c := by
    rw [hlisting]
    exact ⟨[_, _], rfl⟩
  have htable := listing_resynchronizes d 0x1000 0x100c htop hinside hfirst hword
    (by decide +kernel) (by decide +kernel)
  have hjump := listing_resynchronizes d 0x1000 0x100c htop hinside hsecond hbranch
    (by decide +kernel) (by decide +kernel)
  exact ⟨hlisting, htable.1, hjump⟩

end Vax
