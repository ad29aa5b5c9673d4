import Vax.Proofs.Listing.Partition
import Vax.Proofs.Memory.Bytes
import Vax.Proofs.Memory.Stores
/-!
# A listing depends on nothing but its bytes

Two images may go on differently behind the end of a range, and one of them
may end there.  An entry is shown decoded only if it ends inside the range,
where both images hold it.  Whatever one image decodes past the end, and the
other perhaps not at all, is shown as the same raw bytes.
-/

namespace Vax

namespace Memory

variable {m m' : Memory} {low address : UInt32} {length n : Nat}

theorem AgreesOn.symm (h : m.AgreesOn m' low length) : m'.AgreesOn m low length :=
  fun address n hle => (h address n hle).symm

theorem AgreesOn.readWord_eq (h : m.AgreesOn m' low length)
    (hle : (address - low).toNat + 2 ≤ length) : m'.readWord address = m.readWord address := by
  rw [readWord, readWord, readNat, readNat, h address 2 hle]

end Memory

namespace Listing

variable {d d' : Disassembler} {position stop : UInt32} {marks : List Mark} {s : State}

theorem toNat_sub_self_add_le {n : Nat} (hle : position.toNat + n ≤ stop.toNat) :
    (position - position).toNat + n ≤ stop.toNat - position.toNat := by
  rw [UInt32.sub_self, UInt32.toNat_zero]
  omega

/-- From `position` up to `stop` the disassemblers look at the same bytes. -/
structure SameUpTo (d d' : Disassembler) (position stop : UInt32) : Prop where
  spans : Spans d.memory position stop
  spans' : Spans d'.memory position stop
  agrees : d.memory.AgreesOn d'.memory position (stop.toNat - position.toNat)
  symbols_eq : d'.symbols = d.symbols
  entry_eq : d'.entry = d.entry

namespace SameUpTo

theorem symm (h : SameUpTo d d' position stop) : SameUpTo d' d position stop :=
  ⟨h.spans', h.spans, h.agrees.symm, h.symbols_eq.symm, h.entry_eq.symm⟩

theorem behind (h : SameUpTo d d' position stop) {next : UInt32}
    (hle : position.toNat ≤ next.toNat) (hstop : next.toNat ≤ stop.toNat) :
    SameUpTo d d' next stop := by
  have hbase := h.spans.base_le
  have hbase' := h.spans'.base_le
  refine ⟨⟨by omega, hstop, h.spans.stop_le, h.spans.top_lt⟩,
    ⟨by omega, hstop, h.spans'.stop_le, h.spans'.top_lt⟩, h.agrees.mono ?_, h.symbols_eq,
    h.entry_eq⟩
  rw [UInt32.toNat_sub_of_le _ _ (UInt32.le_iff_toNat_le.2 hle)]
  omega

theorem size_lt (h : SameUpTo d d' position stop) : d.memory.size < 2 ^ 32 :=
  Nat.lt_of_le_of_lt (Nat.le_add_left _ _) h.spans.top_lt

/-! ## One entry -/

theorem holds (h : SameUpTo d d' position stop) {fields : List (List UInt8)}
    (hle : position.toNat + fields.flatten.length ≤ stop.toNat)
    (hholds : d.memory.Holds position fields) : d'.memory.Holds position fields :=
  h.agrees.holds (toNat_sub_self_add_le hle) hholds

/-- What one of them decodes before the end, the other decodes too. -/
theorem decodeAt_eq (h : SameUpTo d d' position stop) {decoded : Decoded}
    (hdecoded : d.decodeAt position = .ok decoded)
    (hle : position.toNat + decoded.length.toNat ≤ stop.toNat) :
    d'.decodeAt position = .ok decoded := by
  have hword : ∀ {code next}, (Opcode.fetch d.memory).run position = .ok (.raw code, next) →
      d'.decodeAt position = .ok decoded := by
    intro code next hopcode
    obtain rfl := Except.ok.inj (hdecoded.symm.trans (Decoding.decodeAt_of_raw hopcode))
    obtain ⟨first, second, hholds, hfind, hcode, rfl⟩ := Decoding.holds_of_run_opcode_raw hopcode
    obtain ⟨next', hopcode'⟩ := Decoding.run_opcode_raw_of_holds (h.holds hle hholds) hfind hcode
    exact Decoding.decodeAt_of_raw hopcode'
  cases Decoding.reading d position with
  | instruction i next hdecodes hmachine =>
    obtain rfl := Except.ok.inj (hdecoded.symm.trans (Decoding.decodeAt_of_decodes hdecodes))
    obtain ⟨e, he, hholds, rfl, rfl⟩ := Decoding.holds_of_decodes hdecodes
    rw [(Decoding.toNat_length_instruction h.size_lt hholds).1] at hle
    have hdecodes' := Decoding.decodes_of_holds he (h.holds hle hholds)
    rw [Decoding.decodeAt_of_decodes hdecodes', h.symbols_eq]
  | outOfRange e hlisting hmachine => exact absurd (hdecoded.symm.trans hlisting) nofun
  | escaped first code next hfirst hescape hopcode hmachine => exact hword hopcode
  | unknown first hfirst hfind hescape hopcode hmachine =>
    obtain ⟨second, next, -, hopcode⟩ | ⟨e, -, hopcode⟩ := hopcode
    · exact hword hopcode
    · exact absurd (hdecoded.symm.trans (Decoding.decodeAt_of_opcode_error hopcode)) nofun

theorem readWord_eq (h : SameUpTo d d' position stop) (hle : position.toNat + 2 ≤ stop.toNat) :
    d'.memory.readWord position = d.memory.readWord position :=
  h.agrees.readWord_eq (toNat_sub_self_add_le hle)

theorem maskAt_eq (h : SameUpTo d d' position stop) {decoded : Decoded}
    (hdecoded : d.maskAt position = .ok decoded)
    (hle : position.toNat + decoded.length.toNat ≤ stop.toNat) :
    d'.maskAt position = .ok decoded := by
  rw [Disassembler.maskAt] at hdecoded
  cases hmask : d.memory.readWord position with
  | error e =>
    rw [hmask] at hdecoded
    exact absurd hdecoded nofun
  | ok mask =>
    rw [hmask] at hdecoded
    obtain rfl := Except.ok.inj hdecoded
    rw [Disassembler.maskAt, h.readWord_eq hle, hmask]
    rfl

theorem entry?_eq (h : SameUpTo d d' position stop) {length : UInt32}
    (hle : position.toNat + length.toNat ≤ stop.toNat) (text : List UInt8 → String)
    (table : Option PendingTable) :
    entry? d'.memory position length text marks table =
      entry? d.memory position length text marks table := by
  have hslice : d'.memory.slice position length.toNat = d.memory.slice position length.toNat :=
    h.agrees position length.toNat (toNat_sub_self_add_le hle)
  unfold entry?
  rw [hslice]

theorem rawEntry?_eq (h : SameUpTo d d' position stop) (hlt : position < stop) :
    rawEntry? d' stop position marks = rawEntry? d stop position marks := by
  apply h.entry?_eq
  have hlt' := UInt32.lt_iff_toNat_lt.1 hlt
  rw [toNat_min, UInt32.toNat_sub_of_le _ _ (UInt32.le_of_lt hlt)]
  omega

end SameUpTo

/-! ## What is decoded and what is raw -/

/-- What the listing would show decoded at the position. -/
def readEntry (d : Disassembler) (isMask : Bool) (position : UInt32) : Except OutOfRange Decoded :=
  if isMask then d.maskAt position else d.decodeAt position

/-- It decodes and ends at the limit at the latest. -/
def Fits (d : Disassembler) (stop position : UInt32) (isMask : Bool) (marks : List Mark)
    (decoded : Decoded) : Prop :=
  readEntry d isMask position = .ok decoded ∧ decoded.nextAddress ≤ limit stop marks

theorem codeEntry?_of_fits {isMask : Bool} {decoded : Decoded}
    (h : Fits d stop position isMask marks decoded) :
    codeEntry? d stop position isMask marks =
      entry? d.memory position decoded.length (fun _ => decoded.text)
        ((decoded.targets.filter fun target => decoded.nextAddress ≤ target).foldl
          (fun marks target => insertTarget target marks) marks)
        (decoded.table.map fun table => ⟨table.base, table.entries⟩) := by
  obtain ⟨hread, hle⟩ := h
  rw [readEntry] at hread
  unfold codeEntry?
  rw [hread]
  exact if_pos hle

theorem codeEntry?_of_not_fits {isMask : Bool}
    (h : ∀ decoded, ¬ Fits d stop position isMask marks decoded) :
    codeEntry? d stop position isMask marks = rawEntry? d stop position marks := by
  unfold codeEntry?
  cases hread : (if isMask then d.maskAt position else d.decodeAt position) with
  | error e => rfl
  | ok decoded => exact if_neg fun hle => h decoded ⟨hread, hle⟩

theorem tableEntry?_of_not_fits {table : PendingTable}
    (h : ∀ word, d.memory.readWord position = .ok word → ¬ position + 2 ≤ limit stop marks) :
    tableEntry? d stop position table marks = rawEntry? d stop position marks := by
  unfold tableEntry?
  cases hread : d.memory.readWord position with
  | error e => rfl
  | ok word => exact if_neg (h word hread)

theorem lies_of_readEntry {isMask : Bool} {decoded : Decoded} (hsize : d.memory.size < 2 ^ 32)
    (h : readEntry d isMask position = .ok decoded) : decoded.LiesIn d.memory position := by
  cases isMask with
  | true => exact Disassembler.lies_of_maskAt h
  | false => exact Disassembler.lies_of_decodeAt hsize h

namespace SameUpTo

theorem fits {isMask : Bool} {decoded : Decoded} (h : SameUpTo d d' position stop)
    (hfits : Fits d stop position isMask marks decoded) :
    Fits d' stop position isMask marks decoded := by
  obtain ⟨hread, hle⟩ := hfits
  have hend := shows_decoded h.spans (lies_of_readEntry h.size_lt hread) hle
  refine ⟨?_, hle⟩
  cases isMask with
  | true => exact h.maskAt_eq hread hend
  | false => exact h.decodeAt_eq hread hend

theorem codeEntry?_eq (h : SameUpTo d d' position stop) (hlt : position < stop)
    (isMask : Bool) (marks : List Mark) :
    codeEntry? d' stop position isMask marks = codeEntry? d stop position isMask marks := by
  by_cases hfits : ∃ decoded, Fits d stop position isMask marks decoded
  · obtain ⟨decoded, hfits⟩ := hfits
    have hend := shows_decoded h.spans (lies_of_readEntry h.size_lt hfits.1) hfits.2
    rw [codeEntry?_of_fits hfits, codeEntry?_of_fits (h.fits hfits), h.entry?_eq hend]
  · have hnone : ∀ decoded, ¬ Fits d stop position isMask marks decoded :=
      fun decoded hdecoded => hfits ⟨decoded, hdecoded⟩
    have hnone' : ∀ decoded, ¬ Fits d' stop position isMask marks decoded :=
      fun decoded hdecoded => hnone decoded (h.symm.fits hdecoded)
    rw [codeEntry?_of_not_fits hnone, codeEntry?_of_not_fits hnone', h.rawEntry?_eq hlt]

theorem readWord_of_fits (h : SameUpTo d d' position stop) {word : UInt16}
    (hread : d.memory.readWord position = .ok word) (hle : position + 2 ≤ limit stop marks) :
    position.toNat + 2 ≤ stop.toNat ∧ d'.memory.readWord position = .ok word := by
  have hlies := Disassembler.lies_wordAt "" (Memory.offset_add_le_of_readWord hread)
  have hend : position.toNat + 2 ≤ stop.toNat := shows_decoded h.spans hlies hle
  exact ⟨hend, (h.readWord_eq hend).trans hread⟩

theorem tableEntry?_eq (h : SameUpTo d d' position stop) (hlt : position < stop)
    (table : PendingTable) (marks : List Mark) :
    tableEntry? d' stop position table marks = tableEntry? d stop position table marks := by
  by_cases hfits : (∃ word, d.memory.readWord position = .ok word) ∧
      position + 2 ≤ limit stop marks
  · obtain ⟨⟨word, hread⟩, hle⟩ := hfits
    obtain ⟨hend, hread'⟩ := h.readWord_of_fits hread hle
    have hword : position.toNat + (2 : UInt32).toNat ≤ stop.toNat := hend
    unfold tableEntry?
    rw [hread, hread']
    simp only [if_pos hle]
    exact h.entry?_eq hword _ _
  · rw [tableEntry?_of_not_fits fun word hread hle => hfits ⟨⟨word, hread⟩, hle⟩,
      tableEntry?_of_not_fits fun word hread hle =>
        hfits ⟨⟨word, (h.symm.readWord_of_fits hread hle).2⟩, hle⟩]
    exact h.rawEntry?_eq hlt

end SameUpTo

/-! ## All entries -/

theorem advance_eq (h : SameUpTo d d' s.position stop) (hlt : s.position < stop) :
    advance d' stop s = advance d stop s := by
  unfold advance
  simp only [h.codeEntry?_eq hlt, h.tableEntry?_eq hlt, h.entry_eq]

theorem linesFrom_eq (h : SameUpTo d d' s.position stop) (entries : Nat) :
    linesFrom d' stop entries s = linesFrom d stop entries s := by
  induction entries generalizing s with
  | zero => rfl
  | succ entries ih =>
    rw [linesFrom, linesFrom]
    by_cases hdone : stop ≤ s.position
    · rw [if_pos hdone, if_pos hdone]
    · have hlt := UInt32.not_le.1 hdone
      obtain ⟨headings, entry, bytes, text, hadvance, -, hshows⟩ := shows_advance h.spans hlt
      have hnext := hshows.toNat_position
      have hle := hshows.le_stop
      have hrest : linesFrom d' stop entries entry.2 = linesFrom d stop entries entry.2 :=
        ih (h.behind (by omega) (by omega))
      rw [if_neg hdone, if_neg hdone, advance_eq h hlt, hadvance]
      simp only [hrest]

end Listing

open Listing

theorem Listing.SameUpTo.listing_eq {d d' : Disassembler} {start stop : UInt32}
    (h : SameUpTo d d' start stop) : d'.listing start stop = d.listing start stop := by
  have hbase := h.spans.base_le
  have hstop := h.spans.stop_le
  have hbase' := h.spans'.base_le
  have hstop' := h.spans'.stop_le
  -- The images differ in size, but either has enough entries for the range.
  calc d'.listing start stop
      = linesFrom d' stop (d.memory.size + 1) ⟨start, d'.symbols.symbols.map Mark.ofSymbol, none⟩ :=
        linesFrom_of_lt h.spans' (by change stop.toNat - start.toNat < _; omega)
          (by change stop.toNat - start.toNat < _; omega)
    _ = linesFrom d stop (d.memory.size + 1) ⟨start, d'.symbols.symbols.map Mark.ofSymbol, none⟩ :=
        linesFrom_eq h _
    _ = d.listing start stop := by rw [h.symbols_eq]; rfl

/-- Images that hold the same byte at every address of a range agree on it. -/
theorem Listing.Spans.agreesOn {m m' : Memory} {start stop : UInt32} (h : Spans m start stop)
    (h' : Spans m' start stop)
    (hbytes : ∀ address, start ≤ address → address < stop →
      ∃ byte, m.readByte address = .ok byte ∧ m'.readByte address = .ok byte) :
    m.AgreesOn m' start (stop.toNat - start.toNat) := by
  intro address n hle
  have hstart := start.toNat_lt
  have hstop := stop.toNat_lt
  have hlow : start.toNat ≤ address.toNat ∧ address.toNat + n ≤ stop.toNat := by
    rw [UInt32.toNat_sub] at hle
    have haddress := address.toNat_lt
    have horder := h.le_stop
    omega
  have hbase := h.base_le
  have hbase' := h'.base_le
  have hspans : Spans m address stop := ⟨by omega, by omega, h.stop_le, h.top_lt⟩
  have hspans' : Spans m' address stop := ⟨by omega, by omega, h'.stop_le, h'.top_lt⟩
  have hoffset := hspans.offset_eq
  have hoffset' := hspans'.offset_eq
  have hend := h.stop_le
  have hend' := h'.stop_le
  have hin : m.offset address + n ≤ m.size := by omega
  have hin' : m'.offset address + n ≤ m'.size := by omega
  rw [Memory.slice_eq_ok_iff.2 ⟨hin, rfl⟩, Memory.slice_eq_ok_iff.2 ⟨hin', rfl⟩]
  refine congrArg Except.ok (List.map_congr_left fun i hi => ?_)
  have hlt := List.mem_range.1 hi
  have hnext : (address + UInt32.ofNat i).toNat = address.toNat + i := by
    rw [UInt32.toNat_add, UInt32.toNat_ofNat']
    omega
  obtain ⟨byte, hread, hread'⟩ := hbytes (address + UInt32.ofNat i)
    (UInt32.le_iff_toNat_le.2 (by omega)) (UInt32.lt_iff_toNat_lt.2 (by omega))
  have hbyte := (Memory.readByte_eq_ok_iff.1 hread).2
  have hbyte' := (Memory.readByte_eq_ok_iff.1 hread').2
  rw [Memory.offset_add, Nat.mod_eq_of_lt (by omega)] at hbyte hbyte'
  exact hbyte'.symm.trans hbyte

theorem listing_of_le {d : Disassembler} {start stop : UInt32} (h : stop ≤ start) :
    d.listing start stop = [] :=
  linesFrom_of_le h _

/-- Where two images hold the same bytes, they are listed alike. -/
theorem listing_eq_of_readByte {m m' : Memory} (symbols : SymbolTable) (entry : Option UInt32)
    {start stop : UInt32} (htop : m.base.toNat + m.size < 2 ^ 32)
    (htop' : m'.base.toNat + m'.size < 2 ^ 32)
    (hbytes : ∀ address, start ≤ address → address < stop →
      ∃ byte, m.readByte address = .ok byte ∧ m'.readByte address = .ok byte) :
    Disassembler.listing ⟨m', symbols, entry⟩ start stop =
      Disassembler.listing ⟨m, symbols, entry⟩ start stop := by
  by_cases hlt : start < stop
  · have hinside : ∀ {image : Memory} {address byte}, image.readByte address = .ok byte →
        image.contains address 1 = true := fun hread =>
      decide_eq_true (Memory.readByte_eq_ok_iff.1 hread).1
    have hspans : Spans m start stop := spans_of_inside htop hlt fun address hlow hhigh =>
      (hbytes address hlow hhigh).elim fun _ hread => hinside hread.1
    have hspans' : Spans m' start stop := spans_of_inside htop' hlt fun address hlow hhigh =>
      (hbytes address hlow hhigh).elim fun _ hread => hinside hread.2
    have hsame : SameUpTo ⟨m, symbols, entry⟩ ⟨m', symbols, entry⟩ start stop :=
      ⟨hspans, hspans', hspans.agreesOn hspans' hbytes, rfl, rfl⟩
    exact hsame.listing_eq
  · have hle := UInt32.not_lt.1 hlt
    rw [listing_of_le hle, listing_of_le hle]

end Vax
