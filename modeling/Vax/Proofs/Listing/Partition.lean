import Vax.Disassembler.Listing
import Vax.Proofs.Decoding.Grammar
/-!
# Listings lose no byte

The entries of a listing lie one behind the other and fill the range that is
listed.  Every step takes up at least one byte and never passes the end, so
the bytes that are left bound the number of entries.
-/

namespace Vax

/-! ## Extents -/

/-- What was decoded at `address` is some bytes of the image. -/
structure Decoded.LiesIn (decoded : Decoded) (m : Memory) (address : UInt32) : Prop where
  address_eq : decoded.address = address
  length_pos : 0 < decoded.length.toNat
  inside : m.offset address + decoded.length.toNat ≤ m.size

namespace Disassembler

variable {d : Disassembler} {address : UInt32} {decoded : Decoded}

theorem lies_wordAt {m : Memory} (text : String) (h : m.offset address + 2 ≤ m.size) :
    (wordAt address text).LiesIn m address :=
  ⟨rfl, (by decide : 0 < (2 : UInt32).toNat), h⟩

theorem lies_of_decodeAt (hsize : d.memory.size < 2 ^ 32)
    (h : d.decodeAt address = .ok decoded) : decoded.LiesIn d.memory address := by
  have hword : ∀ {code position},
      (Opcode.fetch d.memory).run address = .ok (.raw code, position) →
        decoded.LiesIn d.memory address := by
    intro code position hopcode
    obtain rfl := Except.ok.inj (h.symm.trans (Decoding.decodeAt_of_raw hopcode))
    obtain ⟨first, second, hholds, -⟩ := Decoding.holds_of_run_opcode_raw hopcode
    apply lies_wordAt
    exact Memory.offset_add_le_of_holds hsize hholds
      (Memory.offset_le_of_holds hholds (List.cons_ne_nil _ _))
  cases Decoding.reading d address with
  | instruction i stop hdecodes hmachine =>
      obtain rfl := Except.ok.inj (h.symm.trans (Decoding.decodeAt_of_decodes hdecodes))
      obtain ⟨e, he, hholds, rfl, rfl⟩ := Decoding.holds_of_decodes hdecodes
      obtain ⟨hlength, hend⟩ := Decoding.toNat_length_instruction hsize hholds
      refine ⟨rfl, ?_, ?_⟩
      · rw [hlength]
        exact Decoding.length_bytes_pos e
      · rw [hlength]
        exact hend
  | outOfRange e hlisting hmachine => exact absurd (h.symm.trans hlisting) nofun
  | escaped first code position hfirst hescape hopcode hmachine => exact hword hopcode
  | unknown first hfirst hfind hescape hopcode hmachine =>
      rcases hopcode with ⟨second, position, -, hopcode⟩ | ⟨e, -, hopcode⟩
      · exact hword hopcode
      · exact absurd (h.symm.trans (Decoding.decodeAt_of_opcode_error hopcode)) nofun

theorem lies_of_maskAt (h : d.maskAt address = .ok decoded) :
    decoded.LiesIn d.memory address := by
  unfold maskAt at h
  cases hmask : d.memory.readWord address with
  | ok mask =>
      rw [hmask] at h
      obtain rfl := Except.ok.inj h
      exact lies_wordAt _ (Memory.offset_add_le_of_readWord hmask)
  | error e =>
      rw [hmask] at h
      exact absurd h nofun

end Disassembler

/-! ## One entry -/

theorem toNat_min (a b : UInt32) : (min a b).toNat = min a.toNat b.toNat := by
  change (if a ≤ b then a else b).toNat = _
  split
  · next h => rw [Nat.min_eq_left (UInt32.le_iff_toNat_le.1 h)]
  · next h => rw [Nat.min_eq_right (by rw [UInt32.le_iff_toNat_le] at h; omega)]

theorem toNat_max (a b : UInt32) : (max a b).toNat = max a.toNat b.toNat := by
  change (if a ≤ b then b else a).toNat = _
  split
  · next h => rw [Nat.max_eq_right (UInt32.le_iff_toNat_le.1 h)]
  · next h => rw [Nat.max_eq_left (by rw [UInt32.le_iff_toNat_le] at h; omega)]

namespace Listing

section Entry

variable {d : Disassembler} {m : Memory} {stop position : UInt32} {marks : List Mark}

/-- The addresses from `position` up to `stop` are in an image that ends below
2^32. -/
structure Spans (m : Memory) (position stop : UInt32) : Prop where
  base_le : m.base.toNat ≤ position.toNat
  le_stop : position.toNat ≤ stop.toNat
  stop_le : stop.toNat ≤ m.base.toNat + m.size
  top_lt : m.base.toNat + m.size < 2 ^ 32

theorem Spans.offset_eq (h : Spans m position stop) :
    m.offset position = position.toNat - m.base.toNat := by
  have hposition := position.toNat_lt
  have hbase := h.base_le
  rw [Memory.offset, UInt32.toNat_sub]
  omega

/-- An entry shows the bytes at the position, at least one, and the listing
goes on behind them. -/
structure Shows (m : Memory) (position stop : UInt32) (entry : Line × State)
    (bytes : List UInt8) (text : String) : Prop where
  line_eq : entry.1 = .code position bytes text
  bytes_ne_nil : bytes ≠ []
  slice_eq : m.slice position bytes.length = .ok bytes
  position_eq : entry.2.position = position + UInt32.ofNat bytes.length
  le_stop : position.toNat + bytes.length ≤ stop.toNat

theorem of_entry? {length : UInt32} {text : List UInt8 → String} {table : Option PendingTable}
    {line : Line} {s : State} (h : entry? m position length text marks table = some (line, s)) :
    ∃ bytes, line = .code position bytes (text bytes) ∧ s = ⟨position + length, marks, table⟩ := by
  unfold entry? at h
  split at h
  · next bytes hslice =>
    obtain ⟨rfl, rfl⟩ := Prod.mk.inj (Option.some.inj h)
    exact ⟨bytes, rfl, rfl⟩
  · exact absurd h nofun

theorem shows_entry (hspans : Spans m position stop) {length : UInt32}
    (hpos : 0 < length.toNat) (hle : position.toNat + length.toNat ≤ stop.toNat)
    (text : List UInt8 → String) (table : Option PendingTable) :
    ∃ entry bytes text', entry? m position length text marks table = some entry ∧
      Shows m position stop entry bytes text' := by
  have hin : m.offset position + length.toNat ≤ m.size := by
    rw [hspans.offset_eq]
    have hbase := hspans.base_le
    have hstop := hspans.stop_le
    omega
  have hslice := Memory.slice_eq_ok_iff.2 ⟨hin, rfl⟩
  have hlength := Memory.length_of_slice hslice
  refine ⟨_, m.bytesAt (m.offset position) length.toNat, _, by unfold entry?; rw [hslice],
    rfl, ?_, ?_, ?_, ?_⟩
  · intro hnil
    rw [hnil] at hlength
    exact absurd hlength (Nat.ne_of_lt hpos)
  · rw [hlength]
    exact hslice
  · rw [hlength, UInt32.ofNat_toNat]
  · rw [hlength]
    exact hle

theorem limit_le (stop : UInt32) (marks : List Mark) :
    (limit stop marks).toNat ≤ stop.toNat := by
  cases marks with
  | nil => exact Nat.le_refl _
  | cons mark rest =>
      rw [limit, toNat_min]
      exact Nat.min_le_right _ _

theorem shows_rawEntry (hspans : Spans d.memory position stop) (hlt : position < stop) :
    ∃ entry bytes text, rawEntry? d stop position marks = some entry ∧
      Shows d.memory position stop entry bytes text := by
  have hlt' := UInt32.lt_iff_toNat_lt.1 hlt
  have hrest : (stop - position).toNat = stop.toNat - position.toNat :=
    UInt32.toNat_sub_of_le _ _ (UInt32.le_of_lt hlt)
  have hlength : (min (max 1 (limit stop marks - position)) (stop - position)).toNat =
      min (max 1 (limit stop marks - position).toNat) (stop.toNat - position.toNat) := by
    rw [toNat_min, toNat_max, hrest]
    rfl
  apply shows_entry hspans
  · rw [hlength]
    omega
  · rw [hlength]
    omega

theorem shows_decoded (hspans : Spans d.memory position stop) {decoded : Decoded}
    (hlies : decoded.LiesIn d.memory position)
    (hnext : decoded.nextAddress ≤ limit stop marks) :
    position.toNat + decoded.length.toNat ≤ stop.toNat := by
  have hinside := hlies.inside
  have hbase := hspans.base_le
  have htop := hspans.top_lt
  have hlimit := limit_le stop marks
  have hstop := UInt32.le_iff_toNat_le.1 hnext
  rw [hspans.offset_eq] at hinside
  rw [Decoded.nextAddress, hlies.address_eq, UInt32.toNat_add, Nat.mod_eq_of_lt (by omega)] at hstop
  omega

theorem shows_codeEntry (hspans : Spans d.memory position stop) (hlt : position < stop)
    (marks : List Mark) (isMask : Bool) :
    ∃ entry bytes text, codeEntry? d stop position isMask marks = some entry ∧
      Shows d.memory position stop entry bytes text := by
  have hsize : d.memory.size < 2 ^ 32 := Nat.lt_of_le_of_lt (Nat.le_add_left _ _) hspans.top_lt
  unfold codeEntry?
  cases hread : (if isMask = true then d.maskAt position else d.decodeAt position) with
  -- What cannot be read, or reaches past the next mark, is shown as raw bytes.
  | error e => exact shows_rawEntry hspans hlt
  | ok decoded =>
      have hlies : decoded.LiesIn d.memory position := by
        cases isMask with
        | true => exact Disassembler.lies_of_maskAt hread
        | false => exact Disassembler.lies_of_decodeAt hsize hread
      by_cases hnext : decoded.nextAddress ≤ limit stop marks
      · have hle := shows_decoded hspans hlies hnext
        simp only [if_pos hnext]
        exact shows_entry hspans hlies.length_pos hle _ _
      · simp only [if_neg hnext]
        exact shows_rawEntry hspans hlt

theorem shows_tableEntry (hspans : Spans d.memory position stop) (hlt : position < stop)
    (marks : List Mark) (table : PendingTable) :
    ∃ entry bytes text, tableEntry? d stop position table marks = some entry ∧
      Shows d.memory position stop entry bytes text := by
  unfold tableEntry?
  cases hread : d.memory.readWord position with
  | error e => exact shows_rawEntry hspans hlt
  | ok word =>
      by_cases hnext : position + 2 ≤ limit stop marks
      · have hlies := Disassembler.lies_wordAt "" (Memory.offset_add_le_of_readWord hread)
        have hle := shows_decoded hspans hlies hnext
        simp only [if_pos hnext]
        exact shows_entry hspans hlies.length_pos hle _ _
      · simp only [if_neg hnext]
        exact shows_rawEntry hspans hlt

end Entry

/-! ## All entries -/

/-- The bytes of an entry with their address. -/
def extent? : Line → Option (UInt32 × List UInt8)
  | .code address bytes _ => some (address, bytes)
  | _ => none

/-- The entries lie one behind the other from an address on, each shows bytes
of the image, and the last ends at `stop`. -/
inductive Tiles (m : Memory) (stop : UInt32) : UInt32 → List (UInt32 × List UInt8) → Prop where
  | done : Tiles m stop stop []
  | entry {address : UInt32} {bytes : List UInt8} {rest : List (UInt32 × List UInt8)}
      (hbytes : bytes ≠ []) (hslice : m.slice address bytes.length = .ok bytes)
      (hle : address.toNat + bytes.length ≤ stop.toNat)
      (hrest : Tiles m stop (address + UInt32.ofNat bytes.length) rest) :
      Tiles m stop address ((address, bytes) :: rest)

theorem extent?_heading (marks : List Mark) :
    (marks.filterMap Mark.heading?).filterMap extent? = [] := by
  rw [List.filterMap_filterMap, List.filterMap_eq_nil_iff]
  intro mark _
  cases hkind : mark.kind <;> simp [Mark.heading?, hkind, extent?]

section Lines

variable {d : Disassembler} {stop : UInt32} {s : State}

theorem shows_advance (hspans : Spans d.memory s.position stop) (hlt : s.position < stop) :
    ∃ headings entry bytes text, advance d stop s = (headings ++ [entry.1], some entry.2) ∧
      headings.filterMap extent? = [] ∧
      Shows d.memory s.position stop entry bytes text := by
  unfold advance
  simp only
  generalize (s.marks.dropWhile fun mark => decide (mark.address < s.position)) = ahead
  generalize (ahead.dropWhile fun mark => mark.address == s.position) = marks
  cases s.table with
  | some table =>
      obtain ⟨entry, bytes, text, hentry, hshows⟩ := shows_tableEntry hspans hlt marks table
      simp only [hentry]
      exact ⟨_, entry, bytes, text, rfl, extent?_heading _, hshows⟩
  | none =>
      obtain ⟨entry, bytes, text, hentry, hshows⟩ := shows_codeEntry hspans hlt
        marks (d.entry == some s.position ||
          (ahead.takeWhile fun mark => mark.address == s.position).any Mark.isProcedure)
      simp only [hentry]
      exact ⟨_, entry, bytes, text, rfl, extent?_heading _, hshows⟩

theorem Shows.toNat_position {m : Memory} {position stop : UInt32} {entry : Line × State}
    {bytes : List UInt8} {text : String} (h : Shows m position stop entry bytes text) :
    entry.2.position.toNat = position.toNat + bytes.length := by
  have hle := h.le_stop
  have hstop := stop.toNat_lt
  rw [h.position_eq, UInt32.toNat_add, UInt32.toNat_ofNat']
  omega

theorem Shows.spans {m : Memory} {position stop : UInt32} {entry : Line × State}
    {bytes : List UInt8} {text : String} (h : Shows m position stop entry bytes text)
    (hspans : Spans m position stop) : Spans m entry.2.position stop := by
  have hnext := h.toNat_position
  have hbase := hspans.base_le
  exact ⟨by omega, by rw [hnext]; exact h.le_stop, hspans.stop_le, hspans.top_lt⟩

/-- With as many entries as there are bytes left, and one, the end is reached. -/
theorem tiles_linesFrom {entries : Nat} (hspans : Spans d.memory s.position stop)
    (hentries : stop.toNat - s.position.toNat < entries) :
    Tiles d.memory stop s.position ((linesFrom d stop entries s).filterMap extent?) := by
  -- `Spans` is the invariant: an entry takes up a byte or more and ends at `stop` at the latest.
  induction entries generalizing s with
  | zero => exact absurd hentries (Nat.not_lt_zero _)
  | succ entries ih =>
      rw [linesFrom]
      by_cases hdone : stop ≤ s.position
      · rw [if_pos hdone]
        have hstop : s.position = stop :=
          UInt32.le_antisymm (UInt32.le_iff_toNat_le.2 hspans.le_stop) hdone
        rw [hstop]
        exact .done
      · have hlt := UInt32.not_le.1 hdone
        obtain ⟨headings, entry, bytes, text, hadvance, hheadings, hshows⟩ :=
          shows_advance hspans hlt
        have hpos := List.length_pos_of_ne_nil hshows.bytes_ne_nil
        have hnext := hshows.toNat_position
        have hle := hshows.le_stop
        rw [if_neg hdone, hadvance]
        simp only [List.filterMap_append, hheadings, List.nil_append, hshows.line_eq,
          List.filterMap_cons, extent?, List.filterMap_nil, List.cons_append]
        apply Tiles.entry hshows.bytes_ne_nil hshows.slice_eq hle
        rw [← hshows.position_eq]
        exact ih (hshows.spans hspans) (by omega)

/-- More entries do not add lines. -/
theorem linesFrom_of_lt {entries more : Nat} (hspans : Spans d.memory s.position stop)
    (hentries : stop.toNat - s.position.toNat < entries)
    (hmore : stop.toNat - s.position.toNat < more) :
    linesFrom d stop entries s = linesFrom d stop more s := by
  induction entries generalizing s more with
  | zero => exact absurd hentries (Nat.not_lt_zero _)
  | succ entries ih =>
      cases more with
      | zero => exact absurd hmore (Nat.not_lt_zero _)
      | succ more =>
          rw [linesFrom, linesFrom]
          by_cases hdone : stop ≤ s.position
          · rw [if_pos hdone, if_pos hdone]
          · have hlt := UInt32.not_le.1 hdone
            obtain ⟨headings, entry, bytes, text, hadvance, -, hshows⟩ :=
              shows_advance hspans hlt
            have hpos := List.length_pos_of_ne_nil hshows.bytes_ne_nil
            have hnext := hshows.toNat_position
            have hle := hshows.le_stop
            rw [if_neg hdone, if_neg hdone, hadvance]
            have hrest : linesFrom d stop entries entry.2 = linesFrom d stop more entry.2 :=
              ih (hshows.spans hspans) (by omega) (by omega)
            simp only [hrest]

end Lines

/-! ## Bytes -/

theorem holds_of_tiles {m : Memory} {stop position : UInt32}
    {extents : List (UInt32 × List UInt8)} (h : Tiles m stop position extents) :
    m.Holds position (extents.map Prod.snd) ∧
      position.toNat + (extents.map Prod.snd).flatten.length = stop.toNat := by
  induction h with
  | done => exact ⟨trivial, rfl⟩
  | entry hbytes hslice hle hrest ih =>
      obtain ⟨hholds, hlength⟩ := ih
      have hstop := stop.toNat_lt
      rw [UInt32.toNat_add, UInt32.toNat_ofNat'] at hlength
      refine ⟨⟨hslice, hholds⟩, ?_⟩
      simp only [List.map_cons, List.flatten_cons, List.length_append]
      omega

theorem bytes_of_tiles {m : Memory} {stop position : UInt32}
    {extents : List (UInt32 × List UInt8)} (hspans : Spans m position stop)
    (h : Tiles m stop position extents) :
    (extents.map Prod.snd).flatten =
      m.bytesAt (m.offset position) (stop.toNat - position.toNat) := by
  obtain ⟨hholds, hlength⟩ := holds_of_tiles h
  have hoffset := hspans.offset_eq
  have hbase := hspans.base_le
  have hstop := hspans.stop_le
  have htop := hspans.top_lt
  have hslice := (Memory.holds_iff_slice (by omega) (by omega)).1 hholds
  have hbytes := (Memory.slice_eq_ok_iff.1 hslice).2
  have hcount : stop.toNat - position.toNat = (extents.map Prod.snd).flatten.length := by omega
  rw [hcount]
  exact hbytes

end Listing

open Listing

/-! ## Listings -/

theorem spans_of_inside {m : Memory} {start stop : UInt32}
    (htop : m.base.toNat + m.size < 2 ^ 32) (hlt : start < stop)
    (hinside : ∀ address, start ≤ address → address < stop → m.contains address 1 = true) :
    Spans m start stop := by
  have hstop := stop.toNat_lt
  have hlt' := UInt32.lt_iff_toNat_lt.1 hlt
  have hlast : (stop - 1).toNat = stop.toNat - 1 :=
    UInt32.toNat_sub_of_le _ _ (UInt32.le_iff_toNat_le.2 (by
      change 1 ≤ stop.toNat
      omega))
  -- The first and the last address are enough, because the image does not wrap.
  have hfirst := hinside start (UInt32.le_refl _) hlt
  have hfinal := hinside (stop - 1) (UInt32.le_iff_toNat_le.2 (by omega))
    (UInt32.lt_iff_toNat_lt.2 (by omega))
  simp only [Memory.contains, Memory.offset, decide_eq_true_eq, UInt32.toNat_sub,
    hlast] at hfirst hfinal
  exact ⟨by omega, by omega, by omega, htop⟩

theorem contains_ofBytes {base stop : UInt32} {bytes : List UInt8}
    (htop : base.toNat + bytes.length < 2 ^ 32) (hstop : stop.toNat ≤ base.toNat + bytes.length)
    (address : UInt32) (hlow : base ≤ address) (hhigh : address < stop) :
    (Memory.ofBytes base bytes).contains address 1 = true := by
  rw [UInt32.le_iff_toNat_le] at hlow
  rw [UInt32.lt_iff_toNat_lt] at hhigh
  simp only [Memory.contains, Memory.offset, Memory.ofBytes, UInt32.toNat_sub, decide_eq_true_eq]
  omega

theorem tiles_listing {d : Disassembler} {start stop : UInt32}
    (hspans : Spans d.memory start stop) :
    Tiles d.memory stop start ((d.listing start stop).filterMap extent?) := by
  have hbase := hspans.base_le
  have hstop := hspans.stop_le
  exact tiles_linesFrom (s := ⟨start, _, none⟩) hspans (by
    change stop.toNat - start.toNat < _
    omega)

theorem bytes_listing {d : Disassembler} {start stop : UInt32}
    (hspans : Spans d.memory start stop) :
    (((d.listing start stop).filterMap extent?).map Prod.snd).flatten =
      d.memory.bytesAt (d.memory.offset start) (stop.toNat - start.toNat) :=
  bytes_of_tiles hspans (tiles_listing hspans)

theorem linesFrom_eq_listing {d : Disassembler} {start stop : UInt32}
    (hspans : Spans d.memory start stop) {entries : Nat} (hentries : d.memory.size < entries) :
    linesFrom d stop entries ⟨start, d.symbols.symbols.map Mark.ofSymbol, none⟩ =
      d.listing start stop := by
  have hbase := hspans.base_le
  have hstop := hspans.stop_le
  have hleft : stop.toNat - start.toNat ≤ d.memory.size := by omega
  exact linesFrom_of_lt hspans (Nat.lt_of_le_of_lt hleft hentries) (Nat.lt_succ_of_le hleft)

theorem linesFrom_of_le {d : Disassembler} {stop : UInt32} {s : State} (h : stop ≤ s.position)
    (entries : Nat) : linesFrom d stop entries s = [] := by
  cases entries with
  | zero => rfl
  | succ entries => rw [linesFrom, if_pos h]

theorem spans_text (p : Program) (h : p.base.toNat + p.text.length < 2 ^ 32) :
    Spans p.disassembler.memory p.base p.textEnd := by
  have hend : p.textEnd.toNat = p.base.toNat + p.text.length := by
    rw [Program.textEnd, UInt32.toNat_add, UInt32.toNat_ofNat']
    omega
  exact ⟨Nat.le_refl _, by omega, Nat.le_of_eq hend, h⟩

theorem bytes_listing_text (p : Program) (h : p.base.toNat + p.text.length < 2 ^ 32) :
    ((p.listing.filterMap extent?).map Prod.snd).flatten = p.text := by
  have hspans := spans_text p h
  have hbytes := bytes_listing hspans
  have hend : p.textEnd.toNat - p.base.toNat = p.text.length := by
    rw [Program.textEnd, UInt32.toNat_add, UInt32.toNat_ofNat']
    omega
  have hoffset : p.disassembler.memory.offset p.base = 0 := by
    rw [hspans.offset_eq]
    exact Nat.sub_self _
  rw [hend, hoffset] at hbytes
  exact hbytes.trans (Memory.bytesAt_ofBytes p.base p.text)

/-- The entries of a listing fill its range without a gap, an overlap or a
change of order, and the listing ends by itself.  The entries of a whole
program hold its text segment. -/
theorem listing_partitions :
    (∀ (d : Disassembler) (start stop : UInt32),
        d.memory.base.toNat + d.memory.size < 2 ^ 32 → start ≤ stop →
        (∀ address, start ≤ address → address < stop →
          d.memory.contains address 1 = true) →
        Tiles d.memory stop start ((d.listing start stop).filterMap extent?) ∧
        (((d.listing start stop).filterMap extent?).map Prod.snd).flatten =
          d.memory.bytesAt (d.memory.offset start) (stop.toNat - start.toNat) ∧
        ∀ entries, d.memory.size < entries →
          linesFrom d stop entries ⟨start, d.symbols.symbols.map Mark.ofSymbol, none⟩ =
            d.listing start stop) ∧
    ∀ p : Program, p.base.toNat + p.text.length < 2 ^ 32 →
      ((p.listing.filterMap extent?).map Prod.snd).flatten = p.text := by
  refine ⟨?_, bytes_listing_text⟩
  intro d start stop htop horder hinside
  by_cases hlt : start < stop
  · have hspans := spans_of_inside htop hlt hinside
    exact ⟨tiles_listing hspans, bytes_listing hspans,
      fun entries hentries => linesFrom_eq_listing hspans hentries⟩
  · obtain rfl : start = stop := UInt32.le_antisymm horder (UInt32.not_lt.1 hlt)
    have hempty : ∀ entries,
        linesFrom d start entries ⟨start, d.symbols.symbols.map Mark.ofSymbol, none⟩ = [] :=
      linesFrom_of_le (UInt32.le_refl start)
    have hlisting : d.listing start start = [] := hempty _
    rw [hlisting, Nat.sub_self]
    exact ⟨.done, rfl, fun entries _ => hempty entries⟩

/-- Two instructions and a byte that is half of one. -/
theorem listing_partitions_mixed :
    let d : Disassembler := ⟨Memory.ofBytes 0x1000 [0x01, 0xd5, 0x51, 0xfe], .empty, none⟩
    (d.listing 0x1000 0x1004).filterMap extent? =
        [(0x1000, [0x01]), (0x1001, [0xd5, 0x51]), (0x1003, [0xfe])] ∧
      Tiles d.memory 0x1004 0x1000 ((d.listing 0x1000 0x1004).filterMap extent?) := by
  intro d
  have htop : d.memory.base.toNat + d.memory.size < 2 ^ 32 := by decide +kernel
  have hinside : ∀ address, (0x1000 : UInt32) ≤ address → address < 0x1004 →
      d.memory.contains address 1 = true := contains_ofBytes (by decide +kernel) (by decide +kernel)
  refine ⟨by decide +kernel, ?_⟩
  exact (listing_partitions.1 d 0x1000 0x1004 htop (by decide) hinside).1

end Vax
