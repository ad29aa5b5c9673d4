import Mathlib.Algebra.Order.Floor.Div
import Vax.ByteOrder
import Vax.Proofs.Text.Digits
import Vax.Text.Row
/-!
# Listing entries are read back

`EntryShows` says what stands in each column of the rows of an entry.  Every
entry is laid out so, and rows laid out so are read back: the address from the
first row, the bytes from all rows, and the text from its column on.
-/

namespace Vax.Text

/-! ## The layout -/

/-- The three columns of a byte: a blank and two digits. -/
def byteColumns (byte : UInt8) : List Char :=
  ' ' :: hexDigits 2 byte.toNat

/-- The columns of a row: the address of its first byte in eight digits, a
colon, and each byte in three columns. -/
structure RowShows (row : List Char) (address : Nat) (bytes : List UInt8) : Prop where
  address : row.take 8 = hexDigits 8 address
  colon : row[8]? = some ':'
  byte : ∀ (i : Nat) (hi : i < bytes.length),
    (row.drop (9 + 3 * i)).take 3 = byteColumns bytes[i]

/-- The rows of an entry.  Row `k` shows the bytes from `8 * k` on, at most
eight.  The first is blank from its last byte to the text in column 35; every
other ends with its last byte. -/
structure EntryShows (rows : List (List Char)) (address : UInt32) (bytes : List UInt8)
    (text : String) : Prop where
  count : rows.length = max 1 (bytes.length ⌈/⌉ 8)
  shows : ∀ (k : Nat) (row : List Char), rows[k]? = some row →
    RowShows row ((address.toNat + 8 * k) % 2 ^ 32)
      (bytes.extract (8 * k) (min (8 * k + 8) bytes.length))
  blank : ∀ row : List Char, rows[0]? = some row →
    ∀ c, 9 + 3 * min 8 bytes.length ≤ c → c < 35 → row[c]? = some ' '
  text : ∀ row : List Char, rows[0]? = some row → row.drop 35 = text.toList
  ends : ∀ (k : Nat) (row : List Char), k ≠ 0 → rows[k]? = some row →
    row.length = 9 + 3 * (min (8 * k + 8) bytes.length - 8 * k)

/-! ## Writing a row -/

theorem toList_row (address : UInt32) (bytes : List UInt8) :
    (row address bytes).toList =
      hexDigits 8 address.toNat ++ ':' :: bytes.flatMap byteColumns := by
  have hbyte (byte : UInt8) : (" " ++ hexByte byte).toList = byteColumns byte := by
    rw [String.toList_append, toList_hexByte]
    rfl
  simp only [row, String.toList_append, String.toList_join, toList_hexLong, List.flatMap_map, hbyte,
    List.append_assoc]
  rfl

theorem length_flatMap_byteColumns (bytes : List UInt8) :
    (bytes.flatMap byteColumns).length = 3 * bytes.length := by
  induction bytes with
  | nil => rfl
  | cons byte bytes ih =>
    rw [List.flatMap_cons, List.length_append, ih, byteColumns, List.length_cons, length_hexDigits,
      List.length_cons]
    omega

theorem length_row (address : UInt32) (bytes : List UInt8) :
    (row address bytes).toList.length = 9 + 3 * bytes.length := by
  rw [toList_row, List.length_append, List.length_cons, length_hexDigits,
    length_flatMap_byteColumns]
  omega

theorem newline_notMem_byteColumns (byte : UInt8) : '\n' ∉ byteColumns byte := by
  rw [byteColumns, List.mem_cons]
  rintro (hblank | hdigit)
  · exact absurd hblank (by decide)
  · exact newline_notMem_hexDigits _ _ hdigit

theorem newline_notMem_row (address : UInt32) (bytes : List UInt8) :
    '\n' ∉ (row address bytes).toList := by
  rw [toList_row, List.mem_append, List.mem_cons, List.mem_flatMap]
  rintro (haddress | hcolon | ⟨byte, -, hbyte⟩)
  · exact newline_notMem_hexDigits _ _ haddress
  · exact absurd hcolon (by decide)
  · exact newline_notMem_byteColumns byte hbyte

theorem take_drop_flatMap_byteColumns (bytes : List UInt8) (rest : List Char) {i : Nat}
    (hi : i < bytes.length) :
    ((bytes.flatMap byteColumns ++ rest).drop (3 * i)).take 3 = byteColumns bytes[i] := by
  induction bytes generalizing i with
  | nil => exact absurd hi (Nat.not_lt_zero i)
  | cons byte bytes ih =>
    cases i with
    | zero => rfl
    | succ i => exact ih (Nat.lt_of_succ_lt_succ hi)

/-- A row shows its address and its bytes, whatever follows it. -/
theorem rowShows_row (address : UInt32) (bytes : List UInt8) (rest : List Char) :
    RowShows ((row address bytes).toList ++ rest) address.toNat bytes := by
  rw [toList_row, List.append_assoc, List.cons_append]
  refine ⟨List.take_left' (length_hexDigits 8 _), ?_, fun i hi => ?_⟩
  · rw [List.getElem?_append_right (by rw [length_hexDigits]), length_hexDigits]
    rfl
  · have hhead : (hexDigits 8 address.toNat ++ [':']).length = 9 := by simp
    rw [List.append_cons, ← hhead, List.drop_length_add_append]
    exact take_drop_flatMap_byteColumns bytes rest hi

/-! ## Writing an entry -/

theorem toNat_rowAddress (address : UInt32) (k : Nat) :
    (rowAddress address k).toNat = (address.toNat + 8 * k) % 2 ^ 32 := by
  rw [rowAddress, rowLength, UInt32.toNat_add, UInt32.toNat_ofNat', Nat.add_mod_mod]

theorem rowAddress_zero (address : UInt32) : rowAddress address 0 = address := by
  apply UInt32.toNat_inj.1
  rw [toNat_rowAddress, Nat.mul_zero, Nat.add_zero, Nat.mod_eq_of_lt address.toNat_lt]

theorem length_rowBytes (bytes : List UInt8) (k : Nat) :
    (rowBytes bytes k).length = min 8 (bytes.length - 8 * k) := by
  rw [rowBytes, rowLength, List.length_take, List.length_drop]

theorem extract_eq_rowBytes (bytes : List UInt8) (k : Nat) :
    bytes.extract (8 * k) (min (8 * k + 8) bytes.length) = rowBytes bytes k := by
  rw [List.extract_eq_take_drop, rowBytes, rowLength, List.take_eq_take_iff, List.length_drop]
  omega

theorem rowCount_eq (bytes : List UInt8) : rowCount bytes = max 1 (bytes.length ⌈/⌉ 8) := by
  rw [rowCount, rowLength, Nat.ceilDiv_eq_add_pred_div]
  rfl

theorem length_entryRows (address : UInt32) (bytes : List UInt8) (text : String) :
    (entryRows address bytes text).length = rowCount bytes := by
  rw [entryRows, List.length_cons, List.length_map, List.length_range]
  exact Nat.sub_add_cancel (Nat.le_max_left ..)

theorem toList_padRight (width : Nat) (text : String) :
    (padRight width text).toList =
      text.toList ++ List.replicate (width - text.toList.length) ' ' := by
  rw [padRight, String.toList_append, String.toList_ofList, String.length_toList]

/-- The blanks between the bytes of the first row and its text. -/
def gap (bytes : List UInt8) : List Char :=
  List.replicate (35 - (9 + 3 * min 8 bytes.length)) ' '

theorem length_gap (bytes : List UInt8) :
    (gap bytes).length = 35 - (9 + 3 * min 8 bytes.length) :=
  List.length_replicate

theorem length_firstBytes (address : UInt32) (bytes : List UInt8) :
    (row address (rowBytes bytes 0)).toList.length = 9 + 3 * min 8 bytes.length := by
  rw [length_row, length_rowBytes, Nat.mul_zero, Nat.sub_zero]

/-- The characters of the first row. -/
theorem toList_firstRow {address : UInt32} {bytes : List UInt8} {text first : String}
    (h : (entryRows address bytes text)[0]? = some first) :
    first.toList = (row address (rowBytes bytes 0)).toList ++ (gap bytes ++ text.toList) := by
  rw [entryRows, List.getElem?_cons_zero, Option.some.injEq] at h
  rw [← h, String.toList_append, toList_padRight, length_row, length_rowBytes, List.append_assoc]
  rfl

/-- A later row is nothing but its address and its bytes. -/
theorem eq_row_of_getElem? {address : UInt32} {bytes : List UInt8} {text line : String} {k : Nat}
    (hk : k ≠ 0) (h : (entryRows address bytes text)[k]? = some line) :
    line = row (rowAddress address k) (rowBytes bytes k) := by
  obtain ⟨k, rfl⟩ := Nat.exists_eq_succ_of_ne_zero hk
  rw [entryRows, List.getElem?_cons_succ, List.getElem?_map] at h
  obtain ⟨j, hj, rfl⟩ := Option.map_eq_some_iff.1 h
  obtain ⟨-, rfl⟩ := List.getElem?_eq_some_iff.1 hj
  rw [List.getElem_range]

/-- Every row begins with its address and its bytes. -/
theorem exists_toList_eq {address : UInt32} {bytes : List UInt8} {text line : String} {k : Nat}
    (h : (entryRows address bytes text)[k]? = some line) :
    ∃ rest, line.toList = (row (rowAddress address k) (rowBytes bytes k)).toList ++ rest := by
  by_cases hk : k = 0
  · subst hk
    rw [rowAddress_zero]
    exact ⟨_, toList_firstRow h⟩
  · exact ⟨[], by rw [eq_row_of_getElem? hk h, List.append_nil]⟩

/-- Only the text could break a row. -/
theorem newline_notMem_entryRows {address : UInt32} {bytes : List UInt8} {text line : String}
    (htext : '\n' ∉ text.toList) (hline : line ∈ entryRows address bytes text) :
    '\n' ∉ line.toList := by
  obtain ⟨k, hk⟩ := List.mem_iff_getElem?.1 hline
  by_cases hzero : k = 0
  · subst hzero
    rw [toList_firstRow hk, List.mem_append, List.mem_append]
    rintro (hrow | hgap | htail)
    · exact newline_notMem_row _ _ hrow
    · exact absurd (List.eq_of_mem_replicate hgap) (by decide)
    · exact htext htail
  · rw [eq_row_of_getElem? hzero hk]
    exact newline_notMem_row _ _

theorem splitOn_entry (address : UInt32) (bytes : List UInt8) {text : String}
    (htext : '\n' ∉ text.toList) :
    (entry address bytes text).toList.splitOn '\n' =
      (entryRows address bytes text).map String.toList := by
  rw [entry, String.toList_intercalate]
  refine List.splitOn_intercalate '\n' (fun row hrow => ?_) (List.cons_ne_nil _ _)
  obtain ⟨line, hline, rfl⟩ := List.mem_map.1 hrow
  exact newline_notMem_entryRows htext hline

theorem exists_entryRow {address : UInt32} {bytes : List UInt8} {text : String} {k : Nat}
    {row : List Char} (h : ((entryRows address bytes text).map String.toList)[k]? = some row) :
    ∃ line, (entryRows address bytes text)[k]? = some line ∧ line.toList = row := by
  rwa [List.getElem?_map, Option.map_eq_some_iff] at h

theorem entryShows_entryRows (address : UInt32) (bytes : List UInt8) (text : String) :
    EntryShows ((entryRows address bytes text).map String.toList) address bytes text where
  count := by rw [List.length_map, length_entryRows, rowCount_eq]
  shows k row h := by
    obtain ⟨line, hline, rfl⟩ := exists_entryRow h
    obtain ⟨rest, hrest⟩ := exists_toList_eq hline
    rw [hrest, extract_eq_rowBytes, ← toNat_rowAddress]
    exact rowShows_row _ _ rest
  blank row h c hlow hhigh := by
    obtain ⟨line, hline, rfl⟩ := exists_entryRow h
    have hbytes := length_firstBytes address bytes
    have hgap := length_gap bytes
    rw [toList_firstRow hline, List.getElem?_append_right (by omega),
      List.getElem?_append_left (by omega), gap, List.getElem?_replicate_of_lt (by omega)]
  text row h := by
    obtain ⟨line, hline, rfl⟩ := exists_entryRow h
    rw [toList_firstRow hline, ← List.append_assoc]
    refine List.drop_left' ?_
    rw [List.length_append, length_firstBytes, length_gap]
    omega
  ends k row hk h := by
    obtain ⟨line, hline, rfl⟩ := exists_entryRow h
    rw [eq_row_of_getElem? hk hline, length_row, length_rowBytes]
    omega

/-! ## Reading a row -/

/-- The byte in the `i`-th group of columns of a row, if one is shown there. -/
def byteAt? (row : List Char) (i : Nat) : Option UInt8 :=
  match (row.drop (9 + 3 * i)).take 3 with
  | [' ', high, low] => (Options.digitsValue? 16 [high, low]).map UInt8.ofNat
  | _ => none

/-- The bytes that a row shows. -/
def shownBytes (row : List Char) : List UInt8 :=
  (List.range 8).filterMap (byteAt? row)

theorem byteAt?_of_lt {row : List Char} {address : Nat} {bytes : List UInt8}
    (hshows : RowShows row address bytes) {i : Nat} (hi : i < bytes.length) :
    byteAt? row i = some bytes[i] := by
  have hdigits : Options.digitsValue? 16 (hexDigits 2 bytes[i].toNat) = some bytes[i].toNat :=
    digitsValue?_hexDigits bytes[i].toNat_lt
  rw [hexDigits_two] at hdigits
  simp only [byteAt?, hshows.byte i hi, byteColumns, hexDigits_two, hdigits, Option.map_some,
    UInt8.ofNat_toNat]

theorem byteAt?_eq_none_of_blank {row : List Char} {i : Nat}
    (hrow : ∀ c, 9 + 3 * i ≤ c → c < 12 + 3 * i → row[c]? = some ' ') : byteAt? row i = none := by
  have hblank : (row.drop (9 + 3 * i)).take 3 = List.replicate 3 ' ' := by
    refine List.ext_getElem? fun j => ?_
    by_cases hj : j < 3
    · rw [List.getElem?_take_of_lt hj, List.getElem?_drop, hrow _ (by omega) (by omega),
        List.getElem?_replicate_of_lt hj]
    · rw [List.getElem?_eq_none (by rw [List.length_take]; omega),
        List.getElem?_eq_none (by rw [List.length_replicate]; omega)]
  rw [byteAt?, hblank]
  rfl

theorem byteAt?_eq_none_of_end {row : List Char} {i : Nat} (hrow : row.length ≤ 9 + 3 * i) :
    byteAt? row i = none := by
  rw [byteAt?, List.drop_eq_nil_of_le hrow]
  rfl

theorem filterMap_range_eq_take {read : Nat → Option UInt8} {bytes : List UInt8} (count : Nat)
    (hread : ∀ i < count, read i = bytes[i]?) :
    (List.range count).filterMap read = bytes.take count := by
  induction count with
  | zero => rfl
  | succ count ih =>
    rw [List.range_succ, List.filterMap_append, ih fun i hi => hread i (Nat.lt_succ_of_lt hi),
      List.take_add_one, ← hread count (Nat.lt_succ_self count)]
    cases hlast : read count <;> simp [hlast]

/-! ## Reading an entry -/

variable {rows : List (List Char)} {address : UInt32} {bytes : List UInt8} {text : String}

/-- A row is read up to its last byte: neither blanks nor text pass for more. -/
theorem EntryShows.byteAt?_eq (hshows : EntryShows rows address bytes text) {k : Nat}
    {row : List Char} (hrow : rows[k]? = some row) {i : Nat} (hi : i < 8) :
    byteAt? row i = (rowBytes bytes k)[i]? := by
  have hline := hshows.shows k row hrow
  rw [extract_eq_rowBytes] at hline
  by_cases hlt : i < (rowBytes bytes k).length
  · rw [byteAt?_of_lt hline hlt, List.getElem?_eq_getElem hlt]
  · rw [List.getElem?_eq_none (Nat.le_of_not_lt hlt)]
    rw [length_rowBytes] at hlt
    -- Behind its last byte the first row is blank, and any other is over.
    by_cases hk : k = 0
    · subst hk
      exact byteAt?_eq_none_of_blank fun c hlow hhigh =>
        hshows.blank row hrow c (by omega) (by omega)
    · refine byteAt?_eq_none_of_end ?_
      rw [hshows.ends k row hk hrow]
      omega

theorem EntryShows.shownBytes_eq (hshows : EntryShows rows address bytes text) {k : Nat}
    {row : List Char} (hrow : rows[k]? = some row) : shownBytes row = rowBytes bytes k := by
  rw [shownBytes, filterMap_range_eq_take 8 fun i hi => hshows.byteAt?_eq hrow hi]
  exact List.take_of_length_le (by rw [length_rowBytes]; exact Nat.min_le_left ..)

/-- Rows of eight bytes, one after the other, cover the bytes without a gap. -/
theorem flatMap_rowBytes (bytes : List UInt8) (count : Nat) :
    (List.range count).flatMap (rowBytes bytes) = bytes.take (8 * count) := by
  induction count with
  | zero => rfl
  | succ count ih =>
    rw [List.range_succ, List.flatMap_append, ih, List.flatMap_singleton, rowBytes, rowLength,
      Nat.mul_succ, List.take_add]

theorem EntryShows.flatMap_shownBytes (hshows : EntryShows rows address bytes text) :
    rows.flatMap shownBytes = bytes := by
  have hmap : rows.map shownBytes = (List.range rows.length).map (rowBytes bytes) := by
    refine List.ext_getElem (by simp) fun k hk _ => ?_
    rw [List.length_map] at hk
    rw [List.getElem_map, List.getElem_map, List.getElem_range,
      hshows.shownBytes_eq (List.getElem?_eq_getElem hk)]
  rw [List.flatMap_def, hmap, ← List.flatMap_def, flatMap_rowBytes]
  refine List.take_of_length_le ?_
  rw [hshows.count, Nat.ceilDiv_eq_add_pred_div]
  omega

/-- Reads the rows of an entry: its address, its bytes, and its text. -/
def readRows? (rows : List (List Char)) : Option (UInt32 × List UInt8 × String) := do
  let first ← rows.head?
  let address ← Options.digitsValue? 16 (first.take 8)
  return (UInt32.ofNat address, rows.flatMap shownBytes, String.ofList (first.drop textColumn))

def readEntry? (entry : String) : Option (UInt32 × List UInt8 × String) :=
  readRows? (entry.toList.splitOn '\n')

/-- Whatever is laid out as an entry is read as that entry. -/
theorem EntryShows.readRows?_eq (hshows : EntryShows rows address bytes text) :
    readRows? rows = some (address, bytes, text) := by
  cases rows with
  | nil => exact absurd hshows.count.symm (Nat.ne_of_gt (Nat.le_max_left ..))
  | cons first later =>
    have haddress : first.take 8 = hexDigits 8 address.toNat := by
      rw [(hshows.shows 0 first rfl).address, Nat.mul_zero, Nat.add_zero,
        Nat.mod_eq_of_lt address.toNat_lt]
    have hvalue : Options.digitsValue? 16 (hexDigits 8 address.toNat) = some address.toNat :=
      digitsValue?_hexDigits address.toNat_lt
    have htext : first.drop textColumn = text.toList := hshows.text first rfl
    rw [readRows?, List.head?_cons, hshows.flatMap_shownBytes, Option.bind_eq_bind,
      Option.bind_some, haddress, hvalue, htext]
    simp

theorem EntryShows.unique {address' : UInt32} {bytes' : List UInt8} {text' : String}
    (hshows : EntryShows rows address bytes text)
    (hshows' : EntryShows rows address' bytes' text') :
    address' = address ∧ bytes' = bytes ∧ text' = text := by
  have heq := hshows'.readRows?_eq
  rw [hshows.readRows?_eq] at heq
  simpa [eq_comm] using heq

theorem entryShows_entry (address : UInt32) (bytes : List UInt8) {text : String}
    (htext : '\n' ∉ text.toList) :
    EntryShows ((entry address bytes text).toList.splitOn '\n') address bytes text := by
  rw [splitOn_entry address bytes htext]
  exact entryShows_entryRows address bytes text

/-- An entry whose text keeps to one line is laid out in rows of eight bytes
with the text in column 35, reads back as the address, the bytes and the text
that it was made of, and is the entry of nothing else. -/
theorem entry_reads_back (address : UInt32) (bytes : List UInt8) (text : String)
    (htext : '\n' ∉ text.toList) :
    EntryShows ((entry address bytes text).toList.splitOn '\n') address bytes text ∧
      readEntry? (entry address bytes text) = some (address, bytes, text) ∧
      ∀ (address' : UInt32) (bytes' : List UInt8) (text' : String), '\n' ∉ text'.toList →
        entry address' bytes' text' = entry address bytes text →
        address' = address ∧ bytes' = bytes ∧ text' = text := by
  have hshows := entryShows_entry address bytes htext
  refine ⟨hshows, hshows.readRows?_eq, fun address' bytes' text' htext' heq => ?_⟩
  have hshows' := entryShows_entry address' bytes' htext'
  rw [heq] at hshows'
  exact hshows.unique hshows'

/-- Eleven bytes across the end of the address space. -/
theorem entry_reads_back_wrapping :
    let bytes : List UInt8 := [0, 1, 2, 3, 4, 5, 6, 7, 8, 9, 10]
    let text := "movc3 $3,r1,r2"
    let shown := "fffffffc: 00 01 02 03 04 05 06 07  movc3 $3,r1,r2\n00000004: 08 09 0a"
    '\n' ∉ text.toList ∧ entry 0xfffffffc bytes text = shown ∧
      EntryShows (shown.toList.splitOn '\n') 0xfffffffc bytes text ∧
      readEntry? shown = some (0xfffffffc, bytes, text) ∧
      ∀ (address' : UInt32) (bytes' : List UInt8) (text' : String), '\n' ∉ text'.toList →
        entry address' bytes' text' = shown →
        address' = 0xfffffffc ∧ bytes' = bytes ∧ text' = text := by
  intro bytes text shown
  have htext : '\n' ∉ text.toList := by decide +kernel
  have hentry : entry 0xfffffffc bytes text = shown := by decide +kernel
  have hback := entry_reads_back 0xfffffffc bytes text htext
  rw [hentry] at hback
  exact ⟨htext, hentry, hback⟩

-- A text with a line end can pass for a row of bytes.
example :
    entry 0 (List.replicate 8 0) "halt\n00000008: 00" = entry 0 (List.replicate 9 0) "halt" := by
  decide +kernel

end Vax.Text
