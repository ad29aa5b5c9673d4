import Vax.Proofs.Program.Records
import Vax.Proofs.Program.Segments
/-!
# Writing a program and reading it back

The file that is written for a program has no relocations and no symbol that
was left out, and its symbols are in the order of the table.  Reading it gives
the program with a header that says so, and writing that gives the same file.
-/

namespace Vax

/-! ## The header -/

namespace Header

theorem length_toBytes (h : Header) : h.toBytes.length = length :=
  rfl

theorem ofBytes_toBytes (h : Header) : ofBytes h.toBytes = h := by
  let stored (word : UInt32) : UInt32 :=
    UInt32.ofNat (LittleEndian.ofBytes (LittleEndian.toBytes 4 word.toNat))
  have hstored : ∀ word, stored word = word := by
    intro word
    simp only [stored]
    rw [LittleEndian.ofBytes_toBytes_of_lt word.toNat_lt, UInt32.ofNat_toNat]
  calc ofBytes h.toBytes
      = ⟨stored h.magic, stored h.text, stored h.data, stored h.bss, stored h.syms,
          stored h.entry, stored h.trsize, stored h.drsize⟩ := rfl
    _ = h := by simp only [hstored]

end Header

namespace Program

variable {file text data table : List UInt8} {h : Header} {p : Program}

/-! ## The segments -/

theorem bytesFrom_append {front back bytes : List UInt8} {start length : Nat}
    (hstart : front.length = start) (hlength : bytes.length = length) :
    bytesFrom (front ++ bytes ++ back) start length = bytes := by
  rw [bytesFrom, List.append_assoc, List.drop_left' hstart, List.take_left' hlength]

/-- A file made of segments that are as long as the header says is read as
these. -/
theorem ofFile_toBytes_append (hmagic : h.magic = Header.executableMagic)
    (htext : text.length = h.text.toNat) (hdata : data.length = h.data.toNat)
    (hrelocations : relocationsLength h = 0) (htable : table.length = h.syms.toNat) :
    ofFile (h.toBytes ++ text ++ data ++ table) =
      .ok ⟨some h, text, data, SymbolTable.ofBytes h.base table⟩ := by
  have hlength : (h.toBytes ++ text ++ data ++ table).length =
      Header.length + h.text.toNat + h.data.toNat + h.syms.toNat := by
    simp only [List.length_append, h.length_toBytes, htext, hdata, htable]
  have hheader : executableHeader? (h.toBytes ++ text ++ data ++ table) = some h := by
    rw [executableHeader?_eq_some_iff, List.append_assoc, List.append_assoc,
      List.take_left' h.length_toBytes]
    refine ⟨?_, h.ofBytes_toBytes, hmagic⟩
    rw [List.length_append]
    exact Nat.le_add_right _ _
  have hread :
      bytesFrom (h.toBytes ++ text ++ data ++ table) Header.length h.text.toNat = text := by
    rw [List.append_assoc]
    exact bytesFrom_append h.length_toBytes htext
  have hread' : bytesFrom (h.toBytes ++ text ++ data ++ table) (Header.length + h.text.toNat)
      h.data.toNat = data :=
    bytesFrom_append (by rw [List.length_append, h.length_toBytes, htext]) hdata
  have hread'' : bytesFrom (h.toBytes ++ text ++ data ++ table)
      (Header.length + h.text.toNat + h.data.toNat + relocationsLength h) h.syms.toNat = table := by
    rw [← List.append_nil (_ ++ table)]
    refine bytesFrom_append ?_ htable
    simp only [List.length_append, h.length_toBytes, htext, hdata, hrelocations, Nat.add_zero]
  rw [ofFile_of_executableHeader? hheader, if_neg (by omega), if_neg (by omega), hread, hread',
    hread'']
  by_cases hsyms : h.syms = 0
  · have hnone : table = [] := by
      rw [hsyms] at htable
      exact List.eq_nil_of_length_eq_zero htable
    rw [if_pos hsyms, hnone, SymbolTable.ofBytes_nil]
  · rw [if_neg hsyms, if_neg (by omega), if_neg (by omega)]

/-! ## The symbols -/

/-- The symbol records of a file with a header, whole ones only. -/
def symbolRecords (h : Header) (file : List UInt8) : List (List UInt8) :=
  SymbolTable.records (h.syms.toNat / Symbol.recordLength)
    (bytesFrom file (Header.length + h.text.toNat + h.data.toNat + relocationsLength h)
      h.syms.toNat)

theorem symbols_of_ofFile (hfile : ofFile file = .ok p) (hheader : p.header = some h) :
    Symbol.recordLength * p.symbols.size ≤ h.syms.toNat ∧
      ∀ s ∈ p.symbols.symbols, s.isRetained = true ∧
        ∃ record ∈ symbolRecords h file, Symbol.ofRecord h.base record = s := by
  obtain ⟨-, -, hlong, -, -, hsymbols⟩ := eq_of_ofFile hfile hheader
  rw [hsymbols]
  by_cases hsyms : h.syms = 0
  · rw [if_pos hsyms]
    exact ⟨Nat.zero_le _, fun s hs => absurd hs List.not_mem_nil⟩
  · have hend := hlong hsyms
    have hlength : (bytesFrom file
        (Header.length + h.text.toNat + h.data.toNat + relocationsLength h)
        h.syms.toNat).length = h.syms.toNat := by
      rw [bytesFrom, List.length_take, List.length_drop]
      omega
    rw [if_neg hsyms]
    refine ⟨?_, fun s hs => ?_⟩
    · exact Nat.le_trans (SymbolTable.size_ofBytes_le _ _) (Nat.le_of_eq hlength)
    · have hmem := SymbolTable.mem_ofBytes.1 hs
      rwa [hlength] at hmem

theorem actualHeader_eq (htext : p.text.length = h.text.toNat)
    (hdata : p.data.length = h.data.toNat) :
    actualHeader h p =
      { h with
        syms := UInt32.ofNat (Symbol.recordLength * p.symbols.size)
        trsize := 0
        drsize := 0 } := by
  rw [actualHeader, htext, hdata, SymbolTable.length_toBytes, UInt32.ofNat_toNat,
    UInt32.ofNat_toNat]

theorem toFile_of_header (hheader : p.header = some h) :
    p.toFile = (actualHeader h p).toBytes ++ p.text ++ p.data ++ p.symbols.toBytes := by
  rw [toFile, hheader]

/-- A program whose sizes fit a header is read back from its file, with the
header that describes it. -/
theorem ofFile_toFile (hheader : p.header = some h) (hmagic : h.magic = Header.executableMagic)
    (htext : p.text.length < 2 ^ 32) (hdata : p.data.length < 2 ^ 32)
    (hlength : p.symbols.toBytes.length < 2 ^ 32)
    (hsymbols : SymbolTable.ofBytes h.base p.symbols.toBytes = p.symbols) :
    ofFile p.toFile = .ok { p with header := some (actualHeader h p) } := by
  have hfits : ∀ {n : Nat}, n < 2 ^ 32 → n = (UInt32.ofNat n).toNat := by
    intro n hn
    rw [UInt32.toNat_ofNat', Nat.mod_eq_of_lt hn]
  have hbase : (actualHeader h p).base = h.base := rfl
  rw [toFile_of_header hheader, ofFile_toBytes_append (h := actualHeader h p) hmagic (hfits htext)
    (hfits hdata) rfl (hfits hlength), hbase, hsymbols]

theorem toFile_of_header_none (hfile : ofFile file = .ok p) (hraw : p.header = none) :
    p.toFile = file := by
  cases hexecutable : executableHeader? file with
  | none =>
    rw [ofFile, hexecutable] at hfile
    obtain rfl := Except.ok.inj hfile
    rfl
  | some h =>
    have hheader : p.header = some h := by
      rw [ofFile_of_executableHeader? hexecutable] at hfile
      grind
    exact absurd (hheader.symm.trans hraw) (Option.some_ne_none h)

end Program

open Program

/-- An executable that was read, and whose retained symbols have names that
are text, is written and read back with the segments, the symbols and the
names that it had.  The header then counts the symbols that were retained and
no relocations, and the file that is written next is the same.  What was read
as text alone is written as it was. -/
theorem written_program_reads_back {file : List UInt8} {p : Program}
    (hfile : ofFile file = .ok p) :
    (∀ h, p.header = some h →
      (∀ record ∈ symbolRecords h file, (Symbol.ofRecord h.base record).isRetained = true →
        (Symbol.nameField record).toByteArray.IsValidUTF8) →
      16 * p.symbols.size < 2 ^ 32 ∧
      ∃ q, ofFile p.toFile = .ok q ∧ q.text = p.text ∧ q.data = p.data ∧
        q.symbols = p.symbols ∧
        (∀ address, q.symbols.nameAt? address = p.symbols.nameAt? address) ∧
        q.header = some
          { h with syms := UInt32.ofNat (16 * p.symbols.size), trsize := 0, drsize := 0 } ∧
        q.toFile = p.toFile) ∧
    (p.header = none → p.toFile = file) := by
  refine ⟨fun h hheader hnames => ?_, fun hraw => ?_⟩
  · obtain ⟨htext, hdata⟩ := lengths_of_ofFile hfile hheader
    obtain ⟨hsize, hsymbols⟩ := symbols_of_ofFile hfile hheader
    have hmagic := (executableHeader?_eq_some_iff.1 (eq_of_ofFile hfile hheader).1).2.2
    have hbound : 16 * p.symbols.size < 2 ^ 32 := Nat.lt_of_le_of_lt hsize h.syms.toNat_lt
    have hrecordable : ∀ s ∈ p.symbols.symbols, s.Recordable h.base := by
      intro s hs
      obtain ⟨hretained, record, hmem, rfl⟩ := hsymbols s hs
      exact Symbol.recordable_ofRecord (hnames record hmem hretained)
    have htable : SymbolTable.ofBytes h.base p.symbols.toBytes = p.symbols :=
      SymbolTable.ofBytes_toBytes hrecordable fun s hs => (hsymbols s hs).1
    have hread := ofFile_toFile hheader hmagic (htext ▸ h.text.toNat_lt)
      (hdata ▸ h.data.toNat_lt) (by rwa [SymbolTable.length_toBytes]) htable
    have hactual := actualHeader_eq htext hdata
    refine ⟨hbound, _, hread, rfl, rfl, rfl, fun _ => rfl, congrArg some hactual, ?_⟩
    rw [toFile_of_header hheader, toFile_of_header (h := actualHeader h p) rfl]
    rfl
  · exact toFile_of_header_none hfile hraw

/-- The file has relocations, symbols out of order, one that is not retained and
whose name is no text, and bytes left over behind its last record. -/
theorem written_program_reads_back_shorter :
    let h : Header :=
      { magic := 0x108, text := 2, data := 1, bss := 4, syms := 53, entry := 0, trsize := 8
        drsize := 0 }
    let record (first kind value : UInt8) : List UInt8 :=
      [first, 0, 0, 0, 0, 0, 0, 0, kind, 0, 0, 0, value, 0, 0, 0]
    let file := h.toBytes ++ [0xd5, 0x51] ++ [7] ++ List.replicate 8 0xaa ++ record 0x62 5 16 ++
      record 0xff 0 0 ++ record 0x61 7 4 ++ [1, 2, 3, 4, 5]
    ∃ p q, ofFile file = .ok p ∧ file.length = 96 ∧ p.toFile.length = 67 ∧
      ofFile p.toFile = .ok q ∧ q.symbols = p.symbols ∧
      q.header = some { h with syms := 32, trsize := 0 } ∧ q.toFile = p.toFile := by
  intro h record file
  have hheader : executableHeader? file = some h := by decide +kernel
  obtain ⟨p, hfile, hp, hsize⟩ : ∃ p, ofFile file = .ok p ∧ p.header = some h ∧
      p.symbols.size = 2 := by
    rw [ofFile_of_executableHeader? hheader, if_neg (by decide), if_neg (by decide),
      if_neg (by decide), if_neg (by decide), if_neg (by decide)]
    refine ⟨_, rfl, rfl, ?_⟩
    rw [SymbolTable.size, SymbolTable.ofBytes, SymbolTable.ofList, List.length_mergeSort]
    decide +kernel
  have hnames : ∀ record ∈ symbolRecords h file,
      (Symbol.ofRecord h.base record).isRetained = true →
        (Symbol.nameField record).toByteArray.IsValidUTF8 := by
    decide +kernel
  obtain ⟨htext, hdata⟩ := lengths_of_ofFile hfile hp
  have hlength : p.toFile.length = 67 := by
    rw [toFile_of_header hp, List.length_append, List.length_append, List.length_append,
      Header.length_toBytes, htext, hdata, SymbolTable.length_toBytes, hsize]
    rfl
  obtain ⟨-, q, hread, -, -, hsymbols, -, hq, hsame⟩ :=
    (written_program_reads_back hfile).1 h hp hnames
  rw [hsize] at hq
  exact ⟨p, q, hfile, by decide, hlength, hread, hsymbols, hq, hsame⟩

end Vax
