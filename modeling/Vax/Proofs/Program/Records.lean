import Vax.Program.SymbolTable
import Vax.Proofs.Text.Utf8
/-!
# Symbols survive their records

A symbol that was read from a record is read back from the record that is
written for it, as long as its name is text, and a table of such symbols is
read back from its records.
-/

namespace Vax

theorem LittleEndian.ofBytes_toBytes_of_lt {count n : Nat} (h : n < 256 ^ count) :
    ofBytes (toBytes count n) = n := by
  rw [ofBytes_toBytes, Nat.mod_eq_of_lt h]

namespace Symbol

/-- The bytes of the name in a record, up to the first zero. -/
def nameField (record : List UInt8) : List UInt8 :=
  (record.take nameLength).takeWhile (· != 0)

/-- What a record can hold of a program loaded at `base`. -/
structure Recordable (base : UInt32) (s : Symbol) : Prop where
  name_length : (Utf8.encode s.name).length ≤ nameLength
  name_ne_zero : ∀ byte ∈ Utf8.encode s.name, byte ≠ 0
  address : s.address = base ||| (s.value &&& 0x7fffffff)

theorem recordable_ofRecord {base : UInt32} {record : List UInt8}
    (h : (nameField record).toByteArray.IsValidUTF8) : (ofRecord base record).Recordable base := by
  have hname : Utf8.encode (ofRecord base record).name = nameField record := Utf8.encode_decode h
  refine ⟨?_, ?_, rfl⟩
  · rw [hname]
    have hwhile := (List.takeWhile_sublist (l := record.take nameLength) (· != 0)).length_le
    exact Nat.le_trans hwhile (List.length_take_le _ _)
  · intro byte hmem
    rw [hname] at hmem
    exact bne_iff_ne.1 (List.all_eq_true.1 List.all_takeWhile byte hmem)

/-- The name field of the record that is written for a symbol. -/
def paddedName (s : Symbol) : List UInt8 :=
  let name := (Utf8.encode s.name).take nameLength
  name ++ List.replicate (nameLength - name.length) 0

theorem length_paddedName (s : Symbol) : s.paddedName.length = nameLength := by
  have hname : ((Utf8.encode s.name).take nameLength).length ≤ nameLength :=
    List.length_take_le _ _
  rw [paddedName, List.length_append, List.length_replicate]
  omega

/-- The numbers behind the name. -/
def numbers (s : Symbol) : List UInt8 :=
  [s.kind, s.other] ++ LittleEndian.toBytes 2 s.desc.toNat ++ LittleEndian.toBytes 4 s.value.toNat

theorem toRecord_eq (s : Symbol) : s.toRecord = s.paddedName ++ s.numbers := by
  rw [numbers, ← List.append_assoc, ← List.append_assoc]
  rfl

theorem length_toRecord (s : Symbol) : s.toRecord.length = recordLength := by
  rw [toRecord_eq, List.length_append, length_paddedName]
  rfl

theorem take_nameLength_toRecord (s : Symbol) : s.toRecord.take nameLength = s.paddedName := by
  rw [toRecord_eq, List.take_left' s.length_paddedName]

theorem drop_toRecord (s : Symbol) (n : Nat) :
    s.toRecord.drop (nameLength + n) = s.numbers.drop n := by
  rw [toRecord_eq, ← List.drop_drop, List.drop_left' s.length_paddedName]

theorem nameField_toRecord {base : UInt32} {s : Symbol} (h : s.Recordable base) :
    nameField s.toRecord = Utf8.encode s.name := by
  rw [nameField, take_nameLength_toRecord, paddedName, List.take_of_length_le h.name_length,
    List.takeWhile_append_of_pos fun byte hmem => bne_iff_ne.2 (h.name_ne_zero byte hmem)]
  cases nameLength - (Utf8.encode s.name).length with
  | zero => exact List.append_nil _
  | succ n => exact List.append_nil _

/-- What a record can hold is read back from it. -/
theorem ofRecord_toRecord {base : UInt32} {s : Symbol} (h : s.Recordable base) :
    ofRecord base s.toRecord = s := by
  have hname : Utf8.decode ((s.toRecord.take nameLength).takeWhile (· != 0)) = s.name := by
    rw [← nameField, nameField_toRecord h, Utf8.decode_encode]
  have hkind : (s.toRecord.drop 8).take 1 = [s.kind] :=
    congrArg (List.take 1) (s.drop_toRecord 0)
  have hother : (s.toRecord.drop 9).take 1 = [s.other] :=
    congrArg (List.take 1) (s.drop_toRecord 1)
  have hdesc : (s.toRecord.drop 10).take 2 = LittleEndian.toBytes 2 s.desc.toNat :=
    congrArg (List.take 2) (s.drop_toRecord 2)
  have hvalue : (s.toRecord.drop 12).take 4 = LittleEndian.toBytes 4 s.value.toNat :=
    congrArg (List.take 4) (s.drop_toRecord 4)
  have hbyte : ∀ byte : UInt8, UInt8.ofNat (LittleEndian.ofBytes [byte]) = byte :=
    fun byte => UInt8.ofNat_toNat
  unfold ofRecord
  dsimp only
  rw [hname, hkind, hother, hdesc, hvalue, hbyte, hbyte,
    LittleEndian.ofBytes_toBytes_of_lt s.desc.toNat_lt,
    LittleEndian.ofBytes_toBytes_of_lt s.value.toNat_lt, UInt16.ofNat_toNat, UInt32.ofNat_toNat,
    ← h.address]

end Symbol

namespace SymbolTable

variable {base : UInt32} {symbols : List Symbol} {table : SymbolTable}

theorem length_flatMap_toRecord (symbols : List Symbol) :
    (symbols.flatMap Symbol.toRecord).length = symbols.length * Symbol.recordLength := by
  induction symbols with
  | nil => rfl
  | cons s rest ih =>
    rw [List.flatMap_cons, List.length_append, ih, Symbol.length_toRecord, List.length_cons,
      Nat.succ_mul, Nat.add_comm]

theorem length_toBytes (table : SymbolTable) :
    table.toBytes.length = Symbol.recordLength * table.size := by
  rw [toBytes, length_flatMap_toRecord, Nat.mul_comm, size]

theorem records_flatMap_toRecord (symbols : List Symbol) :
    records symbols.length (symbols.flatMap Symbol.toRecord) = symbols.map Symbol.toRecord := by
  induction symbols with
  | nil => rfl
  | cons s rest ih =>
    rw [List.length_cons, List.flatMap_cons, records, List.take_left' s.length_toRecord,
      List.drop_left' s.length_toRecord, ih, List.map_cons]

/-- Symbols are read back from their records, in order. -/
theorem readAll_flatMap_toRecord (h : ∀ s ∈ symbols, s.Recordable base) :
    readAll base (symbols.flatMap Symbol.toRecord) = symbols := by
  rw [readAll, length_flatMap_toRecord, Nat.mul_div_cancel _ (by decide),
    records_flatMap_toRecord, List.map_map]
  calc symbols.map (Symbol.ofRecord base ∘ Symbol.toRecord)
      = symbols.map id := List.map_congr_left fun s hs => Symbol.ofRecord_toRecord (h s hs)
    _ = symbols := List.map_id _

theorem ofList_symbols (table : SymbolTable) : ofList table.symbols = table := by
  have hsorted : table.symbols.mergeSort Symbol.precedes = table.symbols :=
    List.mergeSort_of_pairwise table.sorted
  obtain ⟨symbols, sorted⟩ := table
  simp only [ofList, hsorted]

/-- A table is read back from its records. -/
theorem ofBytes_toBytes (hrecordable : ∀ s ∈ table.symbols, s.Recordable base)
    (hretained : ∀ s ∈ table.symbols, s.isRetained = true) :
    ofBytes base table.toBytes = table := by
  rw [ofBytes, toBytes, readAll_flatMap_toRecord hrecordable, List.filter_eq_self.2 hretained,
    ofList_symbols]

theorem ofBytes_nil (base : UInt32) : ofBytes base [] = empty := by
  rw [← ofList_symbols empty]
  rfl

/-- What a table keeps of the records in some bytes. -/
theorem mem_ofBytes {bytes : List UInt8} {s : Symbol} :
    s ∈ (ofBytes base bytes).symbols ↔
      s.isRetained = true ∧
        ∃ record ∈ records (bytes.length / Symbol.recordLength) bytes,
          Symbol.ofRecord base record = s := by
  rw [ofBytes, ofList, List.mem_mergeSort, List.mem_filter, readAll, List.mem_map, and_comm]

theorem length_records (count : Nat) (bytes : List UInt8) :
    (records count bytes).length = count := by
  induction count generalizing bytes with
  | zero => rfl
  | succ count ih => rw [records, List.length_cons, ih]

/-- A table takes up no more room than what it was read from. -/
theorem size_ofBytes_le (base : UInt32) (bytes : List UInt8) :
    Symbol.recordLength * (ofBytes base bytes).size ≤ bytes.length := by
  have hkept : (ofBytes base bytes).size ≤ bytes.length / Symbol.recordLength := by
    rw [size, ofBytes, ofList, List.length_mergeSort]
    calc ((readAll base bytes).filter Symbol.isRetained).length
        ≤ (readAll base bytes).length := List.length_filter_le _ _
      _ = bytes.length / Symbol.recordLength := by rw [readAll, List.length_map, length_records]
  exact Nat.le_trans (Nat.mul_le_mul_left _ hkept) (Nat.mul_div_le _ _)

end SymbolTable

end Vax
