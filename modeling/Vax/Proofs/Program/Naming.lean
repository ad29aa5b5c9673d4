import Mathlib.Data.List.Induction
import Mathlib.Logic.Function.Basic
import Vax.Proofs.Program.Records
/-!
# Symbols in order and their names

A table is a stable sort of the symbols that it was made of, so the name that
it finds for an address is that of the last procedure or variable there, in
the order in which they were given.
-/

namespace Vax

namespace Symbol

/-! ## Order -/

/-- The symbols at an address that are units, or those that are not. -/
def alike (address : UInt32) (isUnit : Bool) (symbols : List Symbol) : List Symbol :=
  symbols.filter fun s => s.address == address && s.isUnit == isUnit

theorem mem_alike {address : UInt32} {isUnit : Bool} {symbols : List Symbol} {s : Symbol} :
    s ∈ alike address isUnit symbols ↔
      s ∈ symbols ∧ s.address = address ∧ s.isUnit = isUnit := by
  rw [alike, List.mem_filter, Bool.and_eq_true, beq_iff_eq, beq_iff_eq]

/-- The order does not tell apart what is alike. -/
theorem pairwise_alike (address : UInt32) (isUnit : Bool) (symbols : List Symbol) :
    (alike address isUnit symbols).Pairwise fun s t => s.precedes t = true := by
  apply List.pairwise_of_forall_mem_list
  intro s hs t ht
  obtain ⟨-, hs, hsUnit⟩ := mem_alike.1 hs
  obtain ⟨-, ht, htUnit⟩ := mem_alike.1 ht
  simp [precedes, hs, ht, hsUnit, htUnit]

theorem le_of_precedes {s t : Symbol} (h : s.precedes t = true) : s.address ≤ t.address := by
  simp only [precedes, Bool.or_eq_true, Bool.and_eq_true, beq_iff_eq, decide_eq_true_eq] at h
  obtain hlt | ⟨heq, -⟩ := h
  · exact UInt32.le_of_lt hlt
  · exact heq ▸ UInt32.le_refl _

theorem isUnit_of_precedes {s t : Symbol} (h : s.precedes t = true)
    (heq : s.address = t.address) (hunit : t.isUnit = true) : s.isUnit = true := by
  simpa [precedes, heq, hunit, UInt32.lt_irrefl] using h

/-! ## Records -/

/-- The symbol is what these sixteen bytes say in a program loaded at `base`. -/
structure Recorded (base : UInt32) (record : List UInt8) (s : Symbol) : Prop where
  name : s.name = Utf8.decode (nameField record)
  kind : record[8]? = some s.kind
  other : record[9]? = some s.other
  desc : (record.drop 10).take 2 = LittleEndian.toBytes 2 s.desc.toNat
  value : record.drop 12 = LittleEndian.toBytes 4 s.value.toNat
  address : s.address = base ||| (s.value &&& 0x7fffffff)

theorem getElem_of_number {record : List UInt8} {k : Nat} (hk : k < record.length) :
    UInt8.ofNat (LittleEndian.ofBytes ((record.drop k).take 1)) = record[k] := by
  rw [List.drop_eq_getElem_cons hk, List.take_succ_cons, List.take_zero, LittleEndian.ofBytes,
    LittleEndian.ofBytes, Nat.mul_zero, Nat.add_zero, UInt8.ofNat_toNat]

theorem toBytes_number {record : List UInt8} {start count : Nat}
    (hin : start + count ≤ record.length) :
    LittleEndian.toBytes count (LittleEndian.ofBytes ((record.drop start).take count)) =
      (record.drop start).take count := by
  have hcount : ((record.drop start).take count).length = count := by
    rw [List.length_take, List.length_drop]
    omega
  have hbytes := LittleEndian.toBytes_ofBytes ((record.drop start).take count)
  rwa [hcount] at hbytes

theorem number_lt (record : List UInt8) (start count : Nat) :
    LittleEndian.ofBytes ((record.drop start).take count) < 256 ^ count :=
  Nat.lt_of_lt_of_le (LittleEndian.ofBytes_lt _)
    (Nat.pow_le_pow_right (by decide) (List.length_take_le _ _))

theorem recorded_ofRecord (base : UInt32) {record : List UInt8}
    (hlength : record.length = recordLength) : (ofRecord base record).Recorded base record where
  name := rfl
  kind := by
    have hin : 8 < record.length := by rw [hlength]; decide
    rw [List.getElem?_eq_getElem hin, ← getElem_of_number hin]
    rfl
  other := by
    have hin : 9 < record.length := by rw [hlength]; decide
    rw [List.getElem?_eq_getElem hin, ← getElem_of_number hin]
    rfl
  desc := by
    have hdesc : (ofRecord base record).desc.toNat =
        LittleEndian.ofBytes ((record.drop 10).take 2) :=
      UInt16.toNat_ofNat_of_lt (number_lt record 10 2)
    rw [hdesc, toBytes_number (by rw [hlength]; decide)]
  value := by
    have hvalue : (ofRecord base record).value.toNat =
        LittleEndian.ofBytes ((record.drop 12).take 4) :=
      UInt32.toNat_ofNat_of_lt (number_lt record 12 4)
    have hrest : (record.drop 12).length ≤ 4 := by rw [List.length_drop, hlength]; decide
    rw [hvalue, toBytes_number (by rw [hlength]; decide), List.take_of_length_le hrest]
  address := rfl

theorem isRetained_iff {s : Symbol} : s.isRetained = true ↔ 4 ≤ s.kind ∧ s.kind ≤ 9 := by
  rw [isRetained, Bool.and_eq_true, decide_eq_true_eq, decide_eq_true_eq]
  rfl

/-- The symbol is one that its address can be named after. -/
def Labels (s : Symbol) (address : UInt32) : Prop :=
  s.address = address ∧ s.isUnit = false

end Symbol

namespace SymbolTable

variable {table : SymbolTable}

/-! ## Stable sorts -/

/-- The table holds exactly these symbols, in ascending order of address, at
one address the units first, and what is alike in the order given. -/
structure Sorts (table : SymbolTable) (symbols : List Symbol) : Prop where
  perm : table.symbols.Perm symbols
  ascending : table.symbols.Pairwise fun s t => s.address ≤ t.address
  units_first : table.symbols.Pairwise fun s t =>
    s.address = t.address → t.isUnit = true → s.isUnit = true
  order_kept : ∀ address isUnit,
    Symbol.alike address isUnit table.symbols = Symbol.alike address isUnit symbols

theorem alike_ofList (address : UInt32) (isUnit : Bool) (symbols : List Symbol) :
    Symbol.alike address isUnit (ofList symbols).symbols = Symbol.alike address isUnit symbols := by
  have hsublist : (Symbol.alike address isUnit symbols).Sublist (ofList symbols).symbols :=
    List.sublist_mergeSort Symbol.precedes_trans Symbol.precedes_total
      (Symbol.pairwise_alike address isUnit symbols) List.filter_sublist
  have hfiltered : (Symbol.alike address isUnit symbols).Sublist
      (Symbol.alike address isUnit (ofList symbols).symbols) := by
    have hfilter := hsublist.filter fun s => s.address == address && s.isUnit == isUnit
    simp only [Symbol.alike, List.filter_filter, Bool.and_self] at hfilter
    exact hfilter
  have hlength := ((List.mergeSort_perm symbols Symbol.precedes).filter
    fun s => s.address == address && s.isUnit == isUnit).length_eq
  exact (hfiltered.eq_of_length hlength.symm).symm

theorem sorts_ofList (symbols : List Symbol) : (ofList symbols).Sorts symbols where
  perm := List.mergeSort_perm symbols Symbol.precedes
  ascending := (ofList symbols).sorted.imp Symbol.le_of_precedes
  units_first := (ofList symbols).sorted.imp Symbol.isUnit_of_precedes
  order_kept address isUnit := alike_ofList address isUnit symbols

/-! ## Records of a table -/

theorem getElem?_records {count k : Nat} (hk : k < count) (bytes : List UInt8) :
    (records count bytes)[k]? =
      some ((bytes.drop (Symbol.recordLength * k)).take Symbol.recordLength) := by
  induction count generalizing k bytes with
  | zero => omega
  | succ count ih =>
    cases k with
    | zero => rfl
    | succ k =>
      rw [records, List.getElem?_cons_succ, ih (by omega), List.drop_drop, Nat.mul_succ,
        Nat.add_comm Symbol.recordLength]

theorem length_readAll (base : UInt32) (bytes : List UInt8) :
    (readAll base bytes).length = bytes.length / Symbol.recordLength := by
  rw [readAll, List.length_map, length_records]

theorem recorded_of_readAll {base : UInt32} {bytes : List UInt8} {k : Nat} {s : Symbol}
    (h : (readAll base bytes)[k]? = some s) :
    s.Recorded base ((bytes.drop (Symbol.recordLength * k)).take Symbol.recordLength) := by
  have hk : k < bytes.length / Symbol.recordLength := by
    rw [← length_readAll base]
    exact (List.getElem?_eq_some_iff.1 h).1
  rw [readAll, List.getElem?_map, getElem?_records hk, Option.map_some] at h
  obtain rfl := Option.some.inj h
  apply Symbol.recorded_ofRecord
  rw [List.length_take, List.length_drop]
  unfold Symbol.recordLength at hk ⊢
  omega

/-! ## Names -/

/-- The names by address, entered in the order of the table, each in place of
the one that was there. -/
def procedures (table : SymbolTable) : UInt32 → Option String :=
  (table.symbols.filter fun s => !s.isUnit).foldl
    (fun (names : UInt32 → Option String) s =>
      Function.update names s.address (some s.name)) fun _ => none

/-- The name found for an address is that of the last candidate for it, in the
order given, and there is none without a candidate. -/
structure NamesLast (table : SymbolTable) (symbols : List Symbol)
    (candidate : UInt32 → Symbol → Prop) : Prop where
  named : ∀ address name, table.nameAt? address = some name ↔
    ∃ (k : Nat) (s : Symbol), symbols[k]? = some s ∧ candidate address s ∧ s.name = name ∧
      ∀ (j : Nat) (t : Symbol), k < j → symbols[j]? = some t → ¬ candidate address t
  unnamed : ∀ address, table.nameAt? address = none ↔ ∀ s ∈ symbols, ¬ candidate address s
  entered : ∀ address, table.nameAt? address = table.procedures address

/-- What is left of a list by a filter ends in the last element that passes. -/
theorem getLast?_filter_eq_some {α : Type} {l : List α} {p : α → Bool} {a : α} :
    (l.filter p).getLast? = some a ↔
      ∃ k : Nat, l[k]? = some a ∧ p a = true ∧
        ∀ (j : Nat) (b : α), k < j → l[j]? = some b → p b = false := by
  rw [List.getLast?_filter, List.find?_eq_some_iff_append]
  constructor
  · rintro ⟨ha, later, earlier, hsplit, hlater⟩
    have hl : l = earlier.reverse ++ a :: later.reverse := by
      rw [← List.reverse_reverse l, hsplit, List.reverse_append, List.reverse_cons,
        List.append_assoc]
      rfl
    refine ⟨earlier.reverse.length, ?_, ha, fun j b hj hb => ?_⟩
    · rw [hl, List.getElem?_append_right (Nat.le_refl _), Nat.sub_self]
      rfl
    · rw [hl, List.getElem?_append_right (Nat.le_of_lt hj)] at hb
      obtain ⟨i, hi⟩ := Nat.exists_eq_add_of_lt hj
      rw [hi, Nat.add_assoc, Nat.add_sub_cancel_left, List.getElem?_cons_succ] at hb
      simpa using hlater b (List.mem_reverse.1 (List.mem_of_getElem? hb))
  · rintro ⟨k, hk, ha, hlast⟩
    obtain ⟨hlt, rfl⟩ := List.getElem?_eq_some_iff.1 hk
    refine ⟨ha, (l.drop (k + 1)).reverse, (l.take k).reverse, ?_, fun b hb => ?_⟩
    · have hsplit : l = l.take k ++ l[k] :: l.drop (k + 1) := by
        rw [← List.drop_eq_getElem_cons hlt, List.take_append_drop]
      rw [congrArg List.reverse hsplit]
      simp
    · obtain ⟨i, hi⟩ := List.getElem?_of_mem (List.mem_reverse.1 hb)
      rw [List.getElem?_drop] at hi
      rw [hlast (k + 1 + i) b (by omega) hi]
      rfl

theorem nameAt?_eq (table : SymbolTable) (address : UInt32) :
    table.nameAt? address =
      ((Symbol.alike address false table.symbols).getLast?).map Symbol.name := by
  simp only [nameAt?, Symbol.alike, beq_false]

/-- Of the names that are entered for an address the last one stays. -/
theorem foldl_update (symbols : List Symbol) (address : UInt32) :
    symbols.foldl (fun (names : UInt32 → Option String) s =>
        Function.update names s.address (some s.name)) (fun _ => none) address =
      ((symbols.filter fun s => s.address == address).getLast?).map Symbol.name := by
  induction symbols using List.reverseRecOn with
  | nil => rfl
  | append_singleton symbols s ih =>
    rw [List.foldl_append, List.filter_append]
    by_cases hs : s.address = address
    · simp [hs]
    · simp [hs, ih, Function.update_of_ne (Ne.symm hs)]

theorem procedures_eq (table : SymbolTable) (address : UInt32) :
    table.procedures address =
      ((Symbol.alike address false table.symbols).getLast?).map Symbol.name := by
  rw [procedures, foldl_update, List.filter_filter]
  simp only [Symbol.alike, beq_false]

theorem namesLast_of_alike {symbols : List Symbol} {candidate : UInt32 → Symbol → Prop}
    {p : UInt32 → Symbol → Bool}
    (hp : ∀ address s, p address s = true ↔ candidate address s)
    (halike : ∀ address, Symbol.alike address false table.symbols = symbols.filter (p address)) :
    table.NamesLast symbols candidate where
  named address name := by
    rw [nameAt?_eq, halike, Option.map_eq_some_iff]
    simp only [getLast?_filter_eq_some, ← Bool.not_eq_true, hp]
    constructor
    · rintro ⟨s, ⟨k, hk, hs, hlast⟩, hname⟩
      exact ⟨k, s, hk, hs, hname, hlast⟩
    · rintro ⟨k, s, hk, hs, hname, hlast⟩
      exact ⟨s, ⟨k, hk, hs, hlast⟩, hname⟩
  unnamed address := by
    rw [nameAt?_eq, halike, Option.map_eq_none_iff, List.getLast?_eq_none_iff,
      List.filter_eq_nil_iff]
    simp only [hp]
  entered address := by
    rw [nameAt?_eq, procedures_eq]

theorem namesLast_ofList (symbols : List Symbol) :
    (ofList symbols).NamesLast symbols fun address s => s.Labels address := by
  refine namesLast_of_alike (p := fun address s => s.address == address && s.isUnit == false)
    (fun address s => ?_) fun address => alike_ofList address false symbols
  rw [Bool.and_eq_true, beq_iff_eq, beq_iff_eq, Symbol.Labels]

theorem namesLast_ofBytes (base : UInt32) (bytes : List UInt8) :
    (ofBytes base bytes).NamesLast (readAll base bytes) fun address s =>
      s.isRetained = true ∧ s.Labels address := by
  refine namesLast_of_alike
    (p := fun address s => s.isRetained && (s.address == address && s.isUnit == false))
    (fun address s => ?_) fun address => ?_
  · rw [Bool.and_eq_true, Bool.and_eq_true, beq_iff_eq, beq_iff_eq, Symbol.Labels]
  · rw [ofBytes, alike_ofList, Symbol.alike, List.filter_filter]
    simp only [Bool.and_comm]

end SymbolTable

open SymbolTable

/-- A table of records holds what they say of text, data and bss symbols, all
of it and nothing else, sorted by address with units first and otherwise as in
the file, and names an address after the last record of a retained procedure or
variable there.  A table of symbols does the same with all of them.  A unit is
what has a name that ends in `.o`. -/
theorem table_sorts_stably_and_names_last :
    (∀ s : Symbol, s.isUnit = true ↔ ∃ stem, s.name = stem ++ ".o") ∧
    (∀ (base : UInt32) (bytes : List UInt8),
      (readAll base bytes).length = bytes.length / 16 ∧
      (∀ (k : Nat) (s : Symbol), (readAll base bytes)[k]? = some s →
        s.Recorded base ((bytes.drop (16 * k)).take 16)) ∧
      (ofBytes base bytes).Sorts ((readAll base bytes).filter fun s => 4 ≤ s.kind ∧ s.kind ≤ 9) ∧
      (ofBytes base bytes).NamesLast (readAll base bytes) fun address s =>
        (4 ≤ s.kind ∧ s.kind ≤ 9) ∧ s.Labels address) ∧
    ∀ symbols : List Symbol,
      (ofList symbols).Sorts symbols ∧
      (ofList symbols).NamesLast symbols fun address s => s.Labels address := by
  refine ⟨fun _ => Symbol.isUnit_iff,
    fun base bytes => ⟨length_readAll base bytes, fun k s h => recorded_of_readAll h, ?_, ?_⟩,
    fun symbols => ⟨sorts_ofList symbols, namesLast_ofList symbols⟩⟩
  · have hretained : (fun s : Symbol => decide (4 ≤ s.kind ∧ s.kind ≤ 9)) = Symbol.isRetained := by
      funext s
      rw [Bool.eq_iff_iff, decide_eq_true_eq, Symbol.isRetained_iff]
    rw [hretained]
    exact sorts_ofList _
  · simp only [← Symbol.isRetained_iff]
    exact namesLast_ofBytes base bytes

/-- A unit stands in the file between two labels of its address.  An absolute
symbol of that value and a record that is cut follow. -/
theorem table_sorts_stably_and_names_last_shared :
    let symbol (name : String) (kind : UInt8) : Symbol := ⟨name, kind, 0, 0, 0x20, 0x80000020⟩
    let bytes := (symbol "_main" 5).toRecord ++ (symbol "a.o" 4).toRecord ++
      (symbol "_start" 5).toRecord ++ (symbol "_size" 3).toRecord ++ [0x5f, 0x65]
    let table := ofBytes 0x80000000 bytes
    table.symbols.Perm [symbol "_main" 5, symbol "a.o" 4, symbol "_start" 5] ∧
      Symbol.alike 0x80000020 true table.symbols = [symbol "a.o" 4] ∧
      Symbol.alike 0x80000020 false table.symbols = [symbol "_main" 5, symbol "_start" 5] ∧
      table.nameAt? 0x80000020 = some "_start" := by
  intro symbol bytes table
  have hread : readAll 0x80000000 bytes =
      [symbol "_main" 5, symbol "a.o" 4, symbol "_start" 5, symbol "_size" 3] := by
    decide +kernel
  obtain ⟨-, hbytes, -⟩ := table_sorts_stably_and_names_last
  obtain ⟨-, -, hsorts, hnames⟩ := hbytes 0x80000000 bytes
  rw [hread] at hsorts hnames
  refine ⟨hsorts.perm, (hsorts.order_kept _ _).trans (by decide +kernel),
    (hsorts.order_kept _ _).trans (by decide +kernel), ?_⟩
  have hlabels : (symbol "_start" 5).Labels 0x80000020 := ⟨rfl, by decide +kernel⟩
  refine (hnames.named _ _).2 ⟨2, symbol "_start" 5, rfl, ⟨by decide +kernel, hlabels⟩, rfl, ?_⟩
  rintro j t hj ht ⟨⟨hleast, -⟩, -⟩
  obtain ⟨hlt, -⟩ := List.getElem?_eq_some_iff.1 ht
  obtain rfl : j = 3 := by
    simp only [List.length_cons, List.length_nil] at hlt
    omega
  obtain rfl : symbol "_size" 3 = t := Option.some.inj ht
  exact absurd hleast (by decide +kernel)

end Vax
