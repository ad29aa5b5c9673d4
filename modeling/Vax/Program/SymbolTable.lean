import Vax.Program.Symbol
/-!
# Symbol tables

A table holds its symbols in ascending order of address, and symbols that the
order does not tell apart in the order in which they were given.  An address
is named after the last procedure or variable there.
-/

namespace Vax

structure SymbolTable where
  symbols : List Symbol
  sorted : symbols.Pairwise fun s t => s.precedes t = true

namespace SymbolTable

/-- The table of the given symbols, none of which is left out. -/
def ofList (symbols : List Symbol) : SymbolTable :=
  ⟨symbols.mergeSort Symbol.precedes,
    List.pairwise_mergeSort Symbol.precedes_trans Symbol.precedes_total symbols⟩

def empty : SymbolTable :=
  ⟨[], List.Pairwise.nil⟩

/-- The first `count` records in `bytes`. -/
def records : Nat → List UInt8 → List (List UInt8)
  | 0, _ => []
  | count + 1, bytes =>
    bytes.take Symbol.recordLength :: records count (bytes.drop Symbol.recordLength)

/-- Every symbol in `bytes`; what is left over after the last whole record is
ignored. -/
def readAll (base : UInt32) (bytes : List UInt8) : List Symbol :=
  (records (bytes.length / Symbol.recordLength) bytes).map (Symbol.ofRecord base)

/-- The table of the symbols in `bytes` that are retained. -/
def ofBytes (base : UInt32) (bytes : List UInt8) : SymbolTable :=
  ofList ((readAll base bytes).filter Symbol.isRetained)

/-- How many whole records of `bytes` a table leaves out. -/
def discarded (base : UInt32) (bytes : List UInt8) : Nat :=
  ((readAll base bytes).filter fun s => !s.isRetained).length

def toBytes (table : SymbolTable) : List UInt8 :=
  table.symbols.flatMap Symbol.toRecord

def size (table : SymbolTable) : Nat :=
  table.symbols.length

/-- The name of the procedure or variable at exactly `address`. -/
def nameAt? (table : SymbolTable) (address : UInt32) : Option String :=
  ((table.symbols.filter fun s => s.address == address && !s.isUnit).getLast?).map Symbol.name

end SymbolTable

end Vax
