import Vax.ByteOrder
import Vax.Text.Number
import Vax.Text.Utf8
/-!
# Symbols

A symbol record is sixteen bytes: a name of up to eight bytes ended by a zero,
a kind, two fields that are kept but not interpreted, and a value.  Its
address is the value moved to the half of the address space the program is in.
-/

namespace Vax

structure Symbol where
  name : String
  /-- The kind code: each even code has an external counterpart one above. -/
  kind : UInt8
  other : UInt8
  desc : UInt16
  /-- The value as the file holds it. -/
  value : UInt32
  /-- The address in the loaded program. -/
  address : UInt32
  deriving DecidableEq, Repr

namespace Symbol

/-- The kind code of a text symbol, the least that a table keeps. -/
def textKind : UInt8 := 4

/-- The kind code of an external bss symbol, the greatest that a table keeps. -/
def externalBssKind : UInt8 := 9

def recordLength : Nat := 16

def nameLength : Nat := 8

/-- The symbol of a record, in a program loaded at `base`. -/
def ofRecord (base : UInt32) (record : List UInt8) : Symbol :=
  let number (start count : Nat) := LittleEndian.ofBytes ((record.drop start).take count)
  let value := UInt32.ofNat (number 12 4)
  { name := Utf8.decode ((record.take nameLength).takeWhile (· != 0))
    kind := UInt8.ofNat (number 8 1)
    other := UInt8.ofNat (number 9 1)
    desc := UInt16.ofNat (number 10 2)
    value := value
    address := base ||| (value &&& 0x7fffffff) }

/-- The record of a symbol: the name cut to its field and filled with zeros. -/
def toRecord (s : Symbol) : List UInt8 :=
  let name := (Utf8.encode s.name).take nameLength
  name ++ List.replicate (nameLength - name.length) 0 ++ [s.kind, s.other] ++
    LittleEndian.toBytes 2 s.desc.toNat ++ LittleEndian.toBytes 4 s.value.toNat

/-- Whether the symbol names a compilation unit, not a procedure or variable. -/
def isUnit (s : Symbol) : Bool :=
  ".o".toList.isSuffixOf s.name.toList

theorem isUnit_iff {s : Symbol} : s.isUnit = true ↔ ∃ stem, s.name = stem ++ ".o" := by
  rw [isUnit, List.isSuffixOf_iff_suffix]
  constructor
  · rintro ⟨stem, hname⟩
    refine ⟨String.ofList stem, String.toList_inj.1 ?_⟩
    rw [String.toList_append, String.toList_ofList, hname]
  · rintro ⟨stem, hname⟩
    rw [hname, String.toList_append]
    exact ⟨stem.toList, rfl⟩

/-- Whether a table keeps the symbol: text, data and bss symbols are kept. -/
def isRetained (s : Symbol) : Bool :=
  textKind ≤ s.kind && s.kind ≤ externalBssKind

/-- The letter that stands for the kind in symbol listings. -/
def letter (s : Symbol) : Char :=
  "uUaAtTdDbB".toList.getD s.kind.toNat '?'

/-- The order of a symbol table: by address, and at one address units before
what they contain. -/
def precedes (s t : Symbol) : Bool :=
  s.address < t.address || (s.address == t.address && (s.isUnit || !t.isUnit))

theorem precedes_total (s t : Symbol) : (s.precedes t || t.precedes s) = true := by
  simp only [precedes]
  rcases Nat.lt_trichotomy s.address.toNat t.address.toNat with h | h | h
  · have hlt : s.address < t.address := UInt32.lt_iff_toNat_lt.2 h
    simp [hlt]
  · have heq : s.address = t.address := UInt32.toNat_inj.1 h
    cases s.isUnit <;> cases t.isUnit <;> simp [heq]
  · have hlt : t.address < s.address := UInt32.lt_iff_toNat_lt.2 h
    simp [hlt]

theorem precedes_trans (s t u : Symbol) (hst : s.precedes t = true)
    (htu : t.precedes u = true) : s.precedes u = true := by
  simp only [precedes, Bool.or_eq_true, Bool.and_eq_true, beq_iff_eq, decide_eq_true_eq,
    Bool.not_eq_true', UInt32.lt_iff_toNat_lt, ← UInt32.toNat_inj] at hst htu ⊢
  rcases hst with hst | ⟨hst, hst'⟩ <;> rcases htu with htu | ⟨htu, htu'⟩
  · left; omega
  · left; omega
  · left; omega
  · right
    refine ⟨by omega, ?_⟩
    rcases hst' with h | h
    · exact Or.inl h
    · rcases htu' with h' | h'
      · simp [h'] at h
      · exact Or.inr h'

def text (s : Symbol) : String :=
  Text.hexLong s.address ++ " " ++ String.singleton s.letter ++ " " ++ s.name

end Symbol

end Vax
