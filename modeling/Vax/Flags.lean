/-!
# Condition codes
-/

namespace Vax

/-- The condition codes: negative, zero, overflow, and carry or borrow. -/
structure Flags where
  n : Bool
  z : Bool
  v : Bool
  c : Bool
  deriving DecidableEq, Repr, Inhabited

namespace Flags

def clear : Flags := ⟨false, false, false, false⟩

/-- The letters of the conditions that hold, with `-` for the others. -/
def text (f : Flags) : String :=
  let letter (holds : Bool) (name : String) := if holds then name else "-"
  letter f.n "N" ++ letter f.z "Z" ++ letter f.v "V" ++ letter f.c "C"

/-- The codes of a result at its width.  Without a new carry the old one
stays. -/
def ofResult {w : Nat} (old : Flags) (result : BitVec w) (overflow : Bool)
    (carry : Option Bool) : Flags :=
  ⟨result.msb, result == 0, overflow, carry.getD old.c⟩

/-- The codes of a comparison: signed order, equality, unsigned order. -/
def ofComparison {w : Nat} (left right : BitVec w) : Flags :=
  ⟨left.slt right, left == right, false, left.ult right⟩

end Flags

end Vax
