/-!
# Integer widths

An integer operand is a bit vector of one of four widths.  Sign extension,
truncation and the sign bit are those of the bit vector.
-/

namespace Vax

inductive Width where
  | byte
  | word
  | long
  | quad
  deriving DecidableEq, Repr

namespace Width

def size : Width → Nat
  | byte => 1
  | word => 2
  | long => 4
  | quad => 8

def bits (w : Width) : Nat :=
  8 * w.size

def mask (w : Width) : Nat :=
  2 ^ w.bits - 1

/-- The width with the given size in bytes. -/
def ofSize? (size : Nat) : Option Width :=
  match size with
  | 1 => some byte
  | 2 => some word
  | 4 => some long
  | 8 => some quad
  | _ => none

/-- The width that bits 5 and 6 of an opcode select in the integer families. -/
def ofOpcode (code : Nat) : Width :=
  match code / 32 % 4 with
  | 0 => byte
  | 1 => word
  | 2 => long
  | _ => quad

/-- The low bits of `n`. -/
def truncate (w : Width) (n : Nat) : BitVec w.bits :=
  BitVec.ofNat w.bits n

theorem bits_pos (w : Width) : 0 < w.bits := by
  cases w <;> decide

theorem ofSize?_size (w : Width) : ofSize? w.size = some w := by
  cases w <;> rfl

end Width

end Vax
