import Vax.Instruction.Action
import Vax.Flags
/-!
# Integer arithmetic at a width

Each operation combines a source into a destination, both bit vectors of one
width.  Overflow is read off the signs of sums and differences, and for
products and quotients off whether the exact value fits.
-/

namespace Vax

/-- A result with its overflow and carry.  Operations that have no carry leave
the carry of the machine alone. -/
structure ArithmeticResult (w : Nat) where
  value : BitVec w
  overflow : Bool
  carry : Option Bool

namespace Arithmetic

variable {w : Nat}

/-- The sum; the carry is that out of the top bit. -/
def sum (source destination : BitVec w) : ArithmeticResult w :=
  let value := destination + source
  ⟨value, source.msb == destination.msb && value.msb != destination.msb,
    some (value.ult destination)⟩

/-- The destination less the source; the carry is the borrow. -/
def difference (source destination : BitVec w) : ArithmeticResult w :=
  let value := destination - source
  ⟨value, source.msb != destination.msb && value.msb != destination.msb,
    some (destination.ult source)⟩

/-- The low bits of an exact value, which overflows when it does not fit. -/
def narrow (w : Nat) (exact : Int) : ArithmeticResult w :=
  let value := BitVec.ofInt w exact
  ⟨value, value.toInt != exact, some false⟩

def product (source destination : BitVec w) : ArithmeticResult w :=
  narrow w (destination.toInt * source.toInt)

/-- The quotient, rounded toward zero.  Division by zero overflows and leaves
the dividend. -/
def quotient (source destination : BitVec w) : ArithmeticResult w :=
  if source = 0 then ⟨destination, true, some false⟩
  else narrow w (destination.toInt.tdiv source.toInt)

def apply (operation : Arithmetic) (source destination : BitVec w) : ArithmeticResult w :=
  match operation with
  | .add => sum source destination
  | .subtract => difference source destination
  | .multiply => product source destination
  | .divide => quotient source destination
  | .setBits => ⟨destination ||| source, false, none⟩
  | .clearBits => ⟨destination &&& ~~~source, false, none⟩
  | .exclusiveOr => ⟨destination ^^^ source, false, none⟩

/-- A longword times a power of two, rounded down; a left shift overflows when
the exact value does not fit. -/
def shifted (count : Int) (value : BitVec 32) : ArithmeticResult 32 :=
  if 0 ≤ count then narrow 32 (value.toInt * 2 ^ count.toNat)
  else ⟨value.sshiftRight count.natAbs, false, some false⟩

end Arithmetic

end Vax
