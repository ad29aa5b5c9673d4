/-!
# Operand kinds
-/

namespace Vax

/-- The data type as which an instruction accesses an operand, or the size of
its branch displacement. -/
inductive OperandKind where
  | byte
  | word
  | long
  | quad
  | octa
  | fFloat
  | dFloat
  | gFloat
  | hFloat
  | branchByte
  | branchWord
  deriving DecidableEq, Repr

namespace OperandKind

def size : OperandKind → Nat
  | byte | branchByte => 1
  | word | branchWord => 2
  | long | fFloat => 4
  | quad | dFloat | gFloat => 8
  | octa | hFloat => 16

/-- The letter that abbreviates the kind in a handbook. -/
def letter : OperandKind → Char
  | byte => 'b'
  | word => 'w'
  | long => 'l'
  | quad => 'q'
  | octa => 'o'
  | fFloat => 'f'
  | dFloat => 'd'
  | gFloat => 'g'
  | hFloat => 'h'
  | branchByte => '1'
  | branchWord => '2'

/-- What follows a literal or immediate value in assembly text.  A
floating-point value is shown as its raw encoding, so the encoding is named. -/
def valueSuffix : OperandKind → String
  | fFloat => " [f-float]"
  | dFloat => " [d-float]"
  | gFloat => " [g-float]"
  | hFloat => " [h-float]"
  | _ => ""

/-- Whether the operand is a branch displacement, which has no specifier. -/
def isBranch : OperandKind → Bool
  | branchByte | branchWord => true
  | _ => false

end OperandKind

end Vax
