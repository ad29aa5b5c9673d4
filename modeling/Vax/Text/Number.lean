/-!
# Numbers in listings, messages and assembly text

Hexadecimal digits are lower case throughout.  Fixed-width forms are padded
with zeros; an assembly number is decimal below ten and hexadecimal above.
-/

namespace Vax.Text

/-- The hexadecimal digits of `n`, without a radix mark. -/
def hex (n : Nat) : String :=
  String.ofList (Nat.toDigits 16 n)

/-- At least `width` hexadecimal digits, padded with zeros on the left. -/
def hexPadded (width n : Nat) : String :=
  String.ofList ((Nat.toDigits 16 n).leftpad width '0')

/-- A byte as two digits. -/
def hexByte (byte : UInt8) : String :=
  hexPadded 2 byte.toNat

/-- A longword as eight digits, the form of every address in a listing. -/
def hexLong (word : UInt32) : String :=
  hexPadded 8 word.toNat

/-- Hexadecimal digits behind their radix mark. -/
def marked (n : Nat) : String :=
  "0x" ++ hex n

/-- An unsigned number as assembly text writes it: one decimal digit below
ten, marked hexadecimal otherwise. -/
def unsigned (n : Nat) : String :=
  if n < 10 then toString n else marked n

/-- A signed number as assembly text writes it: the magnitude behind a minus
sign, never two's complement. -/
def signed (i : Int) : String :=
  (if i < 0 then "-" else "") ++ unsigned i.natAbs

end Vax.Text
