import Vax.Text.Number
/-!
# Listing entries

An entry shows the bytes found at an address, eight to a row, with a text
beside the first row.  The text always begins in column `textColumn`, so an
entry can be read back from its rows.
-/

namespace Vax.Text

def rowLength : Nat := 8

/-- The column at which the text of an entry begins: eight address digits, a
colon, three columns a byte, and two blanks. -/
def textColumn : Nat := 8 + 1 + 3 * rowLength + 2

/-- One row: the address of its first byte, then each byte. -/
def row (address : UInt32) (bytes : List UInt8) : String :=
  hexLong address ++ ":" ++ String.join (bytes.map fun byte => " " ++ hexByte byte)

def padRight (width : Nat) (text : String) : String :=
  text ++ String.ofList (List.replicate (width - text.length) ' ')

/-- The bytes of the `k`-th row. -/
def rowBytes (bytes : List UInt8) (k : Nat) : List UInt8 :=
  (bytes.drop (rowLength * k)).take rowLength

/-- The address of the `k`-th row, modulo 2^32. -/
def rowAddress (address : UInt32) (k : Nat) : UInt32 :=
  address + UInt32.ofNat (rowLength * k)

/-- The number of rows of an entry; an entry without bytes still has one. -/
def rowCount (bytes : List UInt8) : Nat :=
  max 1 ((bytes.length + (rowLength - 1)) / rowLength)

/-- The rows of an entry.  The first is padded to the text column and carries
the text; the others hold nothing but bytes. -/
def entryRows (address : UInt32) (bytes : List UInt8) (text : String) : List String :=
  (padRight textColumn (row address (rowBytes bytes 0)) ++ text) ::
    (List.range (rowCount bytes - 1)).map fun k =>
      row (rowAddress address (k + 1)) (rowBytes bytes (k + 1))

/-- The rows of an entry on lines of their own. -/
def entry (address : UInt32) (bytes : List UInt8) (text : String) : String :=
  "\n".intercalate (entryRows address bytes text)

end Vax.Text
