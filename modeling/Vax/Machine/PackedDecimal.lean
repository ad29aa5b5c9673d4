import Vax.Machine.Operand
/-!
# Packed decimal strings

A packed decimal string of `n` digits takes `n / 2 + 1` bytes.  The digits are
stored two to a byte, the most significant first, and the low half of the last
byte is the sign: 11 and 13 are negative, anything else is positive.

An edit pattern formats such a string as text.  Its operators move digits,
leaving blanks before the first significant one; a floating operator also
writes the sign in front of it.
-/

namespace Vax

namespace Packed

/-- The most digits of a string. -/
def maxDigits : Nat := 31

def signOf (isNegative : Bool) : UInt8 :=
  if isNegative then 13 else 12

def isNegative (last : UInt8) : Bool :=
  let sign := last.toNat % 16
  sign == 11 || sign == 13

end Packed

namespace Edit

inductive Operator where
  | finish
  /-- Writes the sign if no digit was significant so far, and makes the next
  digit significant. -/
  | endFloat
  /-- Moves digits; when floating, the sign goes before the first significant one. -/
  | moveDigits (count : Nat) (isFloating : Bool)
  deriving DecidableEq, Repr

def Operator.ofByte? (byte : UInt8) : Option Operator :=
  if byte = 0x00 then some .finish
  else if byte = 0x01 then some .endFloat
  else
    match byte.toNat / 16 with
    | 9 => some (.moveDigits (byte.toNat % 16) false)
    | 10 => some (.moveDigits (byte.toNat % 16) true)
    | _ => none

structure Progress where
  /-- The digits not yet read. -/
  remaining : Nat
  /-- The address of the byte that holds the next digit. -/
  source : UInt32
  pattern : UInt32
  destination : UInt32
  /-- Whether every digit read was zero. -/
  isZero : Bool
  /-- The source address at which digits became significant. -/
  significance : Option UInt32

def character (isSignificant : Bool) (digit : UInt8) : UInt8 :=
  if isSignificant then 0x30 + digit else 0x20

def signCharacter (isNegative : Bool) : UInt8 :=
  if isNegative then 0x2d else 0x20

end Edit

namespace Exec

/-- Stores zero bytes from an address on, one at a time. -/
def storeZeros : Nat → UInt32 → Exec Unit
  | 0, _ => return
  | count + 1, address => do
    writeByte address 0
    storeZeros count (address + 1)

/-- Stores up to `count` digits of `rest`, the least significant first, where
`isHigh` says that the next one goes to the high half of the byte at
`address`.  Leading zeros are not stored.  Gives the address of the last byte
that was stored to and the digits that did not fit. -/
def storeDigits : Nat → Bool → UInt32 → Nat → Exec (UInt32 × Nat)
  | 0, _, address, rest => return (address, rest)
  | count + 1, isHigh, address, rest =>
    if rest = 0 then
      return (address, 0)
    else if isHigh then do
      let byte ← readByte address
      writeByte address (byte ||| UInt8.ofNat (rest % 10 * 16))
      storeDigits count false address (rest / 10)
    else do
      writeByte (address - 1) (UInt8.ofNat (rest % 10))
      storeDigits count true (address - 1) (rest / 10)

def longToPacked (i : Instruction) : Exec Unit := do
  let (source, length, destination) ← locate3 i
  let value := (← read .long source).toInt
  let length := (← read .word length).toNat
  let address ← addressOf destination
  if Packed.maxDigits < length then
    reservedOperand i
  let last := address + UInt32.ofNat (length / 2)
  storeZeros (length / 2) address
  writeByte last (Packed.signOf (value < 0))
  let (first, rest) ← storeDigits length true last value.natAbs
  setRegister 0 0
  setRegister 1 0
  setRegister 2 0
  setRegister 3 first
  setFlags ⟨value < 0, value == 0, 0 < rest, false⟩

/-- Reads the next digit of an edit.  With an odd number of digits left it is
the high half of its byte. -/
def nextDigit (p : Edit.Progress) : Exec (UInt8 × Edit.Progress) := do
  if p.remaining = 0 then
    throw .decimalSourceExhausted
  let byte ← readByte p.source
  if p.remaining % 2 = 1 then
    return (byte / 16, { p with remaining := p.remaining - 1 })
  else
    return (byte % 16, { p with remaining := p.remaining - 1, source := p.source + 1 })

def emit (p : Edit.Progress) (character : UInt8) : Exec Edit.Progress := do
  writeByte p.destination character
  return { p with destination := p.destination + 1 }

def moveDigit (isFloating : Bool) (sign : UInt8) (p : Edit.Progress) : Exec Edit.Progress := do
  let start := p.source
  let (digit, p) ← nextDigit p
  let isZero := p.isZero && digit == 0
  let begins := digit != 0 && p.significance.isNone
  let p := { p with
    isZero := isZero
    significance := if begins then some start else p.significance }
  let p ← if begins && isFloating then emit p sign else pure p
  emit p (Edit.character p.significance.isSome digit)

def moveDigits (isFloating : Bool) (sign : UInt8) : Nat → Edit.Progress → Exec Edit.Progress
  | 0, p => return p
  | count + 1, p => do moveDigits isFloating sign count (← moveDigit isFloating sign p)

/-- Writes the sign unless a digit was significant already. -/
def endFloat (sign : UInt8) (p : Edit.Progress) : Exec Edit.Progress := do
  match p.significance with
  | some _ => return p
  | none => emit { p with significance := some p.source } sign

/-- Follows an edit pattern.  Each operator takes one byte of the pattern, so
there are no more of them than memory has bytes: a pattern without an end runs
off the image. -/
def followPattern (sign : UInt8) : Nat → Edit.Progress → Exec Edit.Progress
  | 0, p => throw (.memory ⟨p.pattern, 1⟩)
  | operators + 1, p => do
    let byte ← readByte p.pattern
    match Edit.Operator.ofByte? byte with
    | some .finish => return p
    | some .endFloat =>
      let p ← endFloat sign p
      followPattern sign operators { p with pattern := p.pattern + 1 }
    | some (.moveDigits count isFloating) =>
      let p ← moveDigits isFloating sign count p
      followPattern sign operators { p with pattern := p.pattern + 1 }
    | none => throw (.editPattern byte)

def editPacked (i : Instruction) : Exec Unit := do
  let (length, source, pattern, destination) ← locate4 i
  let length := (← read .word length).toNat
  let source ← addressOf source
  let pattern ← addressOf pattern
  let destination ← addressOf destination
  if Packed.maxDigits < length then
    reservedOperand i
  let isNegative := Packed.isNegative (← readByte (source + UInt32.ofNat (length / 2)))
  let operators := (← get).memory.size + 1
  let p ← followPattern (Edit.signCharacter isNegative) operators
    ⟨length, source, pattern, destination, true, none⟩
  setRegister 0 (UInt32.ofNat length)
  setRegister 1 (p.significance.getD 0)
  setRegister 2 0
  setRegister 3 p.pattern
  setRegister 4 0
  setRegister 5 p.destination
  setFlags ⟨isNegative && !p.isZero, p.isZero, p.remaining != 0, p.significance.isSome⟩

end Exec

end Vax
