/-!
# UTF-8 text held as bytes

`encode` gives the bytes of a text.  `decode` reads any bytes at all: what is
not UTF-8 becomes U+FFFD, one for each longest run of bytes that begins a
character without completing it.  The decoder is a machine fed one byte at a
time; `Pending` is what it holds inside a character.
-/

namespace Vax.Utf8

/-- A character whose first bytes have been read. -/
structure Pending where
  missing : Nat
  /-- The least byte that may come next. -/
  low : UInt8
  /-- The greatest byte that may come next. -/
  high : UInt8
  bits : Nat

/-- The character that stands for bytes that are no text. -/
def replacement : Char := '\uFFFD'

/-- Reads the first byte of a character.  The ranges exclude overlong forms,
surrogates and everything above U+10FFFF. -/
def lead (byte : UInt8) : List Char × Option Pending :=
  let b := byte.toNat
  if b < 0x80 then ([Char.ofNat b], none)
  else if b < 0xc2 then ([replacement], none)
  else if b < 0xe0 then ([], some ⟨1, 0x80, 0xbf, b % 32⟩)
  else if b = 0xe0 then ([], some ⟨2, 0xa0, 0xbf, 0⟩)
  else if b = 0xed then ([], some ⟨2, 0x80, 0x9f, 13⟩)
  else if b < 0xf0 then ([], some ⟨2, 0x80, 0xbf, b % 16⟩)
  else if b = 0xf0 then ([], some ⟨3, 0x90, 0xbf, 0⟩)
  else if b < 0xf4 then ([], some ⟨3, 0x80, 0xbf, b % 8⟩)
  else if b = 0xf4 then ([], some ⟨3, 0x80, 0x8f, 4⟩)
  else ([replacement], none)

/-- Reads one byte: the characters it completes, and what is pending after it.
A byte that cannot continue the pending character ends it and starts afresh. -/
def feed (pending : Option Pending) (byte : UInt8) : List Char × Option Pending :=
  match pending with
  | none => lead byte
  | some p =>
    if p.low ≤ byte ∧ byte ≤ p.high then
      let bits := p.bits * 64 + byte.toNat % 64
      if p.missing ≤ 1 then ([Char.ofNat bits], none)
      else ([], some ⟨p.missing - 1, 0x80, 0xbf, bits⟩)
    else
      let (chars, next) := lead byte
      (replacement :: chars, next)

/-- The characters read from `bytes` when `pending` came before them. -/
def decodeFrom (pending : Option Pending) : List UInt8 → List Char
  | [] => if pending.isSome then [replacement] else []
  | byte :: rest =>
    let (chars, next) := feed pending byte
    chars ++ decodeFrom next rest

/-- The text that `bytes` hold, with U+FFFD for what is not UTF-8. -/
def decode (bytes : List UInt8) : String :=
  String.ofList (decodeFrom none bytes)

def encode (text : String) : List UInt8 :=
  text.toList.flatMap String.utf8EncodeChar

end Vax.Utf8
