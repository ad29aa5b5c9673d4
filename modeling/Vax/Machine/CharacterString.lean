import Vax.Machine.Operand
/-!
# Character strings
-/

namespace Vax

namespace Exec

/-- The number of bytes left, at most `remaining`, where the first match is
found, and the address there.  Bytes behind the match are not read. -/
def scanFrom (character : UInt8) (forEqual : Bool) : Nat → UInt32 → Exec (Nat × UInt32)
  | 0, address => return (0, address)
  | remaining + 1, address => do
    let byte ← readByte address
    if (byte == character) == forEqual then
      return (remaining + 1, address)
    else
      scanFrom character forEqual remaining (address + 1)

/-- Finds the first byte that equals a character, or differs from it. -/
def scan (i : Instruction) (forEqual : Bool) : Exec Unit := do
  let (character, length, address) ← locate3 i
  let character ← read .byte character
  let length ← read .word length
  let address ← addressOf address
  let (remaining, found) ← scanFrom (UInt8.ofBitVec character) forEqual length.toNat address
  setRegister 0 (UInt32.ofNat remaining)
  setRegister 1 found
  setFlags ⟨false, remaining == 0, false, false⟩

/-- Copies a string, which may overlap its destination. -/
def copyString (i : Instruction) : Exec Unit := do
  let (length, source, destination) ← locate3 i
  let length := (← read .word length).toNat
  let source ← addressOf source
  let destination ← addressOf destination
  let bytes ← access ((← get).memory.slice source length)
  store destination bytes
  setRegister 0 0
  setRegister 1 (source + UInt32.ofNat length)
  setRegister 2 0
  setRegister 3 (destination + UInt32.ofNat length)
  setRegister 4 0
  setRegister 5 0
  setFlags ⟨false, true, false, false⟩

end Exec

end Vax
