import Vax.Machine.Control
/-!
# Bit fields

A field is named by a base and a signed bit position.  When the base is a
register the field lies in that register and the next, and the position must
lie in the first.  Otherwise the base is an address, from which the position
reaches any bit of memory.
-/

namespace Vax

namespace Exec

/-- The address of the byte that holds a bit. -/
def byteOfBit (base : UInt32) (position : Int) : UInt32 :=
  base + UInt32.ofInt (position / 8)

/-- The place of a bit in its byte. -/
def placeInByte (position : Int) : Nat :=
  (position % 8).toNat

theorem placeInByte_lt (position : Int) : placeInByte position < 8 := by
  rw [placeInByte]
  omega

/-- A bit position in a register. -/
def registerPosition (i : Instruction) (position : Int) : Exec Nat :=
  if 0 ≤ position ∧ position < 32 then pure position.toNat else reservedOperand i

def withBit {n : Nat} (value : BitVec n) (position : Nat) (set : Bool) : BitVec n :=
  if set then value ||| BitVec.twoPow n position else value &&& ~~~BitVec.twoPow n position

def readBit (i : Instruction) (position : Int) : Location → Exec Bool
  | .register r => do
    let position ← registerPosition i position
    return (← getRegister r).toBitVec.getLsbD position
  | base => do
    let byte ← readByte (byteOfBit (← addressOf base) position)
    return byte.toBitVec.getLsbD (placeInByte position)

def writeBit (i : Instruction) (position : Int) (set : Bool) : Location → Exec Unit
  | .register r => do
    let position ← registerPosition i position
    let value ← getRegister r
    setRegister r (UInt32.ofBitVec (withBit value.toBitVec position set))
  | base => do
    let address := byteOfBit (← addressOf base) position
    let byte ← readByte address
    writeByte address (UInt8.ofBitVec (withBit byte.toBitVec (placeInByte position) set))

/-- Tests a bit, gives it its new value if there is one, and branches on what
it was. -/
def branchOnBit (i : Instruction) (onSet : Bool) (update : Option Bool) : Exec Unit := do
  let (position, base, target) ← locate3 i
  let position := (← read .long position).toInt
  let wasSet ← readBit i position base
  match update with
  | some set => writeBit i position set base
  | none => pure ()
  branchTo target (wasSet == onSet)

/-- Reads the field of `size` bits, at most 32, with zeros above it.  A field
without bits is zero wherever it is said to be. -/
def readField (i : Instruction) (position : Int) (size : Nat) (base : Location) : Exec Nat := do
  if size = 0 then
    return 0
  match base with
  | .register r =>
    let position ← registerPosition i position
    let pair := (← get).registers.pair r
    return pair.toNat / 2 ^ position % 2 ^ size
  | base =>
    let address := byteOfBit (← addressOf base) position
    let place := placeInByte position
    let value ← readNat address ((place + size + 7) / 8)
    return value / 2 ^ place % 2 ^ size

/-- Extracts a field of up to 32 bits, extended by its sign or by zeros. -/
def extractField (i : Instruction) (isSigned : Bool) : Exec Unit := do
  let (position, size, base, destination) ← locate4 i
  let position := (← read .long position).toInt
  let size := (← read .byte size).toNat
  if 32 < size then
    reservedOperand i
  let field ← readField i position size base
  let value : BitVec 32 :=
    if isSigned then (BitVec.ofNat size field).signExtend 32 else BitVec.ofNat 32 field
  write .long value destination
  setResult value false (some false)

end Exec

end Vax
