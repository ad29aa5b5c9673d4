import Vax.Memory.Fetch
/-!
# Accessors of every width

A number of a fixed width is taken from its bytes, and put into them, as a
whole.  One whose length is known only at run time is gathered from its bytes
one after the other, the last one first, and is stored as the first of the
bytes that it has at its full width.
-/

namespace Vax

/-- Shifts the bytes into a number of `bits` bits, the last one first. -/
def LittleEndian.gather (bits : Nat) (bytes : List UInt8) : BitVec bits :=
  bytes.reverse.foldl (fun number byte => number <<< 8 ||| byte.toBitVec.setWidth bits) 0

namespace Memory

def readQuad (m : Memory) (address : UInt32) : Except OutOfRange UInt64 :=
  (m.readNat address 8).map UInt64.ofNat

def readOcta (m : Memory) (address : UInt32) : Except OutOfRange (BitVec 128) :=
  (m.readNat address 16).map (BitVec.ofNat 128)

def writeWord (m : Memory) (address : UInt32) (value : UInt16) : Except OutOfRange Memory :=
  m.writeNat address 2 value.toNat

def writeQuad (m : Memory) (address : UInt32) (value : UInt64) : Except OutOfRange Memory :=
  m.writeNat address 8 value.toNat

def writeOcta (m : Memory) (address : UInt32) (value : BitVec 128) : Except OutOfRange Memory :=
  m.writeNat address 16 value.toNat

/-- Reads the number in `length` bytes, at most eight. -/
def readUInt (m : Memory) (address : UInt32) (length : Nat) : Except OutOfRange UInt64 :=
  (m.slice address length).map fun bytes => UInt64.ofBitVec (LittleEndian.gather 64 bytes)

/-- Stores the low `length` bytes of `value`, at most eight. -/
def writeUInt (m : Memory) (address : UInt32) (length : Nat) (value : UInt64) :
    Except OutOfRange Memory :=
  if m.contains address length then
    .ok (m.patch (m.offset address) ((LittleEndian.toBytes 8 value.toNat).take length))
  else
    .error ⟨address, length⟩

end Memory

/-- Fetches the number in `length` bytes, at most sixteen. -/
def Fetch.wide (m : Memory) (length : Nat) : Fetch (BitVec 128) := fun position => do
  let bytes ← m.slice position length
  return (LittleEndian.gather 128 bytes, position + UInt32.ofNat length)

end Vax
