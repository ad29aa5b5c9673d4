import Vax.ByteOrder
import Vax.Text.Number
import Vax.Text.Utf8
/-!
# The memory image

Memory covers `size` consecutive addresses from `base` on, modulo 2^32.
Only the part that has been stored to is held; everything past it reads as
zero, so a fresh image of any size costs nothing.  Every access either lies
in the image as a whole or fails as a whole, and the view `byteAt` says what
each of them reads and changes.
-/

namespace Vax

/-- An access that fell, at least partly, outside the image. -/
structure OutOfRange where
  address : UInt32
  length : Nat
  deriving DecidableEq, Repr

def OutOfRange.message (e : OutOfRange) : String :=
  toString e.length ++ "-byte access at " ++ Text.hexLong e.address ++ " is out of range"

structure Memory where
  base : UInt32
  size : Nat
  /-- The bytes held so far; the rest of the image is zero. -/
  held : ByteArray

namespace Memory

def zeroed (base : UInt32) (size : Nat) : Memory :=
  ⟨base, size, ByteArray.empty⟩

/-- The image that holds exactly `bytes`. -/
def ofBytes (base : UInt32) (bytes : List UInt8) : Memory :=
  ⟨base, bytes.length, bytes.toByteArray⟩

/-- One past the highest address, modulo 2^32. -/
def top (m : Memory) : UInt32 :=
  m.base + UInt32.ofNat m.size

/-- How far `address` lies from the base. -/
def offset (m : Memory) (address : UInt32) : Nat :=
  (address - m.base).toNat

/-- The byte at an offset from the base. -/
def byteAt (m : Memory) (offset : Nat) : UInt8 :=
  m.held[offset]?.getD 0

/-- The `count` bytes from an offset on. -/
def bytesAt (m : Memory) (offset count : Nat) : List UInt8 :=
  (List.range count).map fun i => m.byteAt (offset + i)

def toList (m : Memory) : List UInt8 :=
  m.bytesAt 0 m.size

/-- Whether `length` bytes at `address` lie in the image. -/
def contains (m : Memory) (address : UInt32) (length : Nat) : Bool :=
  m.offset address + length ≤ m.size

/-- The bytes held, with zeros up to `offset`. -/
def heldUpTo (m : Memory) (offset : Nat) : ByteArray :=
  if m.held.size < offset then
    m.held ++ ⟨Array.replicate (offset - m.held.size) 0⟩
  else
    m.held

/-- The image with the bytes from an offset on replaced by `bytes`. -/
def patch (m : Memory) (offset : Nat) (bytes : List UInt8) : Memory :=
  let held := m.heldUpTo offset
  ⟨m.base, m.size, bytes.toByteArray.copySlice 0 held offset bytes.length⟩

def slice (m : Memory) (address : UInt32) (length : Nat) : Except OutOfRange (List UInt8) :=
  if m.contains address length then
    .ok (m.bytesAt (m.offset address) length)
  else
    .error ⟨address, length⟩

def store (m : Memory) (address : UInt32) (bytes : List UInt8) : Except OutOfRange Memory :=
  if m.contains address bytes.length then
    .ok (m.patch (m.offset address) bytes)
  else
    .error ⟨address, bytes.length⟩

def readNat (m : Memory) (address : UInt32) (length : Nat) : Except OutOfRange Nat :=
  (m.slice address length).map LittleEndian.ofBytes

/-- Stores the low `length` bytes of `value`. -/
def writeNat (m : Memory) (address : UInt32) (length value : Nat) : Except OutOfRange Memory :=
  m.store address (LittleEndian.toBytes length value)

def readByte (m : Memory) (address : UInt32) : Except OutOfRange UInt8 :=
  (m.readNat address 1).map UInt8.ofNat

def readWord (m : Memory) (address : UInt32) : Except OutOfRange UInt16 :=
  (m.readNat address 2).map UInt16.ofNat

def readLong (m : Memory) (address : UInt32) : Except OutOfRange UInt32 :=
  (m.readNat address 4).map UInt32.ofNat

def writeByte (m : Memory) (address : UInt32) (value : UInt8) : Except OutOfRange Memory :=
  m.store address [value]

def writeLong (m : Memory) (address : UInt32) (value : UInt32) : Except OutOfRange Memory :=
  m.writeNat address 4 value.toNat

def readText (m : Memory) (address : UInt32) (length : Nat) : Except OutOfRange String :=
  (m.slice address length).map Utf8.decode

def describe (m : Memory) : String :=
  "Memory \x7b base: 0x" ++ Text.hexLong m.base ++ ", size: " ++ toString m.size ++ " \x7d"

end Memory

end Vax
