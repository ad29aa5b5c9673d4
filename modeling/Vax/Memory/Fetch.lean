import Vax.Memory
/-!
# Reading an instruction stream

A fetch reads at a position in memory and moves the position past what it
read.  A fetch that fails has no position to go on from.
-/

namespace Vax

/-- A computation over a moving position. -/
abbrev Fetch (α : Type) : Type :=
  StateT UInt32 (Except OutOfRange) α

namespace Fetch

/-- The address of the next byte. -/
def position : Fetch UInt32 :=
  get

def number (m : Memory) (length : Nat) : Fetch Nat := fun position => do
  let value ← m.readNat position length
  return (value, position + UInt32.ofNat length)

def byte (m : Memory) : Fetch UInt8 :=
  UInt8.ofNat <$> number m 1

def long (m : Memory) : Fetch UInt32 :=
  UInt32.ofNat <$> number m 4

/-- Fetches a signed displacement of one byte, of two, or for any other length
of four. -/
def displacement (m : Memory) (length : Nat) : Fetch Int :=
  match length with
  | 1 => (fun n => (BitVec.ofNat 8 n).toInt) <$> number m 1
  | 2 => (fun n => (BitVec.ofNat 16 n).toInt) <$> number m 2
  | _ => (fun n => (BitVec.ofNat 32 n).toInt) <$> number m 4

end Fetch

end Vax
