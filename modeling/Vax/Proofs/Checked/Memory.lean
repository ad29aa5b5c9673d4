import Vax.Proofs.Checked.Arithmetic
import Vax.Proofs.Checked.Computation
import Vax.Proofs.Memory.Fields
/-!
# Memory accesses that can fail

An access that has been let through takes a part of the image by its two ends,
which must be in order and inside it, and a copy must be as long as what it
replaces.  Numbers are put together a byte at a time.
-/

namespace Vax

namespace Checked

/-- An access to memory that gives nothing where its arithmetic fails. -/
abbrev Access (α : Type) : Type :=
  ExceptT OutOfRange Option α

/-- The bytes from one offset to another. -/
def part (m : Memory) (start stop : Nat) : Option (List UInt8) :=
  if start ≤ stop ∧ stop ≤ m.size then some (m.bytesAt start (stop - start)) else none

/-- The image with the bytes from one offset to another replaced. -/
def overwrite (m : Memory) (start stop : Nat) (bytes : List UInt8) : Option Memory :=
  if start ≤ stop ∧ stop ≤ m.size ∧ bytes.length = stop - start then some (m.patch start bytes)
  else none

/-- The first `length` of some bytes. -/
def front (bytes : List UInt8) (length : Nat) : Option (List UInt8) :=
  if length ≤ bytes.length then some (bytes.take length) else none

/-- The number that the bytes make up, the last one first. -/
def number (bits : Nat) : List UInt8 → Option Nat
  | [] => some 0
  | byte :: rest => do
    let high ← shiftLeft bits (← number bits rest) 8
    return high ||| byte.toNat

theorem number_eq {bits : Nat} (hbits : 8 < bits) (bytes : List UInt8)
    (h : 8 * bytes.length ≤ bits) : number bits bytes = some (LittleEndian.ofBytes bytes) := by
  induction bytes with
  | nil => rfl
  | cons byte rest ih =>
    rw [List.length_cons] at h
    have hrest := LittleEndian.ofBytes_lt rest
    have hpow : 256 ^ rest.length * 256 ≤ 2 ^ bits := by
      have h256 : 256 ^ (rest.length + 1) = 2 ^ (8 * (rest.length + 1)) := (Nat.pow_mul 2 8 _).symm
      rw [← Nat.pow_succ, Nat.succ_eq_add_one, h256]
      exact Nat.pow_le_pow_right (by decide) h
    have hfits : LittleEndian.ofBytes rest * 2 ^ 8 < 2 ^ bits := by omega
    have hor : LittleEndian.ofBytes rest * 2 ^ 8 ||| byte.toNat =
        byte.toNat + 256 * LittleEndian.ofBytes rest := by
      rw [Nat.mul_comm, ← Nat.two_pow_add_eq_or_of_lt byte.toNat_lt, Nat.add_comm]
    refine bind_eq_some (ih (by omega)) <| bind_eq_some (if_pos hbits) ?_
    rw [Nat.mod_eq_of_lt hfits, hor]
    rfl

theorem front_toBytes {length count : Nat} (h : length ≤ count) (value : Nat) :
    front (LittleEndian.toBytes count value) length =
      some (LittleEndian.toBytes length value) := by
  rw [front, LittleEndian.length_toBytes, if_pos h, LittleEndian.take_toBytes h]

namespace Access

def slice (m : Memory) (address : UInt32) (length : Nat) : Access (List UInt8) :=
  if m.contains address length then
    liftM (part m (m.offset address) (m.offset address + length))
  else
    throw ⟨address, length⟩

/-- Stores bytes where `length` bytes are. -/
def store (m : Memory) (address : UInt32) (length : Nat) (bytes : List UInt8) : Access Memory :=
  if m.contains address length then
    liftM (overwrite m (m.offset address) (m.offset address + length) bytes)
  else
    throw ⟨address, length⟩

/-- Reads a number with shifts, in as many bits as are given. -/
def readNat (bits : Nat) (m : Memory) (address : UInt32) (length : Nat) : Access Nat := do
  number bits (← slice m address length)

/-- Reads a number of a size of its own, whose bytes are taken as they are. -/
def readAs {α : Type} (ofNat : Nat → α) (m : Memory) (address : UInt32) (length : Nat) :
    Access α := do
  return ofNat (LittleEndian.ofBytes (← slice m address length))

/-- Stores the low bytes of a 64-bit number. -/
def writeNat (m : Memory) (address : UInt32) (length value : Nat) : Access Memory := do
  store m address length (← front (LittleEndian.toBytes 8 value) (min length 8))

theorem follows_slice (m : Memory) (address : UInt32) (length : Nat) :
    Follows id (slice m address length) (m.slice address length) := by
  unfold slice Memory.slice
  split
  · next hin =>
    have hle : m.offset address + length ≤ m.size := of_decide_eq_true hin
    rw [part, if_pos ⟨Nat.le_add_right _ _, hle⟩, Nat.add_sub_cancel_left]
    rfl
  · rfl

theorem follows_store (m : Memory) (address : UInt32) {length : Nat} {bytes : List UInt8}
    (hlength : bytes.length = length) :
    Follows id (store m address length bytes) (m.store address bytes) := by
  subst hlength
  unfold store Memory.store
  split
  · next hin =>
    have hle : m.offset address + bytes.length ≤ m.size := of_decide_eq_true hin
    rw [overwrite, if_pos ⟨Nat.le_add_right _ _, hle, (Nat.add_sub_cancel_left ..).symm⟩]
    rfl
  · rfl

theorem follows_readNat {bits length : Nat} (hbits : 8 < bits) (hlength : 8 * length ≤ bits)
    (m : Memory) (address : UInt32) :
    Follows id (readNat bits m address length) (m.readNat address length) := by
  have hfollows : slice m address length = id <$> liftM (m.slice address length) :=
    follows_slice m address length
  rw [Follows, readNat, hfollows, Memory.readNat]
  cases hslice : m.slice address length with
  | error e => rfl
  | ok bytes =>
    have hnumber : number bits bytes = some (LittleEndian.ofBytes bytes) :=
      number_eq hbits bytes (by rwa [Memory.length_of_slice hslice])
    change (liftM (number bits bytes) : Access Nat) = _
    rw [hnumber]
    rfl

theorem follows_readAs {α : Type} (ofNat : Nat → α) (m : Memory) (address : UInt32)
    (length : Nat) :
    Follows id (readAs ofNat m address length) ((m.readNat address length).map ofNat) := by
  have hfollows : slice m address length = id <$> liftM (m.slice address length) :=
    follows_slice m address length
  rw [Follows, readAs, hfollows, Memory.readNat]
  cases m.slice address length <;> rfl

theorem follows_writeNat {length : Nat} (hlength : length ≤ 8) (m : Memory) (address : UInt32)
    (value : Nat) :
    Follows id (writeNat m address length value)
      (m.store address (LittleEndian.toBytes length value)) := by
  rw [writeNat, Nat.min_eq_left hlength]
  exact .compute (front_toBytes hlength value)
    (follows_store m address (LittleEndian.length_toBytes length value))

end Access

end Checked

end Vax
