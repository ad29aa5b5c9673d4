import Mathlib.Algebra.BigOperators.Ring.Finset
import Vax.Memory.Accessors
import Vax.Proofs.Memory.Bytes
/-!
# An image as a byte map

An image is seen as a map from addresses to bytes with a base and a size.  On
the map a number is the sum of its bytes times the powers of 256, and a store
replaces the bytes from an address on.  The accessors reach the same numbers in
three ways: as a whole, gathered byte by byte with shifts, and as the first of
the bytes of a longer number.
-/

namespace Vax

namespace LittleEndian

/-- Byte `i` of a number. -/
def digit (value i : Nat) : UInt8 :=
  UInt8.ofNat (value / 256 ^ i)

/-- A row of bytes counts each of them by its power of 256. -/
theorem ofBytes_map_range (f : Nat → UInt8) (n : Nat) :
    ofBytes ((List.range n).map f) = ∑ i ∈ Finset.range n, (f i).toNat * 256 ^ i := by
  induction n generalizing f with
  | zero => rfl
  | succ n ih =>
    have hrest : ofBytes ((List.range n).map (f ∘ Nat.succ)) =
        ∑ i ∈ Finset.range n, (f (i + 1)).toNat * 256 ^ i := ih _
    have hshift : ∀ i ∈ Finset.range n, (f (i + 1)).toNat * 256 ^ (i + 1) =
        256 * ((f (i + 1)).toNat * 256 ^ i) := by
      intro i _
      rw [Nat.pow_succ', Nat.mul_left_comm]
    rw [List.range_succ_eq_map, List.map_cons, List.map_map, ofBytes, hrest,
      Finset.sum_range_succ', Finset.sum_congr rfl hshift, ← Finset.mul_sum, Nat.pow_zero,
      Nat.mul_one, Nat.add_comm]

/-- Bytes shifted in one by one make up the number that they are the bytes of. -/
theorem gather_eq (bits : Nat) (bytes : List UInt8) :
    gather bits bytes = BitVec.ofNat bits (ofBytes bytes) := by
  rw [gather, List.foldl_reverse]
  induction bytes with
  | nil => rfl
  | cons byte rest ih =>
    have hbyte (i : Nat) : byte.toBitVec.getLsbD i = byte.toNat.testBit i := rfl
    rw [List.foldr_cons, ih, ofBytes, Nat.add_comm]
    apply BitVec.eq_of_getLsbD_eq
    intro i hi
    have hsum := Nat.testBit_two_pow_mul_add (ofBytes rest) byte.toNat_lt i
    rw [BitVec.getLsbD_or, BitVec.getLsbD_shiftLeft, BitVec.getLsbD_setWidth, BitVec.getLsbD_ofNat,
      BitVec.getLsbD_ofNat, hsum, hbyte]
    -- The shift has left the low eight bits to the new byte.
    by_cases hlow : i < 8
    · simp [hi, hlow]
    · have hhigh : byte.toNat.testBit i = false :=
        Nat.testBit_lt_two_pow (Nat.lt_of_lt_of_le byte.toNat_lt
          (Nat.pow_le_pow_right (by decide) (Nat.le_of_not_lt hlow)))
      simp [hi, hlow, hhigh]
      omega

end LittleEndian

/-- A byte at every address, of which the `size` from `base` on can be
accessed. -/
structure ByteMap where
  base : UInt32
  size : Nat
  byte : UInt32 → UInt8

namespace ByteMap

variable {α : Type} (b : ByteMap) (address : UInt32) (length : Nat)

/-- The number in the `length` bytes from `address` on, the lowest first. -/
def number : Nat :=
  ∑ i ∈ Finset.range length, (b.byte (address + UInt32.ofNat i)).toNat * 256 ^ i

def bytes : List UInt8 :=
  (List.range length).map fun i => b.byte (address + UInt32.ofNat i)

/-- The map with `content i` in the place `i` bytes on from `address`, for each of `length`. -/
def replace (content : Nat → UInt8) : ByteMap :=
  { b with byte := fun other =>
      if other ∈ area address length then content (other - address).toNat else b.byte other }

/-- The result of an access that is in range, or the refusal of one that is not. -/
def guarded (result : α) : Except OutOfRange α :=
  if (address - b.base).toNat + length ≤ b.size then .ok result else .error ⟨address, length⟩

variable {b address length}

theorem map_guarded {β : Type} (f : α → β) (result : α) :
    (b.guarded address length result).map f = b.guarded address length (f result) := by
  unfold guarded
  split <;> rfl

theorem number_eq : b.number address length = LittleEndian.ofBytes (b.bytes address length) :=
  (LittleEndian.ofBytes_map_range _ length).symm

theorem number_lt : b.number address length < 256 ^ length := by
  have hlt := LittleEndian.ofBytes_lt (b.bytes address length)
  rwa [← number_eq, bytes, List.length_map, List.length_range] at hlt

end ByteMap

namespace Memory

variable {m : Memory} {address : UInt32} {length : Nat} {bytes : List UInt8}

/-- The image as a map from addresses to bytes. -/
def byteMap (m : Memory) : ByteMap :=
  ⟨m.base, m.size, fun address => m.byteAt (m.offset address)⟩

/-! ## Slices and stores -/

theorem slice_eq (hsize : m.size ≤ 2 ^ 32) (address : UInt32) (length : Nat) :
    m.slice address length =
      m.byteMap.guarded address length (m.byteMap.bytes address length) := by
  unfold ByteMap.guarded
  split
  · next hin =>
    have hend : m.offset address + length ≤ m.size := hin
    have hbytes : m.bytesAt (m.offset address) length = m.byteMap.bytes address length := by
      apply List.map_congr_left
      intro i hi
      have hlt := List.mem_range.1 hi
      change _ = m.byteAt (m.offset (address + UInt32.ofNat i))
      rw [offset_add, Nat.mod_eq_of_lt (by omega)]
    exact slice_eq_ok_iff.2 ⟨hend, hbytes.symm⟩
  · next hout => exact slice_eq_error (Nat.lt_of_not_le hout)

theorem readNat_eq (hsize : m.size ≤ 2 ^ 32) (address : UInt32) (length : Nat) :
    m.readNat address length =
      m.byteMap.guarded address length (m.byteMap.number address length) := by
  rw [readNat, slice_eq hsize, ByteMap.map_guarded, ByteMap.number_eq]

/-- Gathering the bytes gives what taking them as a whole does. -/
theorem readUInt_eq (m : Memory) (address : UInt32) (length : Nat) :
    m.readUInt address length = (m.readNat address length).map UInt64.ofNat := by
  rw [readUInt, readNat]
  cases m.slice address length with
  | error e => rfl
  | ok bytes =>
    have hgather := congrArg UInt64.ofBitVec (LittleEndian.gather_eq 64 bytes)
    exact congrArg Except.ok hgather

theorem run_wide (m : Memory) (length : Nat) (position : UInt32) :
    (Fetch.wide m length).run position = (m.readNat position length).map fun n =>
      (BitVec.ofNat 128 n, position + UInt32.ofNat length) := by
  change (m.slice position length >>= _) = _
  rw [readNat]
  cases m.slice position length with
  | error e => rfl
  | ok bytes =>
    change Except.ok (LittleEndian.gather 128 bytes, _) = _
    rw [LittleEndian.gather_eq]
    rfl

end Memory

end Vax
