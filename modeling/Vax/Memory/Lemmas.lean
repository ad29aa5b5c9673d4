import Vax.Memory
/-!
# What a store changes

An image is seen through `byteAt`.  A fresh image is zero everywhere, an image
of given bytes holds them from its base on, and `byteAt_patch` says that a
store replaces the bytes it covers and no other.
-/

namespace Vax

namespace Memory

@[simp] theorem length_bytesAt (m : Memory) (offset count : Nat) :
    (m.bytesAt offset count).length = count := by
  simp [bytesAt]

theorem byteAt_eq_getElem? (m : Memory) (offset : Nat) :
    m.byteAt offset = m.held.data.toList[offset]?.getD 0 := by
  unfold byteAt
  by_cases h : offset < m.held.size
  · have hdata : offset < m.held.data.size := h
    rw [getElem?_pos m.held offset h, Array.getElem?_toList, Array.getElem?_eq_getElem hdata]
    rfl
  · have hdata : m.held.data.size ≤ offset := Nat.le_of_not_lt h
    rw [getElem?_neg m.held offset h, Array.getElem?_toList, Array.getElem?_eq_none hdata]

theorem byteAt_ofBytes (base : UInt32) (bytes : List UInt8) (offset : Nat) :
    (ofBytes base bytes).byteAt offset = bytes[offset]?.getD 0 := by
  rw [byteAt_eq_getElem?, ofBytes, List.data_toByteArray]

theorem bytesAt_ofBytes (base : UInt32) (bytes : List UInt8) :
    (ofBytes base bytes).bytesAt 0 bytes.length = bytes := by
  apply List.ext_getElem (length_bytesAt _ _ _)
  intro i hi hi'
  simp [bytesAt, byteAt_ofBytes, hi']

theorem toList_heldUpTo (m : Memory) (offset : Nat) :
    (m.heldUpTo offset).data.toList =
      m.held.data.toList ++ List.replicate (offset - m.held.size) 0 := by
  unfold heldUpTo
  split
  · simp
  · next h =>
    rw [Nat.sub_eq_zero_of_le (Nat.le_of_not_lt h)]
    simp

theorem toList_patch (m : Memory) (offset : Nat) (bytes : List UInt8) :
    (m.patch offset bytes).held.data.toList =
      (m.heldUpTo offset).data.toList.take offset ++ bytes ++
        (m.heldUpTo offset).data.toList.drop (offset + bytes.length) := by
  have hrest : ((m.heldUpTo offset).data.toList.drop (offset + bytes.length)).length ≤
      (m.heldUpTo offset).size - (offset + bytes.length) := by
    rw [List.length_drop]
    exact Nat.le_refl _
  simp [patch, ByteArray.copySlice, List.extract, List.take_of_length_le hrest]

/-- A patch replaces the bytes it covers and no other. -/
theorem byteAt_patch (m : Memory) (offset k : Nat) (bytes : List UInt8) :
    (m.patch offset bytes).byteAt k =
      if offset ≤ k ∧ k < offset + bytes.length then bytes[k - offset]?.getD 0
      else m.byteAt k := by
  have hlen : offset ≤ (m.heldUpTo offset).data.toList.length := by
    have hheld : m.held.data.toList.length = m.held.size := rfl
    rw [toList_heldUpTo, List.length_append, List.length_replicate]
    omega
  have hold : m.byteAt k = (m.heldUpTo offset).data.toList[k]?.getD 0 := by
    rw [byteAt_eq_getElem?, toList_heldUpTo]
    by_cases hk : k < m.held.data.toList.length
    · rw [List.getElem?_append_left hk]
    · rw [List.getElem?_append_right (Nat.le_of_not_lt hk), List.getElem?_replicate,
        List.getElem?_eq_none (Nat.le_of_not_lt hk)]
      split <;> rfl
  rw [byteAt_eq_getElem?, toList_patch, hold]
  generalize (m.heldUpTo offset).data.toList = held at hlen
  have htake : (held.take offset).length = offset := by
    rw [List.length_take]
    omega
  by_cases hlow : k < offset
  · rw [if_neg (by omega), List.append_assoc, List.getElem?_append_left (by omega),
      List.getElem?_take_of_lt hlow]
  · by_cases hhigh : k < offset + bytes.length
    · rw [if_pos ⟨by omega, hhigh⟩, List.append_assoc,
        List.getElem?_append_right (by omega), htake, List.getElem?_append_left (by omega)]
    · rw [if_neg (by omega), List.getElem?_append_right (by rw [List.length_append]; omega),
        List.length_append, htake, List.getElem?_drop]
      congr 2
      omega

end Memory

end Vax
