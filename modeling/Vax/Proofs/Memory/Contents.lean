import Vax.Proofs.Memory.Stores
/-!
# An image as one run of bytes

`Image base bytes` says that an image begins at `base`, holds exactly `bytes`
and is smaller than the address space.  A store replaces as many bytes of the
run as it has, and a slice cuts a piece out of it.
-/

namespace Vax.Memory

/-- The image begins at `base` and holds exactly `bytes`, fewer than there are
addresses. -/
structure Image (m : Memory) (base : UInt32) (bytes : List UInt8) : Prop where
  base_eq : m.base = base
  toList_eq : m.toList = bytes
  size_lt : m.size < 2 ^ 32

@[simp] theorem length_toList (m : Memory) : m.toList.length = m.size :=
  length_bytesAt m 0 m.size

theorem getElem_toList (m : Memory) {i : Nat} (h : i < m.toList.length) :
    m.toList[i] = m.byteAt i := by
  simp [toList, bytesAt]

theorem getElem?_toList (m : Memory) {i : Nat} (h : i < m.size) :
    m.toList[i]? = some (m.byteAt i) := by
  rw [List.getElem?_eq_getElem (by rwa [length_toList]), getElem_toList]

theorem image_zeroed (base : UInt32) {size : Nat} (hsize : size < 2 ^ 32) :
    (zeroed base size).Image base (List.replicate size 0) := by
  refine ⟨rfl, ?_, hsize⟩
  apply List.ext_getElem (by simp [zeroed])
  intro i hi hi'
  rw [getElem_toList, List.getElem_replicate, byteAt_eq_getElem?]
  rfl

namespace Image

variable {m : Memory} {base address : UInt32} {front old rest bytes : List UInt8} {n : Nat}

theorem size_eq (h : m.Image base bytes) : m.size = bytes.length := by
  rw [← h.toList_eq, length_toList]

theorem top_eq (h : m.Image base bytes) (hn : m.size = n) : m.top = base + UInt32.ofNat n := by
  rw [top, h.base_eq, hn]

theorem getElem?_eq (h : m.Image base bytes) {i : Nat} (hi : i < bytes.length) :
    bytes[i]? = some (m.byteAt i) := by
  rw [← h.toList_eq, getElem?_toList m (by rwa [h.size_eq])]

theorem offset_eq (h : m.Image base bytes) {n : Nat} (hn : n < 2 ^ 32) :
    m.offset (base + UInt32.ofNat n) = n := by
  rw [offset_add, offset_of_base h.base_eq, Nat.zero_add, Nat.mod_eq_of_lt hn]

/-- A store puts its bytes in the place of as many others. -/
theorem store (bytes : List UInt8) (h : m.Image base (front ++ (old ++ rest)))
    (haddress : address = base + UInt32.ofNat n) (hn : front.length = n)
    (hlength : bytes.length = old.length) :
    ∃ m', m.store address bytes = .ok m' ∧ m'.Image base (front ++ (bytes ++ rest)) := by
  subst hn
  have hsize : m.size = front.length + (old.length + rest.length) := by
    rw [h.size_eq, List.length_append, List.length_append]
  have hlt := h.size_lt
  have hoffset : m.offset address = front.length := by rw [haddress, h.offset_eq (by omega)]
  refine ⟨m.patch front.length bytes, store_eq_ok_iff.2 ⟨by omega, by rw [hoffset]⟩, h.base_eq, ?_,
    hlt⟩
  have hpatched : (m.patch front.length bytes).size = m.size := rfl
  apply List.ext_getElem?
  intro i
  by_cases hi : i < m.size
  case neg =>
    rw [List.getElem?_eq_none (by rw [length_toList, hpatched]; omega),
      List.getElem?_eq_none (by simp only [List.length_append]; omega)]
  have hold : (front ++ (old ++ rest))[i]? = some (m.byteAt i) :=
    h.getElem?_eq (by rwa [← h.size_eq])
  rw [getElem?_toList (m.patch front.length bytes) hi, byteAt_patch]
  by_cases hbefore : i < front.length
  · rw [if_neg (by omega), ← hold, List.getElem?_append_left hbefore,
      List.getElem?_append_left hbefore]
  have hin := Nat.not_lt.1 hbefore
  by_cases hinside : i < front.length + bytes.length
  · rw [if_pos ⟨hin, hinside⟩, List.getElem?_append_right hin, List.getElem?_append_left (by omega),
      List.getElem?_eq_getElem (by omega), Option.getD_some]
  · rw [if_neg (by omega), ← hold, List.getElem?_append_right hin, List.getElem?_append_right hin,
      List.getElem?_append_right (by omega), List.getElem?_append_right (by omega), hlength]

/-- A slice finds the bytes that stand at its address. -/
theorem slice (h : m.Image base (front ++ (bytes ++ rest)))
    (haddress : address = base + UInt32.ofNat n) (hn : front.length = n) :
    m.slice address bytes.length = .ok bytes := by
  subst hn
  have hsize : m.size = front.length + (bytes.length + rest.length) := by
    rw [h.size_eq, List.length_append, List.length_append]
  have hlt := h.size_lt
  have hoffset : m.offset address = front.length := by rw [haddress, h.offset_eq (by omega)]
  rw [slice_eq_ok_iff, hoffset]
  refine ⟨by omega, ?_⟩
  apply List.ext_getElem (by simp)
  intro i hi hi'
  have hbyte := h.getElem?_eq (i := front.length + i) (by rw [← h.size_eq]; omega)
  rw [List.getElem?_append_right (Nat.le_add_right _ _), Nat.add_sub_cancel_left,
    List.getElem?_append_left hi, List.getElem?_eq_getElem hi, Option.some.injEq] at hbyte
  simp only [bytesAt, List.getElem_map, List.getElem_range, hbyte]

end Image

end Vax.Memory
