import Vax.Proofs.Memory.Fields
/-!
# What a store leaves alone

A store changes the bytes it covers.  The rest of the address space, the
`2^32` less so many bytes that begin behind it, reads as before.
-/

namespace Vax.Memory

/-- Every access to the `length` bytes from `low` on is the same in both
images. -/
def AgreesOn (m other : Memory) (low : UInt32) (length : Nat) : Prop :=
  ∀ address n, (address - low).toNat + n ≤ length → other.slice address n = m.slice address n

theorem AgreesOn.refl (m : Memory) (low : UInt32) (length : Nat) : m.AgreesOn m low length :=
  fun _ _ _ => rfl

theorem AgreesOn.trans {m m' m'' : Memory} {low : UInt32} {length : Nat}
    (h : m.AgreesOn m' low length) (h' : m'.AgreesOn m'' low length) :
    m.AgreesOn m'' low length :=
  fun address n hle => (h' address n hle).trans (h address n hle)

/-- Less of the address space agrees. -/
theorem AgreesOn.mono {m m' : Memory} {low inner : UInt32} {length n : Nat}
    (h : m.AgreesOn m' low length) (hle : (inner - low).toNat + n ≤ length) :
    m.AgreesOn m' inner n := by
  intro address k hk
  apply h
  rw [UInt32.toNat_sub] at hk hle ⊢
  have haddress := address.toNat_lt
  have hlow := low.toNat_lt
  have hinner := inner.toNat_lt
  omega

theorem AgreesOn.holds {m m' : Memory} {low address : UInt32} {length : Nat}
    {fields : List (List UInt8)} (h : m.AgreesOn m' low length)
    (hle : (address - low).toNat + fields.flatten.length ≤ length)
    (hholds : m.Holds address fields) : m'.Holds address fields := by
  induction fields generalizing address with
  | nil => trivial
  | cons field rest ih =>
      obtain ⟨hfield, hrest⟩ := hholds
      rw [List.flatten_cons, List.length_append] at hle
      refine ⟨?_, ih ?_ hrest⟩
      · rw [h address field.length (by omega)]
        exact hfield
      · rw [UInt32.toNat_sub, UInt32.toNat_add, UInt32.toNat_ofNat']
        rw [UInt32.toNat_sub] at hle
        have haddress := address.toNat_lt
        have hlow := low.toNat_lt
        omega

theorem store_eq_ok_iff {m m' : Memory} {address : UInt32} {bytes : List UInt8} :
    m.store address bytes = .ok m' ↔
      m.offset address + bytes.length ≤ m.size ∧ m' = m.patch (m.offset address) bytes := by
  unfold store contains
  by_cases h : m.offset address + bytes.length ≤ m.size
  · simp [h, eq_comm]
  · simp [h]

/-- What is stored is read back. -/
theorem slice_store {m m' : Memory} {address : UInt32} {bytes : List UInt8}
    (h : m.store address bytes = .ok m') : m'.slice address bytes.length = .ok bytes := by
  obtain ⟨hin, rfl⟩ := store_eq_ok_iff.1 h
  rw [slice_eq_ok_iff]
  refine ⟨hin, ?_⟩
  apply List.ext_getElem (by simp)
  intro i hi hi'
  change bytes[i] = ((m.patch (m.offset address) bytes).bytesAt (m.offset address) bytes.length)[i]
  simp [bytesAt, byteAt_patch, hi]

/-- Outside the bytes that are stored nothing changes. -/
theorem agreesOn_store {m m' : Memory} {address : UInt32} {bytes : List UInt8}
    (h : m.store address bytes = .ok m') :
    m.AgreesOn m' (address + UInt32.ofNat bytes.length) (2 ^ 32 - bytes.length) := by
  obtain ⟨-, rfl⟩ := store_eq_ok_iff.1 h
  intro other n hle
  -- Offsets count from the base, so the access may lie on either side of what is stored.
  have hbytes : ∀ i < n, (m.patch (m.offset address) bytes).byteAt (m.offset other + i) =
      m.byteAt (m.offset other + i) := by
    intro i hi
    rw [byteAt_patch, if_neg]
    simp only [offset, UInt32.toNat_sub, UInt32.toNat_add, UInt32.toNat_ofNat'] at hle ⊢
    have haddress := address.toNat_lt
    have hother := other.toNat_lt
    have hbase := m.base.toNat_lt
    omega
  have hslice : (m.patch (m.offset address) bytes).bytesAt (m.offset other) n =
      m.bytesAt (m.offset other) n :=
    List.map_congr_left fun i hi => hbytes i (List.mem_range.1 hi)
  change (if m.contains other n then
    Except.ok ((m.patch (m.offset address) bytes).bytesAt (m.offset other) n) else _) = _
  rw [hslice, slice]

end Vax.Memory
