import Mathlib.Data.Set.Defs
import Vax.Proofs.Memory.Stores
/-!
# Memory byte by byte

An image is a map from addresses to bytes, and storing one byte changes it at
one address.  `Writes` collects what a run of such stores from an address on
has done.
-/

namespace Vax

/-- The `length` addresses from `start` on, modulo 2^32. -/
def area (start : UInt32) (length : Nat) : Set UInt32 :=
  { address | (address - start).toNat < length }

theorem mem_area {start : UInt32} {length i : Nat} (hi : i < length) :
    start + UInt32.ofNat i ∈ area start length := by
  change (start + UInt32.ofNat i - start).toNat < length
  simp only [UInt32.toNat_sub, UInt32.toNat_add, UInt32.toNat_ofNat']
  have hstart := start.toNat_lt
  omega

theorem exists_of_mem_area {start address : UInt32} {length : Nat}
    (h : address ∈ area start length) : ∃ i < length, address = start + UInt32.ofNat i := by
  refine ⟨(address - start).toNat, h, ?_⟩
  rw [UInt32.ofNat_toNat, UInt32.add_comm, UInt32.sub_add_cancel]

theorem forall_mem_area {start : UInt32} {length : Nat} {p : UInt32 → Prop}
    (h : ∀ i < length, p (start + UInt32.ofNat i)) : ∀ address ∈ area start length, p address := by
  intro address haddress
  obtain ⟨i, hi, rfl⟩ := exists_of_mem_area haddress
  exact h i hi

instance (start : UInt32) (length : Nat) (address : UInt32) :
    Decidable (address ∈ area start length) :=
  inferInstanceAs (Decidable ((address - start).toNat < length))

theorem area_mono {start : UInt32} {n length : Nat} (h : n ≤ length) :
    ∀ address ∈ area start n, address ∈ area start length :=
  fun _ haddress => Nat.lt_of_lt_of_le haddress h

/-- The places in an area are as many as it is long. -/
theorem ofNat_add_inj {start : UInt32} {i j : Nat} (hi : i < 2 ^ 32) (hj : j < 2 ^ 32)
    (h : start + UInt32.ofNat i = start + UInt32.ofNat j) : i = j := by
  have htoNat := congrArg UInt32.toNat h
  simp only [UInt32.toNat_add, UInt32.toNat_ofNat'] at htoNat
  have hstart := start.toNat_lt
  omega

namespace Memory

variable {m m' m'' : Memory} {address start : UInt32} {byte : UInt8}

/-- The address lies in the image. -/
def Covers (m : Memory) (address : UInt32) : Prop :=
  m.offset address < m.size

instance (m : Memory) (address : UInt32) : Decidable (m.Covers address) :=
  inferInstanceAs (Decidable (m.offset address < m.size))

theorem slice_one (m : Memory) (address : UInt32) :
    m.slice address 1 = (m.readByte address).map fun byte => [byte] := by
  by_cases h : m.offset address + 1 ≤ m.size
  · have hslice := slice_eq_ok_iff.2 ⟨h, rfl⟩
    rw [readByte, readNat, hslice]
    change Except.ok (m.bytesAt (m.offset address) 1) =
      .ok [UInt8.ofNat (LittleEndian.ofBytes (m.bytesAt (m.offset address) 1))]
    simp [bytesAt, LittleEndian.ofBytes]
  · have hslice := slice_eq_error (n := 1) (Nat.lt_of_not_le h)
    rw [readByte, readNat, hslice]
    rfl

theorem readByte_eq_ok_iff :
    m.readByte address = .ok byte ↔ m.Covers address ∧ byte = m.byteAt (m.offset address) := by
  have hslice : m.readByte address = .ok byte ↔ m.slice address 1 = .ok [byte] := by
    rw [slice_one]
    cases m.readByte address with
    | ok other => simp [Except.map]
    | error e => simp [Except.map]
  have hbytes : m.bytesAt (m.offset address) 1 = [m.byteAt (m.offset address)] := by
    simp [bytesAt]
  rw [hslice, slice_eq_ok_iff, hbytes, List.singleton_inj]
  rfl

/-- A byte is read, or the access it takes is refused. -/
theorem readByte_cases (m : Memory) (address : UInt32) :
    (∃ byte, m.readByte address = .ok byte) ∨ m.readByte address = .error ⟨address, 1⟩ := by
  obtain ⟨value, hread⟩ | hread := m.readNat_cases address 1
  · exact .inl ⟨UInt8.ofNat value, by rw [readByte, hread]; rfl⟩
  · exact .inr (by rw [readByte, hread]; rfl)

/-! ## Storing one byte -/

theorem exists_store (h : m.Covers address) (byte : UInt8) :
    ∃ m', m.store address [byte] = .ok m' :=
  ⟨_, store_eq_ok_iff.2 ⟨h, rfl⟩⟩

theorem covers_store (h : m.store address [byte] = .ok m') (other : UInt32) :
    m'.Covers other ↔ m.Covers other := by
  obtain ⟨-, rfl⟩ := store_eq_ok_iff.1 h
  exact Iff.rfl

theorem readByte_store_self (h : m.store address [byte] = .ok m') :
    m'.readByte address = .ok byte := by
  have hslice := slice_store h
  rw [List.length_singleton, slice_one] at hslice
  cases hread : m'.readByte address with
  | ok other =>
      rw [hread] at hslice
      rw [(List.cons.inj (Except.ok.inj hslice)).1]
  | error e =>
      rw [hread] at hslice
      exact absurd hslice nofun

theorem readByte_store_of_ne (h : m.store address [byte] = .ok m') {other : UInt32}
    (hne : other ≠ address) : m'.readByte other = m.readByte other := by
  have hslice : m'.slice other 1 = m.slice other 1 := by
    apply agreesOn_store h
    have hdistance : other.toNat ≠ address.toNat := fun heq => hne (UInt32.toNat_inj.1 heq)
    simp only [List.length_singleton, UInt32.toNat_sub, UInt32.toNat_add, UInt32.reduceOfNat,
      UInt32.reduceToNat]
    have hother := other.toNat_lt
    have haddress := address.toNat_lt
    omega
  rw [readByte, readNat, hslice, readByte, readNat]

/-! ## Bytes one behind the other -/

/-- The bytes lie one behind the other from `start` on. -/
def HoldsBytes (m : Memory) (start : UInt32) (bytes : List UInt8) : Prop :=
  ∀ i (h : i < bytes.length), m.readByte (start + UInt32.ofNat i) = .ok bytes[i]

instance (m : Memory) (start : UInt32) (bytes : List UInt8) :
    Decidable (m.HoldsBytes start bytes) :=
  decidable_of_iff (∀ i (h : i < bytes.length), m.Covers (start + UInt32.ofNat i) ∧
      bytes[i] = m.byteAt (m.offset (start + UInt32.ofNat i)))
    (by simp only [HoldsBytes, readByte_eq_ok_iff])

/-- Bytes that do not change go on lying one behind the other. -/
theorem HoldsBytes.of_read {bytes : List UInt8} (h : m.HoldsBytes start bytes)
    (hread : ∀ address ∈ area start bytes.length, m'.readByte address = m.readByte address) :
    m'.HoldsBytes start bytes := by
  intro i hi
  rw [hread _ (mem_area hi)]
  exact h i hi

/-- An image is at least as large as what it holds. -/
theorem length_le_size {bytes : List UInt8} (h : m.HoldsBytes start bytes)
    (hlength : bytes.length ≤ 2 ^ 32) : bytes.length ≤ m.size := by
  have hin : ∀ i < bytes.length, (m.offset start + i) % 2 ^ 32 < m.size := by
    intro i hi
    rw [← offset_add]
    exact (readByte_eq_ok_iff.1 (h i hi)).1
  have hstart : m.offset start < 2 ^ 32 := UInt32.toNat_lt _
  -- The last byte that does not wrap has the highest offset.
  rcases Nat.eq_zero_or_pos bytes.length with hempty | hpos
  · omega
  · have hlast := hin (min (bytes.length - 1) (2 ^ 32 - 1 - m.offset start)) (by omega)
    omega

/-! ## Storing one byte after the other -/

/-- No byte outside these addresses has changed, nor has the image. -/
structure SameOutside (m m' : Memory) (addresses : Set UInt32) : Prop where
  read : ∀ address ∉ addresses, m'.readByte address = m.readByte address
  covers : ∀ address, m'.Covers address ↔ m.Covers address

namespace SameOutside

variable {addresses : Set UInt32}

theorem refl (m : Memory) (addresses : Set UInt32) : m.SameOutside m addresses :=
  ⟨fun _ _ => rfl, fun _ => Iff.rfl⟩

theorem store (h : m.SameOutside m' addresses) (haddress : address ∈ addresses)
    (hstore : m'.store address [byte] = .ok m'') : m.SameOutside m'' addresses where
  read other hother := by
    have hne : other ≠ address := by
      rintro rfl
      exact hother haddress
    rw [readByte_store_of_ne hstore hne]
    exact h.read other hother
  covers other := (covers_store hstore other).trans (h.covers other)

theorem mono {larger : Set UInt32} (h : m.SameOutside m' addresses)
    (hle : ∀ address ∈ addresses, address ∈ larger) : m.SameOutside m' larger where
  read other hother := h.read other fun hmem => hother (hle other hmem)
  covers := h.covers

theorem trans (h : m.SameOutside m' addresses) (h' : m'.SameOutside m'' addresses) :
    m.SameOutside m'' addresses where
  read other hother := (h'.read other hother).trans (h.read other hother)
  covers other := (h'.covers other).trans (h.covers other)

end SameOutside

/-- `m'` is `m` with these bytes from `start` on. -/
structure Writes (m m' : Memory) (start : UInt32) (bytes : List UInt8) : Prop where
  holds : m'.HoldsBytes start bytes
  same : m.SameOutside m' (area start bytes.length)

namespace Writes

theorem nil (m : Memory) (start : UInt32) : m.Writes m start [] :=
  ⟨nofun, .refl m _⟩

theorem push {bytes : List UInt8} (h : m.Writes m' start bytes) (hroom : bytes.length < 2 ^ 32)
    (hstore : m'.store (start + UInt32.ofNat bytes.length) [byte] = .ok m'') :
    m.Writes m'' start (bytes ++ [byte]) where
  holds i hi := by
    rw [List.length_append, List.length_singleton] at hi
    by_cases hlast : i = bytes.length
    · subst hlast
      rw [readByte_store_self hstore]
      simp
    · have hold : i < bytes.length := by omega
      have hne : start + UInt32.ofNat i ≠ start + UInt32.ofNat bytes.length := fun heq =>
        hlast (ofNat_add_inj (by omega) hroom heq)
      rw [readByte_store_of_ne hstore hne, h.holds i hold, List.getElem_append_left hold]
  same := by
    rw [List.length_append, List.length_singleton]
    exact (h.same.mono (area_mono (Nat.le_succ _))).store
      (mem_area (Nat.lt_succ_self _)) hstore

end Writes

end Memory

end Vax
