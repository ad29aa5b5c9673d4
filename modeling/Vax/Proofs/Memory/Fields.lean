import Vax.Memory.Lemmas
/-!
# Fields in memory

A field is a run of bytes that is read by one access.  `Holds` says that
fields lie one behind the other from an address on, modulo 2^32.  A cut of an
image either still holds them or breaks off inside one of them.
-/

namespace Vax.Memory

theorem offset_add (m : Memory) (address : UInt32) (n : Nat) :
    m.offset (address + UInt32.ofNat n) = (m.offset address + n) % 2 ^ 32 := by
  simp only [offset, UInt32.toNat_sub, UInt32.toNat_add, UInt32.toNat_ofNat']
  have hbase := m.base.toNat_lt
  have haddress := address.toNat_lt
  omega

theorem offset_of_base {m : Memory} {base : UInt32} (h : m.base = base) : m.offset base = 0 := by
  rw [offset, h, UInt32.sub_self, UInt32.toNat_zero]

theorem slice_eq_ok_iff {m : Memory} {address : UInt32} {n : Nat} {bytes : List UInt8} :
    m.slice address n = .ok bytes ↔
      m.offset address + n ≤ m.size ∧ bytes = m.bytesAt (m.offset address) n := by
  unfold slice contains
  by_cases h : m.offset address + n ≤ m.size
  · simp [h, eq_comm]
  · simp [h]

theorem slice_eq_error {m : Memory} {address : UInt32} {n : Nat}
    (h : m.size < m.offset address + n) : m.slice address n = .error ⟨address, n⟩ := by
  unfold slice contains
  rw [if_neg (by simpa using h)]

theorem length_of_slice {m : Memory} {address : UInt32} {n : Nat} {bytes : List UInt8}
    (h : m.slice address n = .ok bytes) : bytes.length = n := by
  rw [(slice_eq_ok_iff.1 h).2, length_bytesAt]

theorem offset_add_le_of_readWord {m : Memory} {address : UInt32} {word : UInt16}
    (h : m.readWord address = .ok word) :
    m.offset address + 2 ≤ m.size := by
  unfold readWord readNat at h
  cases hslice : m.slice address 2 with
  | ok bytes => exact (slice_eq_ok_iff.1 hslice).1
  | error e =>
      rw [hslice] at h
      exact absurd h nofun

/-- A number is read back from its bytes. -/
theorem readNat_of_slice {m : Memory} {address : UInt32} {length value : Nat}
    (h : m.slice address length = .ok (LittleEndian.toBytes length value)) :
    m.readNat address length = .ok (value % 256 ^ length) := by
  rw [readNat, h]
  change Except.ok (LittleEndian.ofBytes _) = _
  rw [LittleEndian.ofBytes_toBytes]

/-- A number is read, or the access it takes is refused. -/
theorem readNat_cases (m : Memory) (address : UInt32) (length : Nat) :
    (∃ value, m.readNat address length = .ok value) ∨
      m.readNat address length = .error ⟨address, length⟩ := by
  unfold readNat slice
  split
  · exact .inl ⟨_, rfl⟩
  · exact .inr rfl

theorem readLong_of_slice {m : Memory} {address value : UInt32}
    (h : m.slice address 4 = .ok (LittleEndian.toBytes 4 value.toNat)) :
    m.readLong address = .ok value := by
  have hvalue : value.toNat % 256 ^ 4 = value.toNat := Nat.mod_eq_of_lt value.toNat_lt
  rw [readLong, readNat_of_slice h, hvalue]
  exact congrArg Except.ok UInt32.ofNat_toNat

theorem bytesAt_add (m : Memory) (offset a b : Nat) :
    m.bytesAt offset (a + b) = m.bytesAt offset a ++ m.bytesAt (offset + a) b := by
  simp [bytesAt, List.range_add, Nat.add_assoc]

/-! ## Fields one behind the other -/

/-- The fields lie one behind the other from `address` on. -/
def Holds (m : Memory) (address : UInt32) : List (List UInt8) → Prop
  | [] => True
  | field :: rest =>
    m.slice address field.length = .ok field ∧
      Holds m (address + UInt32.ofNat field.length) rest

theorem holds_append {m : Memory} {address : UInt32} {left right : List (List UInt8)} :
    m.Holds address (left ++ right) ↔
      m.Holds address left ∧
        m.Holds (address + UInt32.ofNat left.flatten.length) right := by
  induction left generalizing address with
  | nil => simp [Holds]
  | cons field rest ih =>
      simp only [List.cons_append, Holds, ih, List.flatten_cons, List.length_append,
        UInt32.ofNat_add, UInt32.add_assoc, and_assoc]

/-- Fields that do not reach past the last address are one run of bytes. -/
theorem holds_iff_slice {m : Memory} {address : UInt32} {fields : List (List UInt8)}
    (hfits : m.offset address + fields.flatten.length < 2 ^ 32)
    (hstart : m.offset address ≤ m.size) :
    m.Holds address fields ↔
      m.slice address fields.flatten.length = .ok fields.flatten := by
  induction fields generalizing address with
  | nil => simpa [Holds, slice_eq_ok_iff, bytesAt] using hstart
  | cons field rest ih =>
      rw [List.flatten_cons, List.length_append] at hfits
      have hnext : m.offset (address + UInt32.ofNat field.length) =
          m.offset address + field.length := by
        rw [offset_add, Nat.mod_eq_of_lt (by omega)]
      rw [Holds, List.flatten_cons, List.length_append, slice_eq_ok_iff, slice_eq_ok_iff,
        bytesAt_add]
      constructor
      · rintro ⟨⟨hfield, hbytes⟩, hrest⟩
        rw [ih (by omega) (by omega), slice_eq_ok_iff, hnext] at hrest
        rw [← hbytes, ← hrest.2]
        exact ⟨by omega, rfl⟩
      · rintro ⟨hall, hbytes⟩
        obtain ⟨hleft, hright⟩ := List.append_inj hbytes (by simp)
        rw [ih (by omega) (by omega), slice_eq_ok_iff, hnext]
        exact ⟨⟨by omega, hleft⟩, by omega, hright⟩

theorem offset_le_of_holds {m : Memory} {address : UInt32} {fields : List (List UInt8)}
    (h : m.Holds address fields) (hfields : fields ≠ []) : m.offset address ≤ m.size := by
  cases fields with
  | nil => exact absurd rfl hfields
  | cons field rest =>
      have hend := (slice_eq_ok_iff.1 h.1).1
      omega

/-- In an image that ends below 2^32 fields never wrap. -/
theorem offset_add_le_of_holds {m : Memory} {address : UInt32} {fields : List (List UInt8)}
    (hsize : m.size < 2 ^ 32) (h : m.Holds address fields) (hstart : m.offset address ≤ m.size) :
    m.offset address + fields.flatten.length ≤ m.size := by
  induction fields generalizing address with
  | nil => simpa using hstart
  | cons field rest ih =>
      obtain ⟨hfield, hrest⟩ := h
      have hend := (slice_eq_ok_iff.1 hfield).1
      have hnext : m.offset (address + UInt32.ofNat field.length) =
          m.offset address + field.length := by
        rw [offset_add, Nat.mod_eq_of_lt (by omega)]
      have hlast := ih hrest (by omega)
      rw [List.flatten_cons, List.length_append]
      omega

/-! ## Cuts -/

/-- The image ends where `whole` may go on, and is equal to it up to there. -/
structure IsCutOf (m whole : Memory) : Prop where
  base : m.base = whole.base
  size : m.size ≤ whole.size
  bytes : ∀ offset < m.size, m.byteAt offset = whole.byteAt offset

/-- One of the fields is the first that is not in the image as a whole. -/
def BreaksOff (m : Memory) (address : UInt32) : List (List UInt8) → Prop
  | [] => False
  | field :: rest =>
    m.size < m.offset address + field.length ∨
      m.slice address field.length = .ok field ∧
        BreaksOff m (address + UInt32.ofNat field.length) rest

theorem breaksOff_append {m : Memory} {address : UInt32} {left right : List (List UInt8)} :
    m.BreaksOff address (left ++ right) ↔
      m.BreaksOff address left ∨ m.Holds address left ∧
        m.BreaksOff (address + UInt32.ofNat left.flatten.length) right := by
  induction left generalizing address with
  | nil => simp [Holds, BreaksOff]
  | cons field rest ih =>
      simp only [List.cons_append, Holds, BreaksOff, ih, List.flatten_cons, List.length_append,
        UInt32.ofNat_add, UInt32.add_assoc, and_assoc, and_or_left, or_assoc]

theorem IsCutOf.offset_eq {m whole : Memory} (hcut : m.IsCutOf whole) (address : UInt32) :
    m.offset address = whole.offset address := by
  rw [offset, offset, hcut.base]

theorem IsCutOf.slice_eq {m whole : Memory} (hcut : m.IsCutOf whole) {address : UInt32} {n : Nat}
    (hin : m.offset address + n ≤ m.size) : m.slice address n = whole.slice address n := by
  have hwhole : whole.offset address + n ≤ whole.size := by
    rw [← hcut.offset_eq]
    exact Nat.le_trans hin hcut.size
  have hbytes : m.bytesAt (m.offset address) n = whole.bytesAt (whole.offset address) n := by
    unfold bytesAt
    apply List.map_congr_left
    intro i hi
    rw [hcut.offset_eq]
    apply hcut.bytes
    rw [← hcut.offset_eq]
    have hlt := List.mem_range.1 hi
    omega
  rw [slice_eq_ok_iff.2 ⟨hin, rfl⟩, slice_eq_ok_iff.2 ⟨hwhole, rfl⟩, hbytes]

theorem IsCutOf.holds_or_breaksOff {m whole : Memory} (hcut : m.IsCutOf whole)
    {address : UInt32} {fields : List (List UInt8)} (h : whole.Holds address fields) :
    m.Holds address fields ∨ m.BreaksOff address fields := by
  induction fields generalizing address with
  | nil => exact Or.inl trivial
  | cons field rest ih =>
      obtain ⟨hfield, hrest⟩ := h
      by_cases hin : m.offset address + field.length ≤ m.size
      · have hslice := hcut.slice_eq hin
        rw [hfield] at hslice
        rcases ih hrest with hholds | hbreaks
        · exact Or.inl ⟨hslice, hholds⟩
        · exact Or.inr (Or.inr ⟨hslice, hbreaks⟩)
      · exact Or.inr (Or.inl (Nat.lt_of_not_le hin))

end Vax.Memory
