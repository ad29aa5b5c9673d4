import Vax.Proofs.Machine.Loading
/-!
# Whether the stack spares the program

The room for a program and its stack is checked in whole numbers, and the
stack is placed by addresses, below a top that is counted modulo 2^32.  Up to a
whole address space of memory the two agree.  Beyond it the stack may come
down on the program, and the offset of the stack pointer says when it does.
-/

namespace Vax

namespace Memory

variable {m m' : Memory} {stores : List (UInt32 × List UInt8)} {length : Nat}

/-- None of the stores reaches into the first `length` bytes. -/
def Spares (m : Memory) (length : Nat) (stores : List (UInt32 × List UInt8)) : Prop :=
  ∀ store ∈ stores, store.2 ≠ [] → length ≤ m.offset store.1

instance : Decidable (m.Spares length stores) :=
  inferInstanceAs (Decidable (∀ store ∈ stores, store.2 ≠ [] → length ≤ m.offset store.1))

theorem of_storeAll_cons {store : UInt32 × List UInt8}
    (h : m.storeAll (store :: stores) = .ok m') :
    ∃ m₁, m.store store.1 store.2 = .ok m₁ ∧ m₁.storeAll stores = .ok m' := by
  rw [storeAll, List.foldlM_cons] at h
  change (m.store store.1 store.2 >>= _) = _ at h
  cases hstore : m.store store.1 store.2 with
  | error e =>
    rw [hstore] at h
    change Except.error e = .ok m' at h
    cases h
  | ok m₁ =>
    rw [hstore] at h
    exact ⟨m₁, rfl, h⟩

theorem extent_storeAll (h : m.storeAll stores = .ok m') : m'.base = m.base ∧ m'.size = m.size := by
  induction stores generalizing m with
  | nil =>
    obtain rfl := Except.ok.inj h
    exact ⟨rfl, rfl⟩
  | cons store rest ih =>
    obtain ⟨m₁, hstore, hrest⟩ := of_storeAll_cons h
    obtain ⟨-, rfl⟩ := store_eq_ok_iff.1 hstore
    obtain ⟨hbase, hsize⟩ := ih hrest
    exact ⟨hbase, hsize⟩

/-- Stores succeed one after the other if each of them lies in the image. -/
theorem exists_storeAll
    (h : ∀ store ∈ stores, m.offset store.1 + store.2.length ≤ m.size) :
    ∃ m', m.storeAll stores = .ok m' := by
  induction stores generalizing m with
  | nil => exact ⟨m, rfl⟩
  | cons store rest ih =>
    have hstore := store_eq_ok_iff.2 ⟨h store List.mem_cons_self, rfl⟩
    rw [storeAll_cons hstore]
    exact ih fun other hother => h other (List.mem_cons_of_mem _ hother)

/-- What the stores spare stays as it was. -/
theorem byteAt_storeAll (h : m.storeAll stores = .ok m') (hspares : m.Spares length stores)
    {i : Nat} (hi : i < length) : m'.byteAt i = m.byteAt i := by
  induction stores generalizing m with
  | nil =>
    obtain rfl := Except.ok.inj h
    rfl
  | cons store rest ih =>
    obtain ⟨m₁, hstore, hrest⟩ := of_storeAll_cons h
    obtain ⟨-, rfl⟩ := store_eq_ok_iff.1 hstore
    have hothers : (m.patch (m.offset store.1) store.2).Spares length rest :=
      fun other hother => hspares other (List.mem_cons_of_mem _ hother)
    rw [ih hrest hothers, byteAt_patch, if_neg]
    rintro ⟨hlow, hhigh⟩
    have hbytes : store.2 ≠ [] := by
      intro hnil
      rw [hnil, List.length_nil] at hhigh
      omega
    have hbehind := hspares store List.mem_cons_self hbytes
    omega

theorem slice_storeAll (h : m.storeAll stores = .ok m') (hspares : m.Spares length stores)
    {address : UInt32} {n : Nat} (hn : m.offset address + n ≤ length) :
    m'.slice address n = m.slice address n := by
  obtain ⟨hbase, hsize⟩ := extent_storeAll h
  have hbytes : m'.bytesAt (m.offset address) n = m.bytesAt (m.offset address) n := by
    apply List.map_congr_left
    intro i hi
    have hlt := List.mem_range.1 hi
    exact byteAt_storeAll h hspares (by omega)
  rw [slice, slice, contains, contains, offset, hbase, hsize, ← offset, hbytes]

theorem offset_add_ofNat {base : UInt32} (hbase : m.base = base) {n : Nat} (hn : n < 2 ^ 32) :
    m.offset (base + UInt32.ofNat n) = n := by
  rw [offset, hbase, UInt32.add_comm, UInt32.add_sub_cancel, UInt32.toNat_ofNat_of_lt' hn]

/-- Bytes that an image begins with can be read from its base. -/
theorem slice_of_byteAt {base : UInt32} {bytes : List UInt8} (hbase : m.base = base)
    (hsize : bytes.length ≤ m.size) (hbytes : ∀ i < bytes.length, m.byteAt i = bytes[i]?.getD 0) :
    m.slice base bytes.length = .ok bytes := by
  rw [slice_eq_ok_iff, offset_of_base hbase, Nat.zero_add]
  refine ⟨hsize, List.ext_getElem (by simp) fun i hi hi' => ?_⟩
  have hbyte := hbytes i hi
  rw [List.getElem?_eq_getElem hi, Option.getD_some] at hbyte
  simp [bytesAt, hbyte]

end Memory

namespace Machine

/-! ## The program -/

/-- A program as it stands in memory: the text, zeros up to the next aligned
address, the data, and as many zeros as the header asks for. -/
def programBytes (h : Header) (p : Program) : List UInt8 :=
  p.text ++ (zeros (alignedLength p.text.length - p.text.length) ++ (p.data ++ zeros h.bss.toNat))

section Program

variable {h : Header} {p : Program} {size : Nat} {arguments : List (List UInt8)}
  {memory m₁ m₂ : Memory}

theorem length_programBytes (h : Header) (p : Program) :
    (programBytes h p).length =
      alignedLength p.text.length + p.data.length + h.bss.toNat := by
  have hle := le_alignedLength p.text.length
  simp only [programBytes, List.length_append, List.length_replicate]
  omega

theorem getD_programBytes (i : Nat) :
    (programBytes h p)[i]?.getD 0 =
      if alignedLength p.text.length ≤ i ∧ i < alignedLength p.text.length + p.data.length then
        p.data[i - alignedLength p.text.length]?.getD 0
      else if i < p.text.length then p.text[i]?.getD 0 else 0 := by
  have hle := le_alignedLength p.text.length
  have hzeros : ∀ count k : Nat, ((zeros count)[k]?).getD 0 = 0 := by
    intro count k
    rw [List.getElem?_replicate]
    split <;> rfl
  unfold programBytes
  by_cases htext : i < p.text.length
  · rw [if_neg (by omega), if_pos htext, List.getElem?_append_left htext]
  rw [List.getElem?_append_right (by omega), if_neg htext]
  by_cases hgap : i < alignedLength p.text.length
  · rw [if_neg (by omega), List.getElem?_append_left (by rw [List.length_replicate]; omega), hzeros]
  rw [List.getElem?_append_right (by rw [List.length_replicate]; omega), List.length_replicate,
    show i - p.text.length - (alignedLength p.text.length - p.text.length) =
      i - alignedLength p.text.length by omega]
  by_cases hdata : i < alignedLength p.text.length + p.data.length
  · rw [if_pos (by omega), List.getElem?_append_left (by omega)]
  · rw [if_neg (by omega), List.getElem?_append_right (by omega), hzeros]

theorem byteAt_segments
    (hdata : p.dataAddress = h.base + UInt32.ofNat (alignedLength p.text.length))
    (hlt : alignedLength p.text.length < 2 ^ 32)
    (hm₁ : (Memory.zeroed h.base size).store h.base p.text = .ok m₁)
    (hm₂ : m₁.store p.dataAddress p.data = .ok m₂) (i : Nat) :
    m₂.byteAt i = (programBytes h p)[i]?.getD 0 := by
  obtain ⟨-, rfl⟩ := Memory.store_eq_ok_iff.1 hm₁
  obtain ⟨-, rfl⟩ := Memory.store_eq_ok_iff.1 hm₂
  have hbase : (Memory.zeroed h.base size).offset h.base = 0 := Memory.offset_of_base rfl
  have hzero : (Memory.zeroed h.base size).byteAt i = 0 := by
    rw [Memory.byteAt_eq_getElem?]
    rfl
  have hoffset : ((Memory.zeroed h.base size).patch 0 p.text).offset p.dataAddress =
      alignedLength p.text.length := by
    rw [hdata]
    exact Memory.offset_add_ofNat rfl hlt
  rw [hbase, hoffset, getD_programBytes, Memory.byteAt_patch, Memory.byteAt_patch, hzero]
  simp only [Nat.zero_le, true_and, Nat.zero_add, Nat.sub_zero]

/-- The stack is stored into memory that holds the program. -/
theorem exists_segments (hmemory : initialMemory h p arguments size = .ok memory) :
    memory.base = h.base ∧ memory.size = size ∧
      ∃ m₂ : Memory, m₂.base = h.base ∧ m₂.size = size ∧
        m₂.storeAll (stackStores memory.top arguments) = .ok memory ∧
        (p.dataAddress = h.base + UInt32.ofNat (alignedLength p.text.length) →
          alignedLength p.text.length < 2 ^ 32 →
            ∀ i, m₂.byteAt i = (programBytes h p)[i]?.getD 0) := by
  obtain ⟨m₁, m₂, hm₁, hm₂, hstack⟩ := of_initialMemory hmemory
  obtain ⟨hbase, hsize⟩ := Memory.extent_storeAll hstack
  have hbase₂ : m₂.base = h.base := by
    obtain ⟨-, rfl⟩ := Memory.store_eq_ok_iff.1 hm₁
    obtain ⟨-, rfl⟩ := Memory.store_eq_ok_iff.1 hm₂
    rfl
  have hsize₂ : m₂.size = size := by
    obtain ⟨-, rfl⟩ := Memory.store_eq_ok_iff.1 hm₁
    obtain ⟨-, rfl⟩ := Memory.store_eq_ok_iff.1 hm₂
    rfl
  have htop : m₂.top = memory.top := by rw [Memory.top, Memory.top, hbase, hsize]
  rw [htop] at hstack
  exact ⟨hbase.trans hbase₂, hsize.trans hsize₂, m₂, hbase₂, hsize₂, hstack,
    fun hdata hlt => byteAt_segments hdata hlt hm₁ hm₂⟩

/-- What is spared holds the program. -/
theorem slice_of_spares (hmemory : initialMemory h p arguments size = .ok memory)
    (hdata : p.dataAddress = h.base + UInt32.ofNat (alignedLength p.text.length))
    (hlt : alignedLength p.text.length < 2 ^ 32) (hsize : (programBytes h p).length ≤ size)
    (hspares : memory.Spares (programBytes h p).length (stackStores memory.top arguments)) :
    memory.slice h.base (programBytes h p).length = .ok (programBytes h p) := by
  obtain ⟨hbase, -, m₂, hbase₂, hsize₂, hstack, hbytes⟩ := exists_segments hmemory
  have hspares₂ : m₂.Spares (programBytes h p).length (stackStores memory.top arguments) := by
    intro store hstore hne
    rw [Memory.offset, hbase₂, ← hbase]
    exact hspares store hstore hne
  have hoffset := Memory.offset_of_base hbase₂
  rw [Memory.slice_storeAll hstack hspares₂ (by omega)]
  exact Memory.slice_of_byteAt hbase₂ (by rwa [hsize₂]) fun i _ => hbytes hdata hlt i

end Program

/-! ## The stack -/

/-- How far the top of so many bytes lies above their base, read as addresses. -/
def addressed (size : Nat) : Nat :=
  (size - 1) % 2 ^ 32 + 1

/-- Where the initial stack pointer lies when the top is `room` above the base. -/
def stackOffset (room : Nat) (arguments : List (List UInt8)) : Nat :=
  (room - argumentBytes arguments) / 4 * 4 - 4 * (arguments.length + 3)

section Stack

variable {base pointer address : UInt32} {room low a b : Nat} {arguments : List (List UInt8)}

theorem addressed_of_le {size : Nat} (hpos : 0 < size) (hle : size ≤ 2 ^ 32) :
    addressed size = size := by
  rw [addressed]
  omega

theorem addressed_le {size : Nat} (hpos : 0 < size) : addressed size ≤ size := by
  rw [addressed]
  omega

theorem ofNat_addressed {size : Nat} (hpos : 0 < size) :
    UInt32.ofNat (addressed size) = UInt32.ofNat size := by
  apply UInt32.toNat_inj.1
  rw [UInt32.toNat_ofNat', UInt32.toNat_ofNat', addressed]
  omega

/-- Every store for the arguments lies behind where their pointers and strings
begin. -/
theorem argumentStores_behind (hpointer : pointer = base + UInt32.ofNat a)
    (haddress : address = base + UInt32.ofNat b) (hpointers : a + 4 * arguments.length ≤ 2 ^ 32)
    (hstrings : b + argumentBytes arguments ≤ 2 ^ 32) (ha : low ≤ a) (hb : low ≤ b) :
    ∀ store ∈ argumentStores pointer address arguments,
      ∃ n, low ≤ n ∧ n < 2 ^ 32 ∧ store.1 = base + UInt32.ofNat n := by
  induction arguments generalizing pointer address a b with
  | nil => exact fun store hstore => absurd hstore List.not_mem_nil
  | cons argument rest ih =>
    rw [List.length_cons] at hpointers
    rw [argumentBytes_cons] at hstrings
    have hfinal : address + UInt32.ofNat argument.length =
        base + UInt32.ofNat (b + argument.length) := by
      rw [haddress, ofNat_add_ofNat]
    have hpointer' : pointer + 4 = base + UInt32.ofNat (a + 4) := by
      rw [hpointer]
      exact ofNat_add_ofNat base a 4
    have haddress' : address + UInt32.ofNat argument.length + 1 =
        base + UInt32.ofNat (b + argument.length + 1) := by
      rw [hfinal]
      exact ofNat_add_ofNat base _ 1
    have hrest := ih hpointer' haddress' (by omega) (by omega) (by omega) (by omega)
    intro store hstore
    simp only [argumentStores, List.mem_cons] at hstore
    rcases hstore with rfl | rfl | rfl | hstore
    · exact ⟨a, ha, by omega, hpointer⟩
    · exact ⟨b, hb, by omega, haddress⟩
    · exact ⟨b + argument.length, by omega, by omega, hfinal⟩
    · exact hrest store hstore

theorem stackOffset_lt (hroom : room ≤ 2 ^ 32) (hstack : stackLength arguments ≤ room) :
    stackOffset room arguments < 2 ^ 32 := by
  rw [stackLength] at hstack
  rw [stackOffset]
  omega

/-- The stack begins with the argument count, at `stackOffset`, and the rest
lies behind it. -/
theorem stackStores_eq (hbase : base.toNat % 4 = 0) (hroom : room ≤ 2 ^ 32)
    (hstack : stackLength arguments ≤ room) :
    ∃ ends strings, stackStores (base + UInt32.ofNat room) arguments =
        ends :: (base + UInt32.ofNat (stackOffset room arguments),
          LittleEndian.toBytes 4 arguments.length) :: strings ∧
      ∀ store ∈ ends :: strings,
        ∃ n, stackOffset room arguments + 4 ≤ n ∧ n < 2 ^ 32 ∧ store.1 = base + UInt32.ofNat n := by
  rw [stackLength] at hstack
  have hfits : argumentBytes arguments ≤ room := by omega
  have hoffset : stackOffset room arguments + 4 * (arguments.length + 3) =
      (room - argumentBytes arguments) / 4 * 4 := by
    rw [stackOffset]
    omega
  have hstrings : (room - argumentBytes arguments) / 4 * 4 + argumentBytes arguments ≤ 2 ^ 32 := by
    omega
  have haddress := argumentsAddress_eq hbase hfits
  have hsp := initialSp_eq hbase hfits hoffset
  have hends : argumentsAddress (base + UInt32.ofNat room) arguments - 8 =
      base + UInt32.ofNat (stackOffset room arguments + 4 * (arguments.length + 1)) := by
    rw [haddress, ← hoffset]
    exact (ofNat_sub_ofNat base (b := 8) (by omega)).trans (congrArg _ (congrArg _ (by omega)))
  have hpointer : initialSp (base + UInt32.ofNat room) arguments + 4 =
      base + UInt32.ofNat (stackOffset room arguments + 4) := by
    rw [hsp]
    exact ofNat_add_ofNat base _ 4
  have hlow : stackOffset room arguments + 4 ≤ (room - argumentBytes arguments) / 4 * 4 := by
    omega
  have hstores := argumentStores_behind hpointer haddress (by omega) hstrings (Nat.le_refl _) hlow
  refine ⟨(argumentsAddress (base + UInt32.ofNat room) arguments - 8, LittleEndian.toBytes 8 0),
    _, by rw [← hsp]; rfl, ?_⟩
  · intro store hstore
    rcases List.mem_cons.1 hstore with rfl | hstore
    · exact ⟨_, by omega, by omega, hends⟩
    · exact hstores store hstore

section Stored

variable {m : Memory} {length : Nat}

theorem top_eq_addressed (hpos : 0 < m.size) :
    m.top = m.base + UInt32.ofNat (addressed m.size) := by
  rw [ofNat_addressed hpos, Memory.top]

/-- The stack spares what ends below its pointer. -/
theorem spares_stackStores_iff (hbase : m.base.toNat % 4 = 0)
    (hpos : 0 < m.size) (hstack : stackLength arguments ≤ addressed m.size) :
    m.Spares length (stackStores m.top arguments) ↔
      length ≤ stackOffset (addressed m.size) arguments := by
  have hroom : addressed m.size ≤ 2 ^ 32 := Nat.mod_lt _ (by decide)
  have hlow := stackOffset_lt hroom hstack
  obtain ⟨ends, strings, hstores, hbehind⟩ := stackStores_eq hbase hroom hstack
  rw [top_eq_addressed hpos, hstores]
  constructor
  · intro hspares
    have hcount := hspares _ (List.mem_cons_of_mem _ List.mem_cons_self)
      (List.ne_nil_of_length_pos (by rw [LittleEndian.length_toBytes]; decide))
    rwa [Memory.offset_add_ofNat rfl hlow] at hcount
  · intro hle store hstore _
    rw [List.mem_cons, List.mem_cons, or_left_comm, ← List.mem_cons] at hstore
    rcases hstore with rfl | hstore
    · rwa [Memory.offset_add_ofNat rfl hlow]
    · obtain ⟨n, hbelow, hlt, haddress⟩ := hbehind store hstore
      rw [haddress, Memory.offset_add_ofNat rfl hlt]
      omega

end Stored

/-- The argument count stands at the stack pointer, whatever was there. -/
theorem slice_count {h : Header} {p : Program} {size : Nat} {memory : Memory}
    (hmemory : initialMemory h p arguments size = .ok memory) (hpos : 0 < size)
    (hstack : stackLength arguments ≤ addressed size) :
    memory.slice (h.base + UInt32.ofNat (stackOffset (addressed size) arguments)) 4 =
      .ok (LittleEndian.toBytes 4 arguments.length) := by
  have hroom : addressed size ≤ 2 ^ 32 := Nat.mod_lt _ (by decide)
  obtain ⟨hbase, hsize, m₂, hbase₂, -, hstored, -⟩ := exists_segments hmemory
  obtain ⟨ends, strings, hstores, hbehind⟩ := stackStores_eq h.toNat_base_mod_four hroom hstack
  rw [top_eq_addressed (hsize ▸ hpos), hbase, hsize, hstores] at hstored
  obtain ⟨m₃, hends, hstored⟩ := Memory.of_storeAll_cons hstored
  obtain ⟨m₄, hcount, hstored⟩ := Memory.of_storeAll_cons hstored
  have hbase₄ : m₄.base = h.base := by
    obtain ⟨-, rfl⟩ := Memory.store_eq_ok_iff.1 hends
    obtain ⟨-, rfl⟩ := Memory.store_eq_ok_iff.1 hcount
    exact hbase₂
  have hspares : m₄.Spares (stackOffset (addressed size) arguments + 4) strings := by
    intro store hstore _
    obtain ⟨n, hlow, hlt, haddress⟩ := hbehind store (List.mem_cons_of_mem _ hstore)
    rwa [haddress, Memory.offset_add_ofNat hbase₄ hlt]
  have hread := Memory.slice_store hcount
  rw [LittleEndian.length_toBytes] at hread
  have hoffset := Memory.offset_add_ofNat hbase₄ (stackOffset_lt hroom hstack)
  rw [Memory.slice_storeAll hstored hspares (Nat.le_of_eq (congrArg (· + 4) hoffset)), hread]

end Stack

/-! ## Loading -/

section Loaded

variable {p : Program} {h : Header} {strings : List String} {size : Nat} {log : Log} {m : Machine}
  (hheader : p.header = some h) (hload : load p strings size log = .ok m)

include hheader hload

theorem size_pos_of_load : 0 < size := by
  have hfits := (exists_of_load hheader hload).1
  rw [stackLength] at hfits
  omega

theorem spares_stack_iff_of_load {length : Nat}
    (hstack : stackLength (strings.map Utf8.encode) ≤ addressed size) :
    m.memory.Spares length (stackStores m.memory.top (strings.map Utf8.encode)) ↔
      length ≤ stackOffset (addressed size) (strings.map Utf8.encode) := by
  have hpos := size_pos_of_load hheader hload
  obtain ⟨hbase, hsize, -⟩ := exists_segments (exists_of_load hheader hload).2.1
  rw [← hsize] at hpos hstack ⊢
  exact spares_stackStores_iff (hbase ▸ h.toNat_base_mod_four) hpos hstack

variable (htext : p.text.length = h.text.toNat)

include htext

theorem slice_program_of_load
    (hstack : stackLength (strings.map Utf8.encode) ≤ addressed size)
    (hspares : m.memory.Spares (programBytes h p).length
      (stackStores m.memory.top (strings.map Utf8.encode))) :
    m.memory.slice h.base (programBytes h p).length = .ok (programBytes h p) := by
  have hbelow := (spares_stack_iff_of_load hheader hload hstack).1 hspares
  have hwithin := addressed_le (size_pos_of_load hheader hload)
  have hroom : addressed size ≤ 2 ^ 32 := Nat.mod_lt _ (by decide)
  have hlength := length_programBytes h p
  rw [stackLength] at hstack
  rw [stackOffset] at hbelow
  have hlt : alignedLength p.text.length < 2 ^ 32 := by omega
  have hshort : p.text.length ≤ 2 ^ 32 - 512 := by
    have haligned := le_alignedLength p.text.length
    rw [alignedLength] at hlt
    omega
  exact slice_of_spares (exists_of_load hheader hload).2.1 (dataAddress_eq hheader htext hshort)
    hlt (by omega) hspares

/-- The check is on whole numbers, and so is the top. -/
theorem spares_program_of_load (hwhole : size ≤ 2 ^ 32)
    (hshort : p.text.length ≤ 2 ^ 32 - 512) :
    stackLength (strings.map Utf8.encode) ≤ addressed size ∧
      m.memory.Spares (programBytes h p).length
        (stackStores m.memory.top (strings.map Utf8.encode)) := by
  have hfits := (exists_of_load hheader hload).1
  have haddressed := addressed_of_le (size_pos_of_load hheader hload) hwhole
  rw [imageLength, Header.toNat_dataOffset (htext ▸ hshort), ← htext, ← length_programBytes h p]
    at hfits
  have hstack : stackLength (strings.map Utf8.encode) ≤ addressed size := by omega
  refine ⟨hstack, (spares_stack_iff_of_load hheader hload hstack).2 ?_⟩
  rw [haddressed, stackOffset]
  rw [stackLength] at hfits
  omega

end Loaded

/-- With at most an address space of memory the initial stack spares the
program, which reads back whole.  With any size it does so exactly when the
program ends at the initial stack pointer or below, provided that the top lies
high enough for the stack. -/
theorem stack_spares_program (file : List UInt8) (p : Program) (h : Header)
    (hfile : Program.ofFile file = .ok p) (hheader : p.header = some h) (arguments : List String)
    (size : Nat) (log : Log) (m : Machine) (hload : load p arguments size log = .ok m) :
    let strings := arguments.map Utf8.encode
    let length := (programBytes h p).length
    let stores := stackStores m.memory.top strings
    (size ≤ 2 ^ 32 → p.text.length ≤ 2 ^ 32 - 512 →
        m.memory.Spares length stores ∧ m.memory.slice h.base length = .ok (programBytes h p)) ∧
      (stackLength strings ≤ addressed size →
        (m.memory.Spares length stores ↔ length ≤ stackOffset (addressed size) strings) ∧
        (m.memory.Spares length stores →
          m.memory.slice h.base length = .ok (programBytes h p))) := by
  intro strings length stores
  have htext := (Program.lengths_of_ofFile hfile hheader).1
  refine ⟨fun hwhole hshort => ?_, fun hstack => ⟨?_, fun hspares => ?_⟩⟩
  · obtain ⟨hstack, hspares⟩ := spares_program_of_load hheader hload htext hwhole hshort
    exact ⟨hspares, slice_program_of_load hheader hload htext hstack hspares⟩
  · exact spares_stack_iff_of_load hheader hload hstack
  · exact slice_program_of_load hheader hload htext hstack hspares

/-- The same program in a little memory, and in as much above 2^32. -/
theorem stack_spares_program_twice :
    let h : Header :=
      { magic := 0x108, text := 4, data := 3, bss := 5, syms := 0, entry := 0x80000000, trsize := 0,
        drsize := 0 }
    let p : Program := ⟨some h, [0, 0, 0xd5, 0x51], [1, 2, 3], SymbolTable.empty⟩
    let program := programBytes h p
    let strings := ["a", "bc"].map Utf8.encode
    Program.ofFile (h.toBytes ++ p.text ++ p.data) = .ok p ∧ program.length = 520 ∧
      (∃ m, load p ["a", "bc"] 548 (.empty none) = .ok m ∧
        m.memory.Spares program.length (stackStores m.memory.top strings) ∧
        m.memory.slice h.base program.length = .ok program) ∧
      ∃ m, load p ["a", "bc"] 4294967844 (.empty none) = .ok m ∧
        m.memory.Spares program.length (stackStores m.memory.top strings) ∧
        m.memory.slice h.base program.length = .ok program := by
  intro h p program strings
  have hfile : Program.ofFile (h.toBytes ++ p.text ++ p.data) = .ok p := by
    rw [Program.ofFile_of_executableHeader? (h := h) (by decide +kernel)]
    rfl
  obtain ⟨small, hsmall, -⟩ := exists_ok_of_any (load p ["a", "bc"] 548 (.empty none))
    (fun _ => True) (by decide +kernel)
  obtain ⟨large, hlarge, -⟩ := exists_ok_of_any (load p ["a", "bc"] 4294967844 (.empty none))
    (fun _ => True) (by decide +kernel)
  have hspared := (stack_spares_program _ p h hfile rfl ["a", "bc"] 548 _ small hsmall).1
    (by decide) (by decide)
  obtain ⟨hexact, hread⟩ :=
    (stack_spares_program _ p h hfile rfl ["a", "bc"] 4294967844 _ large hlarge).2
      (by decide +kernel)
  have hspares := hexact.2 (by decide +kernel)
  exact ⟨hfile, by decide +kernel, ⟨small, hsmall, hspared⟩, large, hlarge, hspares, hread hspares⟩

/-- With 28 bytes more than an address space the stack comes down on the text. -/
theorem stack_overwrites_program :
    let h : Header :=
      { magic := 0x108, text := 8, data := 0, bss := 0, syms := 0, entry := 0x80000000, trsize := 0,
        drsize := 0 }
    let p : Program := ⟨some h, [0, 0, 1, 1, 7, 0, 0, 0], [], SymbolTable.empty⟩
    Program.ofFile (h.toBytes ++ p.text) = .ok p ∧
      ∃ m, load p ["a.out"] 4294967324 (.empty none) = .ok m ∧
        ¬ m.memory.Spares (programBytes h p).length
          (stackStores m.memory.top (["a.out"].map Utf8.encode)) ∧
        m.memory.slice 0x80000004 4 = .ok [1, 0, 0, 0] := by
  intro h p
  have hfile : Program.ofFile (h.toBytes ++ p.text) = .ok p := by
    rw [Program.ofFile_of_executableHeader? (h := h) (by decide +kernel)]
    rfl
  obtain ⟨m, hload, -⟩ := exists_ok_of_any (load p ["a.out"] 4294967324 (.empty none))
    (fun _ => True) (by decide +kernel)
  obtain ⟨-, hmemory, -⟩ := exists_of_load (h := h) rfl hload
  obtain ⟨hbase, hsize, -⟩ := exists_segments hmemory
  have hstack : stackLength (["a.out"].map Utf8.encode) ≤ addressed 4294967324 := by decide +kernel
  have hoverlap : ¬ (programBytes h p).length ≤
      stackOffset (addressed 4294967324) (["a.out"].map Utf8.encode) := by
    decide +kernel
  have haddress : h.base + UInt32.ofNat
      (stackOffset (addressed 4294967324) (["a.out"].map Utf8.encode)) = 0x80000004 := by
    decide +kernel
  have hbytes : LittleEndian.toBytes 4 (["a.out"].map Utf8.encode).length = [1, 0, 0, 0] := by
    decide +kernel
  have hcount := slice_count hmemory (by decide) hstack
  rw [haddress, hbytes] at hcount
  refine ⟨hfile, m, hload, ?_, hcount⟩
  rwa [spares_stackStores_iff (hbase ▸ h.toNat_base_mod_four) (hsize ▸ by decide) (hsize ▸ hstack),
    hsize]

end Machine

end Vax
