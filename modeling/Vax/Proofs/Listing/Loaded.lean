import Vax.Proofs.Listing.Locality
import Vax.Proofs.Machine.Layout
import Vax.Proofs.Program.Rewriting
/-!
# Listing a text and listing it in memory

The text of a program is listed from the file, over an image of its own, and
again by a loaded machine, over the whole of memory.  The two listings are the
same exactly when memory holds the text.  It does not where a text is so long
that the address of the data wraps, and the data is stored over the text.
-/

namespace Vax

namespace Memory

variable {m m' : Memory} {address : UInt32} {n : Nat}

theorem slice_front {front back : List UInt8}
    (h : m.slice address (front ++ back).length = .ok (front ++ back)) :
    m.slice address front.length = .ok front := by
  obtain ⟨hend, hbytes⟩ := slice_eq_ok_iff.1 h
  rw [List.length_append] at hend
  rw [List.length_append, bytesAt_add] at hbytes
  have hfront := (List.append_inj hbytes (length_bytesAt _ _ _).symm).1
  exact slice_eq_ok_iff.2 ⟨by omega, hfront⟩

/-- An image that begins with some bytes holds each of them where an image of
nothing else does. -/
theorem readByte_of_slice {base : UInt32} {bytes : List UInt8} (hbase : m.base = base)
    (h : m.slice base bytes.length = .ok bytes) (hin : (address - base).toNat < bytes.length) :
    ∃ byte, (ofBytes base bytes).readByte address = .ok byte ∧ m.readByte address = .ok byte := by
  obtain ⟨hend, hbytes⟩ := slice_eq_ok_iff.1 h
  have hoffset := offset_of_base hbase
  rw [hoffset, Nat.zero_add] at hend
  rw [hoffset] at hbytes
  have hbyte : (ofBytes base bytes).byteAt (address - base).toNat =
      m.byteAt (address - base).toNat := by
    have heq := congrArg (·[(address - base).toNat]?) ((bytesAt_ofBytes base bytes).trans hbytes)
    simpa [bytesAt, hin] using heq
  refine ⟨_, readByte_eq_ok_iff.2 ⟨hin, rfl⟩, readByte_eq_ok_iff.2 ⟨?_, ?_⟩⟩
  · rw [Covers, offset, hbase]
    exact Nat.lt_of_lt_of_le hin hend
  · rw [offset, offset, hbase]
    exact hbyte

theorem exists_store_of_within {bytes : List UInt8}
    (h : (address - m.base).toNat + bytes.length ≤ m.size) :
    ∃ m', m.store address bytes = .ok m' ∧ m'.base = m.base ∧ m'.size = m.size :=
  ⟨_, store_eq_ok_iff.2 ⟨h, rfl⟩, rfl, rfl⟩

end Memory

open Listing

namespace Machine

variable {p : Program} {h : Header} {strings : List String} {size : Nat} {log : Log} {m : Machine}

section Loaded

variable (hheader : p.header = some h) (hload : load p strings size log = .ok m)

include hheader hload

theorem disassembler_of_load : m.disassembler = ⟨m.memory, p.symbols, p.entry?⟩ := by
  obtain ⟨memory, log', -, -, rfl⟩ := eq_of_load hheader hload
  unfold Program.entry?
  rw [hheader]
  rfl

theorem extent_of_load : m.memory.base = p.base ∧ m.memory.size = size := by
  obtain ⟨hbase, hsize, -⟩ := exists_segments (exists_of_load hheader hload).2.1
  exact ⟨hbase.trans (Program.base_of_header hheader).symm, hsize⟩

theorem length_text_le_of_load : p.text.length ≤ size :=
  length_text_le_of_initialMemory (exists_of_load hheader hload).2.1

theorem spans_text_of_load (htop : p.base.toNat + size < 2 ^ 32) :
    Spans m.memory p.base p.textEnd := by
  obtain ⟨hbase, hsize⟩ := extent_of_load hheader hload
  have hlength := length_text_le_of_load hheader hload
  have htext := spans_text p (by omega)
  have hend : p.textEnd.toNat ≤ p.base.toNat + p.text.length := htext.stop_le
  rw [← hbase, ← hsize] at htop
  rw [← hbase] at hend
  rw [← hsize] at hlength
  exact ⟨Nat.le_of_eq (congrArg _ hbase), htext.le_stop, by omega, htop⟩

/-- The listings agree when memory holds the text, and only then. -/
theorem listing_eq_iff_of_load (htop : p.base.toNat + size < 2 ^ 32) :
    m.disassembler.listing p.base p.textEnd = p.listing ↔
      m.memory.slice p.base p.text.length = .ok p.text := by
  obtain ⟨hbase, hsize⟩ := extent_of_load hheader hload
  have hlength := length_text_le_of_load hheader hload
  have hfits : p.base.toNat + p.text.length < 2 ^ 32 := by omega
  have hspans := spans_text_of_load hheader hload htop
  have hend : p.textEnd.toNat - p.base.toNat = p.text.length := by
    rw [Program.textEnd, UInt32.toNat_add, UInt32.toNat_ofNat']
    omega
  have hoffset := Memory.offset_of_base hbase
  have hdisassembler := disassembler_of_load hheader hload
  constructor
  · intro hlisting
    have hbytes := bytes_listing (d := m.disassembler) (by rwa [hdisassembler])
    rw [hlisting, bytes_listing_text p hfits, hdisassembler, hoffset, hend] at hbytes
    exact Memory.slice_eq_ok_iff.2 ⟨by omega, by rwa [hoffset]⟩
  · intro hslice
    rw [hdisassembler]
    refine listing_eq_of_readByte (m := Memory.ofBytes p.base p.text) p.symbols p.entry? hfits
      (by rwa [hbase, hsize]) fun address hlow hhigh => ?_
    have hlow' := UInt32.le_iff_toNat_le.1 hlow
    have hhigh' := UInt32.lt_iff_toNat_lt.1 hhigh
    refine Memory.readByte_of_slice hbase hslice ?_
    rw [UInt32.toNat_sub_of_le _ _ hlow]
    omega

/-- Where the address of the data does not wrap, memory holds the text. -/
theorem slice_text_of_load (htext : p.text.length = h.text.toNat)
    (htop : p.base.toNat + size < 2 ^ 32) (hshort : p.text.length ≤ 2 ^ 32 - 512) :
    m.memory.slice p.base p.text.length = .ok p.text := by
  obtain ⟨hstack, hspares⟩ :=
    spares_program_of_load hheader hload htext (by omega : size ≤ 2 ^ 32) hshort
  rw [Program.base_of_header hheader]
  exact Memory.slice_front (slice_program_of_load hheader hload htext hstack hspares)

/-- Where it wraps, memory holds the data in place of the text. -/
theorem slice_data_of_load (htext : p.text.length = h.text.toNat) (hwhole : size ≤ 2 ^ 32)
    (hlong : 2 ^ 32 - 512 < p.text.length) :
    m.memory.slice p.base p.data.length = .ok p.data := by
  obtain ⟨hfits, hmemory, -⟩ := exists_of_load hheader hload
  obtain ⟨m₁, m₂, -, hdata, hstored⟩ := of_initialMemory hmemory
  have hwrapped : h.dataOffset = 0 := Header.dataOffset_of_lt (htext ▸ hlong)
  have haddress : p.dataAddress = p.base := by
    rw [Program.dataAddress, hheader]
    exact (congrArg (p.base + ·) hwrapped).trans (UInt32.add_zero _)
  have hread := Memory.slice_store hdata
  rw [haddress] at hread
  obtain ⟨hbase, hsize⟩ := Memory.extent_storeAll hstored
  have htop : m₂.top = m.memory.top := by rw [Memory.top, Memory.top, hbase, hsize]
  have haddressed := addressed_of_le (size_pos_of_load hheader hload) hwhole
  rw [imageLength, hwrapped, UInt32.toNat_zero] at hfits
  have hspares : m₂.Spares p.data.length (stackStores m₂.top (strings.map Utf8.encode)) := by
    rw [htop]
    intro store hstore hne
    rw [Memory.offset, ← hbase]
    refine (spares_stack_iff_of_load hheader hload (by omega)).2 ?_ store hstore hne
    rw [haddressed, stackOffset]
    rw [stackLength] at hfits
    omega
  have hoffset := Memory.offset_of_base (hbase.symm.trans (extent_of_load hheader hload).1)
  rw [Memory.slice_storeAll hstored hspares (by omega), hread]

end Loaded

/-- Loading takes nothing but room for every store. -/
theorem exists_load_of_within (log : Log) (hheader : p.header = some h)
    (hfits : imageLength h p + stackLength (strings.map Utf8.encode) ≤ size)
    (htext : p.text.length ≤ size) (hdata : (p.dataAddress - h.base).toNat + p.data.length ≤ size)
    (hstack : ∀ store ∈ stackStores (h.base + UInt32.ofNat size) (strings.map Utf8.encode),
      (store.1 - h.base).toNat + store.2.length ≤ size) :
    ∃ m, load p strings size log = .ok m := by
  have hroom : (h.base - (Memory.zeroed h.base size).base).toNat + p.text.length ≤ size := by
    rw [Memory.zeroed, UInt32.sub_self, UInt32.toNat_zero, Nat.zero_add]
    exact htext
  obtain ⟨m₁, hstore₁, hbase₁, hsize₁⟩ := Memory.exists_store_of_within hroom
  rw [← show m₁.base = h.base from hbase₁, ← show m₁.size = size from hsize₁] at hdata
  obtain ⟨m₂, hstore₂, hbase₂, hsize₂⟩ := Memory.exists_store_of_within hdata
  have hbase : m₂.base = h.base := hbase₂.trans hbase₁
  have hsize : m₂.size = size := hsize₂.trans hsize₁
  rw [← hbase, ← hsize] at hstack
  obtain ⟨memory, hstores⟩ := Memory.exists_storeAll hstack
  have hmemory : initialMemory h p (strings.map Utf8.encode) size = .ok memory := by
    rw [initialMemory, hstore₁]
    change (m₁.store p.dataAddress p.data >>= _) = _
    rw [hstore₂]
    exact hstores
  exact load_of_initialMemory hheader hfits hmemory

/-- A text that goes up to 511 bytes below 2^32 has its first byte replaced. -/
theorem listing_ne_of_wrapped {text rest : List UInt8} (hzero : text = 0 :: rest)
    (hlength : text.length = 4294966785) :
    let h : Header :=
      { magic := 0x108, text := 4294966785, data := 1, bss := 0, syms := 0, entry := 0, trsize := 0,
        drsize := 0 }
    let p : Program := ⟨some h, text, [1], SymbolTable.empty⟩
    Program.ofFile (h.toBytes ++ text ++ [1]) = .ok p ∧
      ∃ m, load p ["a.out"] 4294967295 (.empty none) = .ok m ∧
        p.base.toNat + 4294967295 < 2 ^ 32 ∧
        m.disassembler.listing p.base p.textEnd ≠ p.listing := by
  intro h p
  have hfile : Program.ofFile (h.toBytes ++ text ++ [1]) = .ok p := by
    have hrelocations : Program.relocationsLength h = 0 := by decide
    have hdata : [(1 : UInt8)].length = h.data.toNat := rfl
    have htable : ([] : List UInt8).length = h.syms.toNat := rfl
    rw [← List.append_nil (h.toBytes ++ text ++ [1]),
      Program.ofFile_toBytes_append rfl hlength hdata hrelocations htable, SymbolTable.ofBytes_nil]
  have hroom : h.dataOffset.toNat + [(1 : UInt8)].length + h.bss.toNat +
      stackLength (["a.out"].map Utf8.encode) ≤ 4294967295 := by
    decide +kernel
  have hdata : (h.base + h.dataOffset - h.base).toNat + [(1 : UInt8)].length ≤ 4294967295 := by
    decide +kernel
  have htop : h.base.toNat + 4294967295 < 2 ^ 32 := by decide +kernel
  obtain ⟨m, hload⟩ := exists_load_of_within (.empty none) (p := p) (h := h) rfl hroom
    (hlength.trans_le (by decide)) hdata (by decide +kernel)
  refine ⟨hfile, m, hload, htop, fun hlisting => ?_⟩
  have htext := (listing_eq_iff_of_load rfl hload htop).1 hlisting
  have hread := slice_data_of_load (h := h) rfl hload hlength (by decide) (by
    change _ < text.length
    rw [hlength]
    decide)
  have hsplit : p.text = [0] ++ rest := hzero
  rw [hsplit] at htext
  have hfirst := Memory.slice_front htext
  exact absurd (hfirst.symm.trans hread) nofun

end Machine

open Machine

/-- An image is listed like every other that holds the same bytes in the range.
So if it is the memory of a program that was just loaded, the text is listed in
it as it is listed from the file, exactly when the image holds the text.  It
does if the address of the data does not wrap, and otherwise it begins with the
data. -/
theorem listing_depends_on_its_bytes (image : Memory)
    (htop : image.base.toNat + image.size < 2 ^ 32) :
    (∀ (other : Memory) (symbols : SymbolTable) (entry : Option UInt32) (start stop : UInt32),
        other.base.toNat + other.size < 2 ^ 32 →
        (∀ address, start ≤ address → address < stop →
          ∃ byte, image.readByte address = .ok byte ∧ other.readByte address = .ok byte) →
        Disassembler.listing ⟨other, symbols, entry⟩ start stop =
          Disassembler.listing ⟨image, symbols, entry⟩ start stop) ∧
    ∀ (file : List UInt8) (p : Program) (arguments : List String) (size : Nat) (log : Log)
      (m : Machine), Program.ofFile file = .ok p → load p arguments size log = .ok m →
      m.memory = image →
      (m.disassembler.listing p.base p.textEnd = p.listing ↔
        image.slice p.base p.text.length = .ok p.text) ∧
      (p.text.length ≤ 2 ^ 32 - 512 →
        m.disassembler.listing p.base p.textEnd = p.listing) ∧
      (2 ^ 32 - 512 < p.text.length → image.slice p.base p.data.length = .ok p.data) := by
  constructor
  · intro other symbols entry start stop htop' hbytes
    exact listing_eq_of_readByte symbols entry htop htop' hbytes
  · rintro file p arguments size log m hfile hload rfl
    obtain ⟨h, hheader⟩ := exists_header_of_load hload
    obtain ⟨hbase, hsize⟩ := extent_of_load hheader hload
    rw [hbase, hsize] at htop
    have hiff := listing_eq_iff_of_load hheader hload htop
    have htext := (Program.lengths_of_ofFile hfile hheader).1
    refine ⟨hiff, fun hshort => hiff.2 ?_, fun hlong => ?_⟩
    · exact slice_text_of_load hheader hload htext htop hshort
    · exact slice_data_of_load hheader hload htext (by omega) hlong

/-- One image ends in the middle of an instruction and the other goes on, and
a program is listed before it is run. -/
theorem listing_depends_on_its_bytes_cut :
    let image := Memory.ofBytes 0x1000 [0x01, 0xd0]
    let other := Memory.ofBytes 0xffc [0x04, 0x04, 0x04, 0x04, 0x01, 0xd0, 0x51, 0x52]
    let h : Header :=
      { magic := 0x108, text := 4, data := 3, bss := 5, syms := 0, entry := 0x80000000, trsize := 0,
        drsize := 0 }
    let p : Program := ⟨some h, [0, 0, 0xd5, 0x51], [1, 2, 3], SymbolTable.empty⟩
    Disassembler.listing ⟨other, .empty, none⟩ 0x1000 0x1002 =
        Disassembler.listing ⟨image, .empty, none⟩ 0x1000 0x1002 ∧
      Disassembler.listing ⟨other, .empty, none⟩ 0x1000 0x1004 ≠
        Disassembler.listing ⟨image, .empty, none⟩ 0x1000 0x1004 ∧
      Program.ofFile (h.toBytes ++ p.text ++ p.data) = .ok p ∧
      ∃ m, load p ["a", "bc"] 548 (.empty none) = .ok m ∧
        m.disassembler.listing p.base p.textEnd = p.listing := by
  intro image other h p
  have hbytes : ∀ address, (0x1000 : UInt32) ≤ address → address < 0x1002 →
      ∃ byte, image.readByte address = .ok byte ∧ other.readByte address = .ok byte := by
    intro address hlow hhigh
    rw [UInt32.le_iff_toNat_le] at hlow
    rw [UInt32.lt_iff_toNat_lt] at hhigh
    change 4096 ≤ _ at hlow
    change _ < 4098 at hhigh
    obtain hfirst | hsecond : address.toNat = 4096 ∨ address.toNat = 4097 := by omega
    · obtain rfl : address = 0x1000 := UInt32.toNat_inj.1 hfirst
      exact ⟨0x01, by decide +kernel, by decide +kernel⟩
    · obtain rfl : address = 0x1001 := UInt32.toNat_inj.1 hsecond
      exact ⟨0xd0, by decide +kernel, by decide +kernel⟩
  have hfile : Program.ofFile (h.toBytes ++ p.text ++ p.data) = .ok p := by
    rw [Program.ofFile_of_executableHeader? (h := h) (by decide +kernel)]
    rfl
  obtain ⟨m, hload, hbelow⟩ := exists_ok_of_any (load p ["a", "bc"] 548 (.empty none))
    (fun m => m.memory.base.toNat + m.memory.size < 2 ^ 32) (by decide +kernel)
  have himages := (listing_depends_on_its_bytes image (by decide +kernel)).1
  have hloaded := (listing_depends_on_its_bytes m.memory hbelow).2
  refine ⟨himages other .empty none 0x1000 0x1002 (by decide +kernel) hbytes, by decide +kernel,
    hfile, m, hload, ?_⟩
  exact (hloaded _ p _ _ _ m hfile hload rfl).2.1 (by decide)

/-- The data of a program with a text of almost 2^32 bytes is stored over the
text. -/
theorem wrapped_data_is_listed :
    let h : Header :=
      { magic := 0x108, text := 4294966785, data := 1, bss := 0, syms := 0, entry := 0, trsize := 0,
        drsize := 0 }
    let text : List UInt8 := List.replicate 4294966785 0
    let p : Program := ⟨some h, text, [1], SymbolTable.empty⟩
    Program.ofFile (h.toBytes ++ text ++ [1]) = .ok p ∧
      ∃ m, load p ["a.out"] 4294967295 (.empty none) = .ok m ∧
        p.base.toNat + 4294967295 < 2 ^ 32 ∧
        m.disassembler.listing p.base p.textEnd ≠ p.listing :=
  listing_ne_of_wrapped List.replicate_succ List.length_replicate

end Vax
