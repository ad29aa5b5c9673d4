import Mathlib.Algebra.GroupWithZero.Nat
import Vax.Machine.Load
import Vax.Proofs.Machine.Stack
import Vax.Proofs.Memory.Contents
import Vax.Proofs.Program.Segments
/-!
# What a loaded program finds

A program that fits is loaded, and then its memory is one run of bytes: the
text, the data on the next aligned address, zeros, and at the top the initial
stack.  The stack is counted downward from the top and filled upward, with
pointers and strings at two places at once.
-/

namespace Vax

/-! ## The initial stack -/

theorem ofNat_add_ofNat (base : UInt32) (a b : Nat) :
    base + UInt32.ofNat a + UInt32.ofNat b = base + UInt32.ofNat (a + b) := by
  rw [UInt32.add_assoc, UInt32.ofNat_add]

theorem ofNat_sub_ofNat (base : UInt32) {a b : Nat} (h : b ≤ a) :
    base + UInt32.ofNat a - UInt32.ofNat b = base + UInt32.ofNat (a - b) := by
  rw [UInt32.sub_eq_iff_eq_add, ofNat_add_ofNat, Nat.sub_add_cancel h]

/-- The arguments one behind the other, each with the zero that ends it. -/
def argumentStrings (arguments : List (List UInt8)) : List UInt8 :=
  arguments.flatMap fun argument => argument ++ [0]

/-- The addresses of the arguments when the first is at `address`. -/
def argumentAddresses (address : UInt32) : List (List UInt8) → List UInt32
  | [] => []
  | argument :: rest =>
    address :: argumentAddresses (address + UInt32.ofNat argument.length + 1) rest

/-- The pointers to the arguments when the first is at `address`. -/
def argumentPointers (address : UInt32) (arguments : List (List UInt8)) : List UInt8 :=
  (longFields (argumentAddresses address arguments)).flatten

theorem argumentBytes_cons (argument : List UInt8) (rest : List (List UInt8)) :
    Machine.argumentBytes (argument :: rest) =
      argument.length + (1 + Machine.argumentBytes rest) := by
  rw [Machine.argumentBytes, List.foldr_cons, ← Machine.argumentBytes, Nat.add_assoc]

theorem argumentBytes_eq_sum (arguments : List (List UInt8)) :
    Machine.argumentBytes arguments =
      (arguments.map fun argument => argument.length + 1).sum := by
  induction arguments with
  | nil => rfl
  | cons argument rest ih =>
      rw [argumentBytes_cons, ih, List.map_cons, List.sum_cons, Nat.add_assoc]

theorem argumentStrings_cons (argument : List UInt8) (rest : List (List UInt8)) :
    argumentStrings (argument :: rest) = argument ++ ([0] ++ argumentStrings rest) := by
  simp [argumentStrings]

theorem length_argumentStrings (arguments : List (List UInt8)) :
    (argumentStrings arguments).length = Machine.argumentBytes arguments := by
  induction arguments with
  | nil => rfl
  | cons argument rest ih =>
    rw [argumentStrings_cons, argumentBytes_cons, List.length_append, List.length_append, ih,
      List.length_singleton]

theorem length_argumentAddresses (address : UInt32) (arguments : List (List UInt8)) :
    (argumentAddresses address arguments).length = arguments.length := by
  induction arguments generalizing address with
  | nil => rfl
  | cons argument rest ih => rw [argumentAddresses, List.length_cons, ih, List.length_cons]

@[simp] theorem length_argumentPointers (address : UInt32) (arguments : List (List UInt8)) :
    (argumentPointers address arguments).length = 4 * arguments.length := by
  rw [argumentPointers, length_longFields, length_argumentAddresses]

theorem argumentPointers_cons (address : UInt32) (argument : List UInt8)
    (rest : List (List UInt8)) :
    argumentPointers address (argument :: rest) = LittleEndian.toBytes 4 address.toNat ++
      argumentPointers (address + UInt32.ofNat argument.length + 1) rest := rfl

theorem argumentPointers_append (address : UInt32) (left right : List (List UInt8)) :
    argumentPointers address (left ++ right) = argumentPointers address left ++
      argumentPointers (address + UInt32.ofNat (Machine.argumentBytes left)) right := by
  induction left generalizing address with
  | nil =>
    have hnone : address + UInt32.ofNat (Machine.argumentBytes []) = address := UInt32.add_zero _
    rw [List.nil_append, hnone]
    rfl
  | cons argument others ih =>
    rw [List.cons_append, argumentPointers_cons, argumentPointers_cons, ih, List.append_assoc,
      argumentBytes_cons, ← ofNat_add_ofNat, ← ofNat_add_ofNat]
    rfl

theorem argumentStrings_append (left right : List (List UInt8)) :
    argumentStrings (left ++ right) = argumentStrings left ++ argumentStrings right :=
  List.flatMap_append

/-- So many bytes that nothing has been stored to. -/
abbrev zeros (count : Nat) : List UInt8 :=
  List.replicate count 0

theorem zeros_add (a b : Nat) : zeros (a + b) = zeros a ++ zeros b :=
  List.replicate_append_replicate.symm

/-- What the initial stack holds when the first argument is at `address`. -/
def initialStack (address : UInt32) (arguments : List (List UInt8)) : List UInt8 :=
  LittleEndian.toBytes 4 arguments.length ++
    (argumentPointers address arguments ++
      (LittleEndian.toBytes 8 0 ++ argumentStrings arguments))

theorem length_initialStack (address : UInt32) (arguments : List (List UInt8)) :
    (initialStack address arguments).length =
      4 * (arguments.length + 3) + Machine.argumentBytes arguments := by
  rw [initialStack, List.length_append, List.length_append, List.length_append,
    LittleEndian.length_toBytes, LittleEndian.length_toBytes, length_argumentPointers,
    length_argumentStrings]
  omega

/-- One store after the other. -/
def Memory.storeAll (m : Memory) (stores : List (UInt32 × List UInt8)) : Except OutOfRange Memory :=
  stores.foldlM (fun memory (address, bytes) => memory.store address bytes) m

theorem Memory.storeAll_cons {m m' : Memory} {address : UInt32} {bytes : List UInt8}
    (h : m.store address bytes = .ok m') (stores : List (UInt32 × List UInt8)) :
    m.storeAll ((address, bytes) :: stores) = m'.storeAll stores := by
  rw [storeAll, List.foldlM_cons]
  change (m.store address bytes >>= _) = _
  rw [h]
  rfl

namespace Memory.Image

variable {m : Memory} {base pointer address : UInt32} {front middle rest : List UInt8}
  {arguments : List (List UInt8)} {a b : Nat}

/-- The arguments are filled in at two places: a pointer where the pointers
end so far, and a string where the strings do. -/
theorem storeArguments
    (h : m.Image base (front ++ (zeros (4 * arguments.length) ++
      (middle ++ (zeros (Machine.argumentBytes arguments) ++ rest)))))
    (hpointer : pointer = base + UInt32.ofNat a) (ha : front.length = a)
    (haddress : address = base + UInt32.ofNat b)
    (hb : a + 4 * arguments.length + middle.length = b) :
    ∃ m', m.storeAll (Machine.argumentStores pointer address arguments) = .ok m' ∧
      m'.Image base (front ++ (argumentPointers address arguments ++
        (middle ++ (argumentStrings arguments ++ rest)))) := by
  induction arguments generalizing m front middle pointer address a b with
  | nil => exact ⟨m, rfl, h⟩
  | cons argument others ih =>
    rw [List.length_cons] at hb
    rw [argumentBytes_cons, List.length_cons, Nat.mul_succ, Nat.add_comm (4 * _) 4, zeros_add,
      zeros_add, zeros_add, List.append_assoc, List.append_assoc, List.append_assoc] at h
    obtain ⟨m₁, hstore₁, h₁⟩ := h.store (LittleEndian.toBytes 4 address.toNat) hpointer ha (by simp)
    let before := front ++ (LittleEndian.toBytes 4 address.toNat ++
      (zeros (4 * others.length) ++ middle))
    have hbefore : before.length = b := by
      simp only [before, List.length_append, LittleEndian.length_toBytes, List.length_replicate]
      omega
    have hstring : m₁.Image base (before ++ (zeros argument.length ++
        (zeros 1 ++ (zeros (Machine.argumentBytes others) ++ rest)))) := by
      simpa only [before, List.append_assoc] using h₁
    obtain ⟨m₂, hstore₂, h₂⟩ := hstring.store argument haddress hbefore (by simp)
    have hfinal : address + UInt32.ofNat argument.length =
        base + UInt32.ofNat (b + argument.length) := by
      rw [haddress, ofNat_add_ofNat]
    rw [← List.append_assoc] at h₂
    obtain ⟨m₃, hstore₃, h₃⟩ := h₂.store [0] hfinal
      (by rw [List.length_append, hbefore]) (by simp)
    have hpointer' : pointer + 4 = base + UInt32.ofNat (a + 4) := by
      rw [hpointer]
      exact ofNat_add_ofNat base a 4
    have haddress' : address + UInt32.ofNat argument.length + 1 =
        base + UInt32.ofNat (b + argument.length + 1) := by
      rw [hfinal]
      exact ofNat_add_ofNat base _ 1
    have hothers : m₃.Image base ((front ++ LittleEndian.toBytes 4 address.toNat) ++
        (zeros (4 * others.length) ++ ((middle ++ (argument ++ [0])) ++
          (zeros (Machine.argumentBytes others) ++ rest)))) := by
      simpa only [before, List.append_assoc] using h₃
    obtain ⟨m', hstores, h'⟩ := ih hothers
      hpointer' (by rw [List.length_append, ha, LittleEndian.length_toBytes]) haddress'
      (by simp only [List.length_append, List.length_singleton]; omega)
    refine ⟨m', ?_, ?_⟩
    · rw [Machine.argumentStores, storeAll_cons hstore₁, storeAll_cons hstore₂,
        storeAll_cons hstore₃]
      exact hstores
    · rw [argumentPointers_cons, argumentStrings_cons]
      simpa only [List.append_assoc] using h'

/-- Each pointer is the address of its argument. -/
theorem readArgument {left right : List (List UInt8)} {argument : List UInt8}
    (h : m.Image base (front ++ (argumentPointers address (left ++ argument :: right) ++
      (middle ++ (argumentStrings (left ++ argument :: right) ++ rest)))))
    (ha : front.length = a) (haddress : address = base + UInt32.ofNat b)
    (hb : a + 4 * (left ++ argument :: right).length + middle.length = b) :
    m.readLong (base + UInt32.ofNat (a + 4 * left.length)) =
        .ok (address + UInt32.ofNat (Machine.argumentBytes left)) ∧
      m.slice (address + UInt32.ofNat (Machine.argumentBytes left)) (argument.length + 1) =
        .ok (argument ++ [0]) := by
  rw [argumentPointers_append, argumentPointers_cons, argumentStrings_append,
    argumentStrings_cons] at h
  constructor
  · apply readLong_of_slice
    have hpointer : m.Image base ((front ++ argumentPointers address left) ++
        (LittleEndian.toBytes 4 (address + UInt32.ofNat (Machine.argumentBytes left)).toNat ++
          (argumentPointers (address + UInt32.ofNat (Machine.argumentBytes left) +
            UInt32.ofNat argument.length + 1) right ++ (middle ++ (argumentStrings left ++
              (argument ++ ([0] ++ (argumentStrings right ++ rest)))))))) := by
      simpa only [List.append_assoc] using h
    have hslice : m.slice (base + UInt32.ofNat (a + 4 * left.length)) _ = _ :=
      hpointer.slice rfl (by rw [List.length_append, length_argumentPointers, ha])
    rwa [LittleEndian.length_toBytes] at hslice
  · let before := front ++ (argumentPointers address left ++
      (LittleEndian.toBytes 4 (address + UInt32.ofNat (Machine.argumentBytes left)).toNat ++
      (argumentPointers (address + UInt32.ofNat (Machine.argumentBytes left) +
        UInt32.ofNat argument.length + 1) right ++ (middle ++ argumentStrings left))))
    have hbefore : before.length = b + Machine.argumentBytes left := by
      simp only [List.length_append, List.length_cons] at hb
      simp only [before, List.length_append, length_argumentPointers, LittleEndian.length_toBytes,
        length_argumentStrings]
      omega
    have hstring : m.Image base (before ++ ((argument ++ [0]) ++
        (argumentStrings right ++ rest))) := by
      simpa only [before, List.append_assoc] using h
    have hslice : m.slice (address + UInt32.ofNat (Machine.argumentBytes left)) _ =
        .ok (argument ++ [0]) :=
      hstring.slice (by rw [haddress, ofNat_add_ofNat]) hbefore
    rwa [List.length_append] at hslice

/-- The initial stack is filled in below the top. -/
theorem storeStack {top : UInt32}
    (h : m.Image base (front ++ (zeros (4 * (arguments.length + 3) +
      Machine.argumentBytes arguments) ++ rest)))
    (ha : front.length = a)
    (haddress : Machine.argumentsAddress top arguments =
      base + UInt32.ofNat (a + 4 * (arguments.length + 3)))
    (hsp : Machine.initialSp top arguments = base + UInt32.ofNat a) :
    ∃ m', m.storeAll (Machine.stackStores top arguments) = .ok m' ∧
      m'.Image base (front ++
        (initialStack (Machine.argumentsAddress top arguments) arguments ++ rest)) := by
  have hparts : zeros (4 * (arguments.length + 3) + Machine.argumentBytes arguments) =
      zeros 4 ++ (zeros (4 * arguments.length) ++ (zeros 8 ++
        zeros (Machine.argumentBytes arguments))) := by
    simp only [← zeros_add]
    congr 1
    omega
  rw [hparts] at h
  have hends : Machine.argumentsAddress top arguments - 8 =
      base + UInt32.ofNat (a + 4 * (arguments.length + 1)) := by
    rw [haddress]
    exact ofNat_sub_ofNat base (b := 8) (by omega)
  have hzeros : m.Image base ((front ++ (zeros 4 ++ zeros (4 * arguments.length))) ++
      (zeros 8 ++ (zeros (Machine.argumentBytes arguments) ++ rest))) := by
    simpa only [List.append_assoc] using h
  obtain ⟨m₁, hstore₁, h₁⟩ := hzeros.store (LittleEndian.toBytes 8 0) hends
    (by simp only [List.length_append, List.length_replicate]; omega) (by simp)
  have hcount : m₁.Image base (front ++ (zeros 4 ++ (zeros (4 * arguments.length) ++
      (LittleEndian.toBytes 8 0 ++ (zeros (Machine.argumentBytes arguments) ++ rest))))) := by
    simpa only [List.append_assoc] using h₁
  obtain ⟨m₂, hstore₂, h₂⟩ := hcount.store (LittleEndian.toBytes 4 arguments.length) hsp ha
    (by simp)
  have hpointer : Machine.initialSp top arguments + 4 = base + UInt32.ofNat (a + 4) := by
    rw [hsp]
    exact ofNat_add_ofNat base a 4
  rw [← List.append_assoc] at h₂
  have hplace : (front ++ LittleEndian.toBytes 4 arguments.length).length = a + 4 := by
    rw [List.length_append, ha, LittleEndian.length_toBytes]
  obtain ⟨m₃, hstores, h₃⟩ := storeArguments h₂ hpointer hplace haddress
    (by rw [LittleEndian.length_toBytes]; omega)
  refine ⟨m₃, ?_, ?_⟩
  · rw [Machine.stackStores, storeAll_cons hstore₁, storeAll_cons hstore₂]
    exact hstores
  · rw [initialStack]
    simpa only [List.append_assoc] using h₃

end Memory.Image

/-! ## Where things are put -/

/-- A length rounded up to the alignment of data. -/
def alignedLength (length : Nat) : Nat :=
  (length + 511) / 512 * 512

theorem le_alignedLength (length : Nat) : length ≤ alignedLength length := by
  rw [alignedLength]
  omega

theorem Header.toNat_base_mod_four (h : Header) : h.base.toNat % 4 = 0 := by
  rw [Header.base]
  split <;> rfl

theorem Header.toNat_dataOffset {h : Header} (htext : h.text.toNat ≤ 2 ^ 32 - 512) :
    h.dataOffset.toNat = alignedLength h.text.toNat := by
  have hraised : (h.text + (dataAlignment - 1)).toNat = h.text.toNat + 511 := by
    rw [UInt32.toNat_add]
    change (h.text.toNat + 511) % 2 ^ 32 = _
    omega
  have hmod : ((h.text + (dataAlignment - 1)) % dataAlignment).toNat =
      (h.text.toNat + 511) % 512 := by
    rw [UInt32.toNat_mod, hraised]
    rfl
  rw [dataOffset, UInt32.toNat_sub_of_le _ _ (by rw [UInt32.le_iff_toNat_le]; omega), hraised, hmod,
    alignedLength]
  omega

/-- A length close to 2^32 is rounded up to zero. -/
theorem Header.dataOffset_of_lt {h : Header} (hlong : 2 ^ 32 - 512 < h.text.toNat) :
    h.dataOffset = 0 := by
  have hlt := h.text.toNat_lt
  have hraised : (h.text + (dataAlignment - 1)).toNat = h.text.toNat + 511 - 2 ^ 32 := by
    rw [UInt32.toNat_add]
    change (h.text.toNat + 511) % 2 ^ 32 = _
    omega
  have hrest : (h.text + (dataAlignment - 1)) % dataAlignment = h.text + (dataAlignment - 1) := by
    apply UInt32.toNat_inj.1
    rw [UInt32.toNat_mod]
    change _ % 512 = _
    omega
  rw [dataOffset, hrest, UInt32.sub_self]

theorem Header.toNat_base_le (h : Header) : h.base.toNat ≤ 2 ^ 31 := by
  rw [Header.base]
  split <;> decide

theorem Program.base_of_header {h : Header} {p : Program} (hheader : p.header = some h) :
    p.base = h.base := by
  rw [base, hheader]
  rfl

namespace Machine

variable {base : UInt32} {size : Nat} {arguments : List (List UInt8)}

/-- The first argument is on the last multiple of four that leaves enough room. -/
theorem argumentsAddress_eq (hbase : base.toNat % 4 = 0)
    (hfits : argumentBytes arguments ≤ size) :
    argumentsAddress (base + UInt32.ofNat size) arguments =
      base + UInt32.ofNat ((size - argumentBytes arguments) / 4 * 4) := by
  have hlowest : base + UInt32.ofNat size - UInt32.ofNat (argumentBytes arguments) =
      base + UInt32.ofNat (size - argumentBytes arguments) := ofNat_sub_ofNat base hfits
  have hrest : (base + UInt32.ofNat (size - argumentBytes arguments)) % 4 =
      UInt32.ofNat ((size - argumentBytes arguments) % 4) := by
    apply UInt32.toNat_inj.1
    rw [UInt32.toNat_mod, UInt32.toNat_add, UInt32.toNat_ofNat', UInt32.toNat_ofNat']
    change _ % 4 = _
    omega
  rw [argumentsAddress, hlowest, hrest, ofNat_sub_ofNat base (Nat.mod_le _ _)]
  congr 2
  omega

theorem initialSp_eq {offset : Nat} (hbase : base.toNat % 4 = 0)
    (hfits : argumentBytes arguments ≤ size)
    (hoffset : offset + 4 * (arguments.length + 3) = (size - argumentBytes arguments) / 4 * 4) :
    initialSp (base + UInt32.ofNat size) arguments = base + UInt32.ofNat offset := by
  rw [initialSp, argumentsAddress_eq hbase hfits, ← hoffset,
    ofNat_sub_ofNat base (b := (arguments.length + 2) * 4) (by omega)]
  change _ - UInt32.ofNat 4 = _
  rw [ofNat_sub_ofNat base (by omega)]
  congr 2
  omega

variable {h : Header} {p : Program}

/-- What is in memory when `gap` bytes between the data and the stack and
`padding` bytes above the arguments are left zero. -/
def initialBytes (h : Header) (p : Program) (arguments : List (List UInt8)) (gap padding : Nat) :
    List UInt8 :=
  let stack := alignedLength p.text.length + p.data.length + gap
  let strings := h.base + UInt32.ofNat (stack + 4 * (arguments.length + 3))
  p.text ++ (zeros (alignedLength p.text.length - p.text.length) ++ (p.data ++ (zeros gap ++
    (initialStack strings arguments ++ zeros padding))))

theorem dataAddress_eq (hheader : p.header = some h) (htext : p.text.length = h.text.toNat)
    (hle : p.text.length ≤ 2 ^ 32 - 512) :
    p.dataAddress = h.base + UInt32.ofNat (alignedLength p.text.length) := by
  rw [Program.dataAddress, Program.base_of_header hheader, hheader, htext,
    ← Header.toNat_dataOffset (htext ▸ hle), UInt32.ofNat_toNat]
  rfl

/-- The text and the data are stored in front of bytes that stay zero. -/
theorem exists_storeSegments {rest : Nat} (hheader : p.header = some h)
    (htext : p.text.length = h.text.toNat) (hsize : size ≤ 2 ^ 31)
    (htotal : alignedLength p.text.length + p.data.length + rest = size) :
    ∃ m₁ m₂, (Memory.zeroed h.base size).store h.base p.text = .ok m₁ ∧
      m₁.store p.dataAddress p.data = .ok m₂ ∧
      m₂.Image h.base ((p.text ++ zeros (alignedLength p.text.length - p.text.length)) ++
        (p.data ++ zeros rest)) := by
  have htextLe := le_alignedLength p.text.length
  have hparts : zeros size = zeros p.text.length ++
      (zeros (alignedLength p.text.length - p.text.length) ++ (zeros p.data.length ++
        zeros rest)) := by
    simp only [← zeros_add]
    congr 1
    omega
  have hzeroed : (Memory.zeroed h.base size).Image h.base (zeros size) :=
    Memory.image_zeroed h.base (by omega)
  rw [hparts, ← List.nil_append (zeros p.text.length ++ _)] at hzeroed
  obtain ⟨m₁, hstore₁, h₁⟩ := hzeroed.store p.text (UInt32.add_zero h.base).symm rfl (by simp)
  rw [List.nil_append, ← List.append_assoc] at h₁
  obtain ⟨m₂, hstore₂, h₂⟩ := h₁.store p.data (dataAddress_eq hheader htext (by omega))
    (by rw [List.length_append, List.length_replicate]; omega) (by simp)
  exact ⟨m₁, m₂, hstore₁, hstore₂, h₂⟩

theorem initialMemory_eq_ok (gap padding : Nat) (hheader : p.header = some h)
    (htext : p.text.length = h.text.toNat) (hsize : size ≤ 2 ^ 31) (hpadding : padding ≤ 3)
    (htotal : alignedLength p.text.length + p.data.length + gap + 4 * (arguments.length + 3) +
      argumentBytes arguments + padding = size)
    (haligned : (alignedLength p.text.length + p.data.length + gap) % 4 = 0) :
    ∃ memory, initialMemory h p arguments size = .ok memory ∧ memory.size = size ∧
      memory.Image h.base (initialBytes h p arguments gap padding) ∧
      initialSp memory.top arguments =
        h.base + UInt32.ofNat (alignedLength p.text.length + p.data.length + gap) := by
  have htextLe := le_alignedLength p.text.length
  have hbase := h.toNat_base_mod_four
  have hfits : argumentBytes arguments ≤ size := by omega
  have hstrings : argumentsAddress (h.base + UInt32.ofNat size) arguments = h.base + UInt32.ofNat
      (alignedLength p.text.length + p.data.length + gap + 4 * (arguments.length + 3)) := by
    rw [argumentsAddress_eq hbase hfits]
    congr 2
    omega
  have hsp : initialSp (h.base + UInt32.ofNat size) arguments =
      h.base + UInt32.ofNat (alignedLength p.text.length + p.data.length + gap) :=
    initialSp_eq hbase hfits (by omega)
  have htotal' : alignedLength p.text.length + p.data.length +
      (gap + (4 * (arguments.length + 3) + argumentBytes arguments + padding)) = size := by
    omega
  obtain ⟨m₁, m₂, hstore₁, hstore₂, h₂⟩ := exists_storeSegments hheader htext hsize htotal'
  have hstack : m₂.Image h.base ((p.text ++ (zeros (alignedLength p.text.length - p.text.length) ++
      (p.data ++ zeros gap))) ++ (zeros (4 * (arguments.length + 3) + argumentBytes arguments) ++
        zeros padding)) := by
    simpa only [zeros_add, List.append_assoc] using h₂
  obtain ⟨m₃, hstores, h₃⟩ := hstack.storeStack
    (by simp only [List.length_append, List.length_replicate]; omega) hstrings hsp
  have hsize₂ : m₂.size = size := by
    rw [h₂.size_eq]
    simp only [List.length_append, List.length_replicate]
    omega
  have hsize₃ : m₃.size = size := by
    rw [h₃.size_eq]
    simp only [List.length_append, List.length_replicate, length_initialStack]
    omega
  refine ⟨m₃, ?_, hsize₃, ?_, ?_⟩
  · rw [initialMemory, hstore₁]
    change (m₁.store p.dataAddress p.data >>= _) = _
    rw [hstore₂]
    change m₂.storeAll (stackStores m₂.top arguments) = _
    rw [h₂.top_eq hsize₂, hstores]
  · rw [hstrings] at h₃
    simpa only [initialBytes, List.append_assoc] using h₃
  · rw [h₃.top_eq hsize₃, hsp]

theorem exists_initialMemory (hheader : p.header = some h)
    (htext : p.text.length = h.text.toNat) (hsize : size ≤ 2 ^ 31)
    (hfits : alignedLength p.text.length + p.data.length + h.bss.toNat + stackLength arguments ≤
      size) :
    ∃ gap padding memory, h.bss.toNat ≤ gap ∧ padding ≤ 3 ∧
      (alignedLength p.text.length + p.data.length + gap) % 4 = 0 ∧
      initialMemory h p arguments size = .ok memory ∧ memory.size = size ∧
      memory.Image h.base (initialBytes h p arguments gap padding) ∧
      initialSp memory.top arguments =
        h.base + UInt32.ofNat (alignedLength p.text.length + p.data.length + gap) := by
  rw [stackLength] at hfits
  let strings := (size - argumentBytes arguments) / 4 * 4
  obtain ⟨gap, hgap⟩ : ∃ gap, alignedLength p.text.length + p.data.length + gap +
      4 * (arguments.length + 3) = strings :=
    ⟨strings - 4 * (arguments.length + 3) - p.data.length - alignedLength p.text.length, by omega⟩
  obtain ⟨padding, hpadded⟩ : ∃ padding, strings + argumentBytes arguments + padding = size :=
    ⟨size - argumentBytes arguments - strings, by omega⟩
  have htotal : alignedLength p.text.length + p.data.length + gap + 4 * (arguments.length + 3) +
      argumentBytes arguments + padding = size := by
    omega
  obtain ⟨memory, hmemory⟩ :=
    initialMemory_eq_ok gap padding hheader htext hsize (by omega) htotal (by omega)
  exact ⟨gap, padding, memory, by omega, by omega, by omega, hmemory⟩

/-! ## Loading -/

section Load

variable {strings : List String} {log : Log} {m : Machine}

/-- A machine is loaded with a memory and registers, and is otherwise fresh. -/
theorem eq_of_load (hheader : p.header = some h) (hload : load p strings size log = .ok m) :
    ∃ memory log', imageLength h p + stackLength (strings.map Utf8.encode) ≤ size ∧
      initialMemory h p (strings.map Utf8.encode) size = .ok memory ∧
      m =
        { registers := (Registers.zeroed.set Register.pc h.entry).set Register.sp
            (initialSp memory.top (strings.map Utf8.encode))
          memory := memory, symbols := p.symbols, entry := h.entry, status := .notStarted
          frames := #[], output := .unlimited, log := log', current := h.entry } := by
  rw [load, hheader] at hload
  change (if size < _ then _ else _) = _ at hload
  split at hload
  · exact absurd hload nofun
  next hfits =>
  cases hmemory : initialMemory h p (strings.map Utf8.encode) size with
  | error e =>
    rw [hmemory] at hload
    exact absurd hload nofun
  | ok memory =>
    rw [hmemory] at hload
    exact ⟨memory, _, Nat.not_lt.1 hfits, rfl, (Except.ok.inj hload).symm⟩

theorem exists_of_load (hheader : p.header = some h) (hload : load p strings size log = .ok m) :
    imageLength h p + stackLength (strings.map Utf8.encode) ≤ size ∧
      initialMemory h p (strings.map Utf8.encode) size = .ok m.memory ∧
      m.registers = (Registers.zeroed.set Register.pc h.entry).set Register.sp
        (initialSp m.memory.top (strings.map Utf8.encode)) := by
  obtain ⟨memory, log', hfits, hmemory, rfl⟩ := eq_of_load hheader hload
  exact ⟨hfits, hmemory, rfl⟩

theorem exists_header_of_load (hload : load p strings size log = .ok m) :
    ∃ h, p.header = some h := by
  cases hheader : p.header with
  | some h => exact ⟨h, rfl⟩
  | none =>
    rw [load, hheader] at hload
    exact absurd hload nofun

theorem load_of_initialMemory {memory : Memory} (hheader : p.header = some h)
    (hfits : imageLength h p + stackLength (strings.map Utf8.encode) ≤ size)
    (hmemory : initialMemory h p (strings.map Utf8.encode) size = .ok memory) :
    ∃ m, load p strings size log = .ok m := by
  rw [load, hheader]
  change ∃ m, (if size < _ then _ else _) = Except.ok m
  rw [if_neg (Nat.not_lt.2 hfits), hmemory]
  exact ⟨_, rfl⟩

end Load

/-- The text is stored, then the data, then the stack. -/
theorem of_initialMemory {memory : Memory}
    (hmemory : initialMemory h p arguments size = .ok memory) :
    ∃ m₁ m₂, (Memory.zeroed h.base size).store h.base p.text = .ok m₁ ∧
      m₁.store p.dataAddress p.data = .ok m₂ ∧
      m₂.storeAll (stackStores m₂.top arguments) = .ok memory := by
  rw [initialMemory] at hmemory
  cases htext : (Memory.zeroed h.base size).store h.base p.text with
  | error e =>
    rw [htext] at hmemory
    exact absurd hmemory nofun
  | ok m₁ =>
    rw [htext] at hmemory
    change (m₁.store p.dataAddress p.data >>= _) = _ at hmemory
    cases hdata : m₁.store p.dataAddress p.data with
    | error e =>
      rw [hdata] at hmemory
      exact absurd hmemory nofun
    | ok m₂ =>
      rw [hdata] at hmemory
      exact ⟨m₁, m₂, rfl, hdata, hmemory⟩

/-- The text lies in the image. -/
theorem length_text_le_of_initialMemory {memory : Memory}
    (hmemory : initialMemory h p arguments size = .ok memory) : p.text.length ≤ size := by
  obtain ⟨m₁, -, hstore, -⟩ := of_initialMemory hmemory
  have hend : (Memory.zeroed h.base size).offset h.base + p.text.length ≤ size :=
    (Memory.store_eq_ok_iff.1 hstore).1
  omega

theorem readArgument_of_initialBytes {m : Memory} {gap padding : Nat}
    (himage : m.Image h.base (initialBytes h p arguments gap padding))
    (left : List (List UInt8)) (argument : List UInt8) (right : List (List UInt8))
    (hsplit : arguments = left ++ argument :: right) :
    let stack := alignedLength p.text.length + p.data.length + gap
    let address := h.base + UInt32.ofNat (stack + 4 * (arguments.length + 3) + argumentBytes left)
    m.readLong (h.base + UInt32.ofNat (stack + 4 * (left.length + 1))) = .ok address ∧
      m.slice address (argument.length + 1) = .ok (argument ++ [0]) := by
  intro stack address
  subst hsplit
  have hbefore := le_alignedLength p.text.length
  let front := p.text ++ (zeros (alignedLength p.text.length - p.text.length) ++ (p.data ++
    (zeros gap ++ LittleEndian.toBytes 4 (left ++ argument :: right).length)))
  have hfront : front.length = stack + 4 := by
    simp only [front, stack, List.length_append, List.length_replicate, LittleEndian.length_toBytes]
    omega
  have hstack : m.Image h.base (front ++ (argumentPointers (h.base + UInt32.ofNat (stack +
      4 * ((left ++ argument :: right).length + 3))) (left ++ argument :: right) ++
      (LittleEndian.toBytes 8 0 ++ (argumentStrings (left ++ argument :: right) ++
        zeros padding)))) := by
    simpa only [front, initialBytes, initialStack, List.append_assoc] using himage
  have hread := hstack.readArgument hfront rfl
    (by rw [LittleEndian.length_toBytes]; omega)
  have hpointer : stack + 4 + 4 * left.length = stack + 4 * (left.length + 1) := by omega
  rwa [ofNat_add_ofNat, hpointer] at hread

/-- A machine that was loaded and has not begun. -/
structure Starts (m : Machine) (h : Header) (p : Program) (arguments : List (List UInt8))
    (size : Nat) : Prop where
  /-- The segments, zeros, and at the top the stack and at most three zeros. -/
  memory : ∃ gap padding, h.bss.toNat ≤ gap ∧ padding ≤ 3 ∧ m.memory.size = size ∧
    m.memory.Image h.base (initialBytes h p arguments gap padding) ∧
    m.registers.sp.toNat =
      h.base.toNat + (alignedLength p.text.length + p.data.length + gap)
  sp_aligned : m.registers.sp.toNat % 4 = 0
  /-- Each pointer is the address of its argument, and the arguments are back to
  back. -/
  argument : ∀ i (hi : i < arguments.length),
    let address := m.registers.sp +
      UInt32.ofNat (4 * (arguments.length + 3) + argumentBytes (arguments.take i))
    m.memory.readLong (m.registers.sp + UInt32.ofNat (4 * (i + 1))) = .ok address ∧
      m.memory.slice address (arguments[i].length + 1) = .ok (arguments[i] ++ [0])
  pc_eq : m.registers.pc = h.entry
  register_eq : ∀ r, r ≠ Register.pc → r ≠ Register.sp → m.registers.get r = 0
  flags_eq : m.registers.flags = Flags.clear

theorem starts_of_image {m : Machine} {gap padding : Nat} (hsize : m.memory.size ≤ 2 ^ 31)
    (hgap : h.bss.toNat ≤ gap) (hpadding : padding ≤ 3)
    (haligned : (alignedLength p.text.length + p.data.length + gap) % 4 = 0)
    (himage : m.memory.Image h.base (initialBytes h p arguments gap padding))
    (hregisters : m.registers = (Registers.zeroed.set Register.pc h.entry).set Register.sp
      (h.base + UInt32.ofNat (alignedLength p.text.length + p.data.length + gap))) :
    m.Starts h p arguments m.memory.size := by
  have hsp : m.registers.sp =
      h.base + UInt32.ofNat (alignedLength p.text.length + p.data.length + gap) := by
    rw [hregisters, Registers.sp, Registers.get_set_self]
  have hbefore := le_alignedLength p.text.length
  have hlength := himage.size_eq
  simp only [initialBytes, List.length_append, List.length_replicate, length_initialStack]
    at hlength
  have hspNat : m.registers.sp.toNat =
      h.base.toNat + (alignedLength p.text.length + p.data.length + gap) := by
    have hbase := h.toNat_base_le
    rw [hsp, UInt32.toNat_add, UInt32.toNat_ofNat']
    omega
  refine {
    memory := ⟨gap, padding, hgap, hpadding, rfl, himage, hspNat⟩
    sp_aligned := ?_
    argument := ?_
    pc_eq := ?_
    register_eq := ?_
    flags_eq := ?_ }
  · have hbase := h.toNat_base_mod_four
    omega
  · intro i hi
    have hread := readArgument_of_initialBytes himage (arguments.take i) arguments[i]
      (arguments.drop (i + 1)) (by simp)
    rw [List.length_take, Nat.min_eq_left (Nat.le_of_lt hi)] at hread
    rw [hsp, ofNat_add_ofNat, ofNat_add_ofNat, ← Nat.add_assoc]
    exact hread
  · rw [hregisters]
    rfl
  · intro r hpc hsp
    rw [hregisters, Registers.get_set_of_ne _ _ (Ne.symm hsp),
      Registers.get_set_of_ne _ _ (Ne.symm hpc), Registers.get, Registers.zeroed,
      Fin.getElem_fin, Vector.getElem_replicate]
  · rw [hregisters]
    rfl

/-- A program is loaded exactly when its segments, its initial stack and what
aligning that takes fit into memory, and then the machine starts as it should. -/
theorem loaded_when_it_fits (file : List UInt8) (p : Program) (h : Header)
    (hfile : Program.ofFile file = .ok p) (hheader : p.header = some h) (arguments : List String)
    (size : Nat) (hsize : size ≤ 2 ^ 31) (log : Log) :
    ((∃ m, load p arguments size log = .ok m) ↔
      alignedLength p.text.length + p.data.length + h.bss.toNat +
        ((arguments.map Utf8.encode).map fun argument => argument.length + 1).sum + 3 +
        4 * (arguments.length + 3) ≤ size) ∧
    ∀ m, load p arguments size log = .ok m → m.Starts h p (arguments.map Utf8.encode) size := by
  have htext := (Program.lengths_of_ofFile hfile hheader).1
  have hstack : stackLength (arguments.map Utf8.encode) =
      ((arguments.map Utf8.encode).map fun argument => argument.length + 1).sum + 3 +
        4 * (arguments.length + 3) := by
    rw [stackLength, argumentBytes_eq_sum, List.length_map]
  have himage : p.text.length ≤ 2 ^ 32 - 512 →
      imageLength h p = alignedLength p.text.length + p.data.length + h.bss.toNat := by
    intro hle
    rw [imageLength, Header.toNat_dataOffset (htext ▸ hle), htext]
  have hstarts : ∀ m, load p arguments size log = .ok m →
      alignedLength p.text.length + p.data.length + h.bss.toNat +
        stackLength (arguments.map Utf8.encode) ≤ size := by
    intro m hload
    obtain ⟨hfits, hmemory, -⟩ := exists_of_load hheader hload
    have hle := length_text_le_of_initialMemory hmemory
    rwa [himage (by omega)] at hfits
  refine ⟨⟨?_, ?_⟩, ?_⟩
  · rintro ⟨m, hload⟩
    have hfits := hstarts m hload
    omega
  · intro hfits
    have hle := le_alignedLength p.text.length
    obtain ⟨-, -, memory, -, -, -, hmemory, -⟩ :=
      exists_initialMemory hheader htext hsize (by rw [hstack]; omega)
    exact load_of_initialMemory hheader (by rw [himage (by omega)]; omega) hmemory
  · intro m hload
    obtain ⟨gap, padding, memory, hgap, hpadding, haligned, hmemory, rfl, himage,
      hsp⟩ :=
      exists_initialMemory hheader htext hsize (hstarts m hload)
    obtain ⟨-, hmemory', hregisters⟩ := exists_of_load hheader hload
    obtain rfl := Except.ok.inj (hmemory.symm.trans hmemory')
    rw [hsp] at hregisters
    exact starts_of_image hsize hgap hpadding haligned himage hregisters

/-- One byte less of memory is one too few. -/
theorem loaded_when_it_fits_narrowly :
    let h : Header :=
      { magic := 0x108, text := 4, data := 3, bss := 5, syms := 0, entry := 0x80000000, trsize := 0,
        drsize := 0 }
    let p : Program := ⟨some h, [0, 0, 0xd5, 0x51], [1, 2, 3], SymbolTable.empty⟩
    let arguments := ["a", "bc"]
    let log := Log.empty none
    Program.ofFile (h.toBytes ++ p.text ++ p.data) = .ok p ∧
      (∃ m, load p arguments 548 log = .ok m ∧
        m.Starts h p (arguments.map Utf8.encode) 548) ∧
      ¬ ∃ m, load p arguments 547 log = .ok m := by
  intro h p arguments log
  have hfile : Program.ofFile (h.toBytes ++ p.text ++ p.data) = .ok p := by
    rw [Program.ofFile_of_executableHeader? (h := h) (by decide +kernel)]
    rfl
  obtain ⟨hfits, hstarts⟩ := loaded_when_it_fits _ p h hfile rfl arguments 548 (by decide) log
  obtain ⟨hsmall, -⟩ := loaded_when_it_fits _ p h hfile rfl arguments 547 (by decide) log
  obtain ⟨m, hload⟩ := hfits.2 (by decide +kernel)
  refine ⟨hfile, ⟨m, hload, hstarts m hload⟩, fun hloaded => ?_⟩
  exact absurd (hsmall.1 hloaded) (by decide +kernel)

end Machine

end Vax
