import Vax.Machine.BitField
import Vax.Proofs.Machine.Execution
import Vax.Proofs.Memory.Bytes
/-!
# Storage bit by bit

A base and a signed position name one bit of memory or of the registers.  Both
fields and the branches on bits see storage so, whatever bytes and registers
they reach for.
-/

namespace Vax

theorem LittleEndian.testBit_ofBytes (bytes : List UInt8) (k : Nat) :
    (ofBytes bytes).testBit k = (bytes[k / 8]?.getD 0).toNat.testBit (k % 8) := by
  induction bytes generalizing k with
  | nil => simp [ofBytes]
  | cons byte rest ih =>
    have hbyte : byte.toNat < 2 ^ 8 := byte.toNat_lt
    have hfront : (ofBytes (byte :: rest)).testBit k =
        if k < 8 then byte.toNat.testBit k else (ofBytes rest).testBit (k - 8) := by
      rw [ofBytes, Nat.add_comm]
      exact Nat.testBit_two_pow_mul_add _ hbyte k
    by_cases hk : k < 8
    · rw [hfront, if_pos hk, Nat.div_eq_of_lt hk, Nat.mod_eq_of_lt hk]
      rfl
    · have hindex : k / 8 = (k - 8) / 8 + 1 := by omega
      have hplace : (k - 8) % 8 = k % 8 := by omega
      rw [hfront, if_neg hk, ih, hindex, hplace, List.getElem?_cons_succ]

theorem ofInt_natCast (n : Nat) : UInt32.ofInt (n : Int) = UInt32.ofNat n := by
  have hmod : ((n : Int) % 2 ^ 32).toNat = n % 2 ^ 32 := by omega
  apply UInt32.toNat_inj.1
  rw [UInt32.ofInt, hmod, UInt32.toNat_ofNat', UInt32.toNat_ofNat', Nat.mod_mod]

/-! ## Names of bits -/

/-- A bit of memory or of a register. -/
inductive StorageBit where
  | memory (address : UInt32) (place : Fin 8)
  | register (r : Register) (place : Fin 32)
  deriving DecidableEq

/-- The bit at a position from a base.  An address reaches all of memory, modulo
2^32, and a register itself and the next. -/
def Location.bit? (base : Location) (position : Int) : Option StorageBit :=
  match base with
  | .value _ => none
  | .memory address =>
    some (.memory (address + UInt32.ofInt (position / 8)) ⟨(position % 8).toNat, by omega⟩)
  | .register r =>
    if 0 ≤ position ∧ position < 64 then
      some (.register (if position < 32 then r else r + 1) (Fin.ofNat 32 position.toNat))
    else
      none

/-- A position from a register lies in that register. -/
def Location.Begins (base : Location) (position : Int) : Prop :=
  ∀ r, base = .register r → 0 ≤ position ∧ position < 32

namespace Memory

/-- Bytes from an address on that pass the end of the address space, as counted
from the base, before they pass the end of the image. -/
def RunsOver (m : Memory) (address : UInt32) (length : Nat) : Prop :=
  2 ^ 32 < m.offset address + length ∧ 2 ^ 32 ≤ m.size

theorem not_runsOver_of_le_one (m : Memory) (address : UInt32) {length : Nat} (h : length ≤ 1) :
    ¬ m.RunsOver address length := by
  rintro ⟨hend, -⟩
  have hlt : m.offset address < 2 ^ 32 := UInt32.toNat_lt _
  omega

variable {m : Memory} {address : UInt32} {length : Nat}

/-- Bytes that lie in the image one by one lie in it together. -/
theorem offset_add_le_of_covers (hpos : 0 < length) (hspan : ¬ m.RunsOver address length)
    (h : ∀ j < length, m.Covers (address + UInt32.ofNat j)) :
    m.offset address + length ≤ m.size := by
  have hin : ∀ j < length, (m.offset address + j) % 2 ^ 32 < m.size := by
    intro j hj
    rw [← offset_add]
    exact h j hj
  have hfirst := hin 0 hpos
  have hlt : m.offset address < 2 ^ 32 := UInt32.toNat_lt _
  rw [RunsOver] at hspan
  -- The byte right behind the image would be one of them.
  refine Nat.le_of_not_lt fun hend => ?_
  have hbehind := hin (m.size - m.offset address) (by omega)
  omega

/-- A bit of a number that is read is one of its bytes. -/
theorem exists_byte_of_readNat {n k : Nat} (h : m.readNat address length = .ok n)
    (hspan : ¬ m.RunsOver address length) (hk : k < 8 * length) :
    ∃ byte, m.readByte (address + UInt32.ofNat (k / 8)) = .ok byte ∧
      byte.toBitVec.getLsbD (k % 8) = n.testBit k := by
  have hlt : m.offset address < 2 ^ 32 := UInt32.toNat_lt _
  unfold readNat at h
  cases hslice : m.slice address length with
  | error e =>
    rw [hslice] at h
    exact absurd h nofun
  | ok bytes =>
    rw [hslice] at h
    obtain rfl := Except.ok.inj h
    obtain ⟨hend, rfl⟩ := slice_eq_ok_iff.1 hslice
    have hindex : k / 8 < length := by omega
    have hoffset : m.offset (address + UInt32.ofNat (k / 8)) = m.offset address + k / 8 := by
      rw [RunsOver] at hspan
      rw [offset_add, Nat.mod_eq_of_lt (by omega)]
    refine ⟨_, readByte_eq_ok_iff.2 ⟨?_, rfl⟩, ?_⟩
    · rw [Covers, hoffset]
      omega
    · have hbyte : (m.bytesAt (m.offset address) length)[k / 8]? =
          some (m.byteAt (m.offset address + k / 8)) := by
        simp [bytesAt, hindex]
      rw [LittleEndian.testBit_ofBytes, hbyte, hoffset]
      rfl

end Memory

/-- Within a register a position names one of its own bits. -/
theorem Location.bit?_register {position : Int} (r : Register)
    (h : 0 ≤ position ∧ position < 32) :
    (register r).bit? position = some (.register r ⟨position.toNat, by omega⟩) := by
  have hin : 0 ≤ position ∧ position < 64 := by omega
  have hplace : Fin.ofNat 32 position.toNat = ⟨position.toNat, by omega⟩ :=
    Fin.ext (Nat.mod_eq_of_lt (by omega))
  rw [bit?, if_pos hin, if_pos h.2, hplace]

namespace Exec

theorem getLsbD_withBit {n k : Nat} (value : BitVec n) (position : Nat) (set : Bool) (hk : k < n) :
    (withBit value position set).getLsbD k = if k = position then set else value.getLsbD k := by
  have hbit : (BitVec.twoPow n position).getLsbD k = decide (k = position) := by
    rw [BitVec.getLsbD_twoPow, Bool.eq_iff_iff, Bool.and_eq_true, decide_eq_true_iff,
      decide_eq_true_iff, decide_eq_true_iff]
    omega
  unfold withBit
  cases set with
  | true =>
    rw [if_pos rfl, BitVec.getLsbD_or, hbit]
    by_cases h : k = position <;> simp [h]
  | false =>
    rw [if_neg (by decide), BitVec.getLsbD_and, BitVec.getLsbD_not, hbit, decide_eq_true hk]
    by_cases h : k = position <;> simp [h]

theorem byteOfBit_add (address : UInt32) (position : Int) (k : Nat) :
    byteOfBit address (position + k) =
      byteOfBit address position + UInt32.ofNat ((placeInByte position + k) / 8) := by
  have hquotient : (position + k) / 8 = position / 8 + ((placeInByte position + k) / 8 : Nat) := by
    rw [placeInByte]
    omega
  rw [byteOfBit, hquotient, UInt32.ofInt_add, ofInt_natCast, ← UInt32.add_assoc]
  rfl

theorem placeInByte_add (position : Int) (k : Nat) :
    placeInByte (position + k) = (placeInByte position + k) % 8 := by
  rw [placeInByte, placeInByte]
  omega

end Exec

/-! ## Contents -/

namespace Machine

/-- What a bit of storage is, unless it lies outside memory. -/
def storedBit? (m : Machine) : StorageBit → Option Bool
  | .memory address place =>
    (m.memory.readByte address).toOption.map fun byte => byte.toBitVec.getLsbD place
  | .register r place => some ((m.registers.get r).toBitVec.getLsbD place)

/-- What the bit at a position from a base is. -/
def bitAt? (m : Machine) (base : Location) (position : Int) : Option Bool :=
  (base.bit? position).bind m.storedBit?

variable {m : Machine} {address : UInt32} {r : Register} {position : Int} {size : Nat}

theorem bitAt?_memory (m : Machine) (address : UInt32) (position : Int) :
    m.bitAt? (.memory address) position =
      (m.memory.readByte (Exec.byteOfBit address position)).toOption.map fun byte =>
        byte.toBitVec.getLsbD (Exec.placeInByte position) :=
  rfl

theorem bitAt?_register {k : Nat} (hk : k < 64) :
    m.bitAt? (.register r) k = some ((m.registers.pair r).getLsbD k) := by
  have hin : 0 ≤ (k : Int) ∧ (k : Int) < 64 := by omega
  rw [bitAt?, Location.bit?, if_pos hin, Option.bind_some, storedBit?, Registers.pair,
    BitVec.getLsbD_append, Fin.val_ofNat, Int.toNat_natCast]
  by_cases hlow : k < 32
  · rw [if_pos hlow, if_pos (by omega), Nat.mod_eq_of_lt hlow]
  · rw [if_neg hlow, if_neg (by omega), Nat.mod_eq_sub_mod (Nat.le_of_not_lt hlow),
      Nat.mod_eq_of_lt (by omega)]

/-- One bit has a value, and otherwise nothing changed. -/
structure ChangesBit (m : Machine) (bit : StorageBit) (value : Bool) (after : Machine) : Prop where
  machine_eq : after = { m with registers := after.registers, memory := after.memory }
  flags_eq : after.registers.flags = m.registers.flags
  extent : after.memory.base = m.memory.base ∧ after.memory.size = m.memory.size
  bit_eq : ∀ other, after.storedBit? other = if other = bit then some value else m.storedBit? other
  /-- Where no address reaches. -/
  beyond : ∀ offset, 2 ^ 32 ≤ offset → after.memory.byteAt offset = m.memory.byteAt offset

namespace ChangesBit

variable {bit : StorageBit} {value : Bool}

/-- A bit is what it is. -/
theorem refl (h : m.storedBit? bit = some value) : m.ChangesBit bit value m where
  machine_eq := rfl
  flags_eq := rfl
  extent := ⟨rfl, rfl⟩
  bit_eq other := by
    split
    · next heq => rw [heq, h]
    · rfl
  beyond _ _ := rfl

theorem register (m : Machine) (r : Register) (place : Fin 32) (value : Bool) :
    m.ChangesBit (.register r place) value (m.withRegisters (m.registers.set r
      (UInt32.ofBitVec (Exec.withBit (m.registers.get r).toBitVec place value)))) where
  machine_eq := rfl
  flags_eq := rfl
  extent := ⟨rfl, rfl⟩
  bit_eq other := by
    cases other with
    | memory address place' => rfl
    | register s place' =>
      rw [storedBit?, registers_withRegisters, Registers.get_set]
      by_cases hr : r = s
      · subst hr
        rw [if_pos rfl]
        change some ((Exec.withBit (m.registers.get r).toBitVec place value).getLsbD place') = _
        rw [Exec.getLsbD_withBit _ _ _ place'.isLt]
        by_cases hplace : place' = place
        · rw [if_pos (congrArg Fin.val hplace), hplace, if_pos rfl]
        · rw [if_neg fun h => hplace (Fin.ext h),
            if_neg fun h => hplace (StorageBit.register.inj h).2]
          rfl
      · rw [if_neg hr, if_neg fun h => hr (StorageBit.register.inj h).1.symm]
        rfl
  beyond _ _ := rfl

theorem memory {byte : UInt8} {memory : Memory} (place : Fin 8) (value : Bool)
    (hread : m.memory.readByte address = .ok byte)
    (hstore : m.memory.store address
      [UInt8.ofBitVec (Exec.withBit byte.toBitVec place value)] = .ok memory) :
    m.ChangesBit (.memory address place) value { m with memory := memory } where
  machine_eq := rfl
  flags_eq := rfl
  extent := by
    obtain ⟨-, rfl⟩ := Memory.store_eq_ok_iff.1 hstore
    exact ⟨rfl, rfl⟩
  bit_eq other := by
    cases other with
    | register r place' => rfl
    | memory other place' =>
      rw [storedBit?, storedBit?]
      by_cases haddress : other = address
      · subst haddress
        rw [Memory.readByte_store_self hstore, hread]
        change some ((Exec.withBit byte.toBitVec place value).getLsbD place') = _
        rw [Exec.getLsbD_withBit _ _ _ place'.isLt]
        by_cases hplace : place' = place
        · rw [if_pos (congrArg Fin.val hplace), hplace, if_pos rfl]
        · rw [if_neg fun h => hplace (Fin.ext h),
            if_neg fun h => hplace (StorageBit.memory.inj h).2]
          rfl
      · rw [Memory.readByte_store_of_ne hstore haddress,
          if_neg fun h => haddress (StorageBit.memory.inj h).1]
  beyond offset hoffset := by
    have hlt : m.memory.offset address < 2 ^ 32 := UInt32.toNat_lt _
    obtain ⟨-, rfl⟩ := Memory.store_eq_ok_iff.1 hstore
    change (m.memory.patch _ _).byteAt offset = _
    rw [Memory.byteAt_patch, List.length_singleton, if_neg (by omega)]

end ChangesBit

end Machine

end Vax
