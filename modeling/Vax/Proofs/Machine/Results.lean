import Vax.Machine.Integer
import Vax.Proofs.Instruction.Access
import Vax.Proofs.Machine.Operand
import Vax.Proofs.Memory.Stores
/-!
# Values read and results written

An operand that is read has the value that stands at its place.  A result goes
to the place of an operand that is written, and nothing changes besides it but
the condition codes.
-/

namespace Vax

namespace Access

/-- The width at which the operand is written. -/
def writeWidth? : Access → Option Width
  | write w | modify w => some w
  | read _ | place | branch => none

/-- The places that are read, with their widths. -/
def sources (accesses : List Access) (locations : List Location) : List (Width × Location) :=
  (accesses.zip locations).filterMap fun operand =>
    operand.1.readWidth?.map fun w => (w, operand.2)

/-- The places that are written, with their widths. -/
def destinations (accesses : List Access) (locations : List Location) : List (Width × Location) :=
  (accesses.zip locations).filterMap fun operand =>
    operand.1.writeWidth?.map fun w => (w, operand.2)

theorem exists_of_mem_destinations {accesses : List Access} {locations : List Location}
    {destination : Width × Location} (h : destination ∈ destinations accesses locations) :
    ∃ access ∈ accesses, access.writeWidth? = some destination.1 := by
  obtain ⟨operand, hoperand, hdestination⟩ := List.mem_filterMap.1 h
  obtain ⟨w, hw, rfl⟩ := Option.map_eq_some_iff.1 hdestination
  exact ⟨operand.1, (List.of_mem_zip hoperand).1, hw⟩

end Access

namespace Memory

/-- The image got a number of `length` bytes at an address and no other byte of
it changed. -/
structure Receives (m m' : Memory) (address : UInt32) (length n : Nat) : Prop where
  read : m'.readNat address length = .ok n
  byteAt : ∀ offset, ¬ (m.offset address ≤ offset ∧ offset < m.offset address + length) →
    m'.byteAt offset = m.byteAt offset
  extent : m'.base = m.base ∧ m'.size = m.size

theorem receives_of_store {m m' : Memory} {address : UInt32} {length n : Nat}
    (hn : n < 256 ^ length)
    (h : m.store address (LittleEndian.toBytes length n) = .ok m') :
    m.Receives m' address length n where
  read := by
    have hslice := slice_store h
    rw [LittleEndian.length_toBytes] at hslice
    rw [readNat_of_slice hslice, Nat.mod_eq_of_lt hn]
  byteAt offset houtside := by
    obtain ⟨-, rfl⟩ := store_eq_ok_iff.1 h
    rw [byteAt_patch, LittleEndian.length_toBytes, if_neg houtside]
  extent := by
    obtain ⟨-, rfl⟩ := store_eq_ok_iff.1 h
    exact ⟨rfl, rfl⟩

end Memory

namespace Machine

variable {m after : Machine} {w : Width} {n : Nat} {location : Location}

/-- The signed value that an operand of a width has at a place. -/
def signed? (m : Machine) (w : Width) : Location → Option Int
  | .value word => some (w.truncate word.toNat).toInt
  | .register r => some ((m.registers.pair r).setWidth w.bits).toInt
  | .memory address => (m.memory.readNat address w.size).toOption.map fun n =>
      (w.truncate n).toInt

/-- The signed values at some places. -/
def signedAll? (m : Machine) (places : List (Width × Location)) : Option (List Int) :=
  places.mapM fun place => m.signed? place.1 place.2

theorem signedAll?_cons {places : List (Width × Location)} {value : Int} {values : List Int}
    (hvalue : m.signed? w location = some value) (hvalues : m.signedAll? places = some values) :
    m.signedAll? ((w, location) :: places) = some (value :: values) := by
  unfold signedAll? at hvalues ⊢
  rw [List.mapM_cons, hvalue, hvalues]
  rfl

/-- The machine got `n` at a place as wide as `w`, at most a longword, and
nothing else changed but the condition codes.  A narrower register keeps its
upper bits. -/
def Receives (m : Machine) (w : Width) (n : Nat) (after : Machine) : Location → Prop
  | .value _ => False
  | .register r => ∃ value : UInt32,
      value.toNat = (m.registers.get r).toNat / 2 ^ w.bits * 2 ^ w.bits + n ∧
        after = m.withRegisters ((m.registers.set r value).setFlags after.registers.flags)
  | .memory address => ∃ memory, m.memory.Receives memory address w.size n ∧
      after = { m with
        registers := m.registers.setFlags after.registers.flags
        memory := memory }

/-- The place is one that can be written. -/
def Accepts (m : Machine) (w : Width) : Location → Prop
  | .value _ => False
  | .register _ => True
  | .memory address => m.memory.contains address w.size = true

instance (m : Machine) (w : Width) (location : Location) : Decidable (m.Accepts w location) := by
  unfold Accepts
  cases location <;> infer_instance

theorem Receives.status_eq (h : m.Receives w n after location) : after.status = m.status := by
  cases location with
  | value word => exact absurd h id
  | register r =>
    obtain ⟨value, -, hafter⟩ := h
    rw [hafter]
    rfl
  | memory address =>
    obtain ⟨memory, -, hafter⟩ := h
    rw [hafter]

theorem Receives.setFlags (h : m.Receives w n after location) (flags : Flags) :
    m.Receives w n (after.withRegisters (after.registers.setFlags flags)) location := by
  cases location with
  | value word => exact h
  | register r =>
    obtain ⟨value, hvalue, hafter⟩ := h
    refine ⟨value, hvalue, ?_⟩
    rw [hafter]
    rfl
  | memory address =>
    obtain ⟨memory, hmemory, hafter⟩ := h
    refine ⟨memory, hmemory, ?_⟩
    rw [hafter]
    rfl

end Machine

namespace Exec

variable {m after : Machine} {w : Width} {location : Location}

theorem run_read_signed {value : BitVec w.bits} (h : (read w location).run m = .ok value after) :
    after = m ∧ m.signed? w location = some value.toInt := by
  cases location with
  | value word =>
    obtain ⟨rfl, rfl⟩ := run_pure_eq_ok.1 h
    exact ⟨rfl, rfl⟩
  | register r =>
    obtain ⟨rfl, rfl⟩ := EStateM.Result.ok.inj h
    exact ⟨rfl, rfl⟩
  | memory address =>
    rw [read, run_bind_eq_ok] at h
    obtain ⟨n, between, hread, h⟩ := h
    obtain ⟨hread, rfl⟩ := run_readNat_eq_ok.1 hread
    obtain ⟨rfl, rfl⟩ := run_pure_eq_ok.1 h
    refine ⟨rfl, ?_⟩
    rw [Machine.signed?, hread]
    rfl

theorem run_read_ofInt {value : Int}
    (h : m.signed? w location = some value) :
    (read w location).run m = .ok (BitVec.ofInt w.bits value) m := by
  cases location with
  | value word =>
    obtain rfl := Option.some.inj h
    rw [BitVec.ofInt_toInt]
    rfl
  | register r =>
    obtain rfl := Option.some.inj h
    rw [BitVec.ofInt_toInt]
    rfl
  | memory address =>
    rw [Machine.signed?, Option.map_eq_some_iff] at h
    obtain ⟨n, hread, rfl⟩ := h
    have hread : m.memory.readNat address w.size = .ok n := by
      cases hmemory : m.memory.readNat address w.size with
      | ok other =>
        rw [hmemory] at hread
        exact congrArg Except.ok (Option.some.inj hread)
      | error e =>
        rw [hmemory] at hread
        exact absurd hread nofun
    rw [read, run_bind_ok (run_readNat_eq_ok.2 ⟨hread, rfl⟩), BitVec.ofInt_toInt]
    rfl

theorem signedAll?_cons_eq_some {places : List (Width × Location)} {value : Int}
    {values : List Int} (h : m.signedAll? ((w, location) :: places) = some (value :: values)) :
    (read w location).run m = .ok (BitVec.ofInt w.bits value) m ∧
      m.signedAll? places = some values := by
  unfold Machine.signedAll? at h ⊢
  rw [List.mapM_cons] at h
  obtain ⟨value', hvalue, h⟩ := Option.bind_eq_some_iff.1 h
  obtain ⟨rest, hrest, h⟩ := Option.bind_eq_some_iff.1 h
  obtain ⟨rfl, rfl⟩ := List.cons.inj (Option.some.inj h)
  exact ⟨run_read_ofInt hvalue, hrest⟩

theorem flags_of_write {value : BitVec w.bits}
    (h : (write w value location).run m = .ok () after) :
    after.registers.flags = m.registers.flags := by
  cases location with
  | value word => exact absurd h (run_throw_ne_ok _)
  | register r =>
    rw [write, run_bind_ok (run_getRegister r), run_bind_ok (run_setRegister r _)] at h
    split at h
    · obtain ⟨-, rfl⟩ := EStateM.Result.ok.inj h
      rfl
    · obtain ⟨-, rfl⟩ := run_pure_eq_ok.1 h
      rfl
  | memory address =>
    obtain ⟨memory, -, rfl⟩ := run_store_eq_ok.1 h
    rfl

theorem run_write {value : BitVec w.bits} (hw : w ≠ .quad)
    (h : (write w value location).run m = .ok () after) :
    m.Receives w value.toNat after location ∧ after.registers.flags = m.registers.flags := by
  cases location with
  | value word => exact absurd h (run_throw_ne_ok _)
  | register r =>
    rw [write, run_bind_ok (run_getRegister r), run_bind_ok (run_setRegister r _), if_neg hw] at h
    obtain ⟨-, rfl⟩ := run_pure_eq_ok.1 h
    exact ⟨⟨_, toNat_merge (Width.bits_le hw) _ _, rfl⟩, rfl⟩
  | memory address =>
    have hpow : 2 ^ w.bits = 256 ^ w.size := Nat.pow_mul 2 8 w.size
    have hlt : value.toNat < 256 ^ w.size := hpow ▸ value.isLt
    obtain ⟨memory, hstore, rfl⟩ := run_store_eq_ok.1 h
    exact ⟨⟨memory, Memory.receives_of_store hlt hstore, rfl⟩, rfl⟩

theorem run_setResult_eq {k : Nat} {result : BitVec k} {overflow : Bool} {carry : Option Bool}
    (h : (setResult result overflow carry).run m = .ok () after) :
    after = m.withRegisters
      (m.registers.setFlags (m.registers.flags.ofResult result overflow carry)) := by
  rw [setResult, run_bind_ok run_getFlags] at h
  exact (EStateM.Result.ok.inj h).2.symm

theorem exists_write (h : m.Accepts w location) (value : BitVec w.bits) :
    ∃ after, (write w value location).run m = .ok () after := by
  cases location with
  | value word => exact absurd h id
  | register r =>
    rw [write, run_bind_ok (run_getRegister r), run_bind_ok (run_setRegister r _)]
    split
    · exact ⟨_, rfl⟩
    · exact ⟨_, rfl⟩
  | memory address =>
    have hin : m.memory.offset address + w.size ≤ m.memory.size := by
      simpa [Machine.Accepts, Memory.contains] using h
    exact ⟨_, run_store_eq_ok.2 ⟨_, Memory.store_eq_ok_iff.2
      ⟨by rwa [LittleEndian.length_toBytes], rfl⟩, rfl⟩⟩

/-- A result that is written goes to its place and to the condition codes. -/
theorem run_writeResult {result : ArithmeticResult w.bits} (hw : w ≠ .quad)
    (h : (writeResult w result location).run m = .ok () after) :
    m.Receives w result.value.toNat after location ∧
      after.registers.flags =
        m.registers.flags.ofResult result.value result.overflow result.carry := by
  obtain ⟨_, written, hwrite, hflags⟩ := run_bind_eq_ok.1 h
  obtain ⟨hreceives, hold⟩ := run_write hw hwrite
  have hafter := run_setResult_eq hflags
  rw [hold] at hafter
  rw [hafter]
  exact ⟨hreceives.setFlags _, rfl⟩

theorem exists_writeResult (h : m.Accepts w location) (result : ArithmeticResult w.bits) :
    ∃ after, (writeResult w result location).run m = .ok () after := by
  obtain ⟨written, hwrite⟩ := exists_write h result.value
  exact ⟨_, run_bind_ok hwrite⟩

end Exec

end Vax
