import Vax.Proofs.Checked.Memory
import Vax.Proofs.Machine.Execution
/-!
# Operands that can fail

Registers are looked up by number in the register file, and operands are read
and written as 64-bit numbers.
-/

namespace Vax

namespace Checked

variable {α β : Type} {i : Instruction}

/-! ## Registers -/

/-- The register with a number, which is taken modulo 16. -/
def register (number : Nat) : Option Register :=
  index 16 (number &&& 0xf)

def getRegister (number : Nat) : Checked UInt32 := do
  Exec.getRegister (← register number)

def setRegister (number : Nat) (value : UInt32) : Checked Unit := do
  Exec.setRegister (← register number) value

theorem register_eq (number : Nat) : register number = some (Fin.ofNat 16 number) := by
  have hlow : number &&& 0xf = number % 16 := Nat.and_two_pow_sub_one_eq_mod number 4
  have hlt : number % 16 < 16 := Nat.mod_lt _ (by decide)
  rw [register, hlow, index, dif_pos hlt]
  rfl

theorem register_val (r : Register) : register r.val = some r := by
  rw [register_eq, Fin.ofNat_val_eq_self]

theorem follows_getRegister (r : Register) :
    Follows id (getRegister r.val) (Exec.getRegister r) :=
  .compute (register_val r) (follows_lift _)

theorem follows_setRegister (r : Register) (value : UInt32) :
    Follows id (setRegister r.val value) (Exec.setRegister r value) :=
  .compute (register_val r) (follows_lift _)

theorem follows_get : Follows id (get : Checked Machine) (get : Exec Machine) :=
  rfl

theorem follows_throw {e : α → β} (cause : Fault.Cause) :
    Follows e (throw cause : Checked β) (throw cause : Exec α) :=
  rfl

/-! ## Memory -/

/-- The outcome of an access as that of the instruction. -/
def access (outcome : Access α) : Checked α := do
  match ← outcome.run with
  | .ok value => return value
  | .error e => throw (.memory e)

theorem Follows.access {e : α → β} {c : Access β} {x : Except OutOfRange α} (h : Follows e c x) :
    Follows e (Checked.access c) (Exec.access x) := by
  rw [Follows] at h
  subst h
  cases x <;> rfl

def readNat (address : UInt32) (length : Nat) : Checked Nat := do
  access (Access.readNat 64 (← get).memory address length)

def readByte (address : UInt32) : Checked UInt8 := do
  access (Access.readAs UInt8.ofNat (← get).memory address 1)

def readWord (address : UInt32) : Checked UInt16 := do
  access (Access.readAs UInt16.ofNat (← get).memory address 2)

def readLong (address : UInt32) : Checked UInt32 := do
  access (Access.readAs UInt32.ofNat (← get).memory address 4)

def slice (address : UInt32) (length : Nat) : Checked (List UInt8) := do
  access (Access.slice (← get).memory address length)

def setMemory (memory : Memory) : Checked Unit :=
  modify fun m => { m with memory := memory }

/-- Stores bytes where `length` bytes are. -/
def store (address : UInt32) (length : Nat) (bytes : List UInt8) : Checked Unit := do
  setMemory (← access (Access.store (← get).memory address length bytes))

def writeByte (address : UInt32) (value : UInt8) : Checked Unit :=
  store address 1 [value]

def writeNat (address : UInt32) (length value : Nat) : Checked Unit := do
  setMemory (← access (Access.writeNat (← get).memory address length value))

def writeLong (address value : UInt32) : Checked Unit :=
  store address 4 (LittleEndian.toBytes 4 value.toNat)

def push (value : UInt32) : Checked Unit := do
  let sp := (← getRegister Register.sp.val) - 4
  setRegister Register.sp.val sp
  writeLong sp value

def pop : Checked UInt32 := do
  let sp ← getRegister Register.sp.val
  let value ← readLong sp
  setRegister Register.sp.val (sp + 4)
  return value

theorem follows_readNat (address : UInt32) {length : Nat} (h : 8 * length ≤ 64) :
    Follows id (readNat address length) (Exec.readNat address length) :=
  follows_get.bind fun m => (Access.follows_readNat (by decide) h m.memory address).access

theorem follows_readByte (address : UInt32) :
    Follows id (readByte address) (Exec.readByte address) :=
  follows_get.bind fun m => (Access.follows_readAs UInt8.ofNat m.memory address 1).access

theorem follows_readWord (address : UInt32) :
    Follows id (readWord address) (Exec.readWord address) :=
  follows_get.bind fun m => (Access.follows_readAs UInt16.ofNat m.memory address 2).access

theorem follows_readLong (address : UInt32) :
    Follows id (readLong address) (Exec.readLong address) :=
  follows_get.bind fun m => (Access.follows_readAs UInt32.ofNat m.memory address 4).access

theorem follows_slice (address : UInt32) (length : Nat) :
    Follows id (slice address length)
      (get >>= fun m : Machine => Exec.access (m.memory.slice address length)) :=
  follows_get.bind fun m => (Access.follows_slice m.memory address length).access

theorem follows_modify (f : Machine → Machine) :
    Follows id (modify f : Checked Unit) (modify f : Exec Unit) :=
  rfl

theorem follows_store (address : UInt32) {length : Nat} {bytes : List UInt8}
    (h : bytes.length = length) :
    Follows id (store address length bytes) (Exec.store address bytes) :=
  follows_get.bind fun m => (Access.follows_store m.memory address h).access.bind fun _ =>
    follows_modify _

theorem follows_writeByte (address : UInt32) (value : UInt8) :
    Follows id (writeByte address value) (Exec.writeByte address value) :=
  follows_store address rfl

theorem follows_writeNat (address : UInt32) {length : Nat} (h : length ≤ 8) (value : Nat) :
    Follows id (writeNat address length value) (Exec.writeNat address length value) :=
  follows_get.bind fun m => (Access.follows_writeNat h m.memory address value).access.bind
    fun _ => follows_modify _

theorem follows_writeLong (address value : UInt32) :
    Follows id (writeLong address value) (Exec.writeLong address value) :=
  follows_store address (LittleEndian.length_toBytes 4 value.toNat)

theorem follows_push (value : UInt32) : Follows id (push value) (Exec.push value) :=
  (follows_getRegister _).bind fun _ => (follows_setRegister _ _).bind fun _ =>
    follows_writeLong _ _

theorem follows_pop : Follows id pop Exec.pop :=
  (follows_getRegister _).bind fun _ => (follows_readLong _).bind fun _ =>
    (follows_setRegister _ _).bind fun _ => follows_pure id _

/-! ## Places -/

def follow (address : UInt32) (isDeferred : Bool) : Checked UInt32 :=
  if isDeferred then readLong address else pure address

def locateMode (size : Nat) : Mode → Checked Location
  | .literal byte => return .value byte.toUInt32
  | .register r => return .register r
  | .deferred r => return .memory (← getRegister r.val)
  | .autodecrement r => do
    let address := (← getRegister r.val) - UInt32.ofNat size
    setRegister r.val address
    return .memory address
  | .autoincrement r => do
    let address ← getRegister r.val
    setRegister r.val (address + UInt32.ofNat size)
    return .memory address
  | .immediate address _ => return .memory address
  | .autoincrementDeferred r => do
    let pointer ← getRegister r.val
    setRegister r.val (pointer + 4)
    return .memory (← readLong pointer)
  | .absolute address => return .memory address
  | .displacement r offset isDeferred => do
    let address := (← getRegister r.val) + UInt32.ofInt offset
    return .memory (← follow address isDeferred)
  | .relative target isDeferred => return .memory (← follow target isDeferred)
  | .reserved byte => throw (.addressingMode byte)

def locateBase (size : Nat) (index : Register) : Mode → Checked UInt32
  | .immediate _ _ => throw (.addressingMode (0x40 ||| UInt8.ofNat index.val))
  | base => do
    match ← locateMode size base with
    | .memory address => return address
    | _ => throw (.addressingMode (0x40 ||| UInt8.ofNat index.val))

def locate (size : Nat) : Specifier → Checked Location
  | .plain mode => locateMode size mode
  | .branch target => return .value target
  | .indexed base r => do
    let address ← locateBase size r base
    return .memory (address + (← getRegister r.val) * UInt32.ofNat size)

def locateAll (i : Instruction) : Checked (List Location) :=
  i.operands.mapM fun operand => locate operand.kind.size operand.specifier

def reservedOperand (i : Instruction) : Checked α :=
  throw (.reservedOperand i.descriptor.mnemonic)

def locate1 (i : Instruction) : Checked Location := do
  match ← locateAll i with
  | [a] => return a
  | _ => reservedOperand i

def locate2 (i : Instruction) : Checked (Location × Location) := do
  match ← locateAll i with
  | [a, b] => return (a, b)
  | _ => reservedOperand i

def locate3 (i : Instruction) : Checked (Location × Location × Location) := do
  match ← locateAll i with
  | [a, b, c] => return (a, b, c)
  | _ => reservedOperand i

def locate4 (i : Instruction) : Checked (Location × Location × Location × Location) := do
  match ← locateAll i with
  | [a, b, c, d] => return (a, b, c, d)
  | _ => reservedOperand i

theorem follows_follow (address : UInt32) (isDeferred : Bool) :
    Follows id (follow address isDeferred) (Exec.follow address isDeferred) :=
  .ite Iff.rfl (follows_readLong address) (follows_pure id address)

theorem follows_locateMode (size : Nat) (mode : Mode) :
    Follows id (locateMode size mode) (Exec.locateMode size mode) := by
  cases mode with
  | literal byte | register r | immediate address value | absolute address =>
    exact follows_pure id _
  | deferred r => exact (follows_getRegister r).bind fun _ => follows_pure id _
  | autodecrement r | autoincrement r =>
    exact (follows_getRegister r).bind fun _ => (follows_setRegister r _).bind fun _ =>
      follows_pure id _
  | autoincrementDeferred r =>
    exact (follows_getRegister r).bind fun _ => (follows_setRegister r _).bind fun _ =>
      (follows_readLong _).bind fun _ => follows_pure id _
  | displacement r offset isDeferred =>
    exact (follows_getRegister r).bind fun _ => (follows_follow _ _).bind fun _ =>
      follows_pure id _
  | relative target isDeferred => exact (follows_follow _ _).bind fun _ => follows_pure id _
  | reserved byte => exact follows_throw _

theorem follows_locateBase (size : Nat) (index : Register) (mode : Mode) :
    Follows id (locateBase size index mode) (Exec.locateBase size index mode) := by
  cases mode with
  | immediate address value => exact follows_throw _
  | _ =>
    refine (follows_locateMode size _).bind fun location => ?_
    cases location with
    | memory address => exact follows_pure id _
    | value word | register r => exact follows_throw _

theorem follows_locate (size : Nat) (specifier : Specifier) :
    Follows id (locate size specifier) (Exec.locate size specifier) := by
  cases specifier with
  | plain mode => exact follows_locateMode size mode
  | branch target => exact follows_pure id _
  | indexed base r =>
    exact (follows_locateBase size r base).bind fun _ => (follows_getRegister r).bind fun _ =>
      follows_pure id _

theorem follows_locateAll (i : Instruction) : Follows id (locateAll i) (Exec.locateAll i) :=
  follows_mapM (fun operand : Operand => follows_locate operand.kind.size operand.specifier) _

theorem follows_reservedOperand {e : α → β} (i : Instruction) :
    Follows e (reservedOperand i) (Exec.reservedOperand i) :=
  follows_throw _

/-- Nothing behind a fault counts. -/
theorem follows_reservedOperand_bind {γ δ : Type} {e : γ → δ} (i : Instruction)
    (f : α → Checked δ) (g : β → Exec γ) :
    Follows e (reservedOperand i >>= f) (Exec.reservedOperand i >>= g) :=
  rfl

theorem follows_locate1 (i : Instruction) : Follows id (locate1 i) (Exec.locate1 i) := by
  refine (follows_locateAll i).bind fun locations => ?_
  rcases locations with _ | ⟨a, _ | ⟨b, rest⟩⟩
  · exact follows_reservedOperand i
  · exact follows_pure id _
  · exact follows_reservedOperand i

theorem follows_locate2 (i : Instruction) : Follows id (locate2 i) (Exec.locate2 i) := by
  refine (follows_locateAll i).bind fun locations => ?_
  rcases locations with _ | ⟨a, _ | ⟨b, _ | ⟨c, rest⟩⟩⟩
  any_goals exact follows_reservedOperand i
  exact follows_pure id _

theorem follows_locate3 (i : Instruction) : Follows id (locate3 i) (Exec.locate3 i) := by
  refine (follows_locateAll i).bind fun locations => ?_
  rcases locations with _ | ⟨a, _ | ⟨b, _ | ⟨c, _ | ⟨d, rest⟩⟩⟩⟩
  any_goals exact follows_reservedOperand i
  exact follows_pure id _

theorem follows_locate4 (i : Instruction) : Follows id (locate4 i) (Exec.locate4 i) := by
  refine (follows_locateAll i).bind fun locations => ?_
  rcases locations with _ | ⟨a, _ | ⟨b, _ | ⟨c, _ | ⟨d, _ | ⟨e, rest⟩⟩⟩⟩⟩
  any_goals exact follows_reservedOperand i
  exact follows_pure id _

/-! ## Reading and writing -/

/-- Reads an operand.  A quadword in a register is put together with a shift. -/
def read (w : Width) : Location → Checked Nat
  | .value word => do truncate w word.toNat
  | .register r => do
    let low ← getRegister r.val
    if w = .quad then
      let next ← getRegister (← add 64 r.val 1)
      return low.toNat ||| (← shiftLeft 64 next.toNat 32)
    else
      truncate w low.toNat
  | .memory address => readNat address w.size

/-- A register after a value narrower than it was written to it. -/
def merge (w : Width) (old : UInt32) (value : Nat) : Option UInt32 := do
  let mask := UInt32.ofNat (← mask w)
  return (old &&& ~~~mask) ||| (UInt32.ofNat value &&& mask)

def write (w : Width) (value : Nat) : Location → Checked Unit
  | .value word => throw (.addressingMode word.toUInt8)
  | .register r =>
    match w with
    | .quad => do
      setRegister r.val (UInt32.ofNat value)
      setRegister (← add 64 r.val 1) (UInt32.ofNat (← shiftRight 64 value 32))
    | .long => setRegister r.val (UInt32.ofNat value)
    | w => do setRegister r.val (← merge w (← getRegister r.val) value)
  | .memory address => writeNat address w.size value

def addressOf : Location → Checked UInt32
  | .memory address => return address
  | .register r => throw (.addressingMode (0x50 ||| UInt8.ofNat r.val))
  | .value word => throw (.addressingMode word.toUInt8)

def setResult (w : Width) (result : Nat) (overflow : Bool) (carry : Option Bool) :
    Checked Unit := do
  let carry := carry.getD (← Exec.getFlags).c
  let negative ← isNegative w result
  let low ← truncate w result
  Exec.setFlags ⟨negative, low == 0, overflow, carry⟩

def setComparison (w : Width) (left right : Nat) : Checked Unit := do
  let isLess := decide ((← signExtend w left) < (← signExtend w right))
  Exec.setFlags ⟨isLess, left == right, false, left < right⟩

def writeResult (w : Width) (result : Result) (destination : Location) : Checked Unit := do
  write w result.value destination
  setResult w result.value result.overflow result.carry

theorem follows_addressOf (location : Location) :
    Follows id (addressOf location) (Exec.addressOf location) := by
  cases location with
  | memory address => exact follows_pure id _
  | value word | register r => exact follows_throw _

theorem register_succ (r : Register) : register (r.val + 1) = some (r + 1) := by
  rw [register_eq]
  rfl

theorem follows_getRegister_succ (r : Register) :
    Follows id (getRegister (r.val + 1)) (Exec.getRegister (r + 1)) :=
  .compute (register_succ r) (follows_lift _)

theorem follows_setRegister_succ (r : Register) (value : UInt32) :
    Follows id (setRegister (r.val + 1) value) (Exec.setRegister (r + 1) value) :=
  .compute (register_succ r) (follows_lift _)

theorem add_one_eq (r : Register) : add 64 r.val 1 = some (r.val + 1) :=
  if_pos (by omega)

theorem toNat_beq {n : Nat} (a b : BitVec n) : (a.toNat == b.toNat) = (a == b) := by
  rw [Bool.eq_iff_iff, beq_iff_eq, beq_iff_eq, BitVec.toNat_inj]

theorem ofNat_toNat (v : BitVec Width.long.bits) : UInt32.ofNat v.toNat = UInt32.ofBitVec v :=
  UInt32.toNat_inj.1 (Nat.mod_eq_of_lt v.isLt)

theorem truncate_toNat_self (w : Width) (v : BitVec w.bits) : w.truncate v.toNat = v := by
  rw [Width.truncate, BitVec.ofNat_toNat, BitVec.setWidth_eq]

theorem read_quad (r : Register) : Exec.read .quad (.register r) = (do
    let low ← Exec.getRegister r
    let high ← Exec.getRegister (r + 1)
    return high.toBitVec ++ low.toBitVec) := by
  funext m
  exact congrArg (EStateM.Result.ok · m) (BitVec.setWidth_eq _)

theorem read_of_ne {w : Width} (hw : w ≠ .quad) (r : Register) :
    Exec.read w (.register r) = (do return w.truncate (← Exec.getRegister r).toNat) := by
  funext m
  refine congrArg (EStateM.Result.ok · m) ?_
  rw [Registers.setWidth_pair hw, Width.truncate]
  exact (BitVec.ofNat_toNat _ _).symm

theorem toNat_append (high low : UInt32) :
    (high.toBitVec ++ low.toBitVec).toNat =
      low.toNat ||| high.toNat * 2 ^ 32 % 2 ^ 64 := by
  have hhigh := high.toNat_lt
  rw [BitVec.toNat_append, Nat.or_comm, Nat.shiftLeft_eq, Nat.mod_eq_of_lt (by omega)]
  rfl

theorem lt_of_readNat (w : Width) {m : Memory} {address : UInt32} {n : Nat}
    (h : m.readNat address w.size = .ok n) : n < 2 ^ w.bits := by
  rw [Memory.readNat] at h
  cases hslice : m.slice address w.size with
  | error e =>
    rw [hslice] at h
    change Except.error e = .ok n at h
    cases h
  | ok bytes =>
    rw [hslice] at h
    obtain rfl := Except.ok.inj h
    rw [Width.bits, Nat.pow_mul, ← Memory.length_of_slice hslice]
    exact LittleEndian.ofBytes_lt bytes

theorem follows_read (w : Width) (location : Location) :
    Follows BitVec.toNat (read w location) (Exec.read w location) := by
  cases location with
  | value word => exact follows_compute (truncate_eq w _)
  | register r =>
    by_cases hquad : w = .quad
    · subst hquad
      rw [read_quad]
      refine (follows_getRegister r).bind fun low => ?_
      rw [if_pos rfl]
      refine .compute (add_one_eq r) <| (follows_getRegister_succ r).bind fun high =>
        .compute (if_pos (by decide)) ?_
      rw [← toNat_append]
      exact follows_pure BitVec.toNat _
    · rw [read_of_ne hquad]
      refine (follows_getRegister r).bind fun low => ?_
      rw [if_neg hquad]
      exact follows_compute (truncate_eq w _)
  | memory address =>
    have hsize : 8 * w.size ≤ 64 := bits_le w
    have hlt : ∀ m n after, (Exec.readNat address w.size).run m = .ok n after →
        n < 2 ^ w.bits := fun m n after h =>
      lt_of_readNat w (Exec.run_readNat_eq_ok.1 h).1
    rw [← bind_pure (read w _)]
    refine (follows_readNat address hsize).bind_of hlt fun n hn => ?_
    have hn : n = (w.truncate n).toNat := (Nat.mod_eq_of_lt hn).symm
    rw [id, hn, truncate_toNat_self]
    exact follows_pure BitVec.toNat _

/-- A value as wide as a register replaces it. -/
theorem merge_of_le {n : Nat} (hn : 32 ≤ n) (old : UInt32) (value : BitVec n) :
    Exec.merge old value = UInt32.ofNat value.toNat := by
  have hold : old.toNat < 2 ^ n :=
    Nat.lt_of_lt_of_le old.toNat_lt (Nat.pow_le_pow_right (by decide) hn)
  rw [Exec.merge, Nat.div_eq_of_lt hold, Nat.zero_mul, Nat.zero_add]

/-- A value narrower than a register replaces its low bits. -/
theorem merge_eq (w : Width) (hw : w.bits < 32) (old : UInt32) (value : Nat) :
    merge w old value = some (Exec.merge old (w.truncate value)) := by
  have hpow : 2 ^ w.bits < 2 ^ 32 := Nat.pow_lt_pow_right (by decide) hw
  have hold := old.toNat_lt
  have hunit : 0 < 2 ^ w.bits := Nat.two_pow_pos _
  have hlow : value % 2 ^ w.bits < 2 ^ w.bits := Nat.mod_lt _ hunit
  have hmask : (UInt32.ofNat w.mask).toNat = 2 ^ w.bits - 1 := by
    rw [UInt32.toNat_ofNat', Width.mask, Nat.mod_eq_of_lt (by omega)]
  have hmerge : (Exec.merge old (w.truncate value)).toNat =
      2 ^ w.bits * (old.toNat / 2 ^ w.bits) + value % 2 ^ w.bits := by
    rw [Exec.toNat_merge (Nat.le_of_lt hw), Nat.mul_comm, Width.truncate, BitVec.toNat_ofNat]
  have hcomplement : UInt32.size - 1 - (2 ^ w.bits - 1) = 2 ^ 32 - (2 ^ w.bits - 1 + 1) := by
    rw [UInt32.size]
    omega
  refine bind_eq_some (mask_eq w) (congrArg some (UInt32.toNat_inj.1 (Nat.eq_of_testBit_eq ?_)))
  intro i
  rw [hmerge, Nat.testBit_two_pow_mul_add _ hlow, UInt32.toNat_or, UInt32.toNat_and,
    UInt32.toNat_and, UInt32.toNat_not, hmask, UInt32.toNat_ofNat', hcomplement, Nat.testBit_or,
    Nat.testBit_and, Nat.testBit_and, Nat.testBit_two_pow_sub_succ (by omega),
    Nat.testBit_two_pow_sub_one, Nat.testBit_mod_two_pow, Nat.testBit_mod_two_pow]
  by_cases hi : i < w.bits
  · have hin : i < 32 := Nat.lt_trans hi hw
    simp [hi, hin]
  · rw [if_neg hi, Nat.testBit_div_two_pow, Nat.sub_add_cancel (Nat.le_of_not_lt hi)]
    by_cases hin : i < 32
    · simp [hi, hin]
    · have hout : old.toNat.testBit i = false :=
        Nat.testBit_lt_two_pow (Nat.lt_of_lt_of_le hold
          (Nat.pow_le_pow_right (by decide) (Nat.le_of_not_lt hin)))
      simp [hout, hi]

/-- Of a number that is too large the low bits are written. -/
theorem follows_write_truncate (w : Width) (value : Nat) (location : Location) :
    Follows id (write w value location) (Exec.write w (w.truncate value) location) := by
  cases location with
  | value word => exact follows_throw _
  | register r =>
    cases w with
    | byte | word =>
      exact (follows_getRegister r).bind fun old => .compute (merge_eq _ (by decide) _ _)
        (follows_setRegister r _)
    | long =>
      have hlow : UInt32.ofNat (Width.truncate .long value).toNat = UInt32.ofNat value :=
        UInt32.toNat_inj.1 (Nat.mod_mod _ _)
      have hwrite : Exec.write .long (Width.truncate .long value) (.register r) =
          Exec.setRegister r (UInt32.ofNat value) := by
        funext m
        change Exec.setRegister r (Exec.merge (m.registers.get r) _) m = _
        rw [merge_of_le (by decide), hlow]
      rw [hwrite]
      exact follows_setRegister r _
    | quad =>
      have hlow : UInt32.ofNat (Width.truncate .quad value).toNat = UInt32.ofNat value :=
        UInt32.toNat_inj.1 (Nat.mod_mod_of_dvd value (Nat.pow_dvd_pow 2 (by decide : 32 ≤ 64)))
      have hhigh : UInt32.ofNat ((Width.truncate .quad value).toNat / 2 ^ 32) =
          UInt32.ofNat (value / 2 ^ 32) := by
        apply UInt32.toNat_inj.1
        change value % 2 ^ 64 / 2 ^ 32 % 2 ^ 32 = value / 2 ^ 32 % 2 ^ 32
        omega
      have hwrite : Exec.write .quad (Width.truncate .quad value) (.register r) = (do
          Exec.setRegister r (UInt32.ofNat value)
          Exec.setRegister (r + 1) (UInt32.ofNat (value / 2 ^ 32))) := by
        funext m
        change (Exec.setRegister r (Exec.merge (m.registers.get r) _) >>= fun _ =>
          Exec.setRegister (r + 1) (UInt32.ofNat ((Width.truncate .quad value).toNat / 2 ^ 32))) m =
            _
        rw [merge_of_le (by decide), hlow, hhigh]
      rw [hwrite]
      exact (follows_setRegister r _).bind fun _ => .compute (add_one_eq r) <|
        .compute (if_pos (by decide)) (follows_setRegister_succ r _)
  | memory address =>
    have hsize : w.size ≤ 8 := by cases w <;> decide
    have hbytes := LittleEndian.toBytes_ofBytes (LittleEndian.toBytes w.size value)
    rw [LittleEndian.length_toBytes, LittleEndian.ofBytes_toBytes] at hbytes
    have hwrite : Exec.write w (w.truncate value) (.memory address) =
        Exec.writeNat address w.size value := by
      change Exec.store address (LittleEndian.toBytes w.size (value % 2 ^ w.bits)) = _
      rw [Width.bits, Nat.pow_mul]
      exact congrArg (Exec.store address) hbytes
    rw [hwrite]
    exact follows_writeNat address hsize value

theorem follows_write (w : Width) (value : BitVec w.bits) (location : Location) :
    Follows id (write w value.toNat location) (Exec.write w value location) := by
  have htruncate := follows_write_truncate w value.toNat location
  rwa [truncate_toNat_self] at htruncate

theorem follows_setResult (w : Width) (result : BitVec w.bits) (overflow : Bool)
    (carry : Option Bool) :
    Follows id (setResult w result.toNat overflow carry)
      (Exec.setResult result overflow carry) := by
  refine (follows_lift Exec.getFlags).bind fun flags => .compute (isNegative_eq w result) <|
    .compute (truncate_eq w _) ?_
  have hzero : (result.toNat == 0) = (result == 0) := toNat_beq result 0
  rw [truncate_toNat_self, hzero]
  exact follows_lift _

theorem follows_setComparison (w : Width) (left right : BitVec w.bits) :
    Follows id (setComparison w left.toNat right.toNat) (Exec.setComparison left right) := by
  refine .compute (signExtend_eq w left) <| .compute (signExtend_eq w right) ?_
  rw [toNat_beq]
  exact follows_lift _

theorem follows_writeResult (w : Width) (result : ArithmeticResult w.bits)
    (destination : Location) :
    Follows id (writeResult w (.of result) destination)
      (Exec.writeResult w result destination) :=
  (follows_write w _ _).bind fun _ => follows_setResult w _ _ _

end Checked

end Vax
