import Mathlib.Tactic.IntervalCases
import Vax.Proofs.Checked.Memory
import Vax.Proofs.Instruction.Catalog
/-!
# Decoding that can fail

The catalog is four banks of 256 entries, one for each escape byte and one for
opcodes of a single byte.  Decoding looks entries up by their place and takes
opcodes and specifiers apart with shifts; none of this ever fails.
-/

namespace Vax

namespace Checked

/-! ## The catalog -/

/-- The escape bytes, in the order of their banks. -/
def escapes : List Nat := [0xfd, 0xfe, 0xff]

/-- The bank that holds the opcodes with the given high byte, if there is one. -/
def bank (high low : Nat) : Option (Option Nat) :=
  if high = 0 ∧ low ∉ escapes then some (some 0)
  else
    match escapes.findIdx? (· == high) with
    | some position => some <$> add 64 position 1
    | none => some none

def find? (code : UInt16) : Option (Option Descriptor) := do
  let high := code.toNat / 256
  let low := code.toNat % 256
  match ← bank high low with
  | some bank => do
    let _ ← index 4 bank
    let _ ← index 256 low
    return Catalog.find? code
  | none => return none

theorem mem_escapes {high : Nat} : high ∈ escapes ↔ 0xfd ≤ high ∧ high ≤ 0xff := by
  simp only [escapes, List.mem_cons, List.not_mem_nil, or_false]
  omega

theorem exists_bank (high low : Nat) :
    ∃ bank?, bank high low = some bank? ∧ (∀ n, bank? = some n → n < 4) ∧
      (bank? = none → high ∉ escapes ∧ (high = 0 → low ∈ escapes)) := by
  unfold bank
  split
  · exact ⟨some 0, rfl, fun n hn => Option.some.inj hn ▸ by decide, nofun⟩
  · next hsingle =>
    cases hfind : escapes.findIdx? (· == high) with
    | some position =>
      obtain ⟨hlt, -⟩ := List.findIdx?_eq_some_iff_findIdx_eq.1 hfind
      have hlt : position < 3 := hlt
      have hadd : add 64 position 1 = some (position + 1) := if_pos (by omega)
      refine ⟨some (position + 1), congrArg (some <$> ·) hadd, fun n hn => ?_, nofun⟩
      obtain rfl := Option.some.inj hn
      omega
    | none =>
      have hnone := List.findIdx?_eq_none_iff.1 hfind
      refine ⟨none, rfl, nofun, fun _ => ⟨fun hmem => ?_, fun hzero => ?_⟩⟩
      · simpa using hnone high hmem
      · by_contra hlow
        exact hsingle ⟨hzero, hlow⟩

theorem find?_eq (code : UInt16) : find? code = some (Catalog.find? code) := by
  have hlow : code.toNat % 256 < 256 := Nat.mod_lt _ (by decide)
  obtain ⟨bank?, hbank, hfour, hnone⟩ := exists_bank (code.toNat / 256) (code.toNat % 256)
  refine bind_eq_some hbank ?_
  cases bank? with
  | some n => exact bind_eq_some (dif_pos (hfour n rfl)) (bind_eq_some (dif_pos hlow) rfl)
  | none =>
    -- What has no bank is not in the catalog.
    obtain ⟨hescape, hsingle⟩ := hnone rfl
    have habsent : Catalog.find? code = none := by
      by_contra hfind
      obtain ⟨d, hd⟩ := Option.ne_none_iff_exists'.1 hfind
      have hmem := Catalog.mem_of_find? hd
      have hlt : code.toNat < 2 ^ 16 := code.toNat_lt
      rw [mem_escapes] at hescape hsingle
      have hplain := Catalog.code_not_escape d hmem
      rw [Catalog.code_of_find? hd] at hplain
      rcases Catalog.isEscape_of_code d hmem with hone | htwo
      · rw [Catalog.code_of_find? hd] at hone
        omega
      · rw [Catalog.code_of_find? hd, Catalog.isEscape_iff, UInt8.toNat_ofNat'] at htwo
        omega
    rw [habsent]
    rfl

/-- The code of an opcode with an escape byte. -/
def twoByteCode (first second : UInt8) : Option UInt16 := do
  let high ← shiftLeft 16 first.toNat 8
  return UInt16.ofNat (high ||| second.toNat)

theorem twoByteCode_eq (first second : UInt8) :
    twoByteCode first second = some (Opcode.twoByteCode first second) := by
  have hfirst := first.toNat_lt
  have hor : first.toNat * 2 ^ 8 % 2 ^ 16 ||| second.toNat =
      first.toNat * 256 + second.toNat := by
    rw [Nat.mod_eq_of_lt (by omega), Nat.mul_comm, ← Nat.two_pow_add_eq_or_of_lt second.toNat_lt,
      Nat.mul_comm]
  refine bind_eq_some (if_pos (by decide)) ?_
  rw [hor]
  rfl

/-! ## Fetching -/

def fetch {α : Type} (access : UInt32 → Access α) (length : Nat) : CheckedFetch α :=
  fun position => do
    let value ← access position
    return (value, position + UInt32.ofNat length)

namespace Fetch

/-- Fetches a number of up to 128 bits. -/
def number (m : Memory) (length : Nat) : CheckedFetch Nat :=
  fetch (Access.readNat 128 m · length) length

def byte (m : Memory) : CheckedFetch UInt8 :=
  fetch (Access.readAs UInt8.ofNat m · 1) 1

def long (m : Memory) : CheckedFetch UInt32 :=
  fetch (Access.readAs UInt32.ofNat m · 4) 4

def displacement (m : Memory) (length : Nat) : CheckedFetch Int :=
  match length with
  | 1 => fetch (Access.readAs (Signed.ofNat 8) m · 1) 1
  | 2 => fetch (Access.readAs (Signed.ofNat 16) m · 2) 2
  | _ => fetch (Access.readAs (Signed.ofNat 32) m · 4) 4

end Fetch

variable (m : Memory) (kind : OperandKind)

theorem follows_fetch {α : Type} {f : Nat → α} {access : UInt32 → Access α} {length : Nat}
    (h : ∀ position, Follows id (access position) ((m.readNat position length).map f)) :
    Follows id (fetch access length) (f <$> Vax.Fetch.number m length) := by
  rw [Follows, id_map]
  funext position
  have haccess : access position = id <$> liftM ((m.readNat position length).map f) := h position
  change (access position >>= fun value => pure (value, position + UInt32.ofNat length) :
    Access (α × UInt32)) = _
  rw [haccess]
  have hnumber : (f <$> Vax.Fetch.number m length).run position =
      (m.readNat position length).map fun n => (f n, position + UInt32.ofNat length) := by
    change (m.readNat position length >>= _ : Except OutOfRange (Nat × UInt32)).map _ = _
    cases m.readNat position length <;> rfl
  change _ = ExceptT.mk (some ((f <$> Vax.Fetch.number m length).run position))
  rw [hnumber]
  cases m.readNat position length <;> rfl

theorem follows_position : Follows id (get : CheckedFetch UInt32) Vax.Fetch.position :=
  rfl

theorem follows_number {length : Nat} (h : 8 * length ≤ 128) :
    Follows id (Fetch.number m length) (Vax.Fetch.number m length) := by
  rw [← id_map (Vax.Fetch.number m length)]
  apply follows_fetch
  intro position
  rw [Except.map_id]
  exact Access.follows_readNat (by decide) h m position

theorem follows_byte : Follows id (Fetch.byte m) (Vax.Fetch.byte m) :=
  follows_fetch m fun position => Access.follows_readAs UInt8.ofNat m position 1

theorem follows_long : Follows id (Fetch.long m) (Vax.Fetch.long m) :=
  follows_fetch m fun position => Access.follows_readAs UInt32.ofNat m position 4

theorem follows_displacement (length : Nat) :
    Follows id (Fetch.displacement m length) (Vax.Fetch.displacement m length) := by
  rcases length with _ | _ | _ | length
  · exact follows_fetch m fun position => Access.follows_readAs _ m position 4
  · exact follows_fetch m fun position => Access.follows_readAs _ m position 1
  · exact follows_fetch m fun position => Access.follows_readAs _ m position 2
  · exact follows_fetch m fun position => Access.follows_readAs _ m position 4

namespace Mode

/-- Takes a specifier byte apart; the length of a displacement is a shifted one. -/
def fetchAfter (byte : UInt8) : CheckedFetch Mode := do
  let r := Register.ofByte byte
  match ← shiftRight 8 byte.toNat 4 with
  | 0 | 1 | 2 | 3 => return .literal byte
  | 4 => return .reserved byte
  | 5 => return .register r
  | 6 => return .deferred r
  | 7 => return .autodecrement r
  | 8 =>
    if r = Register.pc then
      let address ← get
      return .immediate address (← Fetch.number m kind.size)
    else
      return .autoincrement r
  | 9 =>
    if r = Register.pc then
      return .absolute (← Fetch.long m)
    else
      return .autoincrementDeferred r
  | mode =>
    let isDeferred := mode % 2 == 1
    let exponent ← shiftRight 8 (← subtract mode 10) 1
    let offset ← Fetch.displacement m (← shiftLeft 32 1 exponent)
    if r = Register.pc then
      return .relative ((← get) + UInt32.ofInt offset) isDeferred
    else
      return .displacement r offset isDeferred

end Mode

theorem follows_fetchAfter (byte : UInt8) :
    Follows id (Mode.fetchAfter m kind byte) (Vax.Mode.fetchAfter m kind byte) := by
  have hhalf : shiftRight 8 byte.toNat 4 = some (Vax.Mode.selector byte) := if_pos (by decide)
  have hlt : Vax.Mode.selector byte < 16 := by
    have hbyte := byte.toNat_lt
    rw [Vax.Mode.selector]
    omega
  have hsize : 8 * kind.size ≤ 128 := by cases kind <;> decide
  refine .compute hhalf ?_
  unfold Vax.Mode.fetchAfter
  generalize Vax.Mode.selector byte = mode at hlt
  by_cases hten : 10 ≤ mode
  · obtain ⟨k, rfl⟩ := Nat.exists_eq_add_of_le' hten
    have hlength : shiftLeft 32 1 ((k + 10 - 10) / 2 ^ 1) = some (2 ^ ((k + 10 - 10) / 2)) := by
      have hexponent : (k + 10 - 10) / 2 ≤ 2 := by omega
      have hfits : 2 ^ ((k + 10 - 10) / 2) < 2 ^ 32 :=
        Nat.lt_of_le_of_lt (Nat.pow_le_pow_right (by decide) hexponent) (by decide)
      rw [shiftLeft, Nat.pow_one, if_pos (by omega), Nat.one_mul, Nat.mod_eq_of_lt hfits]
    exact .compute (if_pos hten) <| .compute (if_pos (by decide)) <| .compute hlength <|
      (follows_displacement m _).bind fun offset => .ite Iff.rfl
        (follows_position.bind fun address => follows_pure id _) (follows_pure id _)
  · interval_cases mode
    case «8» =>
      exact .ite Iff.rfl (follows_position.bind fun address =>
        (follows_number m hsize).bind fun value => follows_pure id _) (follows_pure id _)
    case «9» =>
      exact .ite Iff.rfl ((follows_long m).bind fun _ => follows_pure id _) (follows_pure id _)
    all_goals exact follows_pure id _

def Mode.fetch : CheckedFetch Mode := do
  fetchAfter m kind (← Fetch.byte m)

theorem follows_fetchMode : Follows id (Mode.fetch m kind) (Vax.Mode.fetch m kind) :=
  (follows_byte m).bind fun byte => follows_fetchAfter m kind byte

/-! ## Instructions -/

def Specifier.fetch : CheckedFetch Specifier := do
  if kind.isBranch then
    let offset ← Fetch.displacement m kind.size
    return .branch ((← get) + UInt32.ofInt offset)
  let byte ← Fetch.byte m
  if (← shiftRight 8 byte.toNat 4) = Mode.indexSelector then
    return .indexed (← Mode.fetch m kind) (Register.ofByte byte)
  else
    return .plain (← Mode.fetchAfter m kind byte)

def Operand.fetch : CheckedFetch Operand :=
  Operand.mk kind <$> Specifier.fetch m kind

def Opcode.fetch : CheckedFetch Opcode := do
  let first ← Fetch.byte m
  match ← find? first.toUInt16 with
  | some descriptor => return .known descriptor
  | none =>
    let code ← twoByteCode first (← Fetch.byte m)
    match ← find? code with
    | some descriptor => return .known descriptor
    | none => return .raw code

def fetchOperands (address : UInt32) (descriptor : Descriptor) : CheckedFetch Instruction := do
  let operands ← descriptor.operands.mapM (Operand.fetch m)
  return ⟨address, (← get) - address, descriptor, operands⟩

theorem follows_fetchSpecifier :
    Follows id (Specifier.fetch m kind) (Vax.Specifier.fetch m kind) := by
  refine .ite Iff.rfl ?_ ?_
  · exact (follows_displacement m _).bind fun offset =>
      follows_position.bind fun address => follows_pure id _
  · refine (follows_byte m).bind fun byte => .compute (if_pos (by decide)) <| .ite Iff.rfl ?_ ?_
    · exact (follows_fetchMode m kind).bind fun _ => follows_pure id _
    · exact (follows_fetchAfter m kind _).bind fun _ => follows_pure id _

theorem follows_fetchOperand : Follows id (Operand.fetch m kind) (Vax.Operand.fetch m kind) :=
  (follows_fetchSpecifier m kind).map (Operand.mk kind)

theorem follows_fetchOpcode : Follows id (Opcode.fetch m) (Vax.Opcode.fetch m) := by
  refine (follows_byte m).bind fun first => .compute (find?_eq _) ?_
  dsimp only [id]
  cases Catalog.find? first.toUInt16 with
  | some descriptor => exact follows_pure id _
  | none =>
    dsimp only
    refine (follows_byte m).bind fun second => .compute (twoByteCode_eq _ _) <|
      .compute (find?_eq _) ?_
    dsimp only [id]
    cases Catalog.find? (Vax.Opcode.twoByteCode first second) with
    | some descriptor => exact follows_pure id _
    | none => exact follows_pure id _

theorem follows_fetchOperands (address : UInt32) (descriptor : Descriptor) :
    Follows id (fetchOperands m address descriptor)
      (Instruction.fetchOperands m address descriptor) := by
  refine Follows.bind (e := id) ?_ fun operands =>
    follows_position.bind fun position => follows_pure id _
  exact follows_mapM (fun kind => follows_fetchOperand m kind) _

/-- The outcome of a fetch, with an access that failed as a fault. -/
def fetched {α : Type} (outcome : Access α) : ExceptT Fault.Cause Option α :=
  outcome.adapt Fault.Cause.memory

def instructionAt (address : UInt32) : ExceptT Fault.Cause Option Instruction := do
  let (first, position) ← fetched ((Fetch.byte m).run address)
  match ← find? first.toUInt16 with
  | some descriptor =>
    Prod.fst <$> fetched ((fetchOperands m address descriptor).run position)
  | none =>
    if isEscape first then
      let (second, position) ← fetched ((Fetch.byte m).run position)
      let code ← twoByteCode first second
      match ← find? code with
      | some descriptor =>
        Prod.fst <$> fetched ((fetchOperands m address descriptor).run position)
      | none => throw (.unknownOpcode code 2)
    else
      throw (.unknownOpcode first.toUInt16 1)

section Fetched

variable {α : Type} {c : CheckedFetch α} {x : Vax.Fetch α}

theorem follows_run (h : Follows id c x) (position : UInt32) :
    Follows id (c.run position) (x.run position) := by
  rw [Follows, id_map, h.eq]
  rfl

theorem follows_fetched (h : Follows id c x) (position : UInt32) :
    Follows id (fetched (c.run position)) (Memory.fetched (x.run position)) := by
  have hrun : c.run position = liftM (x.run position) := (follows_run h position).eq
  rw [Follows, id_map, fetched, hrun]
  rfl

end Fetched

theorem follows_instructionAt (address : UInt32) :
    Follows id (instructionAt m address) (m.instructionAt address) := by
  have hoperands : ∀ descriptor position, Follows id
      (Prod.fst <$> fetched ((fetchOperands m address descriptor).run position))
      (Prod.fst <$>
        Memory.fetched ((Instruction.fetchOperands m address descriptor).run position)) :=
    fun descriptor position =>
      (follows_fetched (follows_fetchOperands m address descriptor) position).map Prod.fst
  refine (follows_fetched (follows_byte m) _).bind fun first => .compute (find?_eq _) ?_
  dsimp only [id]
  cases Catalog.find? first.1.toUInt16 with
  | some descriptor => exact hoperands descriptor _
  | none =>
    refine .ite Iff.rfl ?_ rfl
    refine (follows_fetched (follows_byte m) _).bind fun second =>
      .compute (twoByteCode_eq _ _) <| .compute (find?_eq _) ?_
    dsimp only [id]
    cases Catalog.find? (Vax.Opcode.twoByteCode first.1 second.1) with
    | some descriptor => exact hoperands descriptor _
    | none => rfl

end Checked

end Vax
