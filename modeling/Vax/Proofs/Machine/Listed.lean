import Vax.Proofs.Machine.Reads
/-!
# Operands are what the listing shows

An instruction is decoded from the memory that it runs in, and nothing is
written before its operands have been read.  So a constant is read as it was
decoded, and an operand lies at the address that its text shows.
-/

namespace Vax

/-- The address that the text of the mode shows, or what is found there. -/
def Mode.shown? (m : Memory) : Mode → Option (Except OutOfRange UInt32)
  | .absolute address => some (.ok address)
  | .relative target false => some (.ok target)
  | .relative target true => some (m.readLong target)
  | _ => none

/-- The place that was found for an operand, from the machine `before` on, is
what is shown of the operand, and so is the value if it is read as `access`
says. -/
structure Operand.FoundAsShown (operand : Operand) (access : Access) (before : Machine)
    (location : Location) : Prop where
  constant : ∀ value w, operand.specifier.constant? = some value → access.readWidth? = some w →
    value < 2 ^ w.bits ∧ ∀ m : Machine, m.memory = before.memory →
      (Exec.read w location).run m = .ok (BitVec.ofNat w.bits value) m
  branch : ∀ target, operand.specifier = .branch target → location = .value target
  plain : ∀ mode found, operand.specifier = .plain mode → mode.shown? before.memory = some found →
    ∃ address, found = .ok address ∧ location = .memory address
  /-- An indexed operand lies as many operand sizes behind its base as its
  register says. -/
  indexed : ∀ mode r found, operand.specifier = .indexed mode r →
    mode.shown? before.memory = some found → ∃ address, found = .ok address ∧
      location = .memory (address + before.registers.get r * UInt32.ofNat operand.kind.size)

deriving instance DecidableEq for Instruction

theorem Memory.instructionAt_of_toOption {m : Memory} {address : UInt32} {i : Instruction}
    (h : (m.instructionAt address).toOption = some i) : m.instructionAt address = .ok i := by
  cases hread : m.instructionAt address with
  | ok other =>
      rw [hread] at h
      exact congrArg Except.ok (Option.some.inj h)
  | error cause =>
      rw [hread] at h
      exact absurd h nofun

namespace Exec

variable {α : Type} {m after : Machine}

/-! ## Constants -/

/-- A constant is read as it was decoded, at the width of its operand. -/
theorem run_read_constant {memory : Memory} {operand : Operand} {w : Width} {value : Nat}
    {location : Location} (hencoded : operand.IsEncodedIn memory) (hkind : operand.kind = w.kind)
    (hconstant : operand.specifier.constant? = some value)
    (hlies : operand.LiesAt memory location) (hmemory : m.memory = memory) :
    value < 2 ^ w.bits ∧ (read w location).run m = .ok (BitVec.ofNat w.bits value) m := by
  obtain ⟨before, located, -, hlocate⟩ := hlies
  obtain ⟨byte, hspecifier, rfl, hlt⟩ | ⟨address, hspecifier, hlt, hread⟩ :=
    hencoded.constant hconstant
  · rw [hspecifier] at hlocate
    obtain ⟨rfl, -⟩ := run_pure_eq_ok.1 hlocate
    have hbits : 2 ^ 6 ≤ 2 ^ w.bits := Nat.pow_le_pow_right (by decide) (by cases w <;> decide)
    refine ⟨by omega, ?_⟩
    rfl
  · rw [hspecifier] at hlocate
    obtain ⟨rfl, -⟩ := run_pure_eq_ok.1 hlocate
    rw [hkind, Width.size_kind] at hlt hread
    have hpow : 256 ^ w.size = 2 ^ w.bits := by rw [Width.bits, Nat.pow_mul]
    refine ⟨hpow ▸ hlt, ?_⟩
    rw [read, run_bind_ok (run_readNat_eq_ok.2 ⟨hmemory ▸ hread, rfl⟩)]
    rfl

/-- The constant that is shown of the operand, or else what is read of it. -/
def readShown (w : Width) (operand : Operand) (location : Location) : Exec (BitVec w.bits) :=
  match operand.specifier.constant? with
  | some value => pure (BitVec.ofNat w.bits value)
  | none => read w location

/-- Does as `supply`, but looks at no operand whose value is shown. -/
def supplyShown (i : Instruction) :
    (accesses : List Access) → Access.Continuation α accesses → List Operand → List Location →
      Exec α
  | [], next, _, _ => next
  | .read w :: rest, next, operand :: operands, location :: locations => do
    let value ← readShown w operand location
    supplyShown i rest (next value) operands locations
  | .modify w :: rest, next, operand :: operands, location :: locations => do
    let value ← readShown w operand location
    supplyShown i rest (next value location) operands locations
  | .write _ :: rest, next, _ :: operands, location :: locations =>
    supplyShown i rest (next location) operands locations
  | .place :: rest, next, _ :: operands, location :: locations =>
    supplyShown i rest (next location) operands locations
  | .branch :: rest, next, _ :: operands, location :: locations =>
    supplyShown i rest (next location) operands locations
  | _ :: _, _, _, _ => reservedOperand i

theorem run_readShown {memory : Memory} {operand : Operand} {w : Width} {location : Location}
    (hencoded : operand.IsEncodedIn memory) (hkind : operand.kind = w.kind)
    (hlies : operand.LiesAt memory location) (hmemory : m.memory = memory) :
    (read w location).run m = (readShown w operand location).run m := by
  unfold readShown
  cases hconstant : operand.specifier.constant? with
  | none => rfl
  | some value => exact (run_read_constant hencoded hkind hconstant hlies hmemory).2

/-- Reading nothing but what is not shown makes no difference. -/
theorem run_supplyShown {memory : Memory} {i : Instruction} {accesses : List Access}
    {operands : List Operand} {locations : List Location}
    (next : Access.Continuation α accesses)
    (hfits : accesses.Forall₂ (fun access operand => access.Fits operand.kind) operands)
    (hencoded : ∀ operand ∈ operands, operand.IsEncodedIn memory)
    (hplaces : operands.Forall₂ (Operand.LiesAt memory) locations) (hmemory : m.memory = memory) :
    (supply i accesses next locations).run m =
      (supplyShown i accesses next operands locations).run m := by
  induction hfits generalizing locations with
  | nil =>
      rw [List.forall₂_nil_left_iff.1 hplaces]
      rfl
  | @cons access operand accesses operands hfit hfits ih =>
      obtain ⟨location, others, hlies, hothers, rfl⟩ := List.forall₂_cons_left_iff.1 hplaces
      obtain ⟨hfirst, hrest⟩ := List.forall_mem_cons.1 hencoded
      cases access with
      | read w | modify w =>
          apply run_bind_congr (run_readShown hfirst hfit hlies hmemory)
          intro value after hread
          rw [run_read_eq hread]
          exact ih _ hrest hothers
      | write w | place | branch => exact ih _ hrest hothers

/-! ## Places -/

theorem locateMode_shown {size : Nat} {mode : Mode} {found : Except OutOfRange UInt32}
    {location : Location} (hshown : mode.shown? m.memory = some found)
    (h : (locateMode size mode).run m = .ok location after) :
    ∃ address, found = .ok address ∧ location = .memory address ∧ after = m := by
  cases mode with
  | absolute target =>
      obtain rfl := Option.some.inj hshown
      obtain ⟨rfl, rfl⟩ := run_pure_eq_ok.1 h
      exact ⟨target, rfl, rfl, rfl⟩
  | relative target isDeferred =>
      rw [locateMode, run_bind_eq_ok] at h
      obtain ⟨address, between, hfollow, h⟩ := h
      obtain rfl := run_follow_eq hfollow
      obtain ⟨rfl, rfl⟩ := run_pure_eq_ok.1 h
      refine ⟨address, ?_, rfl, rfl⟩
      cases isDeferred with
      | false =>
          obtain ⟨rfl, -⟩ := run_pure_eq_ok.1 hfollow
          exact (Option.some.inj hshown).symm
      | true =>
          have hread := (run_readLong_eq_ok.1 hfollow).1
          exact (Option.some.inj hshown).symm.trans hread
  | _ => simp [Mode.shown?] at hshown

theorem locate_indexed_shown {size : Nat} {mode : Mode} {r : Register}
    {found : Except OutOfRange UInt32} {location : Location}
    (hshown : mode.shown? m.memory = some found)
    (h : (locate size (.indexed mode r)).run m = .ok location after) :
    ∃ address, found = .ok address ∧
      location = .memory (address + m.registers.get r * UInt32.ofNat size) := by
  rw [locate, run_bind_eq_ok] at h
  obtain ⟨base, between, hbase, h⟩ := h
  obtain ⟨address, hfound, hlocation, rfl⟩ := locateMode_shown hshown (run_locateBase hbase)
  obtain rfl := Location.memory.inj hlocation
  rw [run_bind_ok (run_getRegister r)] at h
  exact ⟨_, hfound, (run_pure_eq_ok.1 h).1⟩

end Exec

open Exec

theorem Operand.foundAsShown {operand : Operand} {access : Access} {before located : Machine}
    {location : Location} (hencoded : operand.IsEncodedIn before.memory)
    (hfits : access.Fits operand.kind)
    (hlocate : (locate operand.kind.size operand.specifier).run before = .ok location located) :
    operand.FoundAsShown access before location where
  constant value w hconstant hwidth := by
    have hkind : operand.kind = w.kind := by
      cases access with
      | read w' | modify w' =>
          obtain rfl := Option.some.inj hwidth
          exact hfits
      | write w' | place | branch => exact absurd hwidth nofun
    have hread := fun (m : Machine) (hmemory : m.memory = before.memory) =>
      run_read_constant (m := m) hencoded hkind hconstant ⟨before, located, rfl, hlocate⟩ hmemory
    exact ⟨(hread before rfl).1, fun m hmemory => (hread m hmemory).2⟩
  branch target hspecifier := by
    rw [hspecifier] at hlocate
    exact (run_pure_eq_ok.1 hlocate).1
  plain mode found hspecifier hshown := by
    rw [hspecifier] at hlocate
    obtain ⟨address, hfound, hlocation, -⟩ := locateMode_shown hshown hlocate
    exact ⟨address, hfound, hlocation⟩
  indexed mode r found hspecifier hshown := by
    rw [hspecifier] at hlocate
    exact locate_indexed_shown hshown hlocate

/-- What the disassembler shows of an operand is what the machine uses.  The
machine evaluates the operands and then reads those that it reads, at a width
of their kind, before it does anything else; and it does the same if it is
given each constant as shown in place of reading it.  Each place is found from
the specifier and the size of its own operand.  A branch goes to the target
shown; an operand with an address of its own lies there, or at the address
found there, or behind it by the index.  Only the memory matters that the
instruction was fetched from, not the registers that operands step. -/
theorem listed_operands_are_used {m : Machine} {i : Instruction}
    (hfetch : m.memory.instructionAt m.registers.pc = .ok i)
    (haction : i.descriptor.action ≠ .unimplemented) :
    (∃ next : Access.Continuation (Option Halt) i.descriptor.accesses,
      execute i = locateAll i >>= supply i i.descriptor.accesses next ∧
      ∀ before : Machine, before.memory = m.memory → (execute i).run before =
        (locateAll i >>= supplyShown i i.descriptor.accesses next i.operands).run before) ∧
    i.descriptor.accesses.length = i.operands.length ∧
    (∀ (before located : Machine) (locations : List Location), before.memory = m.memory →
      (locateAll i).run before = .ok locations located →
        locations.length = i.operands.length ∧
        ∀ (index : Nat) (operand : Operand) (location : Location),
          i.operands[index]? = some operand → locations[index]? = some location →
            ∃ earlier later : Machine, earlier.memory = m.memory ∧
              (locate operand.kind.size operand.specifier).run earlier = .ok location later) ∧
    ∀ (index : Nat) (operand : Operand) (access : Access), i.operands[index]? = some operand →
      i.descriptor.accesses[index]? = some access →
      ∀ (before located : Machine) (location : Location), before.memory = m.memory →
      (locate operand.kind.size operand.specifier).run before = .ok location located →
        located.memory = m.memory ∧ operand.FoundAsShown access before location := by
  have hencoded := Memory.isEncodedIn_of_instructionAt hfetch
  have hfits := hencoded.fits haction
  refine ⟨?_, hfits.length_eq.symm, ?_, ?_⟩
  · obtain ⟨next, hexecute⟩ := readsFirst_execute haction hfits
    refine ⟨next, hexecute, ?_⟩
    intro before hbefore
    rw [hexecute]
    apply run_bind_congr rfl
    intro locations located hlocate
    have hmemory := (differsIn_locateAll hlocate).memory_eq
    have hplaces := liesAt_of_locateAll hlocate
    rw [hbefore] at hmemory hplaces
    exact run_supplyShown next hfits hencoded.operands hplaces hmemory
  · intro before located locations hbefore hlocate
    have hplaces := liesAt_of_locateAll hlocate
    rw [hbefore] at hplaces
    refine ⟨hplaces.length_eq.symm, fun index operand location hoperand hlocation => ?_⟩
    obtain ⟨hlt, rfl⟩ := List.getElem?_eq_some_iff.1 hoperand
    obtain ⟨hlt', rfl⟩ := List.getElem?_eq_some_iff.1 hlocation
    exact hplaces.get hlt hlt'
  · intro index operand access hoperand haccess before located location hbefore hlocate
    have hoperandIn := hencoded.operands operand (List.mem_of_getElem? hoperand)
    rw [← hbefore] at hoperandIn ⊢
    exact ⟨(differsIn_locate hlocate).memory_eq,
      Operand.foundAsShown hoperandIn (hfits.get haccess hoperand) hlocate⟩

/-- The value of the first operand stands in the instruction stream, and the
second is indexed from a relative address. -/
theorem listed_operands_are_used_moving :
    let m : Machine :=
      { registers := Registers.zeroed.set 1 2
        memory := ⟨0, 64, [0xd0, 0x8f, 4, 3, 2, 1, 0x41, 0xaf, 0x10].toByteArray⟩
        symbols := .empty, entry := 0, status := .running, frames := #[],
        output := .unlimited, log := .empty none, current := 0 }
    let i : Instruction :=
      { address := 0, length := 9, descriptor := ⟨0xd0, "movl", [.long, .long], .move⟩
        operands := [⟨.long, .plain (.immediate 2 0x01020304)⟩,
          ⟨.long, .indexed (.relative 0x19 false) 1⟩] }
    m.memory.instructionAt m.registers.pc = .ok i ∧ i.descriptor.action ≠ .unimplemented ∧
      (∃ next : Access.Continuation (Option Halt) [.read .long, .write .long],
        (execute i).run m =
          (locateAll i >>= supplyShown i [.read .long, .write .long] next i.operands).run m) ∧
      (read .long (.memory 2)).run m = .ok 0x01020304 m ∧
      ∀ location located,
        (locate 4 (.indexed (.relative 0x19 false) 1)).run m = .ok location located →
          location = .memory 0x21 := by
  intro m i
  have hfetch : m.memory.instructionAt m.registers.pc = .ok i :=
    Memory.instructionAt_of_toOption (by decide +kernel)
  have haction : i.descriptor.action ≠ .unimplemented := by decide
  have haccesses : i.descriptor.accesses = [.read .long, .write .long] := by decide
  have hused := listed_operands_are_used hfetch haction
  rw [haccesses] at hused
  obtain ⟨⟨next, -, hshown⟩, -, -, hoperands⟩ := hused
  refine ⟨hfetch, haction, ⟨next, hshown m rfl⟩, ?_, ?_⟩
  · have hfound := (hoperands 0 _ (.read .long) rfl rfl m m (.memory 2) rfl rfl).2
    exact (hfound.constant _ .long rfl rfl).2 m rfl
  · intro location located hlocate
    have hfound := (hoperands 1 _ (.write .long) rfl rfl m located location rfl hlocate).2
    obtain ⟨address, hfound, hlocation⟩ := hfound.indexed _ 1 _ rfl rfl
    obtain rfl := Except.ok.inj hfound
    exact hlocation

end Vax
