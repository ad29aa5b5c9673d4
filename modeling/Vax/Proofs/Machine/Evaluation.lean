import Vax.Proofs.Machine.Operand
/-!
# Operands are evaluated in order

An operand is found by way of the registers as the operands before it left
them.  Evaluating operands moves each register by the strides of those that
step it and changes nothing else, and a fault comes after the strides of the
operands up to the one that raised it.
-/

namespace Vax

namespace Registers

/-- The registers, each moved by a distance of its own.  It is known by what the
registers hold afterwards, not by how they are listed. -/
@[irreducible] def moved (rs : Registers) (distance : Register → UInt32) : Registers :=
  ⟨Vector.ofFn fun r => rs.get r + distance r, rs.flags⟩

@[simp] theorem get_moved (rs : Registers) (distance : Register → UInt32) (r : Register) :
    (rs.moved distance).get r = rs.get r + distance r := by
  simp [moved, get]

@[simp] theorem flags_moved (rs : Registers) (distance : Register → UInt32) :
    (rs.moved distance).flags = rs.flags := by
  rw [moved]

theorem moved_zero (rs : Registers) : rs.moved (fun _ => 0) = rs := by
  apply ext_get
  · intro r
    rw [get_moved, UInt32.add_zero]
  · exact flags_moved rs _

theorem moved_moved (rs : Registers) (first second : Register → UInt32) :
    (rs.moved first).moved second = rs.moved fun r => first r + second r := by
  apply ext_get
  · intro r
    rw [get_moved, get_moved, get_moved, UInt32.add_assoc]
  · rw [flags_moved, flags_moved, flags_moved]

theorem set_add (rs : Registers) (r : Register) (distance : UInt32) :
    rs.set r (rs.get r + distance) = rs.moved fun s => if r = s then distance else 0 := by
  apply ext_get
  · intro s
    rw [get_set, get_moved]
    split
    · next h => rw [h]
    · rw [UInt32.add_zero]
  · rw [flags_moved, flags_set]

end Registers

/-- The machine with its registers moved. -/
def Machine.moved (m : Machine) (distance : Register → UInt32) : Machine :=
  m.withRegisters (m.registers.moved distance)

/-! ## Strides -/

/-- How far evaluating an operand of `size` bytes moves a register. -/
def Mode.stride (size : Nat) : Mode → Register → UInt32
  | autodecrement r => fun s => if r = s then -UInt32.ofNat size else 0
  | autoincrement r => fun s => if r = s then UInt32.ofNat size else 0
  | autoincrementDeferred r => fun s => if r = s then 4 else 0
  | _ => fun _ => 0

/-- How far evaluating an operand of `size` bytes moves a register. -/
def Specifier.stride (size : Nat) : Specifier → Register → UInt32
  | plain mode | indexed mode _ => mode.stride size
  | branch _ => fun _ => 0

def Operand.stride (operand : Operand) : Register → UInt32 :=
  operand.specifier.stride operand.kind.size

/-- How far evaluating operands moves a register in all. -/
def Operand.strides : List Operand → Register → UInt32
  | [], _ => 0
  | operand :: rest, r => operand.stride r + strides rest r

/-! ## Places -/

namespace Memory

/-- The place at the address that stands at an address. -/
def placeFoundAt (m : Memory) (pointer : UInt32) : Except Fault.Cause Location :=
  (fetched (m.readLong pointer)).map Location.memory

/-- The place at the address itself, or at the one that stands there. -/
def placeAt (m : Memory) (address : UInt32) (isDeferred : Bool) : Except Fault.Cause Location :=
  if isDeferred then m.placeFoundAt address else .ok (.memory address)

end Memory

/-- Where an operand of `size` bytes is, with these contents of the registers
before it is evaluated. -/
def Mode.place (size : Nat) (memory : Memory) (registers : Registers) :
    Mode → Except Fault.Cause Location
  | literal byte => .ok (.value byte.toUInt32)
  | register r => .ok (.register r)
  | deferred r | autoincrement r => .ok (.memory (registers.get r))
  | autodecrement r => .ok (.memory (registers.get r - UInt32.ofNat size))
  | immediate address _ | absolute address => .ok (.memory address)
  | autoincrementDeferred r => memory.placeFoundAt (registers.get r)
  | displacement r offset isDeferred =>
    memory.placeAt (registers.get r + UInt32.ofInt offset) isDeferred
  | relative target isDeferred => memory.placeAt target isDeferred
  | reserved byte => .error (.addressingMode byte)

/-- An immediate value is not in memory as far as an index is concerned. -/
def Mode.isIndexable : Mode → Bool
  | immediate _ _ => false
  | _ => true

/-- Where an operand of `size` bytes is, with these contents of the registers
before it is evaluated.  An index register counts with what it holds once its
base has been stepped. -/
def Specifier.place (size : Nat) (memory : Memory) (registers : Registers) :
    Specifier → Except Fault.Cause Location
  | plain mode => mode.place size memory registers
  | branch target => .ok (.value target)
  | indexed base index =>
    if base.isIndexable then
      match base.place size memory registers with
      | .ok (.memory address) =>
        let count := (registers.moved (base.stride size)).get index
        .ok (.memory (address + count * UInt32.ofNat size))
      | .ok _ => .error (.addressingMode (0x40 ||| UInt8.ofNat index.val))
      | .error cause => .error cause
    else .error (.addressingMode (0x40 ||| UInt8.ofNat index.val))

def Operand.place (memory : Memory) (registers : Registers) (operand : Operand) :
    Except Fault.Cause Location :=
  operand.specifier.place operand.kind.size memory registers

namespace Exec

/-- Ends in a machine, with a result or a fault. -/
def ending {α : Type} (after : Machine) :
    Except Fault.Cause α → EStateM.Result Fault.Cause Machine α
  | .ok a => .ok a after
  | .error cause => .error cause after

variable {m : Machine}

/-! ## One operand -/

theorem run_placeFoundAt (pointer : UInt32) :
    (readLong pointer >>= fun address => pure (Location.memory address)).run m =
      ending m (m.memory.placeFoundAt pointer) := by
  rw [Memory.placeFoundAt]
  cases h : m.memory.readLong pointer with
  | ok address =>
    rw [run_bind_ok (run_readLong_eq_ok.2 ⟨h, rfl⟩)]
    rfl
  | error e =>
    have hread : (readLong pointer).run m = .error (.memory e) m := by
      rw [readLong, run_bind_ok run_get, h]
      rfl
    rw [run_bind_error hread]
    rfl

theorem run_placeAt (address : UInt32) (isDeferred : Bool) :
    (follow address isDeferred >>= fun found => pure (Location.memory found)).run m =
      ending m (m.memory.placeAt address isDeferred) := by
  cases isDeferred with
  | true => exact run_placeFoundAt address
  | false => rfl

/-- A mode gives its place and takes its stride, if it has one, even when it
faults. -/
theorem run_locateMode (size : Nat) (mode : Mode) :
    (locateMode size mode).run m =
      ending (m.moved (mode.stride size)) (mode.place size m.memory m.registers) := by
  have hstill : m.moved (fun _ => 0) = m := by
    rw [Machine.moved, Registers.moved_zero]
    rfl
  cases mode with
  | literal byte | register r | deferred r | immediate address value | absolute address
  | reserved byte =>
    change _ = ending (m.moved fun _ => 0) _
    rw [hstill]
    rfl
  | autodecrement r =>
    rw [Mode.stride, Machine.moved, ← Registers.set_add, ← UInt32.sub_eq_add_neg]
    rfl
  | autoincrement r =>
    rw [Mode.stride, Machine.moved, ← Registers.set_add]
    rfl
  | autoincrementDeferred r =>
    rw [Mode.stride, Machine.moved, ← Registers.set_add]
    rw [locateMode, run_bind_ok (run_getRegister r), run_bind_ok (run_setRegister r _)]
    exact run_placeFoundAt _
  | displacement r offset isDeferred =>
    change _ = ending (m.moved fun _ => 0) _
    rw [hstill, locateMode, run_bind_ok (run_getRegister r)]
    exact run_placeAt _ isDeferred
  | relative target isDeferred =>
    change _ = ending (m.moved fun _ => 0) _
    rw [hstill]
    exact run_placeAt _ isDeferred

theorem locateBase_of_isIndexable {size : Nat} {index : Register} {base : Mode}
    (h : base.isIndexable = true) :
    locateBase size index base = locateMode size base >>= baseAddress index := by
  cases base with
  | immediate address value => exact absurd h Bool.false_ne_true
  | _ =>
    refine bind_congr fun location => ?_
    cases location <;> rfl

theorem run_indexed {size : Nat} {base : Mode} (h : base.isIndexable = true) (index : Register) :
    (locate size (.indexed base index)).run m =
      ending (m.moved (base.stride size))
        ((Specifier.indexed base index).place size m.memory m.registers) := by
  have hbase := run_locateMode (m := m) size base
  rw [locate, locateBase_of_isIndexable h, bind_assoc, Specifier.place, if_pos h]
  cases hplace : base.place size m.memory m.registers with
  | error cause =>
    rw [hplace] at hbase
    rw [run_bind_error hbase]
    rfl
  | ok location =>
    rw [hplace] at hbase
    rw [run_bind_ok hbase]
    cases location with
    | memory address => rfl
    | value word | register r => rfl

/-- Likewise a specifier, whose stride is that of its base. -/
theorem run_locate (size : Nat) (specifier : Specifier) :
    (locate size specifier).run m =
      ending (m.moved (specifier.stride size)) (specifier.place size m.memory m.registers) := by
  have hstill : m.moved (fun _ => 0) = m := by
    rw [Machine.moved, Registers.moved_zero]
    rfl
  cases specifier with
  | plain mode => exact run_locateMode size mode
  | branch target =>
    change _ = ending (m.moved fun _ => 0) _
    rw [hstill]
    rfl
  | indexed base index =>
    cases base with
    | immediate address value =>
      change _ = ending (m.moved fun _ => 0) _
      rw [hstill]
      rfl
    | _ => exact run_indexed rfl index

end Exec

/-! ## Operands that are nowhere -/

/-- Of the modes that step a register only the one with a pointer can fault. -/
theorem Mode.eq_of_place_error {size : Nat} {memory : Memory} {registers : Registers} {mode : Mode}
    {cause : Fault.Cause} {r : Register} (hfault : mode.place size memory registers = .error cause)
    (hstride : mode.stride size r ≠ 0) : mode = .autoincrementDeferred r := by
  cases mode with
  | autodecrement s | autoincrement s => exact absurd hfault nofun
  | autoincrementDeferred s =>
    by_cases h : s = r
    · rw [h]
    · exact absurd (if_neg h) hstride
  | _ => exact absurd rfl hstride

theorem Specifier.eq_of_place_error {size : Nat} {memory : Memory} {registers : Registers}
    {specifier : Specifier} {cause : Fault.Cause} {r : Register}
    (hfault : specifier.place size memory registers = .error cause)
    (hstride : specifier.stride size r ≠ 0) :
    specifier = .plain (.autoincrementDeferred r) ∨
      ∃ index, specifier = .indexed (.autoincrementDeferred r) index := by
  cases specifier with
  | plain mode => exact .inl (congrArg plain (mode.eq_of_place_error hfault hstride))
  | branch target => exact absurd rfl hstride
  | indexed base index =>
    refine .inr ⟨index, congrArg (indexed · index) ?_⟩
    rw [place] at hfault
    cases hbase : base.place size memory registers with
    | error cause' => exact Mode.eq_of_place_error hbase hstride
    | ok location =>
      -- A base that is stepped and found lies in memory, so the operand is found.
      cases base with
      | autodecrement s | autoincrement s => exact absurd hfault nofun
      | autoincrementDeferred s =>
        by_cases h : s = r
        · rw [h]
        · exact absurd (if_neg h) hstride
      | _ => exact absurd rfl hstride

/-! ## All operands -/

/-- The registers when it is the turn of the operand at an index. -/
def Machine.registersAt (m : Machine) (operands : List Operand) (index : Nat) : Registers :=
  m.registers.moved (Operand.strides (operands.take index))

theorem Machine.registersAt_zero (m : Machine) (operands : List Operand) :
    m.registersAt operands 0 = m.registers := by
  rw [registersAt, List.take_zero]
  exact Registers.moved_zero _

theorem Machine.registersAt_succ (m : Machine) (operand : Operand) (rest : List Operand)
    (index : Nat) :
    m.registersAt (operand :: rest) (index + 1) =
      (m.moved operand.stride).registersAt rest index := by
  rw [registersAt, registersAt, List.take_succ_cons, moved, registers_withRegisters,
    Registers.moved_moved]
  rfl

namespace Operand

/-- Evaluating the operands found each of them where it is at its turn, took
their strides, and did nothing else. -/
structure Evaluated (operands : List Operand) (m : Machine) (locations : List Location)
    (after : Machine) : Prop where
  length : locations.length = operands.length
  places : ∀ index (operand : Operand) location, operands[index]? = some operand →
    locations[index]? = some location →
    operand.place m.memory (m.registersAt operands index) = .ok location
  moved : after = m.moved (strides operands)

/-- Evaluating the operands ended at the one with this index, which is nowhere,
after the strides of those in front and its own.  It has one only if it steps a
pointer before the pointer is followed. -/
structure EndsAt (operands : List Operand) (index : Nat) (m : Machine) (cause : Fault.Cause)
    (after : Machine) (operand : Operand) : Prop where
  here : operands[index]? = some operand
  places : ∀ earlier < index, ∀ other : Operand, operands[earlier]? = some other →
    ∃ location, other.place m.memory (m.registersAt operands earlier) = .ok location
  fault : operand.place m.memory (m.registersAt operands index) = .error cause
  pointer : ∀ r, operand.stride r ≠ 0 →
    operand.specifier = .plain (.autoincrementDeferred r) ∨
      ∃ base, operand.specifier = .indexed (.autoincrementDeferred r) base
  moved : after = m.moved fun r => strides (operands.take index) r + operand.stride r

variable {m after : Machine} {operand : Operand} {rest : List Operand}

theorem Evaluated.nil (m : Machine) : Evaluated [] m [] m where
  length := rfl
  places index operand location h := absurd h nofun
  moved := by
    rw [Machine.moved]
    exact (congrArg m.withRegisters (Registers.moved_zero _)).symm

theorem moved_strides (m : Machine) (operand : Operand) (rest : List Operand) :
    (m.moved operand.stride).moved (strides rest) = m.moved (strides (operand :: rest)) := by
  rw [Machine.moved, Machine.moved, Machine.registers_withRegisters, Registers.moved_moved]
  rfl

theorem Evaluated.cons {location : Location} {locations : List Location}
    (hplace : operand.place m.memory m.registers = .ok location)
    (h : Evaluated rest (m.moved operand.stride) locations after) :
    Evaluated (operand :: rest) m (location :: locations) after where
  length := congrArg (· + 1) h.length
  places index other found hother hfound := by
    cases index with
    | zero =>
      obtain rfl := Option.some.inj hother
      obtain rfl := Option.some.inj hfound
      rw [Machine.registersAt_zero]
      exact hplace
    | succ index =>
      rw [Machine.registersAt_succ]
      exact h.places index other found hother hfound
  moved := h.moved.trans (moved_strides m operand rest)

theorem EndsAt.first {cause : Fault.Cause} (operand : Operand) (rest : List Operand)
    (hfault : operand.place m.memory m.registers = .error cause) :
    EndsAt (operand :: rest) 0 m cause (m.moved operand.stride) operand where
  here := rfl
  places earlier hlt := absurd hlt (Nat.not_lt_zero _)
  fault := by
    rw [Machine.registersAt_zero]
    exact hfault
  pointer r hstride := Specifier.eq_of_place_error hfault hstride
  moved := by
    congr 1
    funext r
    exact (UInt32.zero_add _).symm

theorem EndsAt.cons {location : Location} {cause : Fault.Cause} {index : Nat} {last : Operand}
    (hplace : operand.place m.memory m.registers = .ok location)
    (h : EndsAt rest index (m.moved operand.stride) cause after last) :
    EndsAt (operand :: rest) (index + 1) m cause after last where
  here := h.here
  places earlier hlt other hother := by
    cases earlier with
    | zero =>
      obtain rfl := Option.some.inj hother
      rw [Machine.registersAt_zero]
      exact ⟨location, hplace⟩
    | succ earlier =>
      rw [Machine.registersAt_succ]
      exact h.places earlier (Nat.lt_of_succ_lt_succ hlt) other hother
  fault := by
    rw [Machine.registersAt_succ]
    exact h.fault
  pointer := h.pointer
  moved := by
    rw [h.moved, Machine.moved, Machine.moved, Machine.registers_withRegisters,
      Registers.moved_moved, List.take_succ_cons]
    simp only [strides, UInt32.add_assoc]
    rfl

end Operand

open Operand Exec

/-- Evaluating operands either finds all of them or ends at the first that is
nowhere. -/
theorem evaluated_or_endsAt (operands : List Operand) (m : Machine) :
    (∃ locations after, (operands.mapM fun operand =>
        locate operand.kind.size operand.specifier).run m = .ok locations after ∧
      Evaluated operands m locations after) ∨
    ∃ cause after index operand, (operands.mapM fun operand =>
        locate operand.kind.size operand.specifier).run m = .error cause after ∧
      EndsAt operands index m cause after operand := by
  induction operands generalizing m with
  | nil => exact .inl ⟨[], m, rfl, .nil m⟩
  | cons operand rest ih =>
    have hfirst := run_locate (m := m) operand.kind.size operand.specifier
    rw [List.mapM_cons]
    cases hplace : operand.place m.memory m.registers with
    | error cause =>
      rw [← Operand.place, hplace] at hfirst
      exact .inr ⟨cause, _, 0, operand, run_bind_error hfirst, .first operand rest hplace⟩
    | ok location =>
      rw [← Operand.place, hplace] at hfirst
      obtain ⟨locations, after, hrest, hevaluated⟩ | ⟨cause, after, index, last, hrest, hends⟩ :=
        ih (m.moved operand.stride)
      · refine .inl ⟨location :: locations, after, ?_, hevaluated.cons hplace⟩
        rw [run_bind_ok hfirst]
        exact run_bind_ok hrest
      · refine .inr ⟨cause, after, index + 1, last, ?_, hends.cons hplace⟩
        rw [run_bind_ok hfirst]
        exact run_bind_error hrest

/-- Operands are evaluated one after the other, each side effect once.  When all
of them are found, each lies where its mode says with the registers as the ones
in front have left them, and every register has moved by the strides of the
operands that step it.  When one is nowhere, the ones in front were found, and
the registers have moved by their strides and by its own, which is that of a
pointer.  Nothing else changes in either case. -/
theorem operands_are_evaluated_in_order (m : Machine) (i : Instruction) :
    (∀ locations after, (locateAll i).run m = .ok locations after →
      Evaluated i.operands m locations after) ∧
    ∀ cause after, (locateAll i).run m = .error cause after →
      ∃ index operand, EndsAt i.operands index m cause after operand := by
  obtain ⟨locations, after, hrun, hevaluated⟩ | ⟨cause, after, index, operand, hrun, hends⟩ :=
    evaluated_or_endsAt i.operands m
  · constructor
    · intro locations' after' hrun'
      obtain ⟨rfl, rfl⟩ := EStateM.Result.ok.inj (hrun.symm.trans hrun')
      exact hevaluated
    · intro cause after' hrun'
      exact absurd (hrun.symm.trans hrun') nofun
  · constructor
    · intro locations after' hrun'
      exact absurd (hrun.symm.trans hrun') nofun
    · intro cause' after' hrun'
      obtain ⟨rfl, rfl⟩ := EStateM.Result.error.inj (hrun.symm.trans hrun')
      exact ⟨index, operand, hends⟩

/-- One register is an address, a base with an index and a pointer by turns.  It
is stepped for each, and for the pointer even if that lies outside the image. -/
theorem operands_are_evaluated_in_order_shared :
    let m (size : Nat) : Machine :=
      { registers := Registers.zeroed.set 1 16
        memory := ⟨0, size, ByteArray.empty⟩
        symbols := .empty, entry := 0, status := .running, frames := #[],
        output := .unlimited, log := .empty none, current := 0 }
    let i : Instruction :=
      { address := 0, length := 5
        descriptor := ⟨0xc1, "addl3", [.long, .long, .long], .arithmetic .add⟩
        operands := [⟨.long, .plain (.autoincrement 1)⟩, ⟨.long, .indexed (.autodecrement 1) 1⟩,
          ⟨.long, .plain (.autoincrementDeferred 1)⟩] }
    (∃ after, (locateAll i).run (m 20) = .ok [.memory 16, .memory 80, .memory 0] after ∧
      after.registers.get 1 = 20 ∧
      Evaluated i.operands (m 20) [.memory 16, .memory 80, .memory 0] after) ∧
    ∃ after index operand, (locateAll i).run (m 16) = .error (.memory ⟨16, 4⟩) after ∧
      EndsAt i.operands index (m 16) (.memory ⟨16, 4⟩) after operand := by
  intro m i
  obtain ⟨after, hfound⟩ : ∃ after, (locateAll i).run (m 20) =
      .ok [.memory 16, .memory 80, .memory 0] after := exists_run (by decide +kernel)
  obtain ⟨after', hended⟩ : ∃ after, (locateAll i).run (m 16) = .error (.memory ⟨16, 4⟩) after :=
    exists_run_error (by decide +kernel)
  have hevaluated := (operands_are_evaluated_in_order (m 20) i).1 _ _ hfound
  obtain ⟨index, operand, hends⟩ := (operands_are_evaluated_in_order (m 16) i).2 _ _ hended
  refine ⟨⟨after, hfound, ?_, hevaluated⟩, after', index, operand, hended, hends⟩
  rw [hevaluated.moved]
  decide +kernel

end Vax
