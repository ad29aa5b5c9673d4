import Vax.Proofs.Machine.Execution
/-!
# What evaluating operands changes

Evaluating an operand steps the register that its mode names, if it names one
to step, and changes nothing else.
-/

namespace Vax

/-- The register that is stepped. -/
def Mode.stepped? : Mode → Option Register
  | autodecrement r | autoincrement r | autoincrementDeferred r => some r
  | _ => none

/-- The register that is stepped. -/
def Specifier.stepped? : Specifier → Option Register
  | plain mode | indexed mode _ => mode.stepped?
  | branch _ => none

/-- The machines differ in no more than these registers. -/
structure Machine.DiffersIn (m after : Machine) (rs : Register → Prop) : Prop where
  machine_eq : after = m.withRegisters after.registers
  flags_eq : after.registers.flags = m.registers.flags
  get_eq : ∀ r, ¬ rs r → after.registers.get r = m.registers.get r

namespace Machine.DiffersIn

variable {m between after : Machine} {rs rs' : Register → Prop}

theorem refl (m : Machine) (rs : Register → Prop) : m.DiffersIn m rs :=
  ⟨rfl, rfl, fun _ _ => rfl⟩

theorem set (m : Machine) (r : Register) (value : UInt32) :
    m.DiffersIn (m.withRegisters (m.registers.set r value)) (fun s => some r = some s) :=
  ⟨rfl, rfl, fun _ hne => Registers.get_set_of_ne _ _ fun heq => hne (congrArg some heq)⟩

theorem trans (h : m.DiffersIn between rs) (h' : between.DiffersIn after rs') :
    m.DiffersIn after (fun r => rs r ∨ rs' r) where
  machine_eq := by
    rw [h'.machine_eq, h.machine_eq]
    rfl
  flags_eq := h'.flags_eq.trans h.flags_eq
  get_eq r hr := by
    rw [h'.get_eq r fun hr' => hr (Or.inr hr'), h.get_eq r fun hr' => hr (Or.inl hr')]

theorem memory_eq (h : m.DiffersIn after rs) : after.memory = m.memory := by
  rw [h.machine_eq]
  rfl

theorem mono (h : m.DiffersIn after rs) (hle : ∀ r, rs r → rs' r) : m.DiffersIn after rs' where
  machine_eq := h.machine_eq
  flags_eq := h.flags_eq
  get_eq r hr := h.get_eq r fun hr' => hr (hle r hr')

end Machine.DiffersIn

namespace Exec

variable {m after : Machine}

theorem run_follow_eq {address target : UInt32} {isDeferred : Bool}
    (h : (follow address isDeferred).run m = .ok target after) : after = m := by
  cases isDeferred with
  | true => exact (run_readLong_eq_ok.1 h).2
  | false => exact (run_pure_eq_ok.1 h).2

theorem differsIn_locateMode {size : Nat} {mode : Mode} {location : Location}
    (h : (locateMode size mode).run m = .ok location after) :
    m.DiffersIn after (fun r => mode.stepped? = some r) := by
  cases mode with
  | literal byte | register r | deferred r | immediate address value | absolute address =>
      obtain ⟨-, rfl⟩ := EStateM.Result.ok.inj h
      exact .refl m _
  | autodecrement r | autoincrement r =>
      obtain ⟨-, rfl⟩ := EStateM.Result.ok.inj h
      exact .set m r _
  | autoincrementDeferred r =>
      rw [locateMode, run_bind_ok (run_getRegister r), run_bind_ok (run_setRegister r _),
        run_bind_eq_ok] at h
      obtain ⟨pointer, between, hread, h⟩ := h
      obtain ⟨-, rfl⟩ := run_readLong_eq_ok.1 hread
      obtain ⟨-, rfl⟩ := run_pure_eq_ok.1 h
      exact .set m r _
  | displacement r offset isDeferred =>
      rw [locateMode, run_bind_ok (run_getRegister r), run_bind_eq_ok] at h
      obtain ⟨address, between, hfollow, h⟩ := h
      obtain rfl := run_follow_eq hfollow
      obtain ⟨-, rfl⟩ := run_pure_eq_ok.1 h
      exact .refl _ _
  | relative target isDeferred =>
      rw [locateMode, run_bind_eq_ok] at h
      obtain ⟨address, between, hfollow, h⟩ := h
      obtain rfl := run_follow_eq hfollow
      obtain ⟨-, rfl⟩ := run_pure_eq_ok.1 h
      exact .refl _ _
  | reserved byte => exact absurd h nofun

theorem run_locateBase {size : Nat} {index : Register} {mode : Mode} {address : UInt32}
    (h : (locateBase size index mode).run m = .ok address after) :
    (locateMode size mode).run m = .ok (.memory address) after := by
  obtain hbase | hbase := locateBase_cases size index mode
  · rw [hbase] at h
    exact absurd h (run_throw_ne_ok _)
  rw [hbase, run_bind_eq_ok] at h
  obtain ⟨location, between, hlocate, h⟩ := h
  cases location with
  | memory address' =>
      obtain ⟨rfl, rfl⟩ := run_pure_eq_ok.1 h
      exact hlocate
  | value word | register r => exact absurd h (run_throw_ne_ok _)

theorem differsIn_locate {size : Nat} {specifier : Specifier} {location : Location}
    (h : (locate size specifier).run m = .ok location after) :
    m.DiffersIn after (fun r => specifier.stepped? = some r) := by
  cases specifier with
  | plain mode => exact differsIn_locateMode h
  | branch target =>
      obtain ⟨-, rfl⟩ := run_pure_eq_ok.1 h
      exact .refl _ _
  | indexed base r =>
      rw [locate, run_bind_eq_ok] at h
      obtain ⟨address, between, hbase, h⟩ := h
      rw [run_bind_ok (run_getRegister r)] at h
      obtain ⟨-, rfl⟩ := run_pure_eq_ok.1 h
      exact differsIn_locateMode (run_locateBase hbase)

theorem differsIn_mapM_locate {operands : List Operand} {locations : List Location}
    (h : (operands.mapM fun operand => locate operand.kind.size operand.specifier).run m =
      .ok locations after) :
    m.DiffersIn after (fun r => ∃ operand ∈ operands, operand.specifier.stepped? = some r) := by
  induction operands generalizing m locations with
  | nil =>
      obtain ⟨-, rfl⟩ := run_pure_eq_ok.1 h
      exact .refl _ _
  | cons operand rest ih =>
      obtain ⟨_, _, between, -, hfirst, hrest⟩ := run_mapM_cons_eq_ok.1 h
      apply ((differsIn_locate hfirst).trans (ih hrest)).mono
      rintro r (hr | ⟨other, hother, hr⟩)
      · exact ⟨operand, List.mem_cons_self, hr⟩
      · exact ⟨other, List.mem_cons_of_mem _ hother, hr⟩

/-- Evaluating the operands of an instruction steps the registers that they
step and changes nothing else. -/
theorem differsIn_locateAll {i : Instruction} {locations : List Location}
    (h : (locateAll i).run m = .ok locations after) :
    m.DiffersIn after (fun r => ∃ operand ∈ i.operands, operand.specifier.stepped? = some r) :=
  differsIn_mapM_locate h

theorem differsIn_locate2 {i : Instruction} {locations : Location × Location}
    (h : (locate2 i).run m = .ok locations after) :
    m.DiffersIn after
      (fun r => ∃ operand ∈ i.operands, operand.specifier.stepped? = some r) := by
  exact differsIn_locateAll (run_locate2_eq_ok h)

/-! ## Reading -/

theorem run_read_eq {w : Width} {location : Location} {value : BitVec w.bits}
    (h : (read w location).run m = .ok value after) : after = m := by
  cases location with
  | value word => exact (run_pure_eq_ok.1 h).2
  | register r => exact (EStateM.Result.ok.inj h).2.symm
  | memory address =>
      rw [read, run_bind_eq_ok] at h
      obtain ⟨value', between, hread, h⟩ := h
      obtain ⟨-, rfl⟩ := run_readNat_eq_ok.1 hread
      exact (run_pure_eq_ok.1 h).2

theorem run_addressOf_eq {location : Location} {address : UInt32}
    (h : (addressOf location).run m = .ok address after) :
    location = .memory address ∧ after = m := by
  cases location with
  | value word => exact absurd h nofun
  | register r => exact absurd h nofun
  | memory address' =>
      obtain ⟨rfl, rfl⟩ := run_pure_eq_ok.1 h
      exact ⟨rfl, rfl⟩

end Exec

end Vax
