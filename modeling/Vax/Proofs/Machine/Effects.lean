import Vax.Proofs.Machine.Footprint
import Vax.Proofs.Machine.Procedure
/-!
# What instructions may change

Evaluating operands steps registers.  After that an instruction reads, and
what it changes is what it writes: its operands, the registers `r0` to `r5`,
the stack, the condition codes, memory, and for some actions more.  A fault
comes before most of this.
-/

namespace Vax

namespace Location

/-- Writing here at a width stays inside the footprint, as far as registers go. -/
def Writable (f : Footprint) (w : Width) : Location → Prop
  | register r => ∀ value, f.registers r value ∧ (w = .quad → f.registers (r + 1) value)
  | value _ | memory _ => True

/-- Using the place so stays inside the footprint, as far as registers go. -/
def Suits (f : Footprint) (location : Location) : Access → Prop
  | .read _ => True
  | .write w | .modify w => location.Writable f w
  | .place => location.Writable f .long
  | .branch => ∀ address, location = .value address → f.registers Register.pc address

end Location

/-- A success may change `f`, and a fault `g`, wherever the instruction steps
or writes a register, branches, pushes, or leaves a result. -/
structure Instruction.Allowed (f g : Footprint) (i : Instruction) : Prop where
  within : g.Within f
  stepped : ∀ operand ∈ i.operands, ∀ r, operand.specifier.stepped? = some r →
    ∀ value, g.registers r value
  written : ∀ operand ∈ i.operands, ∀ r, operand.specifier = .plain (.register r) →
    ∀ value, f.registers r value ∧ (operand.kind = .quad → f.registers (r + 1) value)
  branches : ∀ operand ∈ i.operands, operand.kind.isBranch = true →
    ∃ target, operand.specifier = .branch target ∧ f.registers Register.pc target
  stack : ∀ value, g.registers Register.sp value
  results : ∀ r : Register, r.val < 6 → ∀ value, f.registers r value
  flags : f.flags
  memory : f.memory

namespace Exec

variable {α β : Type} {f g : Footprint} {m after : Machine} {i : Instruction}

/-! ## Evaluating operands -/

theorem effect_locateMode {size : Nat} {mode : Mode}
    (h : ∀ r, mode.stepped? = some r → ∀ value, g.registers r value) :
    Effect g g (locateMode size mode) := by
  cases mode with
  | literal byte | register r | immediate address value | absolute address =>
      exact (still_pure _).effect
  | deferred r => exact ((still_getRegister r).bind fun _ => still_pure _).effect
  | autodecrement r | autoincrement r =>
      exact (still_getRegister r).bind_effect fun _ =>
        ((total_setRegister (h r rfl _)).bind fun _ => total_pure _).effect
  | autoincrementDeferred r =>
      exact (still_getRegister r).bind_effect fun _ =>
        (total_setRegister (h r rfl _)).effect.bind fun _ =>
          ((still_readLong _).bind fun _ => still_pure _).effect
  | displacement r offset isDeferred =>
      exact ((still_getRegister r).bind fun _ =>
        (still_follow _ _).bind fun _ => still_pure _).effect
  | relative target isDeferred =>
      exact ((still_follow _ _).bind fun _ => still_pure _).effect
  | reserved byte => exact (still_throw _).effect

theorem effect_locateBase {size : Nat} {index : Register} {mode : Mode}
    (h : ∀ r, mode.stepped? = some r → ∀ value, g.registers r value) :
    Effect g g (locateBase size index mode) := by
  obtain hbase | hbase := locateBase_cases size index mode
  · rw [hbase]
    exact (still_throw _).effect
  rw [hbase]
  refine (effect_locateMode h).bind fun location => ?_
  cases location with
  | memory address => exact (still_pure _).effect
  | value word | register r => exact (still_throw _).effect

theorem effect_locate {size : Nat} {specifier : Specifier}
    (h : ∀ r, specifier.stepped? = some r → ∀ value, g.registers r value) :
    Effect g g (locate size specifier) := by
  cases specifier with
  | plain mode => exact effect_locateMode h
  | branch target => exact (still_pure _).effect
  | indexed base r =>
      exact (effect_locateBase h).bind fun _ =>
        ((still_getRegister r).bind fun _ => still_pure _).effect

theorem effect_mapM_locate {operands : List Operand}
    (h : ∀ operand ∈ operands, ∀ r, operand.specifier.stepped? = some r →
      ∀ value, g.registers r value) :
    Effect g g (operands.mapM fun operand => locate operand.kind.size operand.specifier) := by
  induction operands with
  | nil => exact (still_pure _).effect
  | cons operand rest ih =>
      obtain ⟨hfirst, hrest⟩ := List.forall_mem_cons.1 h
      rw [List.mapM_cons]
      exact (effect_locate hfirst).bind fun _ => (ih hrest).bind_total fun _ => total_pure _

/-- Only register mode is evaluated to a register. -/
theorem eq_register_of_locate {size : Nat} {specifier : Specifier} {r : Register}
    (h : (locate size specifier).run m = .ok (.register r) after) :
    specifier = .plain (.register r) := by
  cases specifier with
  | branch target => cases (run_pure_eq_ok.1 h).1
  | indexed base index =>
      rw [locate, run_bind_eq_ok] at h
      obtain ⟨address, between, -, h⟩ := h
      rw [run_bind_ok (run_getRegister index)] at h
      cases (run_pure_eq_ok.1 h).1
  | plain mode =>
      cases mode with
      | register s =>
          obtain ⟨heq, -⟩ := run_pure_eq_ok.1 h
          rw [Location.register.inj heq]
      | literal byte | immediate address value | absolute address =>
          cases (run_pure_eq_ok.1 h).1
      | deferred s | autodecrement s | autoincrement s =>
          cases (EStateM.Result.ok.inj h).1
      | autoincrementDeferred s =>
          rw [locate, locateMode, run_bind_ok (run_getRegister s),
            run_bind_ok (run_setRegister s _), run_bind_eq_ok] at h
          obtain ⟨pointer, between, -, h⟩ := h
          cases (run_pure_eq_ok.1 h).1
      | displacement s offset isDeferred =>
          rw [locate, locateMode, run_bind_ok (run_getRegister s), run_bind_eq_ok] at h
          obtain ⟨address, between, -, h⟩ := h
          cases (run_pure_eq_ok.1 h).1
      | relative target isDeferred =>
          rw [locate, locateMode, run_bind_eq_ok] at h
          obtain ⟨address, between, -, h⟩ := h
          cases (run_pure_eq_ok.1 h).1
      | reserved byte => exact absurd h (run_throw_ne_ok _)

theorem writable_of_liesAt (hallowed : i.Allowed f g) {memory : Memory} {operand : Operand}
    (hmem : operand ∈ i.operands) {w : Width} (hquad : w = .quad → operand.kind = .quad)
    {location : Location} (h : operand.LiesAt memory location) : location.Writable f w := by
  obtain ⟨before, located, -, hlocate⟩ := h
  cases location with
  | value word => trivial
  | memory address => trivial
  | register r =>
      intro value
      have hwritten := hallowed.written operand hmem r (eq_register_of_locate hlocate) value
      exact ⟨hwritten.1, fun hw => hwritten.2 (hquad hw)⟩

theorem suits_of_liesAt (hallowed : i.Allowed f g) {memory : Memory} {operand : Operand}
    (hmem : operand ∈ i.operands) {access : Access} (hfits : access.Fits operand.kind)
    {location : Location} (h : operand.LiesAt memory location) : location.Suits f access := by
  cases access with
  | read w => trivial
  | write w | modify w =>
      apply writable_of_liesAt hallowed hmem _ h
      rintro rfl
      exact hfits
  | place => exact writable_of_liesAt (w := .long) hallowed hmem nofun h
  | branch =>
      rintro address rfl
      obtain ⟨before, located, -, hlocate⟩ := h
      obtain ⟨target, hspecifier, htarget⟩ := hallowed.branches operand hmem hfits
      rw [hspecifier] at hlocate
      obtain rfl := Location.value.inj (run_pure_eq_ok.1 hlocate).1
      exact htarget

theorem forall₂_suits (hallowed : i.Allowed f g) {memory : Memory} {operands : List Operand}
    {accesses : List Access} {locations : List Location}
    (hmem : ∀ operand ∈ operands, operand ∈ i.operands)
    (hfits : accesses.Forall₂ (fun access operand => access.Fits operand.kind) operands)
    (hplaces : operands.Forall₂ (Operand.LiesAt memory) locations) :
    accesses.Forall₂ (fun access location => location.Suits f access) locations := by
  induction hfits generalizing locations with
  | nil =>
      rw [List.forall₂_nil_left_iff.1 hplaces]
      exact .nil
  | cons hfirst hrest ih =>
      obtain ⟨location, others, hlies, hothers, rfl⟩ := List.forall₂_cons_left_iff.1 hplaces
      obtain ⟨hin, hins⟩ := List.forall_mem_cons.1 hmem
      exact .cons (suits_of_liesAt hallowed hin hfirst hlies) (ih hins hothers)

section Locating

variable {accesses : List Access} (hallowed : i.Allowed f g)

include hallowed

theorem Effect.locateAll {k : List Location → Exec β} (hfits : i.Fits accesses)
    (hk : ∀ locations, accesses.Forall₂ (fun access location => location.Suits f access)
      locations → Effect f g (k locations)) : Effect f g (locateAll i >>= k) := by
  refine (effect_mapM_locate hallowed.stepped).bind_of hallowed.within ?_
  intro m locations after h
  exact hk locations (forall₂_suits hallowed (fun _ => id) hfits (liesAt_of_locateAll h))

theorem Effect.locate1 {p : Access} {k : Location → Exec β} (hfits : i.Fits [p])
    (hk : ∀ a : Location, a.Suits f p → Effect f g (k a)) :
    Effect f g (locate1 i >>= k) := by
  rw [Exec.locate1, bind_assoc]
  refine Effect.locateAll hallowed hfits ?_
  rintro _ (_ | ⟨ha, _ | _⟩)
  exact hk _ ha

theorem Effect.locate2 {p q : Access} {k : Location × Location → Exec β} (hfits : i.Fits [p, q])
    (hk : ∀ a b : Location, a.Suits f p → b.Suits f q → Effect f g (k (a, b))) :
    Effect f g (locate2 i >>= k) := by
  rw [Exec.locate2, bind_assoc]
  refine Effect.locateAll hallowed hfits ?_
  rintro _ (_ | ⟨ha, _ | ⟨hb, _ | _⟩⟩)
  exact hk _ _ ha hb

theorem Effect.locate3 {p q r : Access} {k : Location × Location × Location → Exec β}
    (hfits : i.Fits [p, q, r])
    (hk : ∀ a b c : Location, a.Suits f p → b.Suits f q → c.Suits f r →
      Effect f g (k (a, b, c))) : Effect f g (locate3 i >>= k) := by
  rw [Exec.locate3, bind_assoc]
  refine Effect.locateAll hallowed hfits ?_
  rintro _ (_ | ⟨ha, _ | ⟨hb, _ | ⟨hc, _ | _⟩⟩⟩)
  exact hk _ _ _ ha hb hc

theorem Effect.locate4 {p q r s : Access} {k : Location × Location × Location × Location → Exec β}
    (hfits : i.Fits [p, q, r, s])
    (hk : ∀ a b c d : Location, a.Suits f p → b.Suits f q → c.Suits f r → d.Suits f s →
      Effect f g (k (a, b, c, d))) : Effect f g (locate4 i >>= k) := by
  rw [Exec.locate4, bind_assoc]
  refine Effect.locateAll hallowed hfits ?_
  rintro _ (_ | ⟨ha, _ | ⟨hb, _ | ⟨hc, _ | ⟨hd, _ | _⟩⟩⟩⟩)
  exact hk _ _ _ _ ha hb hc hd

end Locating

/-! ## Writing -/

theorem effect_write (hmemory : f.memory) {w : Width} {location : Location}
    (h : location.Writable f w) (value : BitVec w.bits) : Effect f g (write w value location) := by
  cases location with
  | value word => exact (still_throw _).effect
  | memory address => exact effect_store hmemory _ _
  | register r =>
      refine ((total_getRegister r).bind fun _ =>
        (total_setRegister (h _).1).bind fun _ => ?_).effect
      split
      · next hquad => exact total_setRegister ((h _).2 hquad)
      · exact total_pure ()

theorem effect_writeResult (hallowed : i.Allowed f g) {w : Width} {location : Location}
    (h : location.Writable f w) (result : ArithmeticResult w.bits) :
    Effect f g (writeResult w result location) :=
  (effect_write hallowed.memory h _).bind_total fun _ => total_setResult hallowed.flags _ _ _

theorem effect_stepIndex (hallowed : i.Allowed f g) {w : Width} {location : Location}
    (h : location.Writable f w) (result : ArithmeticResult w.bits) :
    Effect f g (stepIndex w result location) :=
  (effect_write hallowed.memory h _).bind_total fun _ => total_setResult hallowed.flags _ _ _

end Exec

end Vax
