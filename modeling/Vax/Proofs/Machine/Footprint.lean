import Vax.Proofs.Machine.Reads
/-!
# What a computation may change

A footprint says which parts of the machine may change, and to which values a
register.  `Effect f g` bounds a computation by two of them, `f` when it
succeeds and `g`, which is within `f`, when it faults.  The rules below follow
how computations are built: what only looks changes nothing, and what comes
last and cannot fault does not count for `g`.
-/

namespace Vax

structure Footprint where
  /-- The values that a register may be given. -/
  registers : Register → UInt32 → Prop
  flags : Prop
  memory : Prop
  frames : Prop
  output : Prop

/-- What `g` allows, `f` allows. -/
structure Footprint.Within (g f : Footprint) : Prop where
  registers : ∀ r value, g.registers r value → f.registers r value
  flags : g.flags → f.flags
  memory : g.memory → f.memory
  frames : g.frames → f.frames
  output : g.output → f.output

theorem Footprint.Within.refl (f : Footprint) : f.Within f :=
  ⟨fun _ _ => id, id, id, id, id⟩

/-- Apart from the log, the machines differ in no more than a footprint. -/
structure Machine.ChangesOnly (f : Footprint) (m after : Machine) : Prop where
  registers : ∀ r, after.registers.get r = m.registers.get r ∨
    f.registers r (after.registers.get r)
  flags : after.registers.flags = m.registers.flags ∨ f.flags
  memory : after.memory = m.memory ∨ f.memory
  frames : after.frames = m.frames ∨ f.frames
  output : after.output = m.output ∨ f.output
  symbols : after.symbols = m.symbols
  entry : after.entry = m.entry
  status : after.status = m.status
  current : after.current = m.current

namespace Machine.ChangesOnly

variable {f g : Footprint} {m between after : Machine}

theorem refl (f : Footprint) (m : Machine) : m.ChangesOnly f m :=
  ⟨fun _ => .inl rfl, .inl rfl, .inl rfl, .inl rfl, .inl rfl, rfl, rfl, rfl, rfl⟩

/-- Of two changes the second counts, if there is one. -/
theorem or_trans {α : Type} {a b c : α} {p q : Prop} (h : b = a ∨ p) (h' : c = b ∨ q)
    (hp : c = b → p → q) : c = a ∨ q := by
  rcases h' with heq | hq
  · rcases h with heq' | hp'
    · exact .inl (heq.trans heq')
    · exact .inr (hp heq hp')
  · exact .inr hq

theorem trans (h : m.ChangesOnly f between) (h' : between.ChangesOnly f after) :
    m.ChangesOnly f after where
  registers r := or_trans (h.registers r) (h'.registers r) fun heq hr => heq ▸ hr
  flags := or_trans h.flags h'.flags fun _ => id
  memory := or_trans h.memory h'.memory fun _ => id
  frames := or_trans h.frames h'.frames fun _ => id
  output := or_trans h.output h'.output fun _ => id
  symbols := h'.symbols.trans h.symbols
  entry := h'.entry.trans h.entry
  status := h'.status.trans h.status
  current := h'.current.trans h.current

theorem mono (h : m.ChangesOnly g after) (hle : g.Within f) : m.ChangesOnly f after where
  registers r := (h.registers r).imp_right (hle.registers r _)
  flags := h.flags.imp_right hle.flags
  memory := h.memory.imp_right hle.memory
  frames := h.frames.imp_right hle.frames
  output := h.output.imp_right hle.output
  symbols := h.symbols
  entry := h.entry
  status := h.status
  current := h.current

end Machine.ChangesOnly

namespace Exec

variable {α β : Type} {f g : Footprint} {m after : Machine} {x : Exec α} {k : α → Exec β}

/-- Changes at most `f` when it succeeds and at most `g` when it faults. -/
structure Effect (f g : Footprint) (x : Exec α) : Prop where
  ok : ∀ m a after, x.run m = .ok a after → m.ChangesOnly f after
  error : ∀ m cause after, x.run m = .error cause after → m.ChangesOnly g after

/-- Changes nothing, whether it succeeds or faults. -/
structure Still (x : Exec α) : Prop where
  ok : ∀ m a after, x.run m = .ok a after → after = m
  error : ∀ m cause after, x.run m = .error cause after → after = m

/-- Never faults, and changes at most `f`. -/
def Total (f : Footprint) (x : Exec α) : Prop :=
  ∀ m, ∃ a after, x.run m = .ok a after ∧ m.ChangesOnly f after

/-! ## Rules -/

/-- What faults as a whole faults in one of its parts. -/
theorem run_bind_eq_error {cause : Fault.Cause} :
    (x >>= k).run m = .error cause after ↔
      x.run m = .error cause after ∨
        ∃ a between, x.run m = .ok a between ∧ (k a).run between = .error cause after := by
  rw [EStateM.run_bind]
  cases hx : x.run m with
  | ok a between =>
      constructor
      · intro h
        exact .inr ⟨a, between, rfl, h⟩
      · rintro (heq | ⟨a', between', heq, h⟩)
        · exact absurd heq nofun
        · obtain ⟨rfl, rfl⟩ := EStateM.Result.ok.inj heq
          exact h
  | error e between =>
      constructor
      · intro h
        obtain ⟨rfl, rfl⟩ := EStateM.Result.error.inj h
        exact .inl rfl
      · rintro (h | ⟨a, between', heq, -⟩)
        · obtain ⟨rfl, rfl⟩ := EStateM.Result.error.inj h
          rfl
        · exact absurd heq nofun

theorem Still.bind (hx : Still x) (hk : ∀ a, Still (k a)) : Still (x >>= k) where
  ok m b after h := by
    obtain ⟨a, between, hrun, h⟩ := run_bind_eq_ok.1 h
    exact ((hk a).ok _ _ _ h).trans (hx.ok _ _ _ hrun)
  error m cause after h := by
    rcases run_bind_eq_error.1 h with h | ⟨a, between, hrun, h⟩
    · exact hx.error _ _ _ h
    · exact ((hk a).error _ _ _ h).trans (hx.ok _ _ _ hrun)

theorem Still.effect (hx : Still x) : Effect f g x where
  ok m a after h := hx.ok m a after h ▸ .refl f m
  error m cause after h := hx.error m cause after h ▸ .refl g m

theorem Total.bind (hx : Total f x) (hk : ∀ a, Total f (k a)) : Total f (x >>= k) := by
  intro m
  obtain ⟨a, between, hrun, hfirst⟩ := hx m
  obtain ⟨b, after, hrest, hsecond⟩ := hk a between
  exact ⟨b, after, by rw [run_bind_ok hrun, hrest], hfirst.trans hsecond⟩

theorem Total.effect (hx : Total f x) : Effect f g x where
  ok m a after h := by
    obtain ⟨b, other, hrun, hchanges⟩ := hx m
    obtain ⟨-, rfl⟩ := EStateM.Result.ok.inj (h.symm.trans hrun)
    exact hchanges
  error m cause after h := by
    obtain ⟨b, other, hrun, -⟩ := hx m
    exact absurd (h.symm.trans hrun) nofun

/-- What the first part has changed when the second faults counts for the fault. -/
theorem Effect.bind_of (hle : g.Within f) (hx : Effect g g x)
    (hk : ∀ m a after, x.run m = .ok a after → Effect f g (k a)) : Effect f g (x >>= k) where
  ok m b after h := by
    obtain ⟨a, between, hrun, h⟩ := run_bind_eq_ok.1 h
    exact ((hx.ok _ _ _ hrun).mono hle).trans ((hk _ _ _ hrun).ok _ _ _ h)
  error m cause after h := by
    rcases run_bind_eq_error.1 h with h | ⟨a, between, hrun, h⟩
    · exact hx.error _ _ _ h
    · exact (hx.ok _ _ _ hrun).trans ((hk _ _ _ hrun).error _ _ _ h)

theorem Effect.bind_within (hle : g.Within f) (hx : Effect g g x) (hk : ∀ a, Effect f g (k a)) :
    Effect f g (x >>= k) :=
  hx.bind_of hle fun _ a _ _ => hk a

theorem Effect.bind (hx : Effect g g x) (hk : ∀ a, Effect g g (k a)) : Effect g g (x >>= k) :=
  hx.bind_within (.refl g) hk

theorem Effect.mono (hle : g.Within f) (hx : Effect g g x) : Effect f g x where
  ok m a after h := (hx.ok m a after h).mono hle
  error := hx.error

theorem Effect.bind_total (hx : Effect f g x) (hk : ∀ a, Total f (k a)) :
    Effect f g (x >>= k) where
  ok m b after h := by
    obtain ⟨a, between, hrun, h⟩ := run_bind_eq_ok.1 h
    exact (hx.ok _ _ _ hrun).trans ((hk a).effect (g := g).ok _ _ _ h)
  error m cause after h := by
    rcases run_bind_eq_error.1 h with h | ⟨a, between, -, h⟩
    · exact hx.error _ _ _ h
    · obtain ⟨b, other, hrun, -⟩ := hk a between
      exact absurd (h.symm.trans hrun) nofun

theorem Still.bind_effect (hx : Still x) (hk : ∀ a, Effect f g (k a)) : Effect f g (x >>= k) where
  ok m b after h := by
    obtain ⟨a, between, hrun, hrest⟩ := run_bind_eq_ok.1 h
    rw [hx.ok _ _ _ hrun] at hrest
    exact (hk a).ok _ _ _ hrest
  error m cause after h := by
    rcases run_bind_eq_error.1 h with hrun | ⟨a, between, hrun, hrest⟩
    · rw [hx.error _ _ _ hrun]
      exact .refl g m
    · rw [hx.ok _ _ _ hrun] at hrest
      exact (hk a).error _ _ _ hrest

theorem Effect.goesOn {x : Exec Unit} (hx : Effect f g x) : Effect f g (goesOn x) :=
  hx.bind_total fun _ m => ⟨none, m, rfl, .refl f m⟩

/-! ## What changes nothing -/

theorem still_pure (a : α) : Still (pure a : Exec α) where
  ok _ _ _ h := (run_pure_eq_ok.1 h).2
  error _ _ _ h := absurd h nofun

theorem still_throw (cause : Fault.Cause) : Still (throw cause : Exec α) where
  ok _ _ _ h := absurd h nofun
  error _ _ _ h := (EStateM.Result.error.inj h).2.symm

theorem still_get : Still (get : Exec Machine) where
  ok _ _ _ h := (EStateM.Result.ok.inj h).2.symm
  error _ _ _ h := absurd h nofun

theorem still_access (outcome : Except OutOfRange α) : Still (access outcome) := by
  cases outcome with
  | ok value => exact still_pure value
  | error e => exact still_throw _

theorem still_getRegister (r : Register) : Still (getRegister r) :=
  still_get.bind fun _ => still_pure _

theorem still_getFlags : Still getFlags :=
  still_get.bind fun _ => still_pure _

theorem still_readNat (address : UInt32) (length : Nat) : Still (readNat address length) :=
  still_get.bind fun _ => still_access _

theorem still_readByte (address : UInt32) : Still (readByte address) :=
  still_get.bind fun _ => still_access _

theorem still_readWord (address : UInt32) : Still (readWord address) :=
  still_get.bind fun _ => still_access _

theorem still_readLong (address : UInt32) : Still (readLong address) :=
  still_get.bind fun _ => still_access _

theorem still_follow (address : UInt32) (isDeferred : Bool) :
    Still (follow address isDeferred) := by
  cases isDeferred with
  | true => exact still_readLong address
  | false => exact still_pure address

theorem still_reservedOperand (i : Instruction) : Still (reservedOperand i : Exec α) :=
  still_throw _

theorem still_read (w : Width) (location : Location) : Still (read w location) := by
  cases location with
  | value word => exact still_pure _
  | register r => exact still_get.bind fun _ => still_pure _
  | memory address => exact (still_readNat _ _).bind fun _ => still_pure _

theorem still_addressOf (location : Location) : Still (addressOf location) := by
  cases location with
  | value word => exact still_throw _
  | register r => exact still_throw _
  | memory address => exact still_pure _

/-! ## What cannot fault -/

theorem total_pure (a : α) : Total f (pure a : Exec α) := fun m => ⟨a, m, rfl, .refl f m⟩

theorem total_getRegister (r : Register) : Total f (getRegister r) :=
  fun m => ⟨_, m, rfl, .refl f m⟩

theorem total_getFlags : Total f getFlags := fun m => ⟨_, m, rfl, .refl f m⟩

theorem total_modify {φ : Machine → Machine} (h : ∀ m : Machine, m.ChangesOnly f (φ m)) :
    Total f (modify φ : Exec Unit) :=
  fun m => ⟨(), φ m, rfl, h m⟩

theorem total_setRegister {r : Register} {value : UInt32} (h : f.registers r value) :
    Total f (setRegister r value) := by
  refine total_modify fun m =>
    ⟨fun s => ?_, .inl rfl, .inl rfl, .inl rfl, .inl rfl, rfl, rfl, rfl, rfl⟩
  change (m.registers.set r value).get s = _ ∨ f.registers s ((m.registers.set r value).get s)
  rw [Registers.get_set]
  split
  · next heq =>
      subst heq
      exact .inr h
  · exact .inl rfl

theorem total_setFlags (h : f.flags) (flags : Flags) : Total f (setFlags flags) :=
  total_modify fun _ =>
    ⟨fun _ => .inl rfl, .inr h, .inl rfl, .inl rfl, .inl rfl, rfl, rfl, rfl, rfl⟩

theorem total_log (level : Level) (message : Machine → String) : Total f (log level message) :=
  total_modify fun m => by
    unfold Machine.logged
    exact ⟨fun _ => .inl rfl, .inl rfl, .inl rfl, .inl rfl, .inl rfl, rfl, rfl, rfl, rfl⟩

/-- Logging is not counted as a change. -/
theorem Effect.after_log {level : Level} {message : Machine → String} {k : Unit → Exec β}
    (hk : ∀ u, Effect f g (k u)) : Effect f g (log level message >>= k) where
  ok m b after h := by
    obtain ⟨u, between, hrun, hrest⟩ := run_bind_eq_ok.1 h
    have hlogged := (total_log level message).effect (f := f) (g := g)
    exact (hlogged.ok _ _ _ hrun).trans ((hk u).ok _ _ _ hrest)
  error m cause after h := by
    have hlogged := (total_log level message).effect (f := g) (g := g)
    rcases run_bind_eq_error.1 h with hrun | ⟨u, between, hrun, hrest⟩
    · exact hlogged.error _ _ _ hrun
    · exact (hlogged.ok _ _ _ hrun).trans ((hk u).error _ _ _ hrest)

theorem total_setResult (h : f.flags) {n : Nat} (result : BitVec n) (overflow : Bool)
    (carry : Option Bool) : Total f (setResult result overflow carry) :=
  total_getFlags.bind fun _ => total_setFlags h _

/-- A branch goes to its target or nowhere. -/
theorem total_branchTo {target : Location}
    (h : ∀ address, target = .value address → f.registers Register.pc address) (taken : Bool) :
    Total f (branchTo target taken) := by
  cases target with
  | value address =>
      cases taken with
      | true => exact total_setRegister (h address rfl)
      | false => exact total_pure ()
  | register r => exact total_pure ()
  | memory address => exact total_pure ()

/-! ## What stores -/

theorem effect_store (h : f.memory) (address : UInt32) (bytes : List UInt8) :
    Effect f g (store address bytes) :=
  still_get.bind_effect fun _ => (still_access _).effect.bind_total fun _ =>
    total_modify fun _ =>
      ⟨fun _ => .inl rfl, .inl rfl, .inr h, .inl rfl, .inl rfl, rfl, rfl, rfl, rfl⟩

/-- The stack pointer moves before the store may fault. -/
theorem effect_push (hle : g.Within f) (hmemory : f.memory)
    (hsp : ∀ value, g.registers Register.sp value) (value : UInt32) : Effect f g (push value) :=
  (still_getRegister _).bind_effect fun _ =>
    (total_setRegister (hsp _)).effect.bind_within hle fun _ => effect_store hmemory _ _

/-- The stack pointer moves after the read may fault. -/
theorem effect_pop (hsp : ∀ value, f.registers Register.sp value) : Effect f g pop :=
  (still_getRegister _).bind_effect fun _ => (still_readLong _).bind_effect fun _ =>
    ((total_setRegister (hsp _)).bind fun _ => total_pure _).effect

end Exec

end Vax
