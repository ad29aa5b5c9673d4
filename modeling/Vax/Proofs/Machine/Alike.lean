import Vax.Proofs.Machine.Execution
/-!
# Machines that do the same

Instructions work on registers, memory, and the output.  Machines that have
these in common do the same with them, whatever their symbols, call stacks and
logs are: an action that looks at no more is blind to the rest.
-/

namespace Vax

/-- In what machines that do the same are compared besides. -/
structure Comparison where
  /-- Whether symbols and the call stack count. -/
  isTraced : Prop
  /-- The threshold of the first log. -/
  first : Option Level
  /-- The threshold of the second log. -/
  second : Option Level

/-- Both logs record an event of the level, or neither does. -/
def Comparison.AgreesOn (c : Comparison) (level : Level) : Prop :=
  (Log.empty c.first).enabled level = (Log.empty c.second).enabled level

theorem Log.enabled_congr {log log' : Log} (h : log.threshold = log'.threshold) (level : Level) :
    log.enabled level = log'.enabled level := by
  rw [enabled, enabled, h]

namespace Machine

/-- The machines differ in their logs, and in symbols and the call stack if
these do not count. -/
structure Alike (c : Comparison) (m m' : Machine) : Prop where
  registers_eq : m'.registers = m.registers
  memory_eq : m'.memory = m.memory
  entry_eq : m'.entry = m.entry
  status_eq : m'.status = m.status
  output_eq : m'.output = m.output
  current_eq : m'.current = m.current
  symbols_eq : c.isTraced → m'.symbols = m.symbols
  frames_eq : c.isTraced → m'.frames = m.frames
  threshold_eq : m.log.threshold = c.first
  threshold_eq' : m'.log.threshold = c.second

theorem threshold_logged (m : Machine) (level : Level) (message : Unit → String) :
    (m.logged level message).log.threshold = m.log.threshold := by
  unfold logged Log.add
  split <;> rfl

namespace Alike

variable {c : Comparison} {m m' : Machine}

theorem refl (m : Machine) : m.Alike ⟨True, m.log.threshold, m.log.threshold⟩ m :=
  ⟨rfl, rfl, rfl, rfl, rfl, rfl, fun _ => rfl, fun _ => rfl, rfl, rfl⟩

theorem enabled_eq (h : m.Alike c m') {level : Level} (hlevel : c.AgreesOn level) :
    m.log.enabled level = m'.log.enabled level :=
  (Log.enabled_congr h.threshold_eq level).trans
    (hlevel.trans (Log.enabled_congr h.threshold_eq' level).symm)

theorem setRegisters (h : m.Alike c m') (registers : Registers) :
    Alike c { m with registers := registers } { m' with registers := registers } :=
  { h with registers_eq := rfl }

theorem setMemory (h : m.Alike c m') (memory : Memory) :
    Alike c { m with memory := memory } { m' with memory := memory } :=
  { h with memory_eq := rfl }

theorem setOutput (h : m.Alike c m') (output : Output) :
    Alike c { m with output := output } { m' with output := output } :=
  { h with output_eq := rfl }

theorem setStatus (h : m.Alike c m') (status : Status) :
    Alike c { m with status := status } { m' with status := status } :=
  { h with status_eq := rfl }

theorem setCurrent (h : m.Alike c m') (current : UInt32) :
    Alike c { m with current := current } { m' with current := current } :=
  { h with current_eq := rfl }

theorem setFrames (h : m.Alike c m') {frames frames' : Array Frame}
    (heq : c.isTraced → frames' = frames) :
    Alike c { m with frames := frames } { m' with frames := frames' } :=
  { h with frames_eq := heq }

theorem logged_left (h : m.Alike c m') (level : Level) (message : Unit → String) :
    (m.logged level message).Alike c m' :=
  { h with threshold_eq := (threshold_logged m level message).trans h.threshold_eq }

theorem logged_right (h : m.Alike c m') (level : Level) (message : Unit → String) :
    m.Alike c (m'.logged level message) :=
  { h with threshold_eq' := (threshold_logged m' level message).trans h.threshold_eq' }

/-- What is logged makes no difference. -/
theorem logged (h : m.Alike c m') (level : Level) (message message' : Unit → String) :
    (m.logged level message).Alike c (m'.logged level message') :=
  (h.logged_left level message).logged_right level message'

theorem pushFrame (h : m.Alike c m') (address : UInt32) :
    (m.pushFrame address).Alike c (m'.pushFrame address) :=
  h.setFrames fun htraced => by rw [h.symbols_eq htraced, h.frames_eq htraced]

theorem popFrame (h : m.Alike c m') : m.popFrame.Alike c m'.popFrame := by
  have hpop : ∀ m : Machine, m.popFrame =
      { m with frames := if 1 < m.frames.size then m.frames.pop else m.frames } := by
    intro m
    unfold Machine.popFrame
    split <;> rfl
  rw [hpop, hpop]
  exact h.setFrames fun htraced => by rw [h.frames_eq htraced]

end Alike

end Machine

namespace Exec

/-- The results are the same, of machines that are alike. -/
inductive Same {α : Type} (c : Comparison) :
    EStateM.Result Fault.Cause Machine α → EStateM.Result Fault.Cause Machine α → Prop where
  | ok {a : α} {m m' : Machine} (h : m.Alike c m') : Same c (.ok a m) (.ok a m')
  | error {cause : Fault.Cause} {m m' : Machine} (h : m.Alike c m') :
    Same c (.error cause m) (.error cause m')

/-- Does the same to machines that are alike. -/
def Blind {α : Type} (c : Comparison) (x : Exec α) : Prop :=
  ∀ m m', m.Alike c m' → Same c (x.run m) (x.run m')

variable {α β : Type} {c : Comparison} {x : Exec α} {k : α → Exec β} {i : Instruction}

/-! ## Rules -/

theorem Same.bind {m m' : Machine} (hx : Same c (x.run m) (x.run m'))
    (hk : ∀ a between between', x.run m = .ok a between → between.Alike c between' →
      Same c ((k a).run between) ((k a).run between')) :
    Same c ((x >>= k).run m) ((x >>= k).run m') := by
  rw [EStateM.run_bind, EStateM.run_bind]
  generalize hrun : x.run m = result, x.run m' = result' at hx
  cases hx with
  | ok h => exact hk _ _ _ hrun h
  | error h => exact .error h

theorem Blind.bind (hx : Blind c x) (hk : ∀ a, Blind c (k a)) : Blind c (x >>= k) :=
  fun m m' h => (hx m m' h).bind fun a between between' _ => hk a between between'

theorem blind_pure (a : α) : Blind c (pure a : Exec α) :=
  fun _ _ h => .ok h

theorem blind_throw (cause : Fault.Cause) : Blind c (throw cause : Exec α) :=
  fun _ _ h => .error h

/-- Only what alike machines have in common is looked at. -/
theorem blind_get {f : Machine → Exec β} (hf : ∀ m m', m.Alike c m' → f m' = f m)
    (hk : ∀ m, Blind c (f m)) : Blind c (get >>= f) := by
  intro m m' h
  change Same c ((f m).run m) ((f m').run m')
  rw [hf m m' h]
  exact hk m m m' h

theorem blind_modify {φ : Machine → Machine}
    (hφ : ∀ m m', m.Alike c m' → (φ m).Alike c (φ m')) : Blind c (modify φ : Exec Unit) :=
  fun m m' h => .ok (hφ m m' h)

theorem Blind.check {p : Prop} [Decidable p] {refuse : Exec Unit} {k : Unit → Exec β}
    (hrefuse : Blind c refuse) (hk : ∀ u, Blind c (k u)) :
    Blind c (if p then refuse >>= k else k ()) := by
  split
  · exact hrefuse.bind hk
  · exact hk ()

/-! ## Registers, memory, and the log -/

theorem blind_access (outcome : Except OutOfRange α) : Blind c (access outcome) := by
  cases outcome with
  | ok value => exact blind_pure value
  | error e => exact blind_throw _

theorem blind_getRegister (r : Register) : Blind c (getRegister r) :=
  blind_get (fun _ _ h => by rw [h.registers_eq]) fun _ => blind_pure _

theorem blind_getFlags : Blind c getFlags :=
  blind_get (fun _ _ h => by rw [h.registers_eq]) fun _ => blind_pure _

theorem blind_setRegister (r : Register) (value : UInt32) : Blind c (setRegister r value) :=
  blind_modify fun _ _ h => by
    rw [h.registers_eq]
    exact h.setRegisters _

theorem blind_setFlags (flags : Flags) : Blind c (setFlags flags) :=
  blind_modify fun _ _ h => by
    rw [h.registers_eq]
    exact h.setRegisters _

theorem blind_setPc (address : UInt32) : Blind c (setPc address) :=
  blind_setRegister _ address

theorem blind_readNat (address : UInt32) (length : Nat) : Blind c (readNat address length) :=
  blind_get (fun _ _ h => by rw [h.memory_eq]) fun _ => blind_access _

theorem blind_readByte (address : UInt32) : Blind c (readByte address) :=
  blind_get (fun _ _ h => by rw [h.memory_eq]) fun _ => blind_access _

theorem blind_readWord (address : UInt32) : Blind c (readWord address) :=
  blind_get (fun _ _ h => by rw [h.memory_eq]) fun _ => blind_access _

theorem blind_readLong (address : UInt32) : Blind c (readLong address) :=
  blind_get (fun _ _ h => by rw [h.memory_eq]) fun _ => blind_access _

theorem blind_store (address : UInt32) (bytes : List UInt8) : Blind c (store address bytes) :=
  blind_get (fun _ _ h => by rw [h.memory_eq]) fun _ => (blind_access _).bind fun memory =>
    blind_modify fun _ _ h => h.setMemory memory

theorem blind_push (value : UInt32) : Blind c (push value) :=
  (blind_getRegister _).bind fun _ => (blind_setRegister _ _).bind fun _ => blind_store _ _

theorem blind_pop : Blind c pop :=
  (blind_getRegister _).bind fun _ => (blind_readLong _).bind fun _ =>
    (blind_setRegister _ _).bind fun _ => blind_pure _

theorem blind_log (level : Level) (message : Machine → String) : Blind c (log level message) :=
  blind_modify fun _ _ h => h.logged level _ _

/-! ## Operands -/

theorem blind_follow (address : UInt32) (isDeferred : Bool) :
    Blind c (follow address isDeferred) := by
  cases isDeferred with
  | true => exact blind_readLong address
  | false => exact blind_pure address

theorem blind_locateMode (size : Nat) (mode : Mode) : Blind c (locateMode size mode) := by
  cases mode with
  | literal byte | register r | immediate address value | absolute address => exact blind_pure _
  | deferred r => exact (blind_getRegister r).bind fun _ => blind_pure _
  | autodecrement r | autoincrement r =>
    exact (blind_getRegister r).bind fun _ => (blind_setRegister r _).bind fun _ => blind_pure _
  | autoincrementDeferred r =>
    exact (blind_getRegister r).bind fun _ => (blind_setRegister r _).bind fun _ =>
      (blind_readLong _).bind fun _ => blind_pure _
  | displacement r offset isDeferred =>
    exact (blind_getRegister r).bind fun _ => (blind_follow _ _).bind fun _ => blind_pure _
  | relative target isDeferred => exact (blind_follow _ _).bind fun _ => blind_pure _
  | reserved byte => exact blind_throw _

theorem blind_locateBase (size : Nat) (index : Register) (mode : Mode) :
    Blind c (locateBase size index mode) := by
  obtain hbase | hbase := locateBase_cases size index mode
  · rw [hbase]
    exact blind_throw _
  rw [hbase]
  refine (blind_locateMode size mode).bind fun location => ?_
  cases location with
  | memory address => exact blind_pure _
  | value word | register r => exact blind_throw _

theorem blind_locate (size : Nat) (specifier : Specifier) : Blind c (locate size specifier) := by
  cases specifier with
  | plain mode => exact blind_locateMode size mode
  | branch target => exact blind_pure _
  | indexed base r =>
    exact (blind_locateBase size r base).bind fun _ => (blind_getRegister r).bind fun _ =>
      blind_pure _

theorem blind_locateAll (i : Instruction) : Blind c (locateAll i) := by
  unfold locateAll
  induction i.operands with
  | nil => exact blind_pure _
  | cons operand rest ih =>
    rw [List.mapM_cons]
    exact (blind_locate _ _).bind fun _ => ih.bind fun _ => blind_pure _

theorem blind_reservedOperand (i : Instruction) : Blind c (reservedOperand i : Exec α) :=
  blind_throw _

theorem blind_locate1 (i : Instruction) : Blind c (locate1 i) := by
  refine (blind_locateAll i).bind fun _ => ?_
  split
  · exact blind_pure _
  · exact blind_reservedOperand i

theorem blind_locate2 (i : Instruction) : Blind c (locate2 i) := by
  refine (blind_locateAll i).bind fun _ => ?_
  split
  · exact blind_pure _
  · exact blind_reservedOperand i

theorem blind_locate3 (i : Instruction) : Blind c (locate3 i) := by
  refine (blind_locateAll i).bind fun _ => ?_
  split
  · exact blind_pure _
  · exact blind_reservedOperand i

theorem blind_locate4 (i : Instruction) : Blind c (locate4 i) := by
  refine (blind_locateAll i).bind fun _ => ?_
  split
  · exact blind_pure _
  · exact blind_reservedOperand i

theorem blind_read (w : Width) (location : Location) : Blind c (read w location) := by
  cases location with
  | value word => exact blind_pure _
  | register r =>
    exact blind_get (fun _ _ h => by rw [h.registers_eq]) fun _ => blind_pure _
  | memory address => exact (blind_readNat _ _).bind fun _ => blind_pure _

theorem blind_write (w : Width) (value : BitVec w.bits) (location : Location) :
    Blind c (write w value location) := by
  cases location with
  | value word => exact blind_throw _
  | register r =>
    refine (blind_getRegister r).bind fun _ => (blind_setRegister r _).bind fun _ => ?_
    split
    · exact blind_setRegister _ _
    · exact blind_pure _
  | memory address => exact blind_store _ _

theorem blind_addressOf (location : Location) : Blind c (addressOf location) := by
  cases location with
  | memory address => exact blind_pure _
  | value word | register r => exact blind_throw _

theorem blind_setResult {n : Nat} (result : BitVec n) (overflow : Bool) (carry : Option Bool) :
    Blind c (setResult result overflow carry) :=
  blind_getFlags.bind fun _ => blind_setFlags _

theorem blind_writeResult (w : Width) (result : ArithmeticResult w.bits) (destination : Location) :
    Blind c (writeResult w result destination) :=
  (blind_write w _ _).bind fun _ => blind_setResult _ _ _

end Exec

end Vax
