import Vax.Proofs.Machine.Effects
/-!
# What each action may change

One lemma per action, under the accesses that the catalog gives it.  Those
that only write results stay in whatever their instruction allows.  The others
name what they change besides: the program counter, the frame pointers, the
call stack, the output, and what was already changed when a fault came.
-/

namespace Vax

namespace Exec

variable {α β : Type} {f g : Footprint} {i : Instruction}

/-! ## More rules -/

section Checks

/-! A check that may fault, in front of what goes on. -/

variable {c : Prop} [Decidable c] {refuse : Exec Unit} {k : Unit → Exec β}

theorem Still.check (hrefuse : Still refuse) (hk : ∀ u, Still (k u)) :
    Still (if c then refuse >>= k else k ()) := by
  split
  · exact hrefuse.bind hk
  · exact hk ()

theorem Effect.check (hrefuse : Still refuse) (hk : ∀ u, Effect f g (k u)) :
    Effect f g (if c then refuse >>= k else k ()) := by
  split
  · exact hrefuse.bind_effect hk
  · exact hk ()

end Checks

/-! ## Integers -/

section Integer

variable (hallowed : i.Allowed f g)

include hallowed

theorem effect_arithmetic2 (operation : Arithmetic)
    (hfits : i.Fits [.read i.width, .modify i.width]) : Effect f g (arithmetic i operation) := by
  unfold arithmetic
  refine Effect.locateAll hallowed hfits ?_
  rintro _ (_ | ⟨-, _ | ⟨hdestination, _ | _⟩⟩)
  exact (still_read _ _).bind_effect fun _ => (still_read _ _).bind_effect fun _ =>
    effect_writeResult hallowed hdestination _

theorem effect_arithmetic3 (operation : Arithmetic)
    (hfits : i.Fits [.read i.width, .read i.width, .write i.width]) :
    Effect f g (arithmetic i operation) := by
  unfold arithmetic
  refine Effect.locateAll hallowed hfits ?_
  rintro _ (_ | ⟨-, _ | ⟨-, _ | ⟨hresult, _ | _⟩⟩⟩)
  exact (still_read _ _).bind_effect fun _ => (still_read _ _).bind_effect fun _ =>
    effect_writeResult hallowed hresult _

theorem effect_move (hfits : i.Fits [.read i.width, .write i.width]) :
    Effect f g (move i) :=
  Effect.locate2 hallowed hfits fun _ _ _ hdestination =>
    (still_read _ _).bind_effect fun _ => effect_writeResult hallowed hdestination _

theorem effect_compare (hfits : i.Fits [.read i.width, .read i.width]) :
    Effect f g (compare i) :=
  Effect.locate2 hallowed hfits fun _ _ _ _ =>
    (still_read _ _).bind_effect fun _ => (still_read _ _).bind_effect fun _ =>
      (total_setFlags hallowed.flags _).effect

theorem effect_test (hfits : i.Fits [.read i.width]) : Effect f g (test i) :=
  Effect.locate1 hallowed hfits fun _ _ =>
    (still_read _ _).bind_effect fun _ => (total_setResult hallowed.flags _ _ _).effect

theorem effect_clear (hfits : i.Fits [.write i.width]) : Effect f g (clear i) :=
  Effect.locate1 hallowed hfits fun _ hdestination => effect_writeResult hallowed hdestination _

theorem effect_increment (hfits : i.Fits [.modify i.width]) : Effect f g (increment i) :=
  Effect.locate1 hallowed hfits fun _ hdestination =>
    (still_read _ _).bind_effect fun _ => effect_writeResult hallowed hdestination _

theorem effect_decrement (hfits : i.Fits [.modify i.width]) : Effect f g (decrement i) :=
  Effect.locate1 hallowed hfits fun _ hdestination =>
    (still_read _ _).bind_effect fun _ => effect_writeResult hallowed hdestination _

theorem effect_negate (hfits : i.Fits [.read i.width, .write i.width]) :
    Effect f g (negate i) :=
  Effect.locate2 hallowed hfits fun _ _ _ hdestination =>
    (still_read _ _).bind_effect fun _ => effect_writeResult hallowed hdestination _

theorem effect_complement (hfits : i.Fits [.read i.width, .write i.width]) :
    Effect f g (complement i) :=
  Effect.locate2 hallowed hfits fun _ _ _ hdestination =>
    (still_read _ _).bind_effect fun _ => effect_writeResult hallowed hdestination _

theorem effect_bitTest (hfits : i.Fits [.read i.width, .read i.width]) :
    Effect f g (bitTest i) :=
  Effect.locate2 hallowed hfits fun _ _ _ _ =>
    (still_read _ _).bind_effect fun _ => (still_read _ _).bind_effect fun _ =>
      (total_setResult hallowed.flags _ _ _).effect

theorem effect_zeroExtend {narrow wide : Width} (hfits : i.Fits [.read narrow, .write wide]) :
    Effect f g (zeroExtend i) := by
  obtain ⟨hnarrow, hwide⟩ := hfits.operandWidths
  unfold zeroExtend operandWidth
  rw [hnarrow, hwide, pure_bind, pure_bind]
  exact Effect.locate2 hallowed hfits fun _ _ _ hdestination =>
    (still_read _ _).bind_effect fun _ =>
      (effect_write hallowed.memory hdestination _).bind_total fun _ =>
        total_getFlags.bind fun _ => total_setFlags hallowed.flags _

theorem effect_convert {narrow wide : Width} (hfits : i.Fits [.read narrow, .write wide]) :
    Effect f g (convert i) := by
  obtain ⟨hnarrow, hwide⟩ := hfits.operandWidths
  unfold convert operandWidth
  rw [hnarrow, hwide, pure_bind, pure_bind]
  exact Effect.locate2 hallowed hfits fun _ _ _ hdestination =>
    (still_read _ _).bind_effect fun _ => effect_writeResult hallowed hdestination _

theorem effect_moveAddress (hfits : i.Fits [.place, .write .long]) :
    Effect f g (moveAddress i) :=
  Effect.locate2 hallowed hfits fun _ _ _ hdestination =>
    (still_addressOf _).bind_effect fun _ => effect_writeResult hallowed hdestination _

theorem effect_pushAddress (hfits : i.Fits [.place]) : Effect f g (pushAddress i) :=
  Effect.locate1 hallowed hfits fun _ _ =>
    (still_addressOf _).bind_effect fun _ =>
      (effect_push hallowed.within hallowed.memory hallowed.stack _).bind_total fun _ =>
        total_setResult hallowed.flags _ _ _

theorem effect_pushLong (hfits : i.Fits [.read .long]) : Effect f g (pushLong i) :=
  Effect.locate1 hallowed hfits fun _ _ =>
    (still_read _ _).bind_effect fun _ =>
      (effect_push hallowed.within hallowed.memory hallowed.stack _).bind_total fun _ =>
        total_setResult hallowed.flags _ _ _

theorem effect_shift (hfits : i.Fits [.read .byte, .read .long, .write .long]) :
    Effect f g (shift i) :=
  Effect.locate3 hallowed hfits fun _ _ _ _ _ hdestination =>
    (still_read _ _).bind_effect fun _ => (still_read _ _).bind_effect fun _ =>
      effect_writeResult hallowed hdestination _

end Integer

/-! ## Control -/

section Control

variable (hallowed : i.Allowed f g)

include hallowed

theorem effect_branch (condition : Condition) (hfits : i.Fits [.branch]) :
    Effect f g (branch i condition) :=
  Effect.locate1 hallowed hfits fun _ htarget =>
    (total_getFlags.bind fun _ => total_branchTo htarget _).effect

theorem effect_jump (hpc : ∀ value, f.registers Register.pc value) (hfits : i.Fits [.place]) :
    Effect f g (jump i) :=
  Effect.locate1 hallowed hfits fun _ _ =>
    (still_addressOf _).bind_effect fun _ => (total_setRegister (hpc _)).effect

theorem effect_branchToSubroutine (hfits : i.Fits [.branch]) :
    Effect f g (branchToSubroutine i) :=
  Effect.locate1 hallowed hfits fun _ htarget =>
    (still_getRegister _).bind_effect fun _ =>
      (effect_push hallowed.within hallowed.memory hallowed.stack _).bind_total fun _ =>
        total_branchTo htarget true

theorem effect_jumpToSubroutine (hpc : ∀ value, f.registers Register.pc value)
    (hfits : i.Fits [.place]) : Effect f g (jumpToSubroutine i) :=
  Effect.locate1 hallowed hfits fun _ _ =>
    (still_addressOf _).bind_effect fun _ => (still_getRegister _).bind_effect fun _ =>
      (effect_push hallowed.within hallowed.memory hallowed.stack _).bind_total fun _ =>
        total_setRegister (hpc _)

theorem effect_returnFromSubroutine (hpc : ∀ value, f.registers Register.pc value) :
    Effect f g returnFromSubroutine :=
  (effect_pop fun value => hallowed.within.registers _ _ (hallowed.stack value)).bind_total
    fun _ => total_setRegister (hpc _)

theorem effect_branchOnLowBit (onSet : Bool) (hfits : i.Fits [.read .long, .branch]) :
    Effect f g (branchOnLowBit i onSet) :=
  Effect.locate2 hallowed hfits fun _ _ _ htarget =>
    (still_read _ _).bind_effect fun _ => (total_branchTo htarget _).effect

theorem effect_addCompareBranch {w : Width}
    (hfits : i.Fits [.read w, .read w, .modify w, .branch]) :
    Effect f g (addCompareBranch i) := by
  unfold addCompareBranch
  simp only [hfits.operandWidth, pure_bind]
  exact Effect.locate4 hallowed hfits fun _ _ _ _ _ _ hindex htarget =>
    (still_read _ _).bind_effect fun _ => (still_read _ _).bind_effect fun _ =>
      (still_read _ _).bind_effect fun _ =>
        (effect_stepIndex hallowed hindex _).bind_total fun _ => total_branchTo htarget _

theorem effect_addOneBranch (inclusive : Bool)
    (hfits : i.Fits [.read .long, .modify .long, .branch]) :
    Effect f g (addOneBranch i inclusive) :=
  Effect.locate3 hallowed hfits fun _ _ _ _ hindex htarget =>
    (still_read _ _).bind_effect fun _ => (still_read _ _).bind_effect fun _ =>
      (effect_stepIndex hallowed hindex _).bind_total fun _ => total_branchTo htarget _

theorem effect_subtractOneBranch (inclusive : Bool) (hfits : i.Fits [.modify .long, .branch]) :
    Effect f g (subtractOneBranch i inclusive) :=
  Effect.locate2 hallowed hfits fun _ _ hindex htarget =>
    (still_read _ _).bind_effect fun _ =>
      (effect_stepIndex hallowed hindex _).bind_total fun _ => total_branchTo htarget _

/-- The table is read after the comparison has set the condition codes. -/
theorem effect_select (hpc : ∀ value, f.registers Register.pc value) (hflags : g.flags)
    (hfits : i.Fits [.read i.width, .read i.width, .read i.width]) :
    Effect f g (select i) := by
  refine Effect.locate3 hallowed hfits fun _ _ _ _ _ _ =>
    (still_read _ _).bind_effect fun _ => (still_read _ _).bind_effect fun _ =>
      (still_read _ _).bind_effect fun _ =>
        (total_setFlags hflags _).effect.bind_within hallowed.within fun _ =>
          (still_getRegister _).bind_effect fun _ => ?_
  split
  · exact (still_readWord _).bind_effect fun _ => (total_setRegister (hpc _)).effect
  · exact (total_setRegister (hpc _)).effect

end Control

/-! ## Bit fields -/

theorem still_registerPosition (i : Instruction) (position : Int) :
    Still (registerPosition i position) := by
  unfold registerPosition
  split
  · exact still_pure _
  · exact still_reservedOperand i

theorem still_readBit (i : Instruction) (position : Int) (base : Location) :
    Still (readBit i position base) := by
  cases base with
  | register r =>
      exact (still_registerPosition i _).bind fun _ => (still_getRegister r).bind fun _ =>
        still_pure _
  | value _ | memory _ =>
      exact (still_addressOf _).bind fun _ => (still_readByte _).bind fun _ => still_pure _

theorem still_readField (i : Instruction) (position : Int) (size : Nat) (base : Location) :
    Still (readField i position size base) := by
  unfold readField
  split
  · exact still_pure _
  · cases base with
    | register r =>
        exact (still_registerPosition i _).bind fun _ => still_get.bind fun _ => still_pure _
    | value _ | memory _ =>
        exact (still_addressOf _).bind fun _ => (still_readNat _ _).bind fun _ => still_pure _

section BitField

variable (hallowed : i.Allowed f g)

include hallowed

theorem effect_writeBit {base : Location} (hbase : base.Writable f .long) (position : Int)
    (set : Bool) : Effect f g (writeBit i position set base) := by
  cases base with
  | register r =>
      exact (still_registerPosition i _).bind_effect fun _ =>
        (still_getRegister r).bind_effect fun _ => (total_setRegister (hbase _).1).effect
  | value _ | memory _ =>
      exact (still_addressOf _).bind_effect fun _ => (still_readByte _).bind_effect fun _ =>
        effect_store hallowed.memory _ _

theorem effect_branchOnBit (onSet : Bool) (update : Option Bool)
    (hfits : i.Fits [.read .long, .place, .branch]) :
    Effect f g (branchOnBit i onSet update) := by
  refine Effect.locate3 hallowed hfits fun _ base target _ hbase htarget =>
    (still_read _ _).bind_effect fun _ => (still_readBit i _ _).bind_effect fun _ => ?_
  cases update with
  | some set =>
      exact (effect_writeBit hallowed hbase _ set).bind_total fun _ => total_branchTo htarget _
  | none => exact (total_branchTo htarget _).effect

theorem effect_extractField (isSigned : Bool)
    (hfits : i.Fits [.read .long, .read .byte, .place, .write .long]) :
    Effect f g (extractField i isSigned) := by
  exact Effect.locate4 hallowed hfits fun _ _ _ _ _ _ _ hdestination =>
    (still_read _ _).bind_effect fun _ => (still_read _ _).bind_effect fun _ =>
      Effect.check (still_reservedOperand i) fun _ =>
        (still_readField i _ _ _).bind_effect fun _ =>
          (effect_write hallowed.memory hdestination _).bind_total fun _ =>
            total_setResult hallowed.flags _ _ _

end BitField

/-! ## Strings -/

theorem still_scanFrom (character : UInt8) (forEqual : Bool) (remaining : Nat)
    (address : UInt32) : Still (scanFrom character forEqual remaining address) := by
  induction remaining generalizing address with
  | zero => exact still_pure _
  | succ remaining ih =>
      refine (still_readByte _).bind fun _ => ?_
      split
      · exact still_pure _
      · exact ih _

section CharacterString

variable (hallowed : i.Allowed f g)

include hallowed

theorem effect_scan (forEqual : Bool) (hfits : i.Fits [.read .byte, .read .word, .place]) :
    Effect f g (scan i forEqual) := by
  have hresults := hallowed.results
  exact Effect.locate3 hallowed hfits fun _ _ _ _ _ _ =>
    (still_read _ _).bind_effect fun _ => (still_read _ _).bind_effect fun _ =>
      (still_addressOf _).bind_effect fun _ => (still_scanFrom _ _ _ _).bind_effect fun _ =>
        ((total_setRegister (hresults 0 (by decide) _)).bind fun _ =>
          (total_setRegister (hresults 1 (by decide) _)).bind fun _ =>
            total_setFlags hallowed.flags _).effect

theorem effect_copyString (hfits : i.Fits [.read .word, .place, .place]) :
    Effect f g (copyString i) := by
  have hresults := hallowed.results
  exact Effect.locate3 hallowed hfits fun _ _ _ _ _ _ =>
    (still_read _ _).bind_effect fun _ => (still_addressOf _).bind_effect fun _ =>
      (still_addressOf _).bind_effect fun _ => still_get.bind_effect fun _ =>
        (still_access _).bind_effect fun _ =>
          (effect_store hallowed.memory _ _).bind_total fun _ =>
            (total_setRegister (hresults 0 (by decide) _)).bind fun _ =>
              (total_setRegister (hresults 1 (by decide) _)).bind fun _ =>
                (total_setRegister (hresults 2 (by decide) _)).bind fun _ =>
                  (total_setRegister (hresults 3 (by decide) _)).bind fun _ =>
                    (total_setRegister (hresults 4 (by decide) _)).bind fun _ =>
                      (total_setRegister (hresults 5 (by decide) _)).bind fun _ =>
                        total_setFlags hallowed.flags _

end CharacterString

/-! ## Packed decimal strings

These go through memory byte by byte, so a fault leaves it changed. -/

section Digits

variable (hmemory : g.memory)

include hmemory

theorem effect_storeZeros (count : Nat) (address : UInt32) :
    Effect g g (storeZeros count address) := by
  induction count generalizing address with
  | zero => exact (still_pure _).effect
  | succ count ih => exact (effect_store hmemory _ _).bind fun _ => ih _

theorem effect_storeDigits (count : Nat) (isHigh : Bool) (address : UInt32) (rest : Nat) :
    Effect g g (storeDigits count isHigh address rest) := by
  induction count generalizing isHigh address rest with
  | zero => exact (still_pure _).effect
  | succ count ih =>
      unfold storeDigits
      split
      · exact (still_pure _).effect
      · split
        · exact (still_readByte _).bind_effect fun _ =>
            (effect_store hmemory _ _).bind fun _ => ih _ _ _
        · exact (effect_store hmemory _ _).bind fun _ => ih _ _ _

end Digits

theorem still_nextDigit (p : Edit.Progress) : Still (nextDigit p) := by
  refine Still.check (still_throw _) fun _ => (still_readByte _).bind fun _ => ?_
  split
  · exact still_pure _
  · exact still_pure _

section Edit

variable (hmemory : g.memory)

include hmemory

theorem effect_emit (p : Edit.Progress) (character : UInt8) : Effect g g (emit p character) :=
  (effect_store hmemory _ _).bind_total fun _ => total_pure _

theorem effect_endFloat (sign : UInt8) (p : Edit.Progress) : Effect g g (endFloat sign p) := by
  unfold endFloat
  split
  · exact (still_pure _).effect
  · exact effect_emit hmemory _ _

theorem effect_moveDigit (isFloating : Bool) (sign : UInt8) (p : Edit.Progress) :
    Effect g g (moveDigit isFloating sign p) := by
  unfold moveDigit
  refine (still_nextDigit _).bind_effect fun _ => ?_
  dsimp only
  split
  · exact (effect_emit hmemory _ _).bind fun _ => effect_emit hmemory _ _
  · exact (still_pure _).bind_effect fun _ => effect_emit hmemory _ _

theorem effect_moveDigits (isFloating : Bool) (sign : UInt8) (count : Nat) (p : Edit.Progress) :
    Effect g g (moveDigits isFloating sign count p) := by
  induction count generalizing p with
  | zero => exact (still_pure _).effect
  | succ count ih => exact (effect_moveDigit hmemory _ _ _).bind fun _ => ih _

theorem effect_followPattern (sign : UInt8) (operators : Nat) (p : Edit.Progress) :
    Effect g g (followPattern sign operators p) := by
  induction operators generalizing p with
  | zero => exact (still_throw _).effect
  | succ operators ih =>
      refine (still_readByte _).bind_effect fun _ => ?_
      split
      · exact (still_pure _).effect
      · exact (effect_endFloat hmemory _ _).bind fun _ => ih _
      · exact (effect_moveDigits hmemory _ _ _ _).bind fun _ => ih _
      · exact (still_throw _).effect

end Edit

section PackedDecimal

variable (hallowed : i.Allowed f g) (hmemory : g.memory)

include hallowed hmemory

theorem effect_longToPacked (hfits : i.Fits [.read .long, .read .word, .place]) :
    Effect f g (longToPacked i) := by
  have hresults := hallowed.results
  exact Effect.locate3 hallowed hfits fun _ _ _ _ _ _ =>
    (still_read _ _).bind_effect fun _ => (still_read _ _).bind_effect fun _ =>
      (still_addressOf _).bind_effect fun _ => Effect.check (still_reservedOperand i) fun _ =>
        (effect_storeZeros hmemory _ _).bind_within hallowed.within fun _ =>
        (effect_store hmemory _ _).bind_within hallowed.within fun _ =>
        ((effect_storeDigits hmemory _ _ _ _).mono hallowed.within).bind_total fun _ =>
        (total_setRegister (hresults 0 (by decide) _)).bind fun _ =>
        (total_setRegister (hresults 1 (by decide) _)).bind fun _ =>
        (total_setRegister (hresults 2 (by decide) _)).bind fun _ =>
        (total_setRegister (hresults 3 (by decide) _)).bind fun _ =>
        total_setFlags hallowed.flags _

theorem effect_editPacked (hfits : i.Fits [.read .word, .place, .place, .place]) :
    Effect f g (editPacked i) := by
  have hresults := hallowed.results
  exact Effect.locate4 hallowed hfits fun _ _ _ _ _ _ _ _ =>
    (still_read _ _).bind_effect fun _ => (still_addressOf _).bind_effect fun _ =>
      (still_addressOf _).bind_effect fun _ => (still_addressOf _).bind_effect fun _ =>
        Effect.check (still_reservedOperand i) fun _ =>
        (still_readByte _).bind_effect fun _ => still_get.bind_effect fun _ =>
        ((effect_followPattern hmemory _ _ _).mono hallowed.within).bind_total fun _ =>
        (total_setRegister (hresults 0 (by decide) _)).bind fun _ =>
        (total_setRegister (hresults 1 (by decide) _)).bind fun _ =>
        (total_setRegister (hresults 2 (by decide) _)).bind fun _ =>
        (total_setRegister (hresults 3 (by decide) _)).bind fun _ =>
        (total_setRegister (hresults 4 (by decide) _)).bind fun _ =>
        (total_setRegister (hresults 5 (by decide) _)).bind fun _ =>
        total_setFlags hallowed.flags _

end PackedDecimal

/-! ## Procedures -/

theorem total_logCallChain : Total f logCallChain :=
  total_log _ _

theorem total_pushFrame (h : f.frames) (address : UInt32) :
    Total f (modify fun m => m.pushFrame address) :=
  total_modify fun m => by
    unfold Machine.pushFrame
    exact ⟨fun _ => .inl rfl, .inl rfl, .inl rfl, .inr h, .inl rfl, rfl, rfl, rfl, rfl⟩

theorem total_popFrame (h : f.frames) : Total f (modify Machine.popFrame) :=
  total_modify fun m => by
    unfold Machine.popFrame
    split
    · exact ⟨fun _ => .inl rfl, .inl rfl, .inl rfl, .inr h, .inl rfl, rfl, rfl, rfl, rfl⟩
    · exact .refl f m

theorem total_beginProcedure (hpc : ∀ value, f.registers Register.pc value)
    (hap : ∀ value, f.registers Register.ap value) (hfp : ∀ value, f.registers Register.fp value)
    (hflags : f.flags) (hframes : f.frames) (c : Call) (ap : UInt32) :
    Total f (beginProcedure c ap) :=
  (total_setRegister (hap _)).bind fun _ => (total_getRegister _).bind fun _ =>
    (total_setRegister (hfp _)).bind fun _ => (total_setRegister (hpc _)).bind fun _ =>
      (total_setFlags hflags _).bind fun _ =>
        (total_pushFrame hframes _).bind fun _ => total_logCallChain

section Frame

variable (hmemory : g.memory) (hsp : ∀ value, g.registers Register.sp value)

include hmemory hsp

theorem effect_pushRegisters (rs : List Register) : Effect g g (pushRegisters rs) := by
  unfold pushRegisters
  induction rs.reverse with
  | nil => exact (still_pure _).effect
  | cons r rest ih =>
      exact ((still_getRegister r).bind_effect fun _ =>
        effect_push (.refl g) hmemory hsp _).bind fun _ => ih

theorem effect_saveFrame (c : Call) (ap : UInt32) : Effect g g (saveFrame c ap) := by
  have hpush : ∀ value, Effect g g (push value) := effect_push (.refl g) hmemory hsp
  exact (effect_pushRegisters hmemory hsp _).bind fun _ =>
    still_getFlags.bind_effect fun _ => (hpush _).bind fun _ => hpush _

/-- Everything but the frame comes after the last push. -/
theorem effect_enterProcedure (hle : g.Within f) (hpc : ∀ value, f.registers Register.pc value)
    (hap : ∀ value, f.registers Register.ap value) (hfp : ∀ value, f.registers Register.fp value)
    (hflags : f.flags) (hframes : f.frames) (c : Call) : Effect f g (enterProcedure c) := by
  rw [enterProcedure_eq]
  exact (effect_push (.refl g) hmemory hsp _).bind_within hle fun _ =>
    (still_getRegister _).bind_effect fun ap =>
      (total_setRegister (hsp _)).effect.bind_within hle fun _ =>
        ((effect_saveFrame hmemory hsp c ap).mono hle).bind_total fun _ =>
          total_beginProcedure hpc hap hfp hflags hframes c ap

end Frame

theorem effect_call (hallowed : i.Allowed f g) (hmemory : g.memory)
    (hpc : ∀ value, f.registers Register.pc value)
    (hap : ∀ value, f.registers Register.ap value) (hfp : ∀ value, f.registers Register.fp value)
    (hframes : f.frames) (hfits : i.Fits [.read .long, .place]) : Effect f g (call i) := by
  unfold call callOperands
  rw [bind_assoc]
  refine Effect.locate2 hallowed hfits fun _ _ _ _ => ?_
  simp only [bind_assoc, pure_bind]
  exact (still_read _ _).bind_effect fun _ => (still_addressOf _).bind_effect fun _ =>
    (still_readWord _).bind_effect fun _ =>
      effect_enterProcedure hmemory hallowed.stack hallowed.within hpc hap hfp hallowed.flags
        hframes _

section Return

/-! A return restores registers and flags while it pops the frame, and may
fault in between. -/

variable (hregisters : ∀ r value, g.registers r value)

include hregisters

theorem effect_popInto (r : Register) :
    Effect g g (pop >>= fun value => setRegister r value) :=
  (effect_pop (hregisters _)).bind_total fun value => total_setRegister (hregisters r value)

theorem effect_popRegisters (rs : List Register) : Effect g g (popRegisters rs) := by
  unfold popRegisters
  induction rs with
  | nil => exact (still_pure _).effect
  | cons r rest ih => exact (effect_popInto hregisters r).bind fun _ => ih

theorem effect_unwind (hflags : g.flags) : Effect g g unwind := by
  have hset : ∀ r value, Effect g g (setRegister r value) := fun r value =>
    (total_setRegister (hregisters r value)).effect
  have hpop : Effect g g pop := effect_pop (hregisters _)
  rw [unwind_eq]
  refine (still_getRegister _).bind_effect fun _ => (hset _ _).bind fun _ => hpop.bind fun _ =>
    (total_setFlags hflags _).effect.bind fun _ => (effect_popRegisters hregisters _).bind fun _ =>
      (still_getRegister _).bind_effect fun _ => (hset _ _).bind fun _ => ?_
  split
  · exact hpop.bind fun _ => (still_getRegister _).bind_effect fun _ => hset _ _
  · exact (still_pure _).effect

theorem effect_returnFromCall (hle : g.Within f) (hflags : g.flags) (hframes : f.frames) :
    Effect f g returnFromCall := by
  refine (still_getRegister _).bind_effect fun _ => ?_
  split
  · exact ((total_getRegister _).bind fun _ => (total_log _ _).bind fun _ => total_pure _).effect
  · exact ((effect_unwind hregisters hflags).mono hle).bind_total fun _ =>
      (total_popFrame hframes).bind fun _ => total_logCallChain.bind fun _ => total_pure _

end Return

/-! ## System calls -/

theorem still_argument (index : Nat) : Still (argument index) :=
  (still_getRegister _).bind fun _ => still_readLong _

theorem effect_exitCall : Effect f g exitCall :=
  (still_argument 0).bind_effect fun _ =>
    ((total_log _ _).bind fun _ => total_pure _).effect

theorem total_setOutput (h : f.output) (output : Output) :
    Total f (modify fun m => { m with output := output }) :=
  total_modify fun _ =>
    ⟨fun _ => .inl rfl, .inl rfl, .inl rfl, .inl rfl, .inr h, rfl, rfl, rfl, rfl⟩

section Kernel

variable (hallowed : i.Allowed f g)

include hallowed

theorem total_finishCall (result : UInt32) (failed : Bool) : Total f (finishCall result failed) :=
  (total_setRegister (hallowed.results 0 (by decide) _)).bind fun _ =>
    total_getFlags.bind fun _ => total_setFlags hallowed.flags _

theorem effect_writeCall (houtput : f.output) : Effect f g writeCall := by
  refine (still_argument 0).bind_effect fun _ => (still_argument 1).bind_effect fun _ =>
    (still_argument 2).bind_effect fun _ => Effect.after_log fun _ =>
      still_get.bind_effect fun _ => (still_access _).bind_effect fun _ =>
        still_get.bind_effect fun _ => ?_
  split
  · exact ((total_setOutput houtput _).bind fun _ => total_finishCall hallowed _ _).effect
  · exact (still_throw _).bind_effect fun _ => (total_finishCall hallowed _ _).effect

theorem effect_closeCall : Effect f g closeCall := by
  refine still_get.bind_effect fun _ => ?_
  split
  · exact (still_argument 0).bind_effect fun _ => Effect.after_log
      fun _ => (total_finishCall hallowed _ _).effect
  · exact (total_finishCall hallowed _ _).effect

theorem effect_ioctlCall : Effect f g ioctlCall := by
  refine (still_argument 0).bind_effect fun _ => (still_argument 1).bind_effect fun _ =>
    Effect.after_log fun _ => Effect.check (still_throw _) fun _ => ?_
  split
  · exact (total_finishCall hallowed _ _).effect
  · exact (total_finishCall hallowed _ _).effect

theorem effect_systemCall (houtput : f.output) (hfits : i.Fits [.read .word]) :
    Effect f g (systemCall i) := by
  have hgoesOn : ∀ x : Exec Unit, Effect f g x → Effect f g (x >>= fun _ => pure none) :=
    fun x hx => hx.bind_total fun _ => total_pure (α := Option Halt) none
  refine Effect.locate1 hallowed hfits fun _ _ => (still_read _ _).bind_effect fun _ => ?_
  dsimp only
  split
  · exact effect_exitCall
  · exact hgoesOn _ (effect_writeCall hallowed houtput)
  · exact hgoesOn _ (effect_closeCall hallowed)
  · exact hgoesOn _ (effect_ioctlCall hallowed)
  · exact (still_throw _).effect

end Kernel

end Exec

end Vax
