import Vax.Proofs.Integer.Instructions
/-!
# Instructions that abbreviate others

Counting, negating, clearing, testing and stepping the index of a loop have
rules of their own for overflow and carry.  They come to the same as the
general instruction with a constant among its operands.
-/

namespace Vax

namespace Arithmetic

open ArithmeticResult

variable {w : Nat}

/-- Comparing is subtracting, but the sign is right even if that overflows. -/
theorem slt_eq_difference (hw : 0 < w) (left right : BitVec w) :
    left.slt right =
      ((difference right left).value.msb ^^ (difference right left).overflow) := by
  have hpow : (2 : Int) ^ w = 2 * 2 ^ (w - 1) := by
    rw [← Int.pow_succ', Nat.sub_add_cancel hw]
  have hleft := And.intro left.le_toInt left.toInt_lt
  have hright := And.intro right.le_toInt right.toInt_lt
  have hlow : -2 ^ w ≤ left.toInt - right.toInt := by omega
  have hhigh : left.toInt - right.toInt < 2 ^ w := by omega
  have hless : left.toInt < right.toInt ↔ left.toInt - right.toInt < 0 := by omega
  rw [(difference_computes right left).sign hw rfl hlow hhigh, BitVec.slt_eq_decide,
    decide_eq_decide.2 hless]

theorem one_emod (hw : 1 < w) : (1 : Int) % 2 ^ w = 1 := by
  have hpow := Nat.one_lt_two_pow (n := w) (by omega)
  exact Int.emod_eq_of_lt (by decide) (by rw [pow_eq_natCast]; omega)

theorem increment_eq_sum (hw : 1 < w) (value : BitVec w) :
    (⟨value + 1, !value.msb && (value + 1).msb, some (value + 1 == 0)⟩ : ArithmeticResult w) =
      sum (BitVec.ofInt w 1) value := by
  have hone : BitVec.ofInt w 1 = 1 := BitVec.ofInt_ofNat w 1
  have hsum := sum_computes 1 value
  rw [toInt_one hw, one_emod hw] at hsum
  rw [hone]
  exact (increment_computes hw value).eq hsum

theorem decrement_eq_difference (hw : 1 < w) (value : BitVec w) :
    (⟨value - 1, value.msb && !(value - 1).msb, some (value == 0)⟩ : ArithmeticResult w) =
      difference (BitVec.ofInt w 1) value := by
  have hone : BitVec.ofInt w 1 = 1 := BitVec.ofInt_ofNat w 1
  have hdifference := difference_computes 1 value
  rw [toInt_one hw, one_emod hw] at hdifference
  rw [hone]
  exact (decrement_computes hw value).eq hdifference

theorem negate_eq_difference (hw : 0 < w) (value : BitVec w) :
    (⟨-value, value != 0 && value == -value, some (-value != 0)⟩ : ArithmeticResult w) =
      difference value (BitVec.ofInt w 0) := by
  have hzero : BitVec.ofInt w 0 = 0 := BitVec.ofInt_ofNat w 0
  have hdifference := difference_computes value 0
  rw [show (0 : BitVec w).toInt = 0 from BitVec.toInt_zero, Int.zero_emod] at hdifference
  rw [hzero]
  exact (negate_computes hw value).eq hdifference

theorem complement_eq_exclusiveOr (value : BitVec w) :
    (⟨~~~value, false, none⟩ : ArithmeticResult w) =
      Arithmetic.exclusiveOr.apply (BitVec.ofInt w (-1)) value := by
  have hones : BitVec.ofInt w (-1) = BitVec.allOnes w := by
    rw [BitVec.ofInt_neg]
    exact BitVec.neg_one_eq_allOnes
  rw [apply, hones, BitVec.xor_allOnes]

end Arithmetic

namespace Flags

variable {w : Nat}

theorem ofResult_eq_ofComparison (old : Flags) (value : BitVec w) :
    old.ofResult value false (some false) = ofComparison value (BitVec.ofInt w 0) := by
  have hzero : BitVec.ofInt w 0 = 0 := BitVec.ofInt_ofNat w 0
  have hnever : value.ult 0 = false := by
    rw [BitVec.ult, decide_eq_false_iff_not]
    exact Nat.not_lt_zero _
  have hsign : value.slt 0 = value.msb := BitVec.slt_zero_eq_msb
  rw [hzero, ofComparison, hnever, hsign]
  rfl

theorem ofComparison_eq_difference (hw : 0 < w) (old : Flags) (left right : BitVec w) :
    ofComparison left right =
      let result := Arithmetic.difference right left
      let flags := old.ofResult result.value result.overflow result.carry
      ⟨flags.n ^^ flags.v, flags.z, false, flags.c⟩ := by
  have hzero : (left == right) = (left - right == 0) := by
    rw [Bool.eq_iff_iff, beq_iff_eq, beq_iff_eq, BitVec.sub_eq_iff_eq_add]
    exact ⟨fun h => h.trans (BitVec.zero_add right).symm, fun h => h.trans (BitVec.zero_add right)⟩
  rw [ofComparison, Arithmetic.slt_eq_difference hw, hzero]
  rfl

end Flags

/-! ## What an instruction delivers -/

namespace Access

/-- The width at which the operand is read or written. -/
def width? : Access → Option Width
  | read w | write w | modify w => some w
  | place | branch => none

/-- The places that are branched to. -/
def targets (accesses : List Access) (locations : List Location) : List Location :=
  (accesses.zip locations).filterMap fun operand =>
    if operand.1 = branch then some operand.2 else none

end Access

/-- All operands with a width have this one. -/
def Descriptor.OperatesAt (d : Descriptor) (w : Width) : Prop :=
  ∀ u ∈ d.accesses.filterMap Access.width?, u = w

instance (d : Descriptor) (w : Width) : Decidable (d.OperatesAt w) :=
  inferInstanceAs (Decidable (∀ u ∈ d.accesses.filterMap Access.width?, u = w))

section Loops

variable {d : Descriptor} {inclusive : Bool}

theorem Descriptor.accesses_of_addCompareBranch (h : d.action = .addCompareBranch) :
    d.accesses = [.read (d.operandWidth 0), .read (d.operandWidth 0), .modify (d.operandWidth 0),
      .branch] := by
  simp only [accesses, h]

theorem Descriptor.accesses_of_addOneBranch (h : d.action = .addOneBranch inclusive) :
    d.accesses = [.read .long, .modify .long, .branch] := by
  simp only [accesses, h]

theorem Descriptor.accesses_of_subtractOneBranch (h : d.action = .subtractOneBranch inclusive) :
    d.accesses = [.modify .long, .branch] := by
  simp only [accesses, h]

end Loops

theorem Descriptor.OperatesAt.of_accesses {d : Descriptor} {w : Width} {accesses : List Access}
    (haccesses : d.accesses = accesses) (h : ∀ u ∈ accesses.filterMap Access.width?, u = w) :
    d.OperatesAt w := by
  subst haccesses
  exact h

theorem Descriptor.OperatesAt.eq {d : Descriptor} {u w : Width} {access : Access}
    {rest : List Access} (h : d.OperatesAt w) (haccesses : d.accesses = access :: rest)
    (haccess : access.width? = some u) : u = w := by
  apply h
  rw [haccesses]
  exact List.mem_filterMap.2 ⟨access, List.mem_cons_self, haccess⟩

namespace Exec

/-- Writes as much of a value as fits to its places, sets the condition codes,
and goes to the branch targets if they are taken. -/
def deliver (accesses : List Access) (locations : List Location) (value : Int) (flags : Flags)
    (taken : Bool) : Exec Unit := do
  (Access.destinations accesses locations).forM fun destination =>
    write destination.1 (BitVec.ofInt destination.1.bits value) destination.2
  setFlags flags
  (Access.targets accesses locations).forM fun target => branchTo target taken

end Exec

/-- With these values as its sources and these condition codes, the instruction
delivers a value, new condition codes and perhaps a branch. -/
def Instruction.Yields (i : Instruction) (values : List Int) (old : Flags) (value : Int)
    (new : Flags) (taken : Bool) : Prop :=
  ∀ (m : Machine) (locations : List Location) (located : Machine),
    (Exec.locateAll i).run m = .ok locations located →
    located.signedAll? (Access.sources i.descriptor.accesses locations) = some values →
    located.registers.flags = old →
    (Exec.execute i).run m =
      (Exec.goesOn (Exec.deliver i.descriptor.accesses locations value new taken)).run located

/-- Likewise with a result, which sets the condition codes. -/
def Instruction.ResultsIn (i : Instruction) (values : List Int) {w : Nat}
    (result : ArithmeticResult w) (taken : Bool) : Prop :=
  ∀ old, i.Yields values old result.value.toInt
    (old.ofResult result.value result.overflow result.carry) taken

namespace Exec

variable {i : Instruction} {m located : Machine} {u v w : Width}

/-- The condition codes can be computed before the result is written. -/
theorem run_writeResult_eq {result : ArithmeticResult w.bits} {destination : Location} :
    (writeResult w result destination).run m =
      (write w result.value destination >>= fun _ => setFlags
        (m.registers.flags.ofResult result.value result.overflow result.carry)).run m := by
  apply run_bind_congr rfl
  intro _ after hwrite
  rw [setResult, run_bind_ok run_getFlags, flags_of_write hwrite]

section Delivering

variable {accesses : List Access} {locations : List Location} {taken : Bool}
  {source other destination target : Location} {x y : Int}

theorem run_writeResult_deliver {result : ArithmeticResult w.bits}
    (hdestinations : Access.destinations accesses locations = [(w, destination)])
    (htargets : Access.targets accesses locations = []) :
    (writeResult w result destination).run m =
      (deliver accesses locations result.value.toInt
        (m.registers.flags.ofResult result.value result.overflow result.carry) taken).run m := by
  have hdeliver (value : Int) (flags : Flags) : deliver accesses locations value flags taken =
      write w (BitVec.ofInt w.bits value) destination >>= fun _ => setFlags flags := by
    rw [deliver, hdestinations, htargets]
    simp
  rw [hdeliver, BitVec.ofInt_toInt, run_writeResult_eq]

theorem deliver_to_target
    (hdestinations : Access.destinations accesses locations = [(w, destination)])
    (htargets : Access.targets accesses locations = [target]) (value : Int) (flags : Flags) :
    deliver accesses locations value flags taken =
      (write w (BitVec.ofInt w.bits value) destination >>= fun _ => setFlags flags) >>= fun _ =>
        branchTo target taken := by
  rw [deliver, hdestinations, htargets]
  simp

theorem run_stepIndex_deliver {result : ArithmeticResult w.bits}
    (hdestinations : Access.destinations accesses locations = [(w, destination)])
    (htargets : Access.targets accesses locations = [target]) :
    (stepIndex w result destination >>= fun _ => branchTo target taken).run m =
      (deliver accesses locations result.value.toInt
        (m.registers.flags.ofResult result.value result.overflow none) taken).run m := by
  rw [deliver_to_target hdestinations htargets, BitVec.ofInt_toInt]
  apply run_bind_congr
  · show (writeResult w { result with carry := none } destination).run m = _
    exact run_writeResult_eq
  · intro _ after _
    rfl

theorem run_deliver_one {f : BitVec u.bits → ArithmeticResult w.bits}
    (hsources : Access.sources accesses locations = [(u, source)])
    (hdestinations : Access.destinations accesses locations = [(w, destination)])
    (htargets : Access.targets accesses locations = [])
    (hvalues : m.signedAll? (Access.sources accesses locations) = some [x]) :
    let result := f (BitVec.ofInt u.bits x)
    (read u source >>= fun value => writeResult w (f value) destination).run m =
      (deliver accesses locations result.value.toInt
        (m.registers.flags.ofResult result.value result.overflow result.carry) taken).run m := by
  rw [hsources] at hvalues
  rw [run_bind_ok (signedAll?_cons_eq_some hvalues).1]
  exact run_writeResult_deliver hdestinations htargets

theorem run_deliver_two {f : BitVec u.bits → BitVec v.bits → ArithmeticResult w.bits}
    (hsources : Access.sources accesses locations = [(u, source), (v, other)])
    (hdestinations : Access.destinations accesses locations = [(w, destination)])
    (htargets : Access.targets accesses locations = [])
    (hvalues : m.signedAll? (Access.sources accesses locations) = some [x, y]) :
    let result := f (BitVec.ofInt u.bits x) (BitVec.ofInt v.bits y)
    (read u source >>= fun value => read v other >>= fun value' =>
        writeResult w (f value value') destination).run m =
      (deliver accesses locations result.value.toInt
        (m.registers.flags.ofResult result.value result.overflow result.carry) taken).run m := by
  rw [hsources] at hvalues
  obtain ⟨hsource, hvalues⟩ := signedAll?_cons_eq_some hvalues
  rw [run_bind_ok hsource, run_bind_ok (signedAll?_cons_eq_some hvalues).1]
  exact run_writeResult_deliver hdestinations htargets

end Delivering

/-! ### One action after the other -/

section Yielding

variable {a b c d : Access} {values : List Int} {old new : Flags} {value : Int} {taken : Bool}

theorem yields_of_locate1 {body : Location → Exec Unit} (haccesses : i.descriptor.accesses = [a])
    (hfits : i.Fits i.descriptor.accesses) (hexecute : execute i = goesOn (locate1 i >>= body))
    (hbody : ∀ (located : Machine) p,
      located.signedAll? (Access.sources [a] [p]) = some values → located.registers.flags = old →
      (body p).run located = (deliver [a] [p] value new taken).run located) :
    i.Yields values old value new taken := by
  intro m locations located hlocate hvalues hold
  rw [haccesses] at hfits hvalues ⊢
  obtain ⟨p, rfl, hlocated⟩ := exists_locate1 hfits hlocate
  rw [hexecute]
  apply run_goesOn_congr
  rw [run_bind_ok hlocated]
  exact hbody located p hvalues hold

theorem yields_of_locate2 {body : Location × Location → Exec Unit}
    (haccesses : i.descriptor.accesses = [a, b]) (hfits : i.Fits i.descriptor.accesses)
    (hexecute : execute i = goesOn (locate2 i >>= body))
    (hbody : ∀ (located : Machine) p q,
      located.signedAll? (Access.sources [a, b] [p, q]) = some values →
      located.registers.flags = old →
      (body (p, q)).run located = (deliver [a, b] [p, q] value new taken).run located) :
    i.Yields values old value new taken := by
  intro m locations located hlocate hvalues hold
  rw [haccesses] at hfits hvalues ⊢
  obtain ⟨p, q, rfl, hlocated⟩ := exists_locate2 hfits hlocate
  rw [hexecute]
  apply run_goesOn_congr
  rw [run_bind_ok hlocated]
  exact hbody located p q hvalues hold

theorem yields_of_locate3 {body : Location × Location × Location → Exec Unit}
    (haccesses : i.descriptor.accesses = [a, b, c]) (hfits : i.Fits i.descriptor.accesses)
    (hexecute : execute i = goesOn (locate3 i >>= body))
    (hbody : ∀ (located : Machine) p q r,
      located.signedAll? (Access.sources [a, b, c] [p, q, r]) = some values →
      located.registers.flags = old →
      (body (p, q, r)).run located = (deliver [a, b, c] [p, q, r] value new taken).run located) :
    i.Yields values old value new taken := by
  intro m locations located hlocate hvalues hold
  rw [haccesses] at hfits hvalues ⊢
  obtain ⟨p, q, r, rfl, hlocated⟩ := exists_locate3 hfits hlocate
  rw [hexecute]
  apply run_goesOn_congr
  rw [run_bind_ok hlocated]
  exact hbody located p q r hvalues hold

end Yielding

section Actions

variable {x y z : Int} {old : Flags}

theorem resultsIn_arithmetic {operation : Arithmetic}
    (haction : i.descriptor.action = .arithmetic operation)
    (hfits : i.Fits i.descriptor.accesses) (hwidth : i.descriptor.OperatesAt w) :
    i.ResultsIn [x, y] (operation.apply (BitVec.ofInt w.bits x) (BitVec.ofInt w.bits y)) false := by
  have haccesses : i.descriptor.accesses = [.read i.width, .modify i.width] ∨
      i.descriptor.accesses = [.read i.width, .read i.width, .write i.width] := by
    simp only [Descriptor.accesses, haction]
    exact ite_eq_or_eq _ _ _
  rintro _ m locations located hlocate hvalues rfl
  rw [execute, haction]
  apply run_goesOn_congr
  rw [arithmetic, run_bind_ok hlocate]
  obtain haccesses | haccesses := haccesses
  · obtain rfl := hwidth.eq haccesses rfl
    rw [haccesses] at hfits hvalues ⊢
    obtain ⟨source, destination, rfl, -⟩ := exists_locate2 hfits hlocate
    exact run_deliver_two rfl rfl rfl hvalues
  · obtain rfl := hwidth.eq haccesses rfl
    rw [haccesses] at hfits hvalues ⊢
    obtain ⟨source, other, destination, rfl, -⟩ := exists_locate3 hfits hlocate
    exact run_deliver_two rfl rfl rfl hvalues

theorem resultsIn_move (haction : i.descriptor.action = .move)
    (hfits : i.Fits i.descriptor.accesses) (hwidth : i.descriptor.OperatesAt w) :
    i.ResultsIn [x] ⟨BitVec.ofInt w.bits x, false, none⟩ false := by
  have haccesses : i.descriptor.accesses = [.read i.width, .write i.width] := by
    simp only [Descriptor.accesses, haction]
    rfl
  obtain rfl := hwidth.eq haccesses rfl
  intro old
  apply yields_of_locate2 haccesses hfits (by rw [execute, haction]; rfl)
  rintro located source destination hvalues rfl
  exact run_deliver_one rfl rfl rfl hvalues

theorem resultsIn_clear (haction : i.descriptor.action = .clear)
    (hfits : i.Fits i.descriptor.accesses) (hwidth : i.descriptor.OperatesAt w) :
    i.ResultsIn [] ⟨BitVec.ofInt w.bits 0, false, none⟩ false := by
  have haccesses : i.descriptor.accesses = [.write i.width] := by
    simp only [Descriptor.accesses, haction]
    rfl
  obtain rfl := hwidth.eq haccesses rfl
  intro old
  apply yields_of_locate1 haccesses hfits (by rw [execute, haction]; rfl)
  rintro located destination - rfl
  exact run_writeResult_deliver rfl rfl

theorem resultsIn_increment (haction : i.descriptor.action = .increment)
    (hfits : i.Fits i.descriptor.accesses) (hwidth : i.descriptor.OperatesAt w) :
    i.ResultsIn [x] (Arithmetic.sum (BitVec.ofInt w.bits 1) (BitVec.ofInt w.bits x)) false := by
  have haccesses : i.descriptor.accesses = [.modify i.width] := by
    simp only [Descriptor.accesses, haction]
    rfl
  obtain rfl := hwidth.eq haccesses rfl
  intro old
  apply yields_of_locate1 haccesses hfits (by rw [execute, haction]; rfl)
  rintro located destination hvalues rfl
  rw [← Arithmetic.increment_eq_sum i.width.one_lt_bits]
  exact run_deliver_one rfl rfl rfl hvalues

theorem resultsIn_decrement (haction : i.descriptor.action = .decrement)
    (hfits : i.Fits i.descriptor.accesses) (hwidth : i.descriptor.OperatesAt w) :
    i.ResultsIn [x]
      (Arithmetic.difference (BitVec.ofInt w.bits 1) (BitVec.ofInt w.bits x)) false := by
  have haccesses : i.descriptor.accesses = [.modify i.width] := by
    simp only [Descriptor.accesses, haction]
    rfl
  obtain rfl := hwidth.eq haccesses rfl
  intro old
  apply yields_of_locate1 haccesses hfits (by rw [execute, haction]; rfl)
  rintro located destination hvalues rfl
  rw [← Arithmetic.decrement_eq_difference i.width.one_lt_bits]
  exact run_deliver_one rfl rfl rfl hvalues

theorem resultsIn_negate (haction : i.descriptor.action = .negate)
    (hfits : i.Fits i.descriptor.accesses) (hwidth : i.descriptor.OperatesAt w) :
    i.ResultsIn [x]
      (Arithmetic.difference (BitVec.ofInt w.bits x) (BitVec.ofInt w.bits 0)) false := by
  have haccesses : i.descriptor.accesses = [.read i.width, .write i.width] := by
    simp only [Descriptor.accesses, haction]
    rfl
  obtain rfl := hwidth.eq haccesses rfl
  intro old
  apply yields_of_locate2 haccesses hfits (by rw [execute, haction]; rfl)
  rintro located source destination hvalues rfl
  rw [← Arithmetic.negate_eq_difference i.width.bits_pos]
  exact run_deliver_one rfl rfl rfl hvalues

theorem resultsIn_complement (haction : i.descriptor.action = .complement)
    (hfits : i.Fits i.descriptor.accesses) (hwidth : i.descriptor.OperatesAt w) :
    i.ResultsIn [x] (Arithmetic.exclusiveOr.apply (BitVec.ofInt w.bits (-1))
      (BitVec.ofInt w.bits x)) false := by
  have haccesses : i.descriptor.accesses = [.read i.width, .write i.width] := by
    simp only [Descriptor.accesses, haction]
    rfl
  obtain rfl := hwidth.eq haccesses rfl
  intro old
  apply yields_of_locate2 haccesses hfits (by rw [execute, haction]; rfl)
  rintro located source destination hvalues rfl
  rw [← Arithmetic.complement_eq_exclusiveOr]
  exact run_deliver_one rfl rfl rfl hvalues

theorem yields_test (value : Int) (haction : i.descriptor.action = .test)
    (hfits : i.Fits i.descriptor.accesses) (hwidth : i.descriptor.OperatesAt w) :
    i.Yields [x] old value
      (Flags.ofComparison (BitVec.ofInt w.bits x) (BitVec.ofInt w.bits 0)) false := by
  have haccesses : i.descriptor.accesses = [.read i.width] := by
    simp only [Descriptor.accesses, haction]
    rfl
  obtain rfl := hwidth.eq haccesses rfl
  apply yields_of_locate1 haccesses hfits (by rw [execute, haction, test])
  rintro located source hvalues rfl
  rw [← Flags.ofResult_eq_ofComparison located.registers.flags,
    run_bind_ok (signedAll?_cons_eq_some hvalues).1]
  rfl

theorem yields_compare (value : Int) (haction : i.descriptor.action = .compare)
    (hfits : i.Fits i.descriptor.accesses) (hwidth : i.descriptor.OperatesAt w) :
    i.Yields [x, y] old value
      (Flags.ofComparison (BitVec.ofInt w.bits x) (BitVec.ofInt w.bits y)) false := by
  have haccesses : i.descriptor.accesses = [.read i.width, .read i.width] := by
    simp only [Descriptor.accesses, haction]
    rfl
  obtain rfl := hwidth.eq haccesses rfl
  apply yields_of_locate2 haccesses hfits (by rw [execute, haction]; rfl)
  rintro located left right hvalues -
  obtain ⟨hleft, hvalues⟩ := signedAll?_cons_eq_some hvalues
  rw [run_bind_ok hleft, run_bind_ok (signedAll?_cons_eq_some hvalues).1]
  rfl

theorem resultsIn_addCompareBranch (haction : i.descriptor.action = .addCompareBranch)
    (hfits : i.Fits i.descriptor.accesses) (hwidth : i.descriptor.OperatesAt w) :
    let result := Arithmetic.sum (BitVec.ofInt w.bits y) (BitVec.ofInt w.bits z)
    i.ResultsIn [x, y, z] { result with carry := none }
      (if (BitVec.ofInt w.bits y).msb then (BitVec.ofInt w.bits x).sle result.value
        else result.value.sle (BitVec.ofInt w.bits x)) := by
  have haccesses := Descriptor.accesses_of_addCompareBranch haction
  obtain rfl := hwidth.eq haccesses rfl
  rintro result _ m locations located hlocate hvalues rfl
  rw [haccesses] at hfits hvalues ⊢
  obtain ⟨limit, addend, index, target, rfl, hlocated⟩ := exists_locate4 hfits hlocate
  rw [execute, haction]
  apply run_goesOn_congr
  obtain ⟨hlimit, hvalues⟩ := signedAll?_cons_eq_some hvalues
  obtain ⟨haddend, hvalues⟩ := signedAll?_cons_eq_some hvalues
  simp only [addCompareBranch, hfits.operandWidth, pure_bind]
  rw [run_bind_ok hlocated, run_bind_ok hlimit, run_bind_ok haddend,
    run_bind_ok (signedAll?_cons_eq_some hvalues).1]
  exact run_stepIndex_deliver rfl rfl

theorem resultsIn_addOneBranch {inclusive : Bool}
    (haction : i.descriptor.action = .addOneBranch inclusive)
    (hfits : i.Fits i.descriptor.accesses) (hwidth : i.descriptor.OperatesAt w) :
    let result := Arithmetic.sum (BitVec.ofInt w.bits 1) (BitVec.ofInt w.bits y)
    i.ResultsIn [x, y] { result with carry := none }
      (if inclusive then result.value.sle (BitVec.ofInt w.bits x)
        else result.value.slt (BitVec.ofInt w.bits x)) := by
  have haccesses := Descriptor.accesses_of_addOneBranch haction
  obtain rfl := hwidth.eq haccesses rfl
  intro result old
  apply yields_of_locate3 haccesses hfits (by rw [execute, haction]; rfl)
  rintro located limit index target hvalues rfl
  obtain ⟨hlimit, hvalues⟩ := signedAll?_cons_eq_some hvalues
  rw [run_bind_ok hlimit, run_bind_ok (signedAll?_cons_eq_some hvalues).1]
  exact run_stepIndex_deliver rfl rfl

theorem resultsIn_subtractOneBranch {inclusive : Bool}
    (haction : i.descriptor.action = .subtractOneBranch inclusive)
    (hfits : i.Fits i.descriptor.accesses) (hwidth : i.descriptor.OperatesAt w) :
    let result := Arithmetic.difference (BitVec.ofInt w.bits 1) (BitVec.ofInt w.bits x)
    i.ResultsIn [x] { result with carry := none }
      (if inclusive then BitVec.sle 0 result.value else BitVec.slt 0 result.value) := by
  have haccesses := Descriptor.accesses_of_subtractOneBranch haction
  obtain rfl := hwidth.eq haccesses rfl
  intro result old
  apply yields_of_locate2 haccesses hfits (by rw [execute, haction]; rfl)
  rintro located index target hvalues rfl
  rw [run_bind_ok (signedAll?_cons_eq_some hvalues).1]
  exact run_stepIndex_deliver rfl rfl

end Actions

end Exec

/-! ## Abbreviations -/

namespace Action

/-- The general action that the action abbreviates, with the operands it has. -/
def general? : Action → List Int → Option (Action × List Int)
  | increment, [x] => some (arithmetic .add, [1, x])
  | decrement, [x] => some (arithmetic .subtract, [1, x])
  | negate, [x] => some (arithmetic .subtract, [x, 0])
  | clear, [] => some (move, [0])
  | complement, [x] => some (arithmetic .exclusiveOr, [-1, x])
  | test, [x] => some (compare, [x, 0])
  | _, _ => none

/-- The general action that steps the index of a loop, with its operands. -/
def indexUpdate? : Action → List Int → Option (Action × List Int)
  | addCompareBranch, [_, addend, index] => some (arithmetic .add, [addend, index])
  | addOneBranch _, [_, index] => some (arithmetic .add, [1, index])
  | subtractOneBranch _, [index] => some (arithmetic .subtract, [1, index])
  | _, _ => none

example : [increment, decrement, negate, clear, complement, test].map Catalog.mnemonics =
    [["incb", "incw", "incl"], ["decb", "decw", "decl"], ["mnegb", "mnegw", "mnegl"],
      ["clrq", "clrb", "clrw", "clrl"], ["mcomb", "mcomw", "mcoml"],
      ["tstb", "tstw", "tstl"]] := by
  decide +kernel

example : [arithmetic .add, arithmetic .subtract, arithmetic .exclusiveOr, move, compare].map
      Catalog.mnemonics =
    [["addb2", "addb3", "addw2", "addw3", "addl2", "addl3"],
      ["subb2", "subb3", "subw2", "subw3", "subl2", "subl3"],
      ["xorb2", "xorb3", "xorw2", "xorw3", "xorl2", "xorl3"], ["movq", "movb", "movw", "movl"],
      ["cmpb", "cmpw", "cmpl"]] := by
  decide +kernel

end Action

open Exec

section

variable {special general : Instruction} {w : Width} {values values' : List Int}

theorem yields_general (hspecial : special.Fits special.descriptor.accesses)
    (hgeneral : general.Fits general.descriptor.accesses)
    (hspecialWidth : special.descriptor.OperatesAt w)
    (hgeneralWidth : general.descriptor.OperatesAt w)
    (h : special.descriptor.action.general? values = some (general.descriptor.action, values'))
    (old : Flags) :
    ∃ value new, general.Yields values' old value new false ∧
      special.Yields values old value new false := by
  unfold Action.general? at h
  split at h
  · next haction =>
    obtain ⟨haction', rfl⟩ := Prod.mk.inj (Option.some.inj h)
    exact ⟨_, _, resultsIn_arithmetic haction'.symm hgeneral hgeneralWidth old,
      resultsIn_increment haction hspecial hspecialWidth old⟩
  · next haction =>
    obtain ⟨haction', rfl⟩ := Prod.mk.inj (Option.some.inj h)
    exact ⟨_, _, resultsIn_arithmetic haction'.symm hgeneral hgeneralWidth old,
      resultsIn_decrement haction hspecial hspecialWidth old⟩
  · next haction =>
    obtain ⟨haction', rfl⟩ := Prod.mk.inj (Option.some.inj h)
    exact ⟨_, _, resultsIn_arithmetic haction'.symm hgeneral hgeneralWidth old,
      resultsIn_negate haction hspecial hspecialWidth old⟩
  · next haction =>
    obtain ⟨haction', rfl⟩ := Prod.mk.inj (Option.some.inj h)
    exact ⟨_, _, resultsIn_move haction'.symm hgeneral hgeneralWidth old,
      resultsIn_clear haction hspecial hspecialWidth old⟩
  · next haction =>
    obtain ⟨haction', rfl⟩ := Prod.mk.inj (Option.some.inj h)
    exact ⟨_, _, resultsIn_arithmetic haction'.symm hgeneral hgeneralWidth old,
      resultsIn_complement haction hspecial hspecialWidth old⟩
  · next haction =>
    obtain ⟨haction', rfl⟩ := Prod.mk.inj (Option.some.inj h)
    exact ⟨0, _, yields_compare 0 haction'.symm hgeneral hgeneralWidth,
      yields_test 0 haction hspecial hspecialWidth⟩
  · exact absurd h nofun

theorem yields_indexUpdate (hspecial : special.Fits special.descriptor.accesses)
    (hgeneral : general.Fits general.descriptor.accesses)
    (hspecialWidth : special.descriptor.OperatesAt w)
    (hgeneralWidth : general.descriptor.OperatesAt w)
    (h : special.descriptor.action.indexUpdate? values =
      some (general.descriptor.action, values')) (old : Flags) :
    ∃ value new taken, general.Yields values' old value new false ∧
      special.Yields values old value { new with c := old.c } taken := by
  unfold Action.indexUpdate? at h
  split at h
  · next haction =>
    obtain ⟨haction', rfl⟩ := Prod.mk.inj (Option.some.inj h)
    exact ⟨_, _, _, resultsIn_arithmetic haction'.symm hgeneral hgeneralWidth old,
      resultsIn_addCompareBranch haction hspecial hspecialWidth old⟩
  · next haction =>
    obtain ⟨haction', rfl⟩ := Prod.mk.inj (Option.some.inj h)
    exact ⟨_, _, _, resultsIn_arithmetic haction'.symm hgeneral hgeneralWidth old,
      resultsIn_addOneBranch haction hspecial hspecialWidth old⟩
  · next haction =>
    obtain ⟨haction', rfl⟩ := Prod.mk.inj (Option.some.inj h)
    exact ⟨_, _, _, resultsIn_arithmetic haction'.symm hgeneral hgeneralWidth old,
      resultsIn_subtractOneBranch haction hspecial hspecialWidth old⟩
  · exact absurd h nofun

end

/-- A special instruction and the general one that it abbreviates come to the
same.  At one width, with the same condition codes before and with operands that
correspond, they deliver one value and one set of codes: counting is adding or
subtracting one, negating is subtracting from zero, clearing is moving zero,
complementing is excluding all ones, and testing is comparing with zero.  A loop
steps its index likewise but keeps the carry.  A comparison sets the codes of the
subtraction, with the sign put right and no overflow. -/
theorem abbreviations_agree {special general : Instruction} {w : Width}
    (hspecial : special.Fits special.descriptor.accesses)
    (hgeneral : general.Fits general.descriptor.accesses)
    (hspecialWidth : special.descriptor.OperatesAt w)
    (hgeneralWidth : general.descriptor.OperatesAt w) (values values' : List Int) (old : Flags) :
    (special.descriptor.action.general? values = some (general.descriptor.action, values') →
      ∃ value new, general.Yields values' old value new false ∧
        special.Yields values old value new false) ∧
    (special.descriptor.action.indexUpdate? values = some (general.descriptor.action, values') →
      ∃ value new taken, general.Yields values' old value new false ∧
        special.Yields values old value { new with c := old.c } taken) ∧
    (special.descriptor.action = .compare → general.descriptor.action = .arithmetic .subtract →
      ∀ left right, values = [left, right] → values' = [right, left] →
        ∃ value new, general.Yields values' old value new false ∧
          special.Yields values old value ⟨new.n ^^ new.v, new.z, false, new.c⟩ false) := by
  refine ⟨?_, ?_, ?_⟩
  · intro h
    exact yields_general hspecial hgeneral hspecialWidth hgeneralWidth h old
  · intro h
    exact yields_indexUpdate hspecial hgeneral hspecialWidth hgeneralWidth h old
  · rintro hcompare hsubtract left right rfl rfl
    refine ⟨_, _, resultsIn_arithmetic hsubtract hgeneral hgeneralWidth old, ?_⟩
    have hyields (value : Int) : special.Yields [left, right] old value
        (Flags.ofComparison (BitVec.ofInt w.bits left) (BitVec.ofInt w.bits right)) false :=
      yields_compare value hcompare hspecial hspecialWidth
    rw [Flags.ofComparison_eq_difference w.bits_pos old] at hyields
    exact hyields _

/-- The least byte less one, by either instruction. -/
theorem abbreviations_agree_least :
    let m : Machine :=
      { registers := Registers.zeroed.set 1 0x12345680
        memory := ⟨0, 16, ByteArray.empty⟩
        symbols := .empty, entry := 0, status := .running, frames := #[],
        output := .unlimited, log := .empty none, current := 0 }
    let special : Instruction :=
      { address := 0, length := 2
        descriptor := ⟨0x97, "decb", [.byte], .decrement⟩
        operands := [⟨.byte, .plain (.register 1)⟩] }
    let general : Instruction :=
      { address := 0, length := 3
        descriptor := ⟨0x82, "subb2", [.byte, .byte], .arithmetic .subtract⟩
        operands := [⟨.byte, .plain (.literal 1)⟩, ⟨.byte, .plain (.register 1)⟩] }
    special.descriptor ∈ Catalog.descriptors ∧ general.descriptor ∈ Catalog.descriptors ∧
      (execute special).run m = (execute general).run m ∧
      ∃ after, (execute special).run m = .ok none after := by
  intro m special general
  have hspecial : special.Fits special.descriptor.accesses := by
    unfold Instruction.Fits
    decide +kernel
  have hgeneral : general.Fits general.descriptor.accesses := by
    unfold Instruction.Fits
    decide +kernel
  obtain ⟨value, new, hsubtracts, hdecrements⟩ :=
    (abbreviations_agree (w := .byte) hspecial hgeneral (by decide +kernel) (by decide +kernel)
      [-128] [1, -128] .clear).1 rfl
  have hdecremented := hdecrements m [.register 1] m rfl (by decide +kernel) rfl
  have hsubtracted := hsubtracts m [.value 1, .register 1] m rfl (by decide +kernel) rfl
  refine ⟨by decide +kernel, by decide +kernel, ?_, exists_run (by decide +kernel)⟩
  have hmodify : special.descriptor.accesses = [.modify .byte] := by decide +kernel
  have hreadModify : general.descriptor.accesses = [.read .byte, .modify .byte] := by
    decide +kernel
  rw [hdecremented, hsubtracted, hmodify, hreadModify]
  rfl

end Vax
