import Mathlib.Logic.Function.Iterate
import Mathlib.Order.Bounds.Defs
import Vax.Proofs.Integer.Abbreviations
import Vax.Proofs.Machine.Listed
import Vax.Proofs.Machine.Outcome
/-!
# Loops count exactly

A loop instruction that branches back to itself steps its index by the same
amount in every round, until the index has passed a limit.  Where that stays in
the range of the index, the rounds can be counted in unbounded arithmetic.
-/

namespace Vax

/-! ## Loops -/

/-- The low bits of a register, taken as a signed value. -/
def Registers.signed (rs : Registers) (w : Width) (r : Register) : Int :=
  ((rs.get r).toBitVec.setWidth w.bits).toInt

/-- A signed value of the width. -/
def Width.Reaches (w : Width) (value : Int) : Prop :=
  -2 ^ (w.bits - 1) ≤ value ∧ value < 2 ^ (w.bits - 1)

/-- An index that comes to this value ends the loop. -/
def Action.hasPassed (limit addend value : Int) : Action → Bool
  | addCompareBranch => if 0 ≤ addend then limit < value else value < limit
  | addOneBranch inclusive => if inclusive then limit < value else limit ≤ value
  | subtractOneBranch inclusive => if inclusive then value < limit else value ≤ limit
  | _ => true

/-- Evaluating the operand finds the place and changes nothing. -/
def Operand.StandsAt (m : Machine) (operand : Operand) (location : Location) : Prop :=
  (Exec.locate operand.kind.size operand.specifier).run m = .ok location m

/-- The value of an operand that counting in a register does not change. -/
def Operand.fixedValue? (rs : Registers) (w : Width) (index : Register) (operand : Operand) :
    Option Int :=
  match operand.specifier with
  | .plain (.register r) =>
    if r = index ∨ r = Register.pc then none else some (rs.signed w r)
  | specifier => specifier.constant?.map fun n => (w.truncate n).toInt

/-- The instruction counts in a register, by an addend and up to a limit, and
branches back to itself. -/
inductive Instruction.Loops (i : Instruction) (rs : Registers) (index : Register) :
    Width → Int → Int → Prop
  | addCompare {w : Width} {kind : OperandKind} {limit addend : Operand} {x a : Int}
    (haction : i.descriptor.action = .addCompareBranch)
    (hoperands : i.operands =
      [limit, addend, ⟨w.kind, .plain (.register index)⟩, ⟨kind, .branch i.address⟩])
    (hlimit : limit.fixedValue? rs w index = some x)
    (haddend : addend.fixedValue? rs w index = some a) : Loops i rs index w x a
  | addOne {inclusive : Bool} {kind : OperandKind} {limit : Operand} {x : Int}
    (haction : i.descriptor.action = .addOneBranch inclusive)
    (hoperands : i.operands =
      [limit, ⟨.long, .plain (.register index)⟩, ⟨kind, .branch i.address⟩])
    (hlimit : limit.fixedValue? rs .long index = some x) : Loops i rs index .long x 1
  | subtractOne {inclusive : Bool} {kind : OperandKind}
    (haction : i.descriptor.action = .subtractOneBranch inclusive)
    (hoperands : i.operands =
      [⟨.long, .plain (.register index)⟩, ⟨kind, .branch i.address⟩]) :
    Loops i rs index .long 0 (-1)

example : [Action.addCompareBranch, .addOneBranch false, .addOneBranch true,
      .subtractOneBranch true, .subtractOneBranch false].map Catalog.mnemonics =
    [["acbw", "acbb", "acbl"], ["aoblss"], ["aobleq"], ["sobgeq"], ["sobgtr"]] := by
  decide +kernel

/-- The machine has counted to a value in a register, at its width, and has set
the condition codes but for the carry.  It may be elsewhere now, and its log may
tell of it; nothing else has changed. -/
structure Machine.CountsTo (m : Machine) (w : Width) (index : Register) (value : Int)
    (after : Machine) : Prop where
  signed_eq : after.registers.signed w index = value
  upper_eq : (after.registers.get index).toNat / 2 ^ w.bits =
    (m.registers.get index).toNat / 2 ^ w.bits
  get_eq : ∀ r, r ≠ index → r ≠ Register.pc → after.registers.get r = m.registers.get r
  flags_eq : after.registers.flags = ⟨value < 0, value = 0, false, m.registers.flags.c⟩
  machine_eq : after = { m with
    registers := after.registers
    log := after.log
    current := m.registers.pc }
  log_eq : m.log.enabled .trace = false → after.log = m.log

/-! ## Registers and operands -/

section Values

variable {w : Width} {rs rs' : Registers} {index r : Register}

theorem Registers.signed_eq_of_get_eq (h : rs'.get r = rs.get r) :
    rs'.signed w r = rs.signed w r := by
  rw [signed, h, signed]

theorem Registers.reaches_signed (rs : Registers) (w : Width) (r : Register) :
    w.Reaches (rs.signed w r) :=
  ⟨BitVec.le_toInt _, BitVec.toInt_lt⟩

theorem Exec.setWidth_merge (hw : w ≠ .quad) (old : UInt32) (value : BitVec w.bits) :
    (merge old value).toBitVec.setWidth w.bits = value := by
  apply BitVec.eq_of_toNat_eq
  rw [BitVec.toNat_setWidth, UInt32.toNat_toBitVec, toNat_merge (Width.bits_le hw),
    Nat.mul_add_mod_self_right, Nat.mod_eq_of_lt value.isLt]

theorem Exec.merge_div (hw : w ≠ .quad) (old : UInt32) (value : BitVec w.bits) :
    (merge old value).toNat / 2 ^ w.bits = old.toNat / 2 ^ w.bits := by
  rw [toNat_merge (Width.bits_le hw), Nat.mul_comm, Nat.mul_add_div (Nat.two_pow_pos _),
    Nat.div_eq_of_lt value.isLt, Nat.add_zero]

theorem Machine.signed?_register (hw : w ≠ .quad) (m : Machine) (r : Register) :
    m.signed? w (.register r) = some (m.registers.signed w r) := by
  rw [signed?, Registers.setWidth_pair hw, Registers.signed]

theorem Operand.fixedValue?_congr (h : ∀ r, r ≠ index → r ≠ Register.pc → rs'.get r = rs.get r)
    (operand : Operand) : operand.fixedValue? rs' w index = operand.fixedValue? rs w index := by
  unfold fixedValue?
  split
  · split
    · rfl
    · next hr =>
      rw [not_or] at hr
      rw [Registers.signed_eq_of_get_eq (h _ hr.1 hr.2)]
  · rfl

theorem Operand.reaches_fixedValue? {operand : Operand} {x : Int}
    (h : operand.fixedValue? rs w index = some x) : w.Reaches x := by
  unfold fixedValue? at h
  split at h
  · split at h
    · exact absurd h nofun
    · obtain rfl := Option.some.inj h
      exact rs.reaches_signed w _
  · obtain ⟨n, -, rfl⟩ := Option.map_eq_some_iff.1 h
    exact ⟨BitVec.le_toInt _, BitVec.toInt_lt⟩

theorem Operand.exists_standsAt_of_constant {memory : Memory} {operand : Operand} {n : Nat}
    (hencoded : operand.IsEncodedIn memory) (h : operand.specifier.constant? = some n)
    (m : Machine) : ∃ location, operand.StandsAt m location := by
  unfold StandsAt
  obtain ⟨byte, hspecifier, -⟩ | ⟨address, hspecifier, -⟩ := hencoded.constant h
  · rw [hspecifier]
    exact ⟨_, rfl⟩
  · rw [hspecifier]
    exact ⟨_, rfl⟩

/-- Such an operand is found without a change, and has its value there. -/
theorem Operand.exists_standsAt_of_fixedValue {m : Machine} {operand : Operand} {x : Int}
    (hencoded : operand.IsEncodedIn m.memory) (hkind : operand.kind = w.kind) (hw : w ≠ .quad)
    (h : operand.fixedValue? m.registers w index = some x) :
    ∃ location, operand.StandsAt m location ∧ m.signed? w location = some x := by
  unfold fixedValue? at h
  split at h
  · next r hspecifier =>
    split at h
    · exact absurd h nofun
    · have hstands : operand.StandsAt m (.register r) := by
        rw [StandsAt, hspecifier]
        rfl
      exact ⟨.register r, hstands, (m.signed?_register hw r).trans h⟩
  · obtain ⟨n, hconstant, rfl⟩ := Option.map_eq_some_iff.1 h
    obtain ⟨location, hstands⟩ := exists_standsAt_of_constant hencoded hconstant m
    obtain ⟨-, hread⟩ :=
      Exec.run_read_constant hencoded hkind hconstant ⟨m, m, rfl, hstands⟩ rfl
    exact ⟨location, hstands, (Exec.run_read_signed hread).2⟩

/-- Operands that are found without a change are all found so. -/
theorem Exec.run_mapM_locate {m : Machine} {operands : List Operand} {locations : List Location}
    (h : operands.Forall₂ (Operand.StandsAt m) locations) :
    (operands.mapM fun operand => locate operand.kind.size operand.specifier).run m =
      .ok locations m := by
  induction h with
  | nil => rfl
  | cons hfirst _ ih => exact run_mapM_cons_eq_ok.2 ⟨_, _, _, rfl, hfirst, ih⟩

end Values

/-! ## The results of one round -/

section Results

variable {w : Nat}

/-- The condition codes of a result, as its signed value has them. -/
theorem Flags.ofResult_eq_toInt (old : Flags) (value : BitVec w) (overflow : Bool)
    (carry : Option Bool) : old.ofResult value overflow carry =
      ⟨value.toInt < 0, value.toInt = 0, overflow, carry.getD old.c⟩ := by
  have hzero : (value == 0) = decide (value.toInt = 0) := by
    rw [Bool.eq_iff_iff, beq_iff_eq, decide_eq_true_iff, ← BitVec.toInt_inj]
    simp
  rw [ofResult, BitVec.msb_eq_toInt, hzero]

theorem Action.hasPassed_addCompareBranch (limit addend value : BitVec w) :
    (if addend.msb then limit.sle value else value.sle limit) =
      !addCompareBranch.hasPassed limit.toInt addend.toInt value.toInt := by
  rw [BitVec.msb_eq_toInt, BitVec.sle_eq_decide, BitVec.sle_eq_decide, hasPassed]
  by_cases hsign : addend.toInt < 0
  · rw [decide_eq_true hsign, if_neg (Int.not_le.2 hsign), ← decide_not]
    simp
  · rw [decide_eq_false hsign, if_pos (Int.not_lt.1 hsign), ← decide_not]
    simp

theorem Action.hasPassed_addOneBranch (inclusive : Bool) (limit value : BitVec w) (addend : Int) :
    (if inclusive then value.sle limit else value.slt limit) =
      !(addOneBranch inclusive).hasPassed limit.toInt addend value.toInt := by
  cases inclusive with
  | true => simp [hasPassed, BitVec.sle_eq_decide, ← decide_not]
  | false => simp [hasPassed, BitVec.slt_eq_decide, ← decide_not]

theorem Action.hasPassed_subtractOneBranch (inclusive : Bool) (value : BitVec w) (addend : Int) :
    (if inclusive then BitVec.sle 0 value else BitVec.slt 0 value) =
      !(subtractOneBranch inclusive).hasPassed 0 addend value.toInt := by
  cases inclusive with
  | true => simp [hasPassed, BitVec.sle_eq_decide, ← decide_not]
  | false => simp [hasPassed, BitVec.slt_eq_decide, ← decide_not]

end Results

theorem Width.Reaches.toInt_ofInt {w : Width} {x : Int} (h : w.Reaches x) :
    (BitVec.ofInt w.bits x).toInt = x :=
  BitVec.toInt_ofInt_eq_self w.bits_pos h.1 h.2

theorem Catalog.operandWidth_ne_quad : ∀ d ∈ descriptors, d.action = .addCompareBranch →
    d.operandWidth 0 ≠ .quad := by
  decide +kernel

namespace Instruction

variable {i : Instruction} {w : Width} {x limit addend : Int}

/-- In the range of its width the result is exact, so the loop is left once
that has passed the limit. -/
theorem ResultsIn.yields {values : List Int} {result : ArithmeticResult w.bits} {exact : Exact}
    (h : i.ResultsIn values { result with carry := none }
      (!i.descriptor.action.hasPassed limit addend result.value.toInt))
    (hcomputes : result.Computes exact) (hdivides : exact.dividesByZero = false)
    (hexact : exact.value = x) (hrange : w.Reaches x) (old : Flags) :
    i.Yields values old x ⟨x < 0, x = 0, false, old.c⟩
      (!i.descriptor.action.hasPassed limit addend x) := by
  have hvalue : result.value.toInt = x := by
    rw [hcomputes.value, hexact, hrange.toInt_ofInt]
  have hoverflow : result.overflow = false := by
    rw [hcomputes.overflow, Exact.overflows, hdivides, hexact,
      decide_eq_false (Int.not_lt.2 hrange.1), decide_eq_false (Int.not_le.2 hrange.2)]
    rfl
  have hyields := h old
  rw [Flags.ofResult_eq_toInt, hvalue, hoverflow] at hyields
  exact hyields

theorem yields_addCompareBranch (haction : i.descriptor.action = .addCompareBranch)
    (hfits : i.Fits i.descriptor.accesses) (hwidth : i.descriptor.OperatesAt w)
    (hlimit : w.Reaches limit) (haddend : w.Reaches addend) (hindex : w.Reaches x)
    (hrange : w.Reaches (x + addend)) (old : Flags) :
    i.Yields [limit, addend, x] old (x + addend)
      ⟨x + addend < 0, x + addend = 0, false, old.c⟩
      (!i.descriptor.action.hasPassed limit addend (x + addend)) := by
  have hcomputes := Arithmetic.sum_computes (BitVec.ofInt w.bits addend) (BitVec.ofInt w.bits x)
  have hresults := Exec.resultsIn_addCompareBranch (x := limit) (y := addend) (z := x)
    haction hfits hwidth
  rw [haddend.toInt_ofInt, hindex.toInt_ofInt] at hcomputes
  simp only [Action.hasPassed_addCompareBranch, hlimit.toInt_ofInt, haddend.toInt_ofInt,
    ← haction] at hresults
  exact hresults.yields hcomputes rfl rfl hrange old

theorem yields_addOneBranch {inclusive : Bool}
    (haction : i.descriptor.action = .addOneBranch inclusive)
    (hfits : i.Fits i.descriptor.accesses) (hwidth : i.descriptor.OperatesAt w)
    (hlimit : w.Reaches limit) (hindex : w.Reaches x) (hrange : w.Reaches (x + 1)) (old : Flags) :
    i.Yields [limit, x] old (x + 1) ⟨x + 1 < 0, x + 1 = 0, false, old.c⟩
      (!i.descriptor.action.hasPassed limit 1 (x + 1)) := by
  have hone : (BitVec.ofInt w.bits 1).toInt = 1 := Arithmetic.toInt_one w.one_lt_bits
  have hcomputes := Arithmetic.sum_computes (BitVec.ofInt w.bits 1) (BitVec.ofInt w.bits x)
  have hresults := Exec.resultsIn_addOneBranch (x := limit) (y := x) haction hfits hwidth
  rw [hone, hindex.toInt_ofInt] at hcomputes
  simp only [Action.hasPassed_addOneBranch _ _ _ 1, hlimit.toInt_ofInt, ← haction] at hresults
  exact hresults.yields hcomputes rfl rfl hrange old

theorem yields_subtractOneBranch {inclusive : Bool}
    (haction : i.descriptor.action = .subtractOneBranch inclusive)
    (hfits : i.Fits i.descriptor.accesses) (hwidth : i.descriptor.OperatesAt w)
    (hindex : w.Reaches x) (hrange : w.Reaches (x + -1)) (old : Flags) :
    i.Yields [x] old (x + -1) ⟨x + -1 < 0, x + -1 = 0, false, old.c⟩
      (!i.descriptor.action.hasPassed 0 (-1) (x + -1)) := by
  have hone : (BitVec.ofInt w.bits 1).toInt = 1 := Arithmetic.toInt_one w.one_lt_bits
  have hcomputes := Arithmetic.difference_computes (BitVec.ofInt w.bits 1) (BitVec.ofInt w.bits x)
  have hresults := Exec.resultsIn_subtractOneBranch (x := x) haction hfits hwidth
  rw [hone, hindex.toInt_ofInt] at hcomputes
  simp only [Action.hasPassed_subtractOneBranch _ _ (-1), ← haction] at hresults
  exact hresults.yields hcomputes rfl rfl hrange old

/-- The instruction finds its operands without a change and then writes a value
to a register, which sets the condition codes but for the carry, and goes back
to itself if it `stays`. -/
def Counts (i : Instruction) (m : Machine) (w : Width) (index : Register) (value : Int)
    (stays : Bool) : Prop :=
  ∃ locations values, (Exec.locateAll i).run m = .ok locations m ∧
    m.signedAll? (Access.sources i.descriptor.accesses locations) = some values ∧
    Access.destinations i.descriptor.accesses locations = [(w, .register index)] ∧
    Access.targets i.descriptor.accesses locations = [.value i.address] ∧
    ∀ old, i.Yields values old value ⟨value < 0, value = 0, false, old.c⟩ stays

section Counting

variable {m : Machine} {index : Register} {inclusive : Bool} {kind : OperandKind}
  {first second : Operand}

theorem counts_of_places {accesses : List Access} {locations : List Location} {values : List Int}
    {value : Int} {stays : Bool} (haccesses : i.descriptor.accesses = accesses)
    (hplaces : i.operands.Forall₂ (Operand.StandsAt m) locations)
    (hvalues : m.signedAll? (Access.sources accesses locations) = some values)
    (hdestinations : Access.destinations accesses locations = [(w, .register index)])
    (htargets : Access.targets accesses locations = [.value i.address])
    (hyields : ∀ old, i.Yields values old value ⟨value < 0, value = 0, false, old.c⟩ stays) :
    i.Counts m w index value stays := by
  subst haccesses
  exact ⟨locations, values, Exec.run_mapM_locate hplaces, hvalues, hdestinations, htargets, hyields⟩

theorem counts_addCompareBranch (hencoded : i.IsEncodedIn m.memory)
    (haction : i.descriptor.action = .addCompareBranch)
    (hoperands : i.operands =
      [first, second, ⟨w.kind, .plain (.register index)⟩, ⟨kind, .branch i.address⟩])
    (hlimit : first.fixedValue? m.registers w index = some limit)
    (haddend : second.fixedValue? m.registers w index = some addend)
    (hrange : w.Reaches (m.registers.signed w index + addend)) :
    w ≠ .quad ∧ i.Counts m w index (m.registers.signed w index + addend)
      (!i.descriptor.action.hasPassed limit addend (m.registers.signed w index + addend)) := by
  have haccesses := Descriptor.accesses_of_addCompareBranch haction
  have hfits := hencoded.fits (by simp [haction])
  have hkinds := hfits
  simp only [haccesses, Fits, hoperands, List.forall₂_cons, Access.Fits] at hkinds
  obtain ⟨hfirst, hsecond, hindex, -⟩ := hkinds
  have hw := Catalog.operandWidth_ne_quad _ hencoded.catalogued haction
  rw [← Width.kind_injective hindex] at haccesses hfirst hsecond hw
  have hwidth := Descriptor.OperatesAt.of_accesses (w := w) haccesses (by simp [Access.width?])
  obtain ⟨p, hp, hpvalue⟩ := Operand.exists_standsAt_of_fixedValue
    (hencoded.operands first (by rw [hoperands]; simp)) hfirst hw hlimit
  obtain ⟨q, hq, hqvalue⟩ := Operand.exists_standsAt_of_fixedValue
    (hencoded.operands second (by rw [hoperands]; simp)) hsecond hw haddend
  have hplaces : i.operands.Forall₂ (Operand.StandsAt m)
      [p, q, .register index, .value i.address] := by
    rw [hoperands]
    exact .cons hp (.cons hq (.cons rfl (.cons rfl .nil)))
  exact ⟨hw, counts_of_places haccesses hplaces
    (Machine.signedAll?_cons hpvalue (Machine.signedAll?_cons hqvalue
      (Machine.signedAll?_cons (m.signed?_register hw index) rfl))) rfl rfl
    (yields_addCompareBranch haction hfits hwidth (Operand.reaches_fixedValue? hlimit)
      (Operand.reaches_fixedValue? haddend) (m.registers.reaches_signed w index) hrange)⟩

theorem counts_addOneBranch (hencoded : i.IsEncodedIn m.memory)
    (haction : i.descriptor.action = .addOneBranch inclusive)
    (hoperands : i.operands =
      [first, ⟨.long, .plain (.register index)⟩, ⟨kind, .branch i.address⟩])
    (hlimit : first.fixedValue? m.registers .long index = some limit)
    (hrange : Width.long.Reaches (m.registers.signed .long index + 1)) :
    i.Counts m .long index (m.registers.signed .long index + 1)
      (!i.descriptor.action.hasPassed limit 1 (m.registers.signed .long index + 1)) := by
  have haccesses := Descriptor.accesses_of_addOneBranch haction
  have hfits := hencoded.fits (by simp [haction])
  have hkinds := hfits
  simp only [haccesses, Fits, hoperands, List.forall₂_cons, Access.Fits] at hkinds
  have hwidth := Descriptor.OperatesAt.of_accesses (w := .long) haccesses (by simp [Access.width?])
  obtain ⟨p, hp, hpvalue⟩ := Operand.exists_standsAt_of_fixedValue
    (hencoded.operands first (by rw [hoperands]; simp)) hkinds.1 (by decide) hlimit
  have hplaces : i.operands.Forall₂ (Operand.StandsAt m)
      [p, .register index, .value i.address] := by
    rw [hoperands]
    exact .cons hp (.cons rfl (.cons rfl .nil))
  exact counts_of_places haccesses hplaces
    (Machine.signedAll?_cons hpvalue
      (Machine.signedAll?_cons (m.signed?_register (by decide) index) rfl)) rfl rfl
    (yields_addOneBranch haction hfits hwidth (Operand.reaches_fixedValue? hlimit)
      (m.registers.reaches_signed .long index) hrange)

theorem counts_subtractOneBranch (hencoded : i.IsEncodedIn m.memory)
    (haction : i.descriptor.action = .subtractOneBranch inclusive)
    (hoperands : i.operands = [⟨.long, .plain (.register index)⟩, ⟨kind, .branch i.address⟩])
    (hrange : Width.long.Reaches (m.registers.signed .long index + -1)) :
    i.Counts m .long index (m.registers.signed .long index + -1)
      (!i.descriptor.action.hasPassed 0 (-1) (m.registers.signed .long index + -1)) := by
  have haccesses := Descriptor.accesses_of_subtractOneBranch haction
  have hfits := hencoded.fits (by simp [haction])
  have hwidth := Descriptor.OperatesAt.of_accesses (w := .long) haccesses (by simp [Access.width?])
  have hplaces : i.operands.Forall₂ (Operand.StandsAt m)
      [.register index, .value i.address] := by
    rw [hoperands]
    exact .cons rfl (.cons rfl .nil)
  exact counts_of_places haccesses hplaces
    (Machine.signedAll?_cons (m.signed?_register (by decide) index) rfl) rfl rfl
    (yields_subtractOneBranch haction hfits hwidth (m.registers.reaches_signed .long index) hrange)

theorem Loops.counts (h : i.Loops m.registers index w limit addend)
    (hencoded : i.IsEncodedIn m.memory)
    (hrange : w.Reaches (m.registers.signed w index + addend)) :
    w ≠ .quad ∧ i.Counts m w index (m.registers.signed w index + addend)
      (!i.descriptor.action.hasPassed limit addend (m.registers.signed w index + addend)) := by
  cases h with
  | addCompare haction hoperands hlimit haddend =>
    exact counts_addCompareBranch hencoded haction hoperands hlimit haddend hrange
  | addOne haction hoperands hlimit =>
    exact ⟨by decide, counts_addOneBranch hencoded haction hoperands hlimit hrange⟩
  | subtractOne haction hoperands =>
    exact ⟨by decide, counts_subtractOneBranch hencoded haction hoperands hrange⟩

end Counting

/-- Where the operands of a loop keep their values, it is the same loop. -/
theorem Loops.congr {rs rs' : Registers} {index : Register} (h : i.Loops rs index w limit addend)
    (hget : ∀ r, r ≠ index → r ≠ Register.pc → rs'.get r = rs.get r) :
    i.Loops rs' index w limit addend := by
  cases h with
  | addCompare haction hoperands hlimit haddend =>
    exact .addCompare haction hoperands ((Operand.fixedValue?_congr hget _).trans hlimit)
      ((Operand.fixedValue?_congr hget _).trans haddend)
  | addOne haction hoperands hlimit =>
    exact .addOne haction hoperands ((Operand.fixedValue?_congr hget _).trans hlimit)
  | subtractOne haction hoperands => exact .subtractOne haction hoperands

end Instruction

/-! ## One round -/

section Rounds

variable {m between after : Machine} {i : Instruction} {w : Width} {index : Register}
  {value value' limit addend : Int} {stays : Bool}

/-- The registers after a value was written to one of them at a width. -/
def Registers.counted (rs : Registers) (w : Width) (index : Register) (value : Int) : Registers :=
  (rs.set index (Exec.merge (rs.get index) (BitVec.ofInt w.bits value))).setFlags
    ⟨value < 0, value = 0, false, rs.flags.c⟩

/-- The registers after a branch. -/
def Registers.branched (rs : Registers) (target : UInt32) (taken : Bool) : Registers :=
  if taken then rs.set Register.pc target else rs

namespace Registers

variable {rs : Registers} {r : Register} {target : UInt32} {taken : Bool}

theorem get_counted_of_ne (hr : r ≠ index) : (rs.counted w index value).get r = rs.get r :=
  get_set_of_ne _ _ hr.symm

theorem get_counted_self : (rs.counted w index value).get index =
    Exec.merge (rs.get index) (BitVec.ofInt w.bits value) :=
  get_set_self _ _ _

theorem get_branched_of_ne (hr : r ≠ Register.pc) :
    (rs.branched target taken).get r = rs.get r := by
  cases taken with
  | true => exact get_set_of_ne _ _ hr.symm
  | false => rfl

theorem pc_branched : (rs.branched target taken).pc = if taken then target else rs.pc := by
  cases taken with
  | true => exact get_set_self _ _ _
  | false => rfl

theorem flags_branched : (rs.branched target taken).flags = rs.flags := by
  cases taken with
  | true => rfl
  | false => rfl

end Registers

theorem Exec.run_deliver_counted {accesses : List Access} {locations : List Location}
    {target : UInt32} (hw : w ≠ .quad)
    (hdestinations : Access.destinations accesses locations = [(w, .register index)])
    (htargets : Access.targets accesses locations = [.value target]) :
    (deliver accesses locations value ⟨value < 0, value = 0, false, m.registers.flags.c⟩
        stays).run m =
      .ok () (m.withRegisters ((m.registers.counted w index value).branched target stays)) := by
  have hwrite : (write w (BitVec.ofInt w.bits value) (.register index)).run m =
      .ok () (m.withRegisters (m.registers.set index
        (merge (m.registers.get index) (BitVec.ofInt w.bits value)))) := by
    rw [write, run_bind_ok (run_getRegister index), run_bind_ok (run_setRegister index _),
      if_neg hw]
    rfl
  rw [deliver_to_target hdestinations htargets, bind_assoc, run_bind_ok hwrite]
  cases stays with
  | true => rfl
  | false => rfl

namespace Machine

theorem step_of_counts (hrunning : m.status = .running)
    (hfetch : m.memory.instructionAt m.registers.pc = .ok i) (hw : w ≠ .quad)
    (h : i.Counts (m.fetched i) w index value stays) :
    m.step = (m.fetched i).withRegisters
      (((m.fetched i).registers.counted w index value).branched i.address stays) := by
  obtain ⟨locations, values, hlocate, hvalues, hdestinations, htargets, hyields⟩ := h
  have hfetched : Exec.fetchNext.run m.begun = .ok i (m.fetched i) :=
    Exec.run_fetchNext (m := m.begun) hfetch
  apply step_of_run hrunning
  rw [Exec.run_bind_ok hfetched, hyields _ _ _ _ hlocate hvalues rfl, Exec.goesOn,
    Exec.run_bind_ok (Exec.run_deliver_counted hw hdestinations htargets)]
  rfl

theorem get_fetched {r : Register} (hr : r ≠ Register.pc) :
    (m.fetched i).registers.get r = m.registers.get r :=
  Registers.get_set_of_ne _ _ hr.symm

theorem log_fetched (h : m.log.enabled .trace = false) : (m.fetched i).log = m.log := by
  show m.log.add .trace (fun _ => m.traceLine) = m.log
  rw [Log.add, if_neg (by simp [h])]

/-- Each step of a loop adds to its index.  It leads behind the loop once the
index has passed the limit, and back to the loop before. -/
theorem countsTo_step (hrunning : m.status = .running)
    (hfetch : m.memory.instructionAt m.registers.pc = .ok i)
    (hloops : i.Loops m.registers index w limit addend) (hindex : index ≠ Register.pc)
    (hvalue : m.registers.signed w index + addend = value) (hrange : w.Reaches value) :
    m.CountsTo w index value m.step ∧ m.step.registers.pc =
      if i.descriptor.action.hasPassed limit addend value then i.nextAddress else i.address := by
  have hencoded := Memory.isEncodedIn_of_instructionAt hfetch
  have hfetched := hloops.congr fun r _ hr => get_fetched (m := m) (i := i) hr
  have hsigned : (m.fetched i).registers.signed w index = m.registers.signed w index :=
    Registers.signed_eq_of_get_eq (get_fetched hindex)
  -- The operands are evaluated when the program counter has already moved on.
  rw [← hsigned] at hvalue
  obtain ⟨hw, hcounts⟩ := hfetched.counts hencoded (hvalue ▸ hrange)
  rw [hvalue] at hcounts
  have hstep := step_of_counts hrunning hfetch hw hcounts
  have hget {r : Register} (hr : r ≠ Register.pc) : m.step.registers.get r =
      ((m.fetched i).registers.counted w index value).get r := by
    rw [hstep]
    exact Registers.get_branched_of_ne hr
  have hmerged : m.step.registers.get index =
      Exec.merge (m.registers.get index) (BitVec.ofInt w.bits value) := by
    rw [hget hindex, Registers.get_counted_self, get_fetched hindex]
  refine ⟨⟨?_, ?_, ?_, ?_, ?_, ?_⟩, ?_⟩
  · rw [Registers.signed, hmerged, Exec.setWidth_merge hw, hrange.toInt_ofInt]
  · rw [hmerged, Exec.merge_div hw]
  · intro r hr hpc
    rw [hget hpc, Registers.get_counted_of_ne hr, get_fetched hpc]
  · rw [hstep]
    exact Registers.flags_branched
  · rw [hstep]
    rfl
  · intro hlog
    rw [hstep]
    exact log_fetched (i := i) hlog
  · have hnext : ((m.fetched i).registers.counted w index value).pc = i.nextAddress := by
      rw [Registers.pc, Registers.get_counted_of_ne hindex.symm]
      exact Registers.get_set_self _ _ _
    rw [hstep, registers_withRegisters, Registers.pc_branched, hnext]
    cases i.descriptor.action.hasPassed limit addend value <;> rfl

theorem CountsTo.trans (h : m.CountsTo w index value between)
    (h' : between.CountsTo w index value' after) (hpc : between.registers.pc = m.registers.pc) :
    m.CountsTo w index value' after where
  signed_eq := h'.signed_eq
  upper_eq := h'.upper_eq.trans h.upper_eq
  get_eq r hr hne := (h'.get_eq r hr hne).trans (h.get_eq r hr hne)
  flags_eq := by
    rw [h'.flags_eq, h.flags_eq]
  machine_eq := by
    rw [h'.machine_eq, hpc, h.machine_eq]
  log_eq hlog := by
    have hbetween := h.log_eq hlog
    rw [h'.log_eq (hbetween ▸ hlog), hbetween]

theorem CountsTo.status_eq (h : m.CountsTo w index value after) : after.status = m.status := by
  rw [h.machine_eq]

theorem CountsTo.memory_eq (h : m.CountsTo w index value after) : after.memory = m.memory := by
  rw [h.machine_eq]

/-! ## All rounds -/

/-- As long as the index has not passed the limit, the next step is another
round of the same loop. -/
theorem countsTo_iterate (hrunning : m.status = .running)
    (hfetch : m.memory.instructionAt m.registers.pc = .ok i)
    (hloops : i.Loops m.registers index w limit addend) (hindex : index ≠ Register.pc) {k n : Nat}
    (hrange : ∀ j : Nat, 1 ≤ j → j ≤ k → w.Reaches (m.registers.signed w index + j * addend))
    (hbefore : ∀ j : Nat, 1 ≤ j → j < k →
      i.descriptor.action.hasPassed limit addend (m.registers.signed w index + j * addend) = false)
    (hn : 1 ≤ n) (hle : n ≤ k) :
    let value := m.registers.signed w index + n * addend
    m.CountsTo w index value (step^[n] m) ∧ (step^[n] m).registers.pc =
      if i.descriptor.action.hasPassed limit addend value then i.nextAddress else i.address := by
  obtain ⟨haddress, -⟩ := Memory.address_of_instructionAt hfetch
  induction n, hn using Nat.le_induction with
  | base =>
    have hvalue : m.registers.signed w index + addend =
        m.registers.signed w index + (1 : Nat) * addend := by
      rw [Int.natCast_one, Int.one_mul]
    exact countsTo_step hrunning hfetch hloops hindex hvalue (hrange 1 (Nat.le_refl 1) hle)
  | succ n hn ih =>
    -- The limit has not been passed, so the machine is where it started.
    obtain ⟨hcounts, hpc⟩ := ih (by omega)
    rw [hbefore n hn hle, if_neg Bool.false_ne_true, haddress] at hpc
    have hvalue : (step^[n] m).registers.signed w index + addend =
        m.registers.signed w index + (n + 1 : Nat) * addend := by
      calc (step^[n] m).registers.signed w index + addend
          = m.registers.signed w index + n * addend + addend := by rw [hcounts.signed_eq]
        _ = m.registers.signed w index + (n + 1 : Nat) * addend := by
            rw [Int.natCast_succ, Int.add_mul, Int.one_mul, Int.add_assoc]
    rw [Function.iterate_succ_apply']
    obtain ⟨hnext, hpcnext⟩ := countsTo_step (hcounts.status_eq.trans hrunning)
      (by rw [hcounts.memory_eq, hpc, hfetch]) (hloops.congr hcounts.get_eq) hindex hvalue
      (hrange (n + 1) (by omega) hle)
    exact ⟨hcounts.trans hnext hpc, hpcnext⟩

end Machine

end Rounds

/-- A loop that branches back to itself is done in as many steps as its index
takes to pass the limit in unbounded arithmetic, if that stays in the range of
its width.  It leaves the exact value in the index and its sign in the condition
codes, and nothing else changes.  A loop that adds zero below its limit runs
for ever. -/
theorem loops_count_exactly {m : Machine} {i : Instruction} {w : Width} {index : Register}
    {limit addend : Int} (hrunning : m.status = .running)
    (hfetch : m.memory.instructionAt m.registers.pc = .ok i)
    (hloops : i.Loops m.registers index w limit addend) (hindex : index ≠ Register.pc) :
    let value (j : Nat) : Int := m.registers.signed w index + j * addend
    (∀ k, IsLeast {j | 1 ≤ j ∧ i.descriptor.action.hasPassed limit addend (value j) = true} k →
      (∀ j, 1 ≤ j → j ≤ k → w.Reaches (value j)) →
      (∀ j < k, (Machine.step^[j] m).registers.pc ≠ i.nextAddress) ∧
        (Machine.step^[k] m).registers.pc = i.nextAddress ∧
        m.CountsTo w index (value k) (Machine.step^[k] m)) ∧
    (addend = 0 → m.registers.signed w index ≤ limit →
      ∀ n, (Machine.step^[n] m).status = .running ∧
        (Machine.step^[n] m).registers.pc = i.address) := by
  intro value
  obtain ⟨haddress, hne⟩ := Memory.address_of_instructionAt hfetch
  refine ⟨?_, ?_⟩
  · rintro k ⟨⟨hk, hpassed⟩, hleast⟩ hrange
    have hbefore (j : Nat) (hj : 1 ≤ j) (hlt : j < k) :
        i.descriptor.action.hasPassed limit addend (value j) = false := by
      rw [← Bool.not_eq_true]
      intro hearlier
      exact absurd (hleast ⟨hj, hearlier⟩) (Nat.not_le.2 hlt)
    obtain ⟨hcounts, hpc⟩ := Machine.countsTo_iterate hrunning hfetch hloops hindex hrange hbefore
      hk (Nat.le_refl k)
    refine ⟨?_, hpc.trans (if_pos hpassed), hcounts⟩
    intro j hj
    cases j with
    | zero => exact hne.symm
    | succ j =>
      obtain ⟨-, hpc⟩ := Machine.countsTo_iterate hrunning hfetch hloops hindex hrange hbefore
        (Nat.succ_pos j) (Nat.le_of_lt hj)
      rw [hpc, if_neg (by rw [hbefore _ (Nat.succ_pos j) hj]; exact Bool.false_ne_true), haddress]
      exact hne.symm
  · rintro rfl hlimit n
    have hstays : i.descriptor.action.hasPassed limit 0 (m.registers.signed w index) = false := by
      cases hloops with
      | addCompare haction _ _ _ =>
        rw [haction]
        exact decide_eq_false (Int.not_lt.2 hlimit)
    have hvalue (j : Nat) : value j = m.registers.signed w index := by
      show m.registers.signed w index + j * 0 = _
      rw [Int.mul_zero, Int.add_zero]
    have hrange (j : Nat) : w.Reaches (value j) := hvalue j ▸ m.registers.reaches_signed w index
    have hnever (j : Nat) : i.descriptor.action.hasPassed limit 0 (value j) = false :=
      hvalue j ▸ hstays
    cases n with
    | zero => exact ⟨hrunning, haddress.symm⟩
    | succ n =>
      obtain ⟨hcounts, hpc⟩ := Machine.countsTo_iterate hrunning hfetch hloops hindex
        (fun j _ _ => hrange j) (fun j _ _ => hnever j) (Nat.succ_pos n) (Nat.le_refl (n + 1))
      rw [hnever, if_neg Bool.false_ne_true] at hpc
      exact ⟨hcounts.status_eq.trans hrunning, hpc⟩

/-- Counting a byte down by three, from five to below zero, takes two rounds and
leaves the rest of its register alone. -/
theorem loops_count_exactly_down :
    let m : Machine :=
      { registers := (Registers.zeroed.set 1 0x12345605).set Register.pc 4
        memory := ⟨0, 64, [0, 0, 0, 0, 0x9d, 0, 0x8f, 0xfd, 0x51, 0xf9, 0xff].toByteArray⟩
        symbols := .empty, entry := 0, status := .running, frames := #[],
        output := .unlimited, log := .empty none, current := 0 }
    let i : Instruction :=
      { address := 4, length := 7
        descriptor := ⟨0x9d, "acbb", [.byte, .byte, .byte, .branchWord], .addCompareBranch⟩
        operands := [⟨.byte, .plain (.literal 0)⟩, ⟨.byte, .plain (.immediate 7 0xfd)⟩,
          ⟨.byte, .plain (.register 1)⟩, ⟨.branchWord, .branch 4⟩] }
    m.memory.instructionAt m.registers.pc = .ok i ∧ i.Loops m.registers 1 .byte 0 (-3) ∧
      m.step.registers.pc ≠ 11 ∧ m.step.step.registers.pc = 11 ∧
      m.step.step.registers.get 1 = 0x123456ff ∧ m.CountsTo .byte 1 (-1) m.step.step := by
  intro m i
  have hfetch : m.memory.instructionAt m.registers.pc = .ok i :=
    Memory.instructionAt_of_toOption (by decide +kernel)
  have hloops : i.Loops m.registers 1 .byte 0 (-3) :=
    .addCompare rfl rfl (by decide +kernel) (by decide +kernel)
  have hstart : m.registers.signed .byte 1 = 5 := by decide +kernel
  have hcounts := loops_count_exactly rfl hfetch hloops (by decide)
  rw [hstart] at hcounts
  have hleast : IsLeast {j : Nat | 1 ≤ j ∧
      i.descriptor.action.hasPassed 0 (-3) (5 + j * (-3)) = true} 2 := by
    refine ⟨⟨by decide, by decide⟩, ?_⟩
    rintro j ⟨hj, hpassed⟩
    refine Nat.lt_of_le_of_ne hj ?_
    rintro rfl
    exact absurd hpassed (by decide)
  have hrange : ∀ j : Nat, 1 ≤ j → j ≤ 2 → Width.byte.Reaches (5 + j * (-3)) := by
    intro j hj hle
    obtain rfl | rfl : j = 1 ∨ j = 2 := by omega
    · exact ⟨by decide, by decide⟩
    · exact ⟨by decide, by decide⟩
  obtain ⟨hbefore, hlast, hcounts⟩ := hcounts.1 2 hleast hrange
  exact ⟨hfetch, hloops, hbefore 1 (by decide), hlast, by decide +kernel, hcounts⟩

end Vax
