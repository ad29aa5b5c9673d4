import Vax.Proofs.Integer.Exact
import Vax.Proofs.Machine.Listed
import Vax.Proofs.Machine.Results
import Vax.Proofs.Machine.Stages
/-!
# Integer instructions compute exactly

An integer instruction takes the signed values of its sources to an exact
result.  As much of it as fits goes to the destination, and the condition codes
say whether that is all.
-/

namespace Vax

example : [Action.arithmetic .add, .arithmetic .subtract, .arithmetic .multiply,
      .arithmetic .divide, .increment, .decrement, .negate, .convert, .shift].map
      Catalog.mnemonics =
    [["addb2", "addb3", "addw2", "addw3", "addl2", "addl3"],
      ["subb2", "subb3", "subw2", "subw3", "subl2", "subl3"],
      ["mulb2", "mulb3", "mulw2", "mulw3", "mull2", "mull3"],
      ["divb2", "divb3", "divw2", "divw3", "divl2", "divl3"],
      ["incb", "incw", "incl"], ["decb", "decw", "decl"], ["mnegb", "mnegw", "mnegl"],
      ["cvtwl", "cvtwb", "cvtbl", "cvtbw", "cvtlb", "cvtlw"], ["ashl"]] := by
  decide +kernel

/-- Their results are no wider than a longword. -/
theorem Catalog.exact_writes_at_most_long : ∀ d ∈ descriptors, d.action.isExact = true →
    ∀ access ∈ d.accesses, access.writeWidth? ≠ some .quad := by
  decide +kernel

theorem Width.one_lt_bits (w : Width) : 1 < w.bits := by
  cases w <;> decide

namespace Exec

variable {i : Instruction} {m located after : Machine}

/-- With its operands at these places, the instruction reads its sources and
writes a result that is the one of its action as far as it reaches. -/
def Delivers (i : Instruction) (locations : List Location) (located after : Machine) : Prop :=
  ∃ values w destination exact, ∃ result : ArithmeticResult w.bits,
    located.signedAll? (Access.sources i.descriptor.accesses locations) = some values ∧
      Access.destinations i.descriptor.accesses locations = [(w, destination)] ∧
      i.descriptor.action.exactResult? w.bits values = some exact ∧ result.Computes exact ∧
      (writeResult w result destination).run located = .ok () after

/-! ## After the operands -/

section Reading

variable {accesses : List Access} {locations : List Location} {u v w : Width}
  {source other destination : Location}

theorem delivers_one {f : BitVec u.bits → ArithmeticResult w.bits}
    (haccesses : i.descriptor.accesses = accesses)
    (hsources : Access.sources accesses locations = [(u, source)])
    (hdestinations : Access.destinations accesses locations = [(w, destination)])
    (hf : ∀ value, ∃ exact, i.descriptor.action.exactResult? w.bits [value.toInt] = some exact ∧
      (f value).Computes exact)
    (h : (read u source >>= fun value => writeResult w (f value) destination).run located =
      .ok () after) : Delivers i locations located after := by
  obtain ⟨value, between, hread, hwrite⟩ := run_bind_eq_ok.1 h
  obtain ⟨rfl, hvalue⟩ := run_read_signed hread
  obtain ⟨exact, hexact, hcomputes⟩ := hf value
  rw [Delivers, haccesses, hsources]
  refine ⟨[value.toInt], w, destination, exact, f value, ?_, hdestinations, hexact, hcomputes,
    hwrite⟩
  exact Machine.signedAll?_cons hvalue rfl

theorem delivers_two {f : BitVec u.bits → BitVec v.bits → ArithmeticResult w.bits}
    (haccesses : i.descriptor.accesses = accesses)
    (hsources : Access.sources accesses locations = [(u, source), (v, other)])
    (hdestinations : Access.destinations accesses locations = [(w, destination)])
    (hf : ∀ value value', ∃ exact,
      i.descriptor.action.exactResult? w.bits [value.toInt, value'.toInt] = some exact ∧
        (f value value').Computes exact)
    (h : (read u source >>= fun value => read v other >>= fun value' =>
      writeResult w (f value value') destination).run located = .ok () after) :
    Delivers i locations located after := by
  obtain ⟨value, between, hread, hrest⟩ := run_bind_eq_ok.1 h
  obtain ⟨rfl, hvalue⟩ := run_read_signed hread
  obtain ⟨value', between', hread', hwrite⟩ := run_bind_eq_ok.1 hrest
  obtain ⟨rfl, hvalue'⟩ := run_read_signed hread'
  obtain ⟨exact, hexact, hcomputes⟩ := hf value value'
  rw [Delivers, haccesses, hsources]
  refine ⟨[value.toInt, value'.toInt], w, destination, exact, f value value', ?_, hdestinations,
    hexact, hcomputes, hwrite⟩
  exact Machine.signedAll?_cons hvalue (Machine.signedAll?_cons hvalue' rfl)

end Reading

/-! ## One action after the other -/

/-- The instruction locates its operands and delivers. -/
def Succeeds (i : Instruction) (m after : Machine) : Prop :=
  ∃ locations located, (locateAll i).run m = .ok locations located ∧
    Delivers i locations located after

theorem succeeds_increment (haction : i.descriptor.action = .increment)
    (haccesses : i.descriptor.accesses = [.modify i.width])
    (h : (increment i).run m = .ok () after) : Succeeds i m after := by
  obtain ⟨destination, located, hlocate, h⟩ := run_bind_eq_ok.1 h
  refine ⟨[destination], located, run_locate1_eq_ok hlocate, ?_⟩
  apply delivers_one haccesses rfl rfl _ h
  intro value
  rw [haction]
  exact ⟨_, rfl, Arithmetic.increment_computes i.width.one_lt_bits value⟩

theorem succeeds_decrement (haction : i.descriptor.action = .decrement)
    (haccesses : i.descriptor.accesses = [.modify i.width])
    (h : (decrement i).run m = .ok () after) : Succeeds i m after := by
  obtain ⟨destination, located, hlocate, h⟩ := run_bind_eq_ok.1 h
  refine ⟨[destination], located, run_locate1_eq_ok hlocate, ?_⟩
  apply delivers_one haccesses rfl rfl _ h
  intro value
  rw [haction]
  exact ⟨_, rfl, Arithmetic.decrement_computes i.width.one_lt_bits value⟩

theorem succeeds_negate (haction : i.descriptor.action = .negate)
    (haccesses : i.descriptor.accesses = [.read i.width, .write i.width])
    (h : (negate i).run m = .ok () after) : Succeeds i m after := by
  obtain ⟨⟨source, destination⟩, located, hlocate, h⟩ := run_bind_eq_ok.1 h
  refine ⟨[source, destination], located, run_locate2_eq_ok hlocate, ?_⟩
  apply delivers_one haccesses rfl rfl _ h
  intro value
  rw [haction]
  exact ⟨_, rfl, Arithmetic.negate_computes i.width.bits_pos value⟩

theorem succeeds_convert {narrow wide : Width} (haction : i.descriptor.action = .convert)
    (haccesses : i.descriptor.accesses = [.read narrow, .write wide])
    (hnarrow : i.operandWidth? 0 = some narrow) (hwide : i.operandWidth? 1 = some wide)
    (h : (convert i).run m = .ok () after) : Succeeds i m after := by
  simp only [convert, operandWidth, hnarrow, hwide, pure_bind] at h
  obtain ⟨⟨source, destination⟩, located, hlocate, h⟩ := run_bind_eq_ok.1 h
  refine ⟨[source, destination], located, run_locate2_eq_ok hlocate, ?_⟩
  apply delivers_one haccesses rfl rfl _ h
  intro value
  rw [haction]
  exact ⟨_, rfl, Arithmetic.narrow_computes wide.bits_pos value.toInt⟩

theorem succeeds_shift (haction : i.descriptor.action = .shift)
    (haccesses : i.descriptor.accesses = [.read .byte, .read .long, .write .long])
    (h : (shift i).run m = .ok () after) : Succeeds i m after := by
  obtain ⟨⟨count, source, destination⟩, located, hlocate, h⟩ := run_bind_eq_ok.1 h
  refine ⟨[count, source, destination], located, run_locate3_eq_ok hlocate, ?_⟩
  apply delivers_two haccesses rfl rfl _ h
  intro distance value
  rw [haction]
  exact ⟨_, rfl, Arithmetic.shifted_computes distance.toInt value⟩

theorem succeeds_arithmetic {operation : Arithmetic}
    (haction : i.descriptor.action = .arithmetic operation)
    (hexact : (Action.arithmetic operation).isExact = true)
    (hlength : i.operands.length = i.descriptor.operands.length)
    (h : (arithmetic i operation).run m = .ok () after) : Succeeds i m after := by
  have haccesses : i.descriptor.accesses = if i.operands.length = 2
      then [.read i.width, .modify i.width]
      else [.read i.width, .read i.width, .write i.width] := by
    rw [hlength]
    simp only [Descriptor.accesses, haction]
    rfl
  obtain ⟨locations, located, hlocate, h⟩ := run_bind_eq_ok.1 h
  have hcount : i.operands.length = locations.length :=
    (liesAt_of_locateAll hlocate).length_eq
  refine ⟨locations, located, hlocate, ?_⟩
  rw [hcount] at haccesses
  have hcomputes : ∀ first second : BitVec i.width.bits, ∃ exact,
      i.descriptor.action.exactResult? i.width.bits [first.toInt, second.toInt] = some exact ∧
        (operation.apply first second).Computes exact := by
    intro first second
    rw [haction]
    exact Arithmetic.apply_computes i.width.bits_pos first second hexact
  -- With two operands the result replaces the second, with three it goes to the third.
  split at h
  · exact delivers_two haccesses rfl rfl hcomputes h
  · exact delivers_two haccesses rfl rfl hcomputes h
  · exact absurd h (run_reservedOperand_ne_ok i)

theorem succeeds_execute {memory : Memory} (hencoded : i.IsEncodedIn memory)
    (hexact : i.descriptor.action.isExact = true)
    (h : (execute i).run m = .ok none after) : Succeeds i m after := by
  have hfits : i.Fits i.descriptor.accesses := by
    apply hencoded.fits
    intro hunimplemented
    rw [hunimplemented] at hexact
    exact absurd hexact Bool.false_ne_true
  have hlength : i.operands.length = i.descriptor.operands.length := by
    rw [← hencoded.kinds, List.length_map]
  rw [execute] at h
  cases haction : i.descriptor.action with
  | arithmetic operation =>
    rw [haction] at h hexact
    exact succeeds_arithmetic haction hexact hlength (run_of_goesOn h)
  | increment =>
    rw [haction] at h
    exact succeeds_increment haction (by simp only [Descriptor.accesses, haction]; rfl)
      (run_of_goesOn h)
  | decrement =>
    rw [haction] at h
    exact succeeds_decrement haction (by simp only [Descriptor.accesses, haction]; rfl)
      (run_of_goesOn h)
  | negate =>
    rw [haction] at h
    exact succeeds_negate haction (by simp only [Descriptor.accesses, haction]; rfl)
      (run_of_goesOn h)
  | convert =>
    have haccesses : i.descriptor.accesses =
        [.read (i.descriptor.operandWidth 0), .write (i.descriptor.operandWidth 1)] := by
      simp only [Descriptor.accesses, haction]
    rw [haccesses] at hfits
    obtain ⟨hnarrow, hwide⟩ := hfits.operandWidths
    rw [haction] at h
    exact succeeds_convert haction haccesses hnarrow hwide (run_of_goesOn h)
  | shift =>
    rw [haction] at h
    exact succeeds_shift haction (by simp only [Descriptor.accesses, haction]) (run_of_goesOn h)
  | _ =>
    rw [haction] at hexact
    exact absurd hexact Bool.false_ne_true

/-- What is delivered is the exact result, and the condition codes tell what of
it was lost. -/
theorem Delivers.exact {memory : Memory} {locations : List Location}
    (hencoded : i.IsEncodedIn memory) (hexact : i.descriptor.action.isExact = true)
    (h : Delivers i locations located after) :
    ∃ values w destination exact,
      located.signedAll? (Access.sources i.descriptor.accesses locations) = some values ∧
      Access.destinations i.descriptor.accesses locations = [(w, destination)] ∧
      i.descriptor.action.exactResult? w.bits values = some exact ∧
      located.Receives w (exact.residue w.bits) after destination ∧
      after.registers.flags = exact.flags w.bits := by
  obtain ⟨values, w, destination, exact, result, hvalues, hdestination, hresult, hcomputes, h⟩ := h
  have hwidth : w ≠ .quad := by
    have hmem : (w, destination) ∈ Access.destinations i.descriptor.accesses locations := by
      rw [hdestination]
      exact List.mem_singleton_self _
    obtain ⟨access, haccess, hw⟩ := Access.exists_of_mem_destinations hmem
    rintro rfl
    exact Catalog.exact_writes_at_most_long _ hencoded.catalogued hexact access haccess hw
  obtain ⟨hreceives, hflags⟩ := run_writeResult hwidth h
  rw [hcomputes.toNat_eq] at hreceives
  rw [hcomputes.flags_eq] at hflags
  exact ⟨values, w, destination, exact, hvalues, hdestination, hresult, hreceives, hflags⟩

end Exec

/-- An integer instruction that succeeds takes the signed values of its sources
to their exact result.  The destination receives this modulo its width, and the
condition codes are those of the exact result.  Before, the machine has only
moved past the instruction and stepped the registers that its operands step. -/
theorem integer_arithmetic_is_exact {m : Machine} {i : Instruction}
    (hfetch : m.start.memory.instructionAt m.start.registers.pc = .ok i)
    (haction : i.descriptor.action.isExact = true) (hstep : m.step.status = .running) :
    ∃ locations located values w destination exact,
      (Exec.locateAll i).run (m.start.fetched i) = .ok locations located ∧
      (m.start.fetched i).DiffersIn located i.Steps ∧
      located.signedAll? (Access.sources i.descriptor.accesses locations) = some values ∧
      Access.destinations i.descriptor.accesses locations = [(w, destination)] ∧
      i.descriptor.action.exactResult? w.bits values = some exact ∧
      located.Receives w (exact.residue w.bits) m.step destination ∧
      m.step.registers.flags = exact.flags w.bits := by
  have hencoded := Memory.isEncodedIn_of_instructionAt hfetch
  obtain ⟨hrunning, hstart⟩ := Machine.start_of_step_running hstep
  rw [← hstart] at hstep ⊢
  obtain ⟨hrun, -⟩ := Machine.run_of_step_running hrunning hfetch hstep
  obtain ⟨locations, located, hlocate, hdelivers⟩ :=
    Exec.succeeds_execute hencoded haction hrun
  obtain ⟨values, w, destination, exact, hexact⟩ := hdelivers.exact hencoded haction
  exact ⟨locations, located, values, w, destination, exact, hlocate,
    Exec.differsIn_locateAll hlocate, hexact⟩

/-- The least byte divided by -1 does not fit, and leaves the rest of its
register alone. -/
theorem integer_arithmetic_is_exact_least :
    let m : Machine :=
      { registers := Registers.zeroed.set 1 0x12345680
        memory := ⟨0, 16, [0x86, 0x8f, 0xff, 0x51].toByteArray⟩
        symbols := .empty, entry := 0, status := .running, frames := #[],
        output := .unlimited, log := .empty none, current := 0 }
    m.step.status = .running ∧ m.step.registers.get 1 = 0x12345680 ∧
      m.step.registers.flags = ⟨true, false, true, false⟩ ∧
      ∃ (located : Machine) (w : Width) (destination : Location) (exact : Exact),
        located.Receives w (exact.residue w.bits) m.step destination ∧
        m.step.registers.flags = exact.flags w.bits := by
  intro m
  let i : Instruction :=
    { address := 0, length := 4
      descriptor := ⟨0x86, "divb2", [.byte, .byte], .arithmetic .divide⟩
      operands := [⟨.byte, .plain (.immediate 2 0xff)⟩, ⟨.byte, .plain (.register 1)⟩] }
  have hfetch : m.start.memory.instructionAt m.start.registers.pc = .ok i :=
    Memory.instructionAt_of_toOption (by decide +kernel)
  have hstep : m.step.status = .running := by decide +kernel
  obtain ⟨-, located, -, w, destination, exact, -, -, -, -, -, hreceives, hflags⟩ :=
    integer_arithmetic_is_exact hfetch rfl hstep
  exact ⟨hstep, by decide +kernel, by decide +kernel, located, w, destination, exact, hreceives,
    hflags⟩

end Vax
