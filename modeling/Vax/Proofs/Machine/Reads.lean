import Vax.Proofs.Decoding.Operand
import Vax.Proofs.Instruction.Access
/-!
# Instructions read their operands first

Every instruction evaluates its operands, reads the values that it needs one
after the other, and goes on with these values and with the places that it
writes to.  In between nothing is written.
-/

namespace Vax

/-- What goes on once the operands have been read: a function of the value of
each operand that is read, and of the place of each that is not only read. -/
def Access.Continuation (α : Type) : List Access → Type
  | [] => Exec α
  | .read w :: rest => BitVec w.bits → Continuation α rest
  | .modify w :: rest => BitVec w.bits → Location → Continuation α rest
  | .write _ :: rest | .place :: rest | .branch :: rest => Location → Continuation α rest

/-- The operands have the kinds that their uses ask for. -/
def Instruction.Fits (i : Instruction) (accesses : List Access) : Prop :=
  accesses.Forall₂ (fun access operand => access.Fits operand.kind) i.operands

/-- Evaluating the operand, in a machine with this memory, finds the place. -/
def Operand.LiesAt (memory : Memory) (operand : Operand) (location : Location) : Prop :=
  ∃ before located : Machine, before.memory = memory ∧
    (Exec.locate operand.kind.size operand.specifier).run before = .ok location located

namespace Instruction

variable {m : Memory} {i : Instruction}

theorem IsEncodedIn.fits (h : i.IsEncodedIn m) (haction : i.descriptor.action ≠ .unimplemented) :
    i.Fits i.descriptor.accesses := by
  have hfit := Catalog.accesses_fit i.descriptor h.catalogued haction
  rw [← h.kinds, List.forall₂_map_right_iff] at hfit
  exact hfit

theorem Fits.length_eq {accesses : List Access} (h : i.Fits accesses) :
    i.operands.length = accesses.length :=
  (List.Forall₂.length_eq h).symm

theorem Fits.get {accesses : List Access} (h : i.Fits accesses) {index : Nat} {access : Access}
    {operand : Operand} (haccess : accesses[index]? = some access)
    (hoperand : i.operands[index]? = some operand) : access.Fits operand.kind := by
  obtain ⟨hlt, rfl⟩ := List.getElem?_eq_some_iff.1 haccess
  obtain ⟨hlt', rfl⟩ := List.getElem?_eq_some_iff.1 hoperand
  exact List.Forall₂.get h hlt hlt'

theorem operandWidth?_eq {index : Nat} {operand : Operand} {w : Width}
    (hoperand : i.operands[index]? = some operand) (h : operand.kind = w.kind) :
    i.operandWidth? index = some w := by
  rw [operandWidth?, hoperand, Option.bind_some, h, Width.ofSize?_size_kind]

theorem Fits.operandWidth {w : Width} {rest : List Access} (h : i.Fits (.read w :: rest)) :
    i.operandWidth? 0 = some w := by
  have hlt : 0 < i.operands.length := by
    rw [h.length_eq]
    exact Nat.succ_pos _
  have hfirst := List.getElem?_eq_getElem hlt
  have hfit : (Access.read w).Fits i.operands[0].kind := h.get rfl hfirst
  exact operandWidth?_eq hfirst hfit

theorem Fits.operandWidths {narrow wide : Width} (h : i.Fits [.read narrow, .write wide]) :
    i.operandWidth? 0 = some narrow ∧ i.operandWidth? 1 = some wide := by
  have hlt : 1 < i.operands.length := by
    rw [h.length_eq]
    exact Nat.one_lt_two
  have hsecond := List.getElem?_eq_getElem hlt
  have hfit : (Access.write wide).Fits i.operands[1].kind := h.get rfl hsecond
  exact ⟨h.operandWidth, operandWidth?_eq hsecond hfit⟩

end Instruction

namespace Exec

variable {α : Type} {i : Instruction} {m after : Machine}

/-- Reads the operands that are read, in order, and goes on. -/
def supply (i : Instruction) :
    (accesses : List Access) → Access.Continuation α accesses → List Location → Exec α
  | [], next, _ => next
  | _ :: _, _, [] => reservedOperand i
  | .read w :: rest, next, location :: locations => do
    let value ← read w location
    supply i rest (next value) locations
  | .modify w :: rest, next, location :: locations => do
    let value ← read w location
    supply i rest (next value location) locations
  | .write _ :: rest, next, location :: locations => supply i rest (next location) locations
  | .place :: rest, next, location :: locations => supply i rest (next location) locations
  | .branch :: rest, next, location :: locations => supply i rest (next location) locations

/-- Once the operands are evaluated, the computation reads them as `accesses`
says before it does anything else. -/
def ReadsFirst (i : Instruction) (accesses : List Access) (x : Exec α) : Prop :=
  ∃ next : Access.Continuation α accesses, x = locateAll i >>= supply i accesses next

/-- Each place is found by evaluating its operand. -/
theorem forall₂_of_mapM_locate {operands : List Operand} {locations : List Location}
    (h : (operands.mapM fun operand => locate operand.kind.size operand.specifier).run m =
      .ok locations after) :
    operands.Forall₂ (Operand.LiesAt m.memory) locations := by
  induction operands generalizing m locations after with
  | nil =>
      obtain ⟨rfl, -⟩ := run_pure_eq_ok.1 h
      exact .nil
  | cons operand rest ih =>
      obtain ⟨location, others, between, rfl, hlocation, hlocations⟩ := run_mapM_cons_eq_ok.1 h
      have hmemory := (differsIn_locate hlocation).memory_eq
      have hrest := ih hlocations
      rw [hmemory] at hrest
      exact .cons ⟨m, between, rfl, hlocation⟩ hrest

theorem liesAt_of_locateAll {locations : List Location}
    (h : (locateAll i).run m = .ok locations after) :
    i.operands.Forall₂ (Operand.LiesAt m.memory) locations :=
  forall₂_of_mapM_locate h

section Located

variable {located : Machine} {locations : List Location} {a b c d : Access}

theorem exists_locate1 (hfits : i.Fits [a]) (h : (locateAll i).run m = .ok locations located) :
    ∃ p, locations = [p] ∧ (locate1 i).run m = .ok p located := by
  have hlength := (liesAt_of_locateAll h).length_eq.symm.trans hfits.length_eq
  obtain ⟨p, rfl⟩ := List.length_eq_one_iff.1 hlength
  rw [locate1, run_bind_ok h]
  exact ⟨p, rfl, rfl⟩

theorem exists_locate2 (hfits : i.Fits [a, b])
    (h : (locateAll i).run m = .ok locations located) :
    ∃ p q, locations = [p, q] ∧ (locate2 i).run m = .ok (p, q) located := by
  have hlength := (liesAt_of_locateAll h).length_eq.symm.trans hfits.length_eq
  obtain ⟨p, q, rfl⟩ := List.length_eq_two.1 hlength
  rw [locate2, run_bind_ok h]
  exact ⟨p, q, rfl, rfl⟩

theorem exists_locate3 (hfits : i.Fits [a, b, c])
    (h : (locateAll i).run m = .ok locations located) :
    ∃ p q r, locations = [p, q, r] ∧ (locate3 i).run m = .ok (p, q, r) located := by
  have hlength := (liesAt_of_locateAll h).length_eq.symm.trans hfits.length_eq
  obtain ⟨p, q, r, rfl⟩ := List.length_eq_three.1 hlength
  rw [locate3, run_bind_ok h]
  exact ⟨p, q, r, rfl, rfl⟩

theorem exists_locate4 (hfits : i.Fits [a, b, c, d])
    (h : (locateAll i).run m = .ok locations located) :
    ∃ p q r s, locations = [p, q, r, s] ∧ (locate4 i).run m = .ok (p, q, r, s) located := by
  have hlength := (liesAt_of_locateAll h).length_eq.symm.trans hfits.length_eq
  obtain ⟨p, rest, rfl⟩ := List.exists_cons_of_length_eq_add_one hlength
  obtain ⟨q, r, s, rfl⟩ := List.length_eq_three.1 (Nat.succ.inj hlength)
  rw [locate4, run_bind_ok h]
  exact ⟨p, q, r, s, rfl, rfl⟩

end Located

/-- Only lists of as many places as there are operands matter. -/
theorem locateAll_bind_congr {f g : List Location → Exec α}
    (h : ∀ locations, locations.length = i.operands.length → f locations = g locations) :
    locateAll i >>= f = locateAll i >>= g := by
  funext m
  apply run_bind_congr rfl
  intro locations after hrun
  rw [h locations (liesAt_of_locateAll hrun).length_eq.symm]

theorem locate1_bind_eq {f : Location → Exec α} {g : List Location → Exec α}
    (hlength : i.operands.length = 1) (h : ∀ a, f a = g [a]) :
    locate1 i >>= f = locateAll i >>= g := by
  rw [locate1, bind_assoc]
  apply locateAll_bind_congr
  intro locations hlocations
  rw [hlength] at hlocations
  obtain ⟨a, rfl⟩ := List.length_eq_one_iff.1 hlocations
  exact h a

theorem locate2_bind_eq {f : Location × Location → Exec α} {g : List Location → Exec α}
    (hlength : i.operands.length = 2) (h : ∀ a b, f (a, b) = g [a, b]) :
    locate2 i >>= f = locateAll i >>= g := by
  rw [locate2, bind_assoc]
  apply locateAll_bind_congr
  intro locations hlocations
  rw [hlength] at hlocations
  obtain ⟨a, b, rfl⟩ := List.length_eq_two.1 hlocations
  exact h a b

theorem locate3_bind_eq {f : Location × Location × Location → Exec α}
    {g : List Location → Exec α} (hlength : i.operands.length = 3)
    (h : ∀ a b c, f (a, b, c) = g [a, b, c]) :
    locate3 i >>= f = locateAll i >>= g := by
  rw [locate3, bind_assoc]
  apply locateAll_bind_congr
  intro locations hlocations
  rw [hlength] at hlocations
  obtain ⟨a, b, c, rfl⟩ := List.length_eq_three.1 hlocations
  exact h a b c

theorem locate4_bind_eq {f : Location × Location × Location × Location → Exec α}
    {g : List Location → Exec α} (hlength : i.operands.length = 4)
    (h : ∀ a b c d, f (a, b, c, d) = g [a, b, c, d]) :
    locate4 i >>= f = locateAll i >>= g := by
  rw [locate4, bind_assoc]
  apply locateAll_bind_congr
  intro locations hlocations
  rw [hlength] at hlocations
  match locations, hlocations with
  | [a, b, c, d], _ => exact h a b c d

/-! ## One action after the other -/

section Locating

variable {x : Exec α} {accesses : List Access} {next : Access.Continuation α accesses}

theorem ReadsFirst.of_locate1 {f : Location → Exec α} (h : i.operands.length = 1)
    (hx : x = locate1 i >>= f) (hf : ∀ a, f a = supply i accesses next [a]) :
    ReadsFirst i accesses x :=
  ⟨next, hx.trans (locate1_bind_eq h hf)⟩

theorem ReadsFirst.of_locate2 {f : Location × Location → Exec α} (h : i.operands.length = 2)
    (hx : x = locate2 i >>= f) (hf : ∀ a b, f (a, b) = supply i accesses next [a, b]) :
    ReadsFirst i accesses x :=
  ⟨next, hx.trans (locate2_bind_eq h hf)⟩

theorem ReadsFirst.of_locate3 {f : Location × Location × Location → Exec α}
    (h : i.operands.length = 3) (hx : x = locate3 i >>= f)
    (hf : ∀ a b c, f (a, b, c) = supply i accesses next [a, b, c]) :
    ReadsFirst i accesses x :=
  ⟨next, hx.trans (locate3_bind_eq h hf)⟩

theorem ReadsFirst.of_locate4 {f : Location × Location × Location × Location → Exec α}
    (h : i.operands.length = 4) (hx : x = locate4 i >>= f)
    (hf : ∀ a b c d, f (a, b, c, d) = supply i accesses next [a, b, c, d]) :
    ReadsFirst i accesses x :=
  ⟨next, hx.trans (locate4_bind_eq h hf)⟩

end Locating

theorem readsFirst_nil {x : Exec α} (h : i.operands.length = 0) : ReadsFirst i [] x := by
  refine ⟨x, ?_⟩
  have hlocate : locateAll i = pure [] := by
    rw [locateAll, List.length_eq_zero_iff.1 h, List.mapM_nil]
  rw [hlocate, pure_bind]
  rfl

section Actions

/-! What is left of an action after its reads is its continuation. -/

theorem readsFirst_move (h : i.operands.length = 2) :
    ReadsFirst i [.read i.width, .write i.width] (goesOn (move i)) := by
  apply ReadsFirst.of_locate2 h (bind_assoc _ _ _)
  intro source destination
  simp only [bind_assoc]
  rfl

theorem readsFirst_compare (h : i.operands.length = 2) :
    ReadsFirst i [.read i.width, .read i.width] (goesOn (compare i)) := by
  apply ReadsFirst.of_locate2 h (bind_assoc _ _ _)
  intro left right
  simp only [bind_assoc]
  rfl

theorem readsFirst_test (h : i.operands.length = 1) :
    ReadsFirst i [.read i.width] (goesOn (test i)) := by
  apply ReadsFirst.of_locate1 h (bind_assoc _ _ _)
  intro source
  simp only [bind_assoc]
  rfl

theorem readsFirst_clear (h : i.operands.length = 1) :
    ReadsFirst i [.write i.width] (goesOn (clear i)) := by
  apply ReadsFirst.of_locate1 h (bind_assoc _ _ _)
  intro destination
  rfl

theorem readsFirst_increment (h : i.operands.length = 1) :
    ReadsFirst i [.modify i.width] (goesOn (increment i)) := by
  apply ReadsFirst.of_locate1 h (bind_assoc _ _ _)
  intro destination
  simp only [bind_assoc]
  rfl

theorem readsFirst_decrement (h : i.operands.length = 1) :
    ReadsFirst i [.modify i.width] (goesOn (decrement i)) := by
  apply ReadsFirst.of_locate1 h (bind_assoc _ _ _)
  intro destination
  simp only [bind_assoc]
  rfl

theorem readsFirst_negate (h : i.operands.length = 2) :
    ReadsFirst i [.read i.width, .write i.width] (goesOn (negate i)) := by
  apply ReadsFirst.of_locate2 h (bind_assoc _ _ _)
  intro source destination
  simp only [bind_assoc]
  rfl

theorem readsFirst_complement (h : i.operands.length = 2) :
    ReadsFirst i [.read i.width, .write i.width] (goesOn (complement i)) := by
  apply ReadsFirst.of_locate2 h (bind_assoc _ _ _)
  intro source destination
  simp only [bind_assoc]
  rfl

theorem readsFirst_bitTest (h : i.operands.length = 2) :
    ReadsFirst i [.read i.width, .read i.width] (goesOn (bitTest i)) := by
  apply ReadsFirst.of_locate2 h (bind_assoc _ _ _)
  intro mask source
  simp only [bind_assoc]
  rfl

theorem readsFirst_moveAddress (h : i.operands.length = 2) :
    ReadsFirst i [.place, .write .long] (goesOn (moveAddress i)) := by
  apply ReadsFirst.of_locate2 h (bind_assoc _ _ _)
  intro source destination
  simp only [bind_assoc]
  rfl

theorem readsFirst_pushAddress (h : i.operands.length = 1) :
    ReadsFirst i [.place] (goesOn (pushAddress i)) := by
  apply ReadsFirst.of_locate1 h (bind_assoc _ _ _)
  intro source
  simp only [bind_assoc]
  rfl

theorem readsFirst_pushLong (h : i.operands.length = 1) :
    ReadsFirst i [.read .long] (goesOn (pushLong i)) := by
  apply ReadsFirst.of_locate1 h (bind_assoc _ _ _)
  intro source
  simp only [bind_assoc]
  rfl

theorem readsFirst_shift (h : i.operands.length = 3) :
    ReadsFirst i [.read .byte, .read .long, .write .long] (goesOn (shift i)) := by
  apply ReadsFirst.of_locate3 h (bind_assoc _ _ _)
  intro count source destination
  simp only [bind_assoc]
  rfl

theorem readsFirst_branch (condition : Condition) (h : i.operands.length = 1) :
    ReadsFirst i [.branch] (goesOn (branch i condition)) := by
  apply ReadsFirst.of_locate1 h (bind_assoc _ _ _)
  intro target
  simp only [bind_assoc]
  rfl

theorem readsFirst_jump (h : i.operands.length = 1) :
    ReadsFirst i [.place] (goesOn (jump i)) := by
  apply ReadsFirst.of_locate1 h (bind_assoc _ _ _)
  intro target
  simp only [bind_assoc]
  rfl

theorem readsFirst_branchToSubroutine (h : i.operands.length = 1) :
    ReadsFirst i [.branch] (goesOn (branchToSubroutine i)) := by
  apply ReadsFirst.of_locate1 h (bind_assoc _ _ _)
  intro target
  simp only [bind_assoc]
  rfl

theorem readsFirst_jumpToSubroutine (h : i.operands.length = 1) :
    ReadsFirst i [.place] (goesOn (jumpToSubroutine i)) := by
  apply ReadsFirst.of_locate1 h (bind_assoc _ _ _)
  intro target
  simp only [bind_assoc]
  rfl

theorem readsFirst_branchOnBit (onSet : Bool) (update : Option Bool) (h : i.operands.length = 3) :
    ReadsFirst i [.read .long, .place, .branch] (goesOn (branchOnBit i onSet update)) := by
  apply ReadsFirst.of_locate3 h (bind_assoc _ _ _)
  intro position base target
  simp only [bind_assoc]
  rfl

theorem readsFirst_branchOnLowBit (onSet : Bool) (h : i.operands.length = 2) :
    ReadsFirst i [.read .long, .branch] (goesOn (branchOnLowBit i onSet)) := by
  apply ReadsFirst.of_locate2 h (bind_assoc _ _ _)
  intro source target
  simp only [bind_assoc]
  rfl

theorem readsFirst_addOneBranch (inclusive : Bool) (h : i.operands.length = 3) :
    ReadsFirst i [.read .long, .modify .long, .branch] (goesOn (addOneBranch i inclusive)) := by
  apply ReadsFirst.of_locate3 h (bind_assoc _ _ _)
  intro limit index target
  simp only [bind_assoc]
  rfl

theorem readsFirst_subtractOneBranch (inclusive : Bool) (h : i.operands.length = 2) :
    ReadsFirst i [.modify .long, .branch] (goesOn (subtractOneBranch i inclusive)) := by
  apply ReadsFirst.of_locate2 h (bind_assoc _ _ _)
  intro index target
  simp only [bind_assoc]
  rfl

theorem readsFirst_select (h : i.operands.length = 3) :
    ReadsFirst i [.read i.width, .read i.width, .read i.width] (goesOn (select i)) := by
  apply ReadsFirst.of_locate3 h (bind_assoc _ _ _)
  intro selector base limit
  simp only [bind_assoc]
  rfl

theorem readsFirst_extractField (isSigned : Bool) (h : i.operands.length = 4) :
    ReadsFirst i [.read .long, .read .byte, .place, .write .long]
      (goesOn (extractField i isSigned)) := by
  apply ReadsFirst.of_locate4 h (bind_assoc _ _ _)
  intro position size base destination
  simp only [bind_assoc]
  rfl

theorem readsFirst_call (h : i.operands.length = 2) :
    ReadsFirst i [.read .long, .place] (goesOn (call i)) := by
  apply ReadsFirst.of_locate2 h
  · rw [goesOn, call, callOperands, bind_assoc, bind_assoc]
  · intro count destination
    simp only [bind_assoc]
    rfl

theorem readsFirst_longToPacked (h : i.operands.length = 3) :
    ReadsFirst i [.read .long, .read .word, .place] (goesOn (longToPacked i)) := by
  apply ReadsFirst.of_locate3 h (bind_assoc _ _ _)
  intro source length destination
  simp only [bind_assoc]
  rfl

theorem readsFirst_editPacked (h : i.operands.length = 4) :
    ReadsFirst i [.read .word, .place, .place, .place] (goesOn (editPacked i)) := by
  apply ReadsFirst.of_locate4 h (bind_assoc _ _ _)
  intro length source pattern destination
  simp only [bind_assoc]
  rfl

theorem readsFirst_scan (forEqual : Bool) (h : i.operands.length = 3) :
    ReadsFirst i [.read .byte, .read .word, .place] (goesOn (scan i forEqual)) := by
  apply ReadsFirst.of_locate3 h (bind_assoc _ _ _)
  intro character length address
  simp only [bind_assoc]
  rfl

theorem readsFirst_copyString (h : i.operands.length = 3) :
    ReadsFirst i [.read .word, .place, .place] (goesOn (copyString i)) := by
  apply ReadsFirst.of_locate3 h (bind_assoc _ _ _)
  intro length source destination
  simp only [bind_assoc]
  rfl

theorem readsFirst_systemCall (h : i.operands.length = 1) :
    ReadsFirst i [.read .word] (systemCall i) := by
  apply ReadsFirst.of_locate1 h rfl
  intro number
  rfl

theorem readsFirst_zeroExtend {narrow wide : Width} (h : i.operands.length = 2)
    (hnarrow : i.operandWidth? 0 = some narrow) (hwide : i.operandWidth? 1 = some wide) :
    ReadsFirst i [.read narrow, .write wide] (goesOn (zeroExtend i)) := by
  refine ⟨?next, ?eq⟩
  case eq =>
    simp only [goesOn, zeroExtend, operandWidth, hnarrow, hwide, pure_bind, bind_assoc]
    apply locate2_bind_eq h
    intro source destination
    dsimp only
    rfl

theorem readsFirst_convert {narrow wide : Width} (h : i.operands.length = 2)
    (hnarrow : i.operandWidth? 0 = some narrow) (hwide : i.operandWidth? 1 = some wide) :
    ReadsFirst i [.read narrow, .write wide] (goesOn (convert i)) := by
  refine ⟨?next, ?eq⟩
  case eq =>
    simp only [goesOn, convert, operandWidth, hnarrow, hwide, pure_bind, bind_assoc]
    apply locate2_bind_eq h
    intro source destination
    dsimp only
    rfl

theorem readsFirst_addCompareBranch {w : Width} (h : i.operands.length = 4)
    (hw : i.operandWidth? 0 = some w) :
    ReadsFirst i [.read w, .read w, .modify w, .branch] (goesOn (addCompareBranch i)) := by
  refine ⟨?next, ?eq⟩
  case eq =>
    simp only [goesOn, addCompareBranch, hw, pure_bind, bind_assoc]
    apply locate4_bind_eq h
    intro limit addend index target
    dsimp only
    rfl

theorem readsFirst_arithmetic2 (operation : Arithmetic) (h : i.operands.length = 2) :
    ReadsFirst i [.read i.width, .modify i.width] (goesOn (arithmetic i operation)) := by
  refine ⟨?next, ?eq⟩
  case eq =>
    rw [goesOn, arithmetic, bind_assoc]
    apply locateAll_bind_congr
    intro locations hlocations
    rw [h] at hlocations
    obtain ⟨source, destination, rfl⟩ := List.length_eq_two.1 hlocations
    simp only [pure_bind, bind_assoc]
    rfl

theorem readsFirst_arithmetic3 (operation : Arithmetic) (h : i.operands.length = 3) :
    ReadsFirst i [.read i.width, .read i.width, .write i.width]
      (goesOn (arithmetic i operation)) := by
  refine ⟨?next, ?eq⟩
  case eq =>
    rw [goesOn, arithmetic, bind_assoc]
    apply locateAll_bind_congr
    intro locations hlocations
    rw [h] at hlocations
    obtain ⟨source, destination, result, rfl⟩ := List.length_eq_three.1 hlocations
    simp only [pure_bind, bind_assoc]
    rfl

end Actions

theorem readsFirst_execute (haction : i.descriptor.action ≠ .unimplemented)
    (hfits : i.Fits i.descriptor.accesses) :
    ReadsFirst i i.descriptor.accesses (execute i) := by
  unfold execute
  unfold Descriptor.accesses at hfits ⊢
  cases h : i.descriptor.action with
  | unimplemented => exact absurd h haction
  | privileged | nothing | returnFromSubroutine | returnFromCall =>
      simp only [h] at hfits ⊢
      exact readsFirst_nil hfits.length_eq
  | arithmetic operation =>
      simp only [h] at hfits ⊢
      split at hfits
      · next htwo =>
          rw [if_pos htwo]
          exact readsFirst_arithmetic2 operation hfits.length_eq
      · next htwo =>
          rw [if_neg htwo]
          exact readsFirst_arithmetic3 operation hfits.length_eq
  | zeroExtend =>
      simp only [h] at hfits ⊢
      obtain ⟨hnarrow, hwide⟩ := hfits.operandWidths
      exact readsFirst_zeroExtend hfits.length_eq hnarrow hwide
  | convert =>
      simp only [h] at hfits ⊢
      obtain ⟨hnarrow, hwide⟩ := hfits.operandWidths
      exact readsFirst_convert hfits.length_eq hnarrow hwide
  | addCompareBranch =>
      simp only [h] at hfits ⊢
      exact readsFirst_addCompareBranch hfits.length_eq hfits.operandWidth
  | move =>
      simp only [h] at hfits ⊢
      exact readsFirst_move hfits.length_eq
  | compare =>
      simp only [h] at hfits ⊢
      exact readsFirst_compare hfits.length_eq
  | test =>
      simp only [h] at hfits ⊢
      exact readsFirst_test hfits.length_eq
  | clear =>
      simp only [h] at hfits ⊢
      exact readsFirst_clear hfits.length_eq
  | increment =>
      simp only [h] at hfits ⊢
      exact readsFirst_increment hfits.length_eq
  | decrement =>
      simp only [h] at hfits ⊢
      exact readsFirst_decrement hfits.length_eq
  | negate =>
      simp only [h] at hfits ⊢
      exact readsFirst_negate hfits.length_eq
  | complement =>
      simp only [h] at hfits ⊢
      exact readsFirst_complement hfits.length_eq
  | bitTest =>
      simp only [h] at hfits ⊢
      exact readsFirst_bitTest hfits.length_eq
  | moveAddress =>
      simp only [h] at hfits ⊢
      exact readsFirst_moveAddress hfits.length_eq
  | pushAddress =>
      simp only [h] at hfits ⊢
      exact readsFirst_pushAddress hfits.length_eq
  | pushLong =>
      simp only [h] at hfits ⊢
      exact readsFirst_pushLong hfits.length_eq
  | shift =>
      simp only [h] at hfits ⊢
      exact readsFirst_shift hfits.length_eq
  | branch condition =>
      simp only [h] at hfits ⊢
      exact readsFirst_branch condition hfits.length_eq
  | jump =>
      simp only [h] at hfits ⊢
      exact readsFirst_jump hfits.length_eq
  | branchToSubroutine =>
      simp only [h] at hfits ⊢
      exact readsFirst_branchToSubroutine hfits.length_eq
  | jumpToSubroutine =>
      simp only [h] at hfits ⊢
      exact readsFirst_jumpToSubroutine hfits.length_eq
  | branchOnBit onSet update =>
      simp only [h] at hfits ⊢
      exact readsFirst_branchOnBit onSet update hfits.length_eq
  | branchOnLowBit onSet =>
      simp only [h] at hfits ⊢
      exact readsFirst_branchOnLowBit onSet hfits.length_eq
  | addOneBranch inclusive =>
      simp only [h] at hfits ⊢
      exact readsFirst_addOneBranch inclusive hfits.length_eq
  | subtractOneBranch inclusive =>
      simp only [h] at hfits ⊢
      exact readsFirst_subtractOneBranch inclusive hfits.length_eq
  | select =>
      simp only [h] at hfits ⊢
      exact readsFirst_select hfits.length_eq
  | extractField isSigned =>
      simp only [h] at hfits ⊢
      exact readsFirst_extractField isSigned hfits.length_eq
  | call =>
      simp only [h] at hfits ⊢
      exact readsFirst_call hfits.length_eq
  | longToPacked =>
      simp only [h] at hfits ⊢
      exact readsFirst_longToPacked hfits.length_eq
  | editPacked =>
      simp only [h] at hfits ⊢
      exact readsFirst_editPacked hfits.length_eq
  | scan forEqual =>
      simp only [h] at hfits ⊢
      exact readsFirst_scan forEqual hfits.length_eq
  | copyString =>
      simp only [h] at hfits ⊢
      exact readsFirst_copyString hfits.length_eq
  | systemCall =>
      simp only [h] at hfits ⊢
      exact readsFirst_systemCall hfits.length_eq

end Exec

end Vax
