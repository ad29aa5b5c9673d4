import Mathlib.Data.List.Chain
import Vax.Instruction
/-!
# Codes in the catalog

The codes ascend, so a look-up finds every entry.  A code above one byte has
an escape byte in front, and an escape byte alone is no code.
-/

namespace Vax.Catalog

/-- What the instructions are called that have an action. -/
def mnemonics (action : Action) : List String :=
  (descriptors.filter fun d => d.action = action).map Descriptor.mnemonic

theorem isChain_code : (descriptors.map fun d => d.code.toNat).IsChain (· < ·) := by
  decide +kernel

theorem find?_code_of_pairwise {ds : List Descriptor} {d : Descriptor}
    (hds : ds.Pairwise fun a b => a.code.toNat < b.code.toNat) (hd : d ∈ ds) :
    ds.find? (fun other => other.code == d.code) = some d := by
  induction ds with
  | nil => exact absurd hd List.not_mem_nil
  | cons other rest ih =>
      obtain ⟨hother, hrest⟩ := List.pairwise_cons.1 hds
      rcases List.mem_cons.1 hd with rfl | hmem
      · rw [List.find?_cons_of_pos (by simp)]
      · have hne : other.code ≠ d.code := by
          intro heq
          have hlt := hother d hmem
          rw [heq] at hlt
          exact Nat.lt_irrefl _ hlt
        rw [List.find?_cons_of_neg (by simpa using hne)]
        exact ih hrest hmem

theorem find?_code {d : Descriptor} (h : d ∈ descriptors) : find? d.code = some d := by
  have hpairwise := List.isChain_iff_pairwise.1 isChain_code
  exact find?_code_of_pairwise (List.pairwise_map.1 hpairwise) h

theorem isEscape_of_code : ∀ d ∈ descriptors,
    d.code.toNat < 256 ∨ isEscape (UInt8.ofNat (d.code.toNat / 256)) = true := by
  decide +kernel

theorem code_not_escape : ∀ d ∈ descriptors, d.code.toNat < 0xfd ∨ 256 ≤ d.code.toNat := by
  decide +kernel

theorem isEscape_iff {byte : UInt8} : isEscape byte = true ↔ 0xfd ≤ byte.toNat := by
  have hbyte := byte.toNat_lt
  simp only [isEscape, Bool.or_eq_true, beq_iff_eq, ← UInt8.toNat_inj, UInt8.reduceToNat]
  omega

theorem find?_of_isEscape {byte : UInt8} (h : isEscape byte = true) :
    find? byte.toUInt16 = none := by
  by_contra hfind
  obtain ⟨d, hd⟩ := Option.ne_none_iff_exists'.1 hfind
  have hcode := code_of_find? hd
  have hrange := code_not_escape d (mem_of_find? hd)
  have hbyte := byte.toNat_lt
  have hlow := isEscape_iff.1 h
  rw [hcode, UInt8.toNat_toUInt16] at hrange
  omega

/-- Every mnemonic begins with a byte other than a full stop. -/
theorem mnemonic_front : ∀ d ∈ descriptors,
    d.mnemonic.toByteArray.data.toList.head?.any (fun byte => byte != 46) = true := by
  decide +kernel

end Vax.Catalog
