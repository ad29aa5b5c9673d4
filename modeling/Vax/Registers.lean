import Vax.Flags
import Vax.Text.Number
/-!
# The register file

Sixteen longwords, four of which have a role of their own, and the condition
codes.  Register numbers wrap: the register after `pc` is `r0`.
-/

namespace Vax

abbrev Register : Type := Fin 16

namespace Register

-- Literals and comparisons of registers rest on these in every module.
instance : @NeZero Nat Zero.ofOfNat0 16 := ⟨by decide⟩

instance : LawfulBEq Register := inferInstance

/-- The argument pointer. -/
def ap : Register := 12

/-- The frame pointer. -/
def fp : Register := 13

/-- The stack pointer. -/
def sp : Register := 14

/-- The program counter. -/
def pc : Register := 15

/-- The register that the low four bits of a byte name. -/
def ofByte (byte : UInt8) : Register :=
  Fin.ofNat 16 byte.toNat

def name (r : Register) : String :=
  match r.val with
  | 12 => "ap"
  | 13 => "fp"
  | 14 => "sp"
  | 15 => "pc"
  | i => "r" ++ toString i

end Register

structure Registers where
  values : Vector UInt32 16
  flags : Flags

namespace Registers

def zeroed : Registers :=
  ⟨Vector.replicate 16 0, Flags.clear⟩

def get (rs : Registers) (r : Register) : UInt32 :=
  rs.values[r]

def set (rs : Registers) (r : Register) (value : UInt32) : Registers :=
  ⟨rs.values.set r value, rs.flags⟩

def setFlags (rs : Registers) (flags : Flags) : Registers :=
  ⟨rs.values, flags⟩

/-- The quadword held by a register and the next, the first being the low half. -/
def pair (rs : Registers) (r : Register) : BitVec 64 :=
  (rs.get (r + 1)).toBitVec ++ (rs.get r).toBitVec

def ap (rs : Registers) : UInt32 := rs.get Register.ap

def fp (rs : Registers) : UInt32 := rs.get Register.fp

def sp (rs : Registers) : UInt32 := rs.get Register.sp

def pc (rs : Registers) : UInt32 := rs.get Register.pc

@[simp] theorem get_set_self (rs : Registers) (r : Register) (value : UInt32) :
    (rs.set r value).get r = value := by
  simp [get, set]

theorem get_set_of_ne (rs : Registers) {r s : Register} (value : UInt32) (h : r ≠ s) :
    (rs.set r value).get s = rs.get s := by
  have hval : r.val ≠ s.val := fun e => h (Fin.ext e)
  simp [get, set, hval]

@[simp] theorem flags_set (rs : Registers) (r : Register) (value : UInt32) :
    (rs.set r value).flags = rs.flags := rfl

@[simp] theorem get_setFlags (rs : Registers) (flags : Flags) (r : Register) :
    (rs.setFlags flags).get r = rs.get r := rfl

@[simp] theorem flags_setFlags (rs : Registers) (flags : Flags) :
    (rs.setFlags flags).flags = flags := rfl

theorem ext_get {rs rs' : Registers} (h : ∀ r, rs.get r = rs'.get r)
    (hflags : rs.flags = rs'.flags) : rs = rs' := by
  obtain ⟨values, flags⟩ := rs
  obtain ⟨values', flags'⟩ := rs'
  obtain rfl : flags = flags' := hflags
  congr 1
  apply Vector.ext
  intro i hi
  exact h ⟨i, hi⟩

theorem get_set (rs : Registers) (r s : Register) (value : UInt32) :
    (rs.set r value).get s = if r = s then value else rs.get s := by
  by_cases h : r = s
  · rw [if_pos h, h, get_set_self]
  · rw [if_neg h, get_set_of_ne _ _ h]

theorem set_set (rs : Registers) (r : Register) (value value' : UInt32) :
    (rs.set r value).set r value' = rs.set r value' := by
  apply ext_get
  · intro s
    simp only [get_set]
    split <;> rfl
  · rfl

theorem set_get (rs : Registers) (r : Register) : rs.set r (rs.get r) = rs := by
  apply ext_get
  · intro s
    rw [get_set]
    split
    · next h => rw [h]
    · rfl
  · rfl

/-- One register as a dump shows it, its name right-aligned to three columns. -/
def showOne (rs : Registers) (r : Register) : String :=
  let name := Register.name r
  String.ofList (List.replicate (3 - name.length) ' ') ++ name ++ ":" ++ Text.hexLong (rs.get r)

/-- The dump: four registers to a line, then the condition codes. -/
def dump (rs : Registers) : List String :=
  let line (k : Nat) :=
    " ".intercalate ((List.range 4).map fun i => rs.showOne (Fin.ofNat 16 (4 * k + i)))
  (List.range 4).map line ++ ["psl:" ++ rs.flags.text]

end Registers

end Vax
