import Vax.Proofs.Checked.Operand
/-!
# Character strings that can fail

A search counts the bytes that are left down from the length of the string.
-/

namespace Vax

namespace Checked

variable {i : Instruction}

/-- Searches on for at most as many rounds as are given. -/
def scanFrom (character : UInt8) (forEqual : Bool) :
    Nat → Nat → UInt32 → Checked (Nat × UInt32)
  | 0, remaining, address => return (remaining, address)
  | rounds + 1, remaining, address => do
    let byte ← readByte address
    if (byte == character) == forEqual then
      return (remaining, address)
    else
      scanFrom character forEqual rounds (← subtract remaining 1) (address + 1)

def scan (i : Instruction) (forEqual : Bool) : Checked Unit := do
  let (character, length, address) ← locate3 i
  let character ← read .byte character
  let length ← read .word length
  let address ← addressOf address
  let (remaining, found) ← scanFrom (UInt8.ofNat character) forEqual length length address
  setRegister 0 (UInt32.ofNat remaining)
  setRegister 1 found
  Exec.setFlags ⟨false, remaining == 0, false, false⟩

def copyString (i : Instruction) : Checked Unit := do
  let (length, source, destination) ← locate3 i
  let length ← read .word length
  let source ← addressOf source
  let destination ← addressOf destination
  let bytes ← slice source length
  store destination bytes.length bytes
  setRegister 0 0
  setRegister 1 (source + UInt32.ofNat length)
  setRegister 2 0
  setRegister 3 (destination + UInt32.ofNat length)
  setRegister 4 0
  setRegister 5 0
  Exec.setFlags ⟨false, true, false, false⟩

theorem follows_scanFrom (character : UInt8) (forEqual : Bool) (remaining : Nat)
    (address : UInt32) :
    Follows id (scanFrom character forEqual remaining remaining address)
      (Exec.scanFrom character forEqual remaining address) := by
  induction remaining generalizing address with
  | zero => exact follows_pure id _
  | succ remaining ih =>
    exact (follows_readByte address).bind fun byte => .ite Iff.rfl (follows_pure id _) <|
      .compute (if_pos (Nat.le_add_left 1 remaining)) (ih _)

theorem follows_scan (forEqual : Bool) : Follows id (scan i forEqual) (Exec.scan i forEqual) := by
  refine (follows_locate3 i).bind fun _ => (follows_read .byte _).bind fun character =>
    (follows_read .word _).bind fun length => (follows_addressOf _).bind fun address => ?_
  have hcharacter : UInt8.ofNat character.toNat = UInt8.ofBitVec character :=
    UInt8.toNat_inj.1 (Nat.mod_eq_of_lt character.isLt)
  rw [hcharacter]
  exact (follows_scanFrom _ _ _ _).bind fun _ => (follows_setRegister 0 _).bind fun _ =>
    (follows_setRegister 1 _).bind fun _ => follows_lift (Exec.setFlags _)

theorem follows_copyString : Follows id (copyString i) (Exec.copyString i) :=
  (follows_locate3 i).bind fun _ => (follows_read .word _).bind fun _ =>
    (follows_addressOf _).bind fun _ => (follows_addressOf _).bind fun _ =>
    (follows_slice _ _).bind fun _ => (follows_store _ rfl).bind fun _ =>
    (follows_setRegister 0 _).bind fun _ => (follows_setRegister 1 _).bind fun _ =>
    (follows_setRegister 2 _).bind fun _ => (follows_setRegister 3 _).bind fun _ =>
    (follows_setRegister 4 _).bind fun _ => (follows_setRegister 5 _).bind fun _ =>
    follows_lift (Exec.setFlags _)

end Checked

end Vax
