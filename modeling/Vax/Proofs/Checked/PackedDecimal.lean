import Vax.Machine.PackedDecimal
import Vax.Proofs.Checked.Operand
/-!
# Packed decimal strings that can fail

Digits are split off a number by division, put into the halves of bytes by
shifts, and turned into characters by a sum in one byte.  The digits that are
left to an edit are counted down.
-/

namespace Vax

namespace Checked

variable {i : Instruction}

/-! ## Longwords as packed strings -/

def storeZeros : Nat → UInt32 → Checked Unit
  | 0, _ => return
  | count + 1, address => do
    writeByte address 0
    storeZeros count (address + 1)

/-- Stores up to `count` digits, of which the one with an even place goes to the
high half of its byte. -/
def storeDigits : Nat → Nat → UInt32 → Nat → Checked (UInt32 × Nat)
  | 0, _, address, rest => return (address, rest)
  | count + 1, place, address, rest => do
    if rest = 0 then
      return (address, 0)
    let digit := UInt8.ofNat (← remainder rest 10)
    if (← remainder place 2) = 0 then
      let byte ← readByte address
      writeByte address (byte ||| UInt8.ofNat (← shiftLeft 8 digit.toNat 4))
      storeDigits count (place + 1) address (← divide rest 10)
    else
      writeByte (address - 1) digit
      storeDigits count (place + 1) (address - 1) (← divide rest 10)

def longToPacked (i : Instruction) : Checked Unit := do
  let (source, length, destination) ← locate3 i
  let value ← signExtend .long (← read .long source)
  let length ← read .word length
  let address ← addressOf destination
  if Packed.maxDigits < length then
    reservedOperand i
  let half ← divide length 2
  let last := address + UInt32.ofNat half
  storeZeros half address
  writeByte last (Packed.signOf (value < 0))
  let (first, rest) ← storeDigits length 0 last value.natAbs
  setRegister 0 0
  setRegister 1 0
  setRegister 2 0
  setRegister 3 first
  Exec.setFlags ⟨value < 0, value == 0, 0 < rest, false⟩

theorem follows_storeZeros (count : Nat) (address : UInt32) :
    Follows id (storeZeros count address) (Exec.storeZeros count address) := by
  induction count generalizing address with
  | zero => exact follows_pure id ()
  | succ count ih => exact (follows_writeByte _ _).bind fun _ => ih _

theorem follows_storeDigits (count place : Nat) (address : UInt32) (rest : Nat) :
    Follows id (storeDigits count place address rest)
      (Exec.storeDigits count (place % 2 == 0) address rest) := by
  induction count generalizing place address rest with
  | zero => exact follows_pure id _
  | succ count ih =>
    have hdigit : (UInt8.ofNat (rest % 10)).toNat = rest % 10 := by
      rw [UInt8.toNat_ofNat']
      omega
    have hhalf : shiftLeft 8 (UInt8.ofNat (rest % 10)).toNat 4 = some (rest % 10 * 16) := by
      rw [hdigit, shiftLeft, if_pos (by decide), Nat.mod_eq_of_lt (by omega)]
    have hhigh : place % 2 = 0 ↔ (place % 2 == 0) = true := beq_iff_eq.symm
    have hnext : ((place + 1) % 2 == 0) = !(place % 2 == 0) := by
      rw [Bool.eq_iff_iff, Bool.not_eq_true', beq_iff_eq, beq_eq_false_iff_ne]
      omega
    refine .ite Iff.rfl (follows_pure id _) <| .compute (if_neg (by decide)) <|
      .compute (if_neg (by decide)) ?_
    cases hplace : place % 2 == 0 with
    | true =>
      rw [hplace] at hhigh hnext
      have hrest := fun address rest => hnext ▸ ih (place + 1) address rest
      rw [if_pos (hhigh.2 rfl)]
      exact (follows_readByte _).bind fun _ => .compute hhalf <| (follows_writeByte _ _).bind
        fun _ => .compute (if_neg (by decide)) (hrest _ _)
    | false =>
      rw [hplace] at hhigh hnext
      have hrest := fun address rest => hnext ▸ ih (place + 1) address rest
      rw [if_neg fun h => absurd (hhigh.1 h) (by decide)]
      exact (follows_writeByte _ _).bind fun _ => .compute (if_neg (by decide)) (hrest _ _)

theorem follows_longToPacked : Follows id (longToPacked i) (Exec.longToPacked i) := by
  refine (follows_locate3 i).bind fun _ => (follows_read .long _).bind fun value =>
    .compute (signExtend_eq .long value) <| (follows_read .word _).bind fun length =>
    (follows_addressOf _).bind fun address => .ite Iff.rfl (follows_reservedOperand_bind i _ _) ?_
  refine .compute (if_neg (by decide)) <| (follows_storeZeros _ _).bind fun _ =>
    (follows_writeByte _ _).bind fun _ => (follows_storeDigits _ 0 _ _).bind fun _ =>
    (follows_setRegister 0 _).bind fun _ => (follows_setRegister 1 _).bind fun _ =>
    (follows_setRegister 2 _).bind fun _ => (follows_setRegister 3 _).bind fun _ =>
    follows_lift (Exec.setFlags _)

/-! ## Edits -/

def nextDigit (p : Edit.Progress) : Checked (UInt8 × Edit.Progress) := do
  if p.remaining = 0 then
    throw .decimalSourceExhausted
  let byte ← readByte p.source
  if (← remainder p.remaining 2) = 1 then
    let digit := UInt8.ofNat (← shiftRight 8 byte.toNat 4)
    return (digit, { p with remaining := ← subtract p.remaining 1 })
  else
    let digit := byte &&& 0xf
    return (digit, { p with remaining := ← subtract p.remaining 1, source := p.source + 1 })

def emit (p : Edit.Progress) (character : UInt8) : Checked Edit.Progress := do
  writeByte p.destination character
  return { p with destination := p.destination + 1 }

/-- The character of a digit, or the fill character. -/
def character (isSignificant : Bool) (digit : UInt8) : Option UInt8 := do
  if isSignificant then
    return UInt8.ofNat (← add 8 0x30 digit.toNat)
  else
    return 0x20

def moveDigit (isFloating : Bool) (sign : UInt8) (p : Edit.Progress) :
    Checked Edit.Progress := do
  let start := p.source
  let (digit, p) ← nextDigit p
  let isZero := p.isZero && digit == 0
  let begins := digit != 0 && p.significance.isNone
  let p := { p with
    isZero := isZero
    significance := if begins then some start else p.significance }
  let p ← if begins && isFloating then emit p sign else pure p
  emit p (← character p.significance.isSome digit)

def moveDigits (isFloating : Bool) (sign : UInt8) :
    Nat → Edit.Progress → Checked Edit.Progress
  | 0, p => return p
  | count + 1, p => do moveDigits isFloating sign count (← moveDigit isFloating sign p)

def endFloat (sign : UInt8) (p : Edit.Progress) : Checked Edit.Progress := do
  match p.significance with
  | some _ => return p
  | none => emit { p with significance := some p.source } sign

def followPattern (sign : UInt8) : Nat → Edit.Progress → Checked Edit.Progress
  | 0, p => throw (.memory ⟨p.pattern, 1⟩)
  | operators + 1, p => do
    let byte ← readByte p.pattern
    match Edit.Operator.ofByte? byte with
    | some .finish => return p
    | some .endFloat =>
      let p ← endFloat sign p
      followPattern sign operators { p with pattern := p.pattern + 1 }
    | some (.moveDigits count isFloating) =>
      let p ← moveDigits isFloating sign count p
      followPattern sign operators { p with pattern := p.pattern + 1 }
    | none => throw (.editPattern byte)

def editPacked (i : Instruction) : Checked Unit := do
  let (length, source, pattern, destination) ← locate4 i
  let length ← read .word length
  let source ← addressOf source
  let pattern ← addressOf pattern
  let destination ← addressOf destination
  if Packed.maxDigits < length then
    reservedOperand i
  let half ← divide length 2
  let isNegative := Packed.isNegative (← readByte (source + UInt32.ofNat half))
  let operators := (← get).memory.size + 1
  let p ← followPattern (Edit.signCharacter isNegative) operators
    ⟨length, source, pattern, destination, true, none⟩
  setRegister 0 (UInt32.ofNat length)
  setRegister 1 (p.significance.getD 0)
  setRegister 2 0
  setRegister 3 p.pattern
  setRegister 4 0
  setRegister 5 p.destination
  Exec.setFlags ⟨isNegative && !p.isZero, p.isZero, p.remaining != 0, p.significance.isSome⟩

theorem follows_nextDigit (p : Edit.Progress) :
    Follows id (nextDigit p) (Exec.nextDigit p) := by
  by_cases hzero : p.remaining = 0
  · rw [nextDigit, if_pos hzero, Exec.nextDigit, if_pos hzero]
    rfl
  have hsubtract : subtract p.remaining 1 = some (p.remaining - 1) :=
    if_pos (Nat.one_le_iff_ne_zero.2 hzero)
  rw [nextDigit, if_neg hzero, Exec.nextDigit, if_neg hzero]
  refine (follows_readByte _).bind fun byte => .compute (if_neg (by decide)) ?_
  dsimp only [id]
  have hhigh : UInt8.ofNat (byte.toNat / 2 ^ 4) = byte / 16 := by
    apply UInt8.toNat_inj.1
    rw [UInt8.toNat_div, UInt8.toNat_ofNat']
    exact Nat.mod_eq_of_lt (Nat.lt_of_le_of_lt (Nat.div_le_self _ _) byte.toNat_lt)
  have hlow : byte &&& 0xf = byte % 16 := by
    apply UInt8.toNat_inj.1
    rw [UInt8.toNat_and, UInt8.toNat_mod]
    exact Nat.and_two_pow_sub_one_eq_mod byte.toNat 4
  refine .ite Iff.rfl (.compute (if_pos (by decide)) <| .compute hsubtract ?_)
    (.compute hsubtract ?_)
  · rw [hhigh]
    exact follows_pure id _
  · rw [hlow]
    exact follows_pure id _

theorem follows_emit (p : Edit.Progress) (character : UInt8) :
    Follows id (emit p character) (Exec.emit p character) :=
  (follows_writeByte _ _).bind fun _ => follows_pure id _

theorem follows_endFloat (sign : UInt8) (p : Edit.Progress) :
    Follows id (endFloat sign p) (Exec.endFloat sign p) := by
  unfold endFloat Exec.endFloat
  cases p.significance with
  | some address => exact follows_pure id _
  | none => exact follows_emit _ _

theorem character_eq (isSignificant : Bool) {digit : UInt8} (h : digit.toNat < 16) :
    character isSignificant digit = some (Edit.character isSignificant digit) := by
  cases isSignificant with
  | false => rfl
  | true =>
    have hsum : UInt8.ofNat (0x30 + digit.toNat) = 0x30 + digit := by
      apply UInt8.toNat_inj.1
      rw [UInt8.toNat_ofNat', UInt8.toNat_add]
      rfl
    have hadd : add 8 0x30 digit.toNat = some (0x30 + digit.toNat) := if_pos (by omega)
    exact bind_eq_some hadd (congrArg some hsum)

theorem lt_of_nextDigit {p : Edit.Progress} {m after : Machine}
    {result : UInt8 × Edit.Progress} (h : (Exec.nextDigit p).run m = .ok result after) :
    result.1.toNat < 16 := by
  by_cases hzero : p.remaining = 0
  · rw [Exec.nextDigit, if_pos hzero] at h
    obtain ⟨_, _, hthrow, -⟩ := Exec.run_bind_eq_ok.1 h
    exact absurd hthrow (Exec.run_throw_ne_ok _)
  rw [Exec.nextDigit, if_neg hzero] at h
  obtain ⟨byte, _, -, h⟩ := Exec.run_bind_eq_ok.1 h
  have hbyte := byte.toNat_lt
  split at h
  · obtain ⟨rfl, -⟩ := Exec.run_pure_eq_ok.1 h
    rw [UInt8.toNat_div]
    exact Nat.div_lt_of_lt_mul hbyte
  · obtain ⟨rfl, -⟩ := Exec.run_pure_eq_ok.1 h
    rw [UInt8.toNat_mod]
    exact Nat.mod_lt _ (by decide)

theorem follows_moveDigit (isFloating : Bool) (sign : UInt8) (p : Edit.Progress) :
    Follows id (moveDigit isFloating sign p) (Exec.moveDigit isFloating sign p) := by
  refine (follows_nextDigit p).bind_of (fun _ _ _ => lt_of_nextDigit) fun result hresult => ?_
  refine .ite Iff.rfl ?_ ?_
  · exact (follows_emit _ _).bind fun _ => .compute (character_eq _ hresult) (follows_emit _ _)
  · exact .compute (character_eq _ hresult) (follows_emit _ _)

theorem follows_moveDigits (isFloating : Bool) (sign : UInt8) (count : Nat)
    (p : Edit.Progress) :
    Follows id (moveDigits isFloating sign count p) (Exec.moveDigits isFloating sign count p) := by
  induction count generalizing p with
  | zero => exact follows_pure id p
  | succ count ih => exact (follows_moveDigit isFloating sign p).bind fun _ => ih _

theorem follows_followPattern (sign : UInt8) (operators : Nat) (p : Edit.Progress) :
    Follows id (followPattern sign operators p) (Exec.followPattern sign operators p) := by
  induction operators generalizing p with
  | zero => exact follows_throw _
  | succ operators ih =>
    refine (follows_readByte _).bind fun byte => ?_
    dsimp only [id]
    cases Edit.Operator.ofByte? byte with
    | none => exact follows_throw _
    | some operator =>
      cases operator with
      | finish => exact follows_pure id p
      | endFloat => exact (follows_endFloat sign p).bind fun _ => ih _
      | moveDigits count isFloating =>
        exact (follows_moveDigits isFloating sign count p).bind fun _ => ih _

theorem follows_editPacked : Follows id (editPacked i) (Exec.editPacked i) :=
  (follows_locate4 i).bind fun _ => (follows_read .word _).bind fun length =>
    (follows_addressOf _).bind fun _ => (follows_addressOf _).bind fun _ =>
    (follows_addressOf _).bind fun _ => .ite Iff.rfl (follows_reservedOperand_bind i _ _) <|
    .compute (if_neg (by decide)) <| (follows_readByte _).bind fun _ => follows_get.bind fun _ =>
    (follows_followPattern _ _ _).bind fun _ =>
    (follows_setRegister 0 _).bind fun _ => (follows_setRegister 1 _).bind fun _ =>
    (follows_setRegister 2 _).bind fun _ => (follows_setRegister 3 _).bind fun _ =>
    (follows_setRegister 4 _).bind fun _ => (follows_setRegister 5 _).bind fun _ =>
    follows_lift (Exec.setFlags _)

end Checked

end Vax
