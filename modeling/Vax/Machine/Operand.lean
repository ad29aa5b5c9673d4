import Vax.Machine
/-!
# Evaluating operands

A specifier is evaluated to the place where its operand lives, stepping the
registers it says to step.  The operands of an instruction are evaluated in
order before any of them is read or written.
-/

namespace Vax

/-- Where an operand lives. -/
inductive Location where
  /-- A literal or a branch target, which lives nowhere. -/
  | value (word : UInt32)
  | register (r : Register)
  | memory (address : UInt32)
  deriving DecidableEq, Repr

namespace Exec

/-- The address itself, or the one stored there. -/
def follow (address : UInt32) (isDeferred : Bool) : Exec UInt32 :=
  if isDeferred then readLong address else pure address

/-- Evaluates a mode whose operand has `size` bytes.  An immediate value is
read from where it stands in the instruction stream. -/
def locateMode (size : Nat) : Mode → Exec Location
  | .literal byte => return .value byte.toUInt32
  | .register r => return .register r
  | .deferred r => return .memory (← getRegister r)
  | .autodecrement r => do
    let address := (← getRegister r) - UInt32.ofNat size
    setRegister r address
    return .memory address
  | .autoincrement r => do
    let address ← getRegister r
    setRegister r (address + UInt32.ofNat size)
    return .memory address
  | .immediate address _ => return .memory address
  | .autoincrementDeferred r => do
    let pointer ← getRegister r
    setRegister r (pointer + 4)
    return .memory (← readLong pointer)
  | .absolute address => return .memory address
  | .displacement r offset isDeferred => do
    let address := (← getRegister r) + UInt32.ofInt offset
    return .memory (← follow address isDeferred)
  | .relative target isDeferred => return .memory (← follow target isDeferred)
  | .reserved byte => throw (.addressingMode byte)

/-- The address from which an index counts.  An immediate value has none, nor
has anything outside memory. -/
def locateBase (size : Nat) (index : Register) : Mode → Exec UInt32
  | .immediate _ _ => throw (.addressingMode (0x40 ||| UInt8.ofNat index.val))
  | base => do
    match ← locateMode size base with
    | .memory address => return address
    | _ => throw (.addressingMode (0x40 ||| UInt8.ofNat index.val))

/-- Evaluates a specifier whose operand has `size` bytes.  An index register
is read after its base has been evaluated. -/
def locate (size : Nat) : Specifier → Exec Location
  | .plain mode => locateMode size mode
  | .branch target => return .value target
  | .indexed base r => do
    let address ← locateBase size r base
    return .memory (address + (← getRegister r) * UInt32.ofNat size)

def locateAll (i : Instruction) : Exec (List Location) :=
  i.operands.mapM fun operand => locate operand.kind.size operand.specifier

/-- The instruction cannot be executed with the operands it has. -/
def reservedOperand {α : Type} (i : Instruction) : Exec α :=
  throw (.reservedOperand i.descriptor.mnemonic)

def locate1 (i : Instruction) : Exec Location := do
  match ← locateAll i with
  | [a] => return a
  | _ => reservedOperand i

def locate2 (i : Instruction) : Exec (Location × Location) := do
  match ← locateAll i with
  | [a, b] => return (a, b)
  | _ => reservedOperand i

def locate3 (i : Instruction) : Exec (Location × Location × Location) := do
  match ← locateAll i with
  | [a, b, c] => return (a, b, c)
  | _ => reservedOperand i

def locate4 (i : Instruction) : Exec (Location × Location × Location × Location) := do
  match ← locateAll i with
  | [a, b, c, d] => return (a, b, c, d)
  | _ => reservedOperand i

/-- Reads an operand.  A quadword in a register takes up the next one too. -/
def read (w : Width) : Location → Exec (BitVec w.bits)
  | .value word => return w.truncate word.toNat
  | .register r => return ((← get).registers.pair r).setWidth w.bits
  | .memory address => return w.truncate (← readNat address w.size)

/-- A register after a value of some width was written to it.  A value
narrower than the register leaves the upper bits alone. -/
def merge {n : Nat} (old : UInt32) (value : BitVec n) : UInt32 :=
  UInt32.ofNat (old.toNat / 2 ^ n * 2 ^ n + value.toNat)

/-- Writes an operand.  A literal cannot be written; its specifier byte is its
value. -/
def write (w : Width) (value : BitVec w.bits) : Location → Exec Unit
  | .value word => throw (.addressingMode word.toUInt8)
  | .register r => do
    setRegister r (merge (← getRegister r) value)
    if w = .quad then
      setRegister (r + 1) (UInt32.ofNat (value.toNat / 2 ^ 32))
  | .memory address => writeNat address w.size value.toNat

/-- The address of an operand that must live in memory. -/
def addressOf : Location → Exec UInt32
  | .memory address => return address
  | .register r => throw (.addressingMode (0x50 ||| UInt8.ofNat r.val))
  | .value word => throw (.addressingMode word.toUInt8)

/-- Sets the condition codes from a result.  Without a carry the old one stays. -/
def setResult {n : Nat} (result : BitVec n) (overflow : Bool) (carry : Option Bool) :
    Exec Unit := do
  setFlags (Flags.ofResult (← getFlags) result overflow carry)

def setComparison {n : Nat} (left right : BitVec n) : Exec Unit :=
  setFlags (Flags.ofComparison left right)

end Exec

end Vax
