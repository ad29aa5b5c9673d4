import Vax.Registers
import Vax.Memory.Fetch
import Vax.Instruction.Kind
import Vax.Program.SymbolTable
/-!
# Operand specifiers

An operand begins with a byte whose high half selects an addressing mode and
whose low half names a register.  Decoding reads it and whatever the mode
keeps in the instruction stream; the effect on registers is left to the
machine.  Modes that use the program counter are resolved while decoding,
against the address just after what was read.
-/

namespace Vax

inductive Mode where
  /-- A number below 64, held in the specifier byte itself. -/
  | literal (byte : UInt8)
  | register (r : Register)
  /-- Memory at the register. -/
  | deferred (r : Register)
  /-- Memory at the register, which first steps down by the operand size. -/
  | autodecrement (r : Register)
  /-- Memory at the register, which then steps up by the operand size. -/
  | autoincrement (r : Register)
  /-- A value in the instruction stream at `address`. -/
  | immediate (address : UInt32) (value : Nat)
  /-- Memory at the address in memory at the register, which then steps up by four. -/
  | autoincrementDeferred (r : Register)
  /-- Memory at an address in the instruction stream. -/
  | absolute (address : UInt32)
  /-- Memory at the register plus `offset`, or at the address found there. -/
  | displacement (r : Register) (offset : Int) (isDeferred : Bool)
  /-- Memory at a distance from the program counter, or at the address found there. -/
  | relative (target : UInt32) (isDeferred : Bool)
  /-- A byte that stands for no mode where it was found. -/
  | reserved (byte : UInt8)
  deriving DecidableEq, Repr

inductive Specifier where
  | plain (mode : Mode)
  /-- A base mode plus the register times the operand size. -/
  | indexed (base : Mode) (r : Register)
  /-- A branch displacement, resolved to its target. -/
  | branch (target : UInt32)
  deriving DecidableEq, Repr

/-- A specifier with the kind of the operand it stands for. -/
structure Operand where
  kind : OperandKind
  specifier : Specifier
  deriving DecidableEq, Repr

namespace Mode

/-- The number that selects the mode of a specifier byte. -/
def selector (byte : UInt8) : Nat :=
  byte.toNat / 16

/-- The selector of index mode, which is followed by the specifier of its base. -/
def indexSelector : Nat := 4

/-- The rest of a mode after its specifier byte.  An index selector is
reserved here, because the base of an index cannot be indexed again. -/
def fetchAfter (m : Memory) (kind : OperandKind) (byte : UInt8) : Fetch Mode := do
  let r := Register.ofByte byte
  match selector byte with
  | 0 | 1 | 2 | 3 => return literal byte
  | 4 => return reserved byte
  | 5 => return register r
  | 6 => return deferred r
  | 7 => return autodecrement r
  | 8 =>
    if r = Register.pc then
      let address ← Fetch.position
      return immediate address (← Fetch.number m kind.size)
    else
      return autoincrement r
  | 9 =>
    if r = Register.pc then
      return absolute (← Fetch.long m)
    else
      return autoincrementDeferred r
  | mode =>
    let isDeferred := mode % 2 == 1
    let offset ← Fetch.displacement m (2 ^ ((mode - 10) / 2))
    if r = Register.pc then
      return relative ((← Fetch.position) + UInt32.ofInt offset) isDeferred
    else
      return displacement r offset isDeferred

def fetch (m : Memory) (kind : OperandKind) : Fetch Mode := do
  fetchAfter m kind (← Fetch.byte m)

/-- The address that the mode names without looking at a register. -/
def target? : Mode → Option UInt32
  | absolute address => some address
  | relative target _ => some target
  | _ => none

/-- An address with the name of the procedure or variable there. -/
def addressText (symbols : SymbolTable) (address : UInt32) : String :=
  Text.marked address.toNat ++
    match symbols.nameAt? address with
    | some name => "<" ++ name ++ ">"
    | none => ""

/-- The mark of a mode that finds an address in memory. -/
def star (isDeferred : Bool) : String :=
  if isDeferred then "*" else ""

def render (kind : OperandKind) (symbols : SymbolTable) : Mode → String
  | literal byte => "$" ++ Text.unsigned byte.toNat ++ kind.valueSuffix
  | register r => r.name
  | deferred r => "(" ++ r.name ++ ")"
  | autodecrement r => "-(" ++ r.name ++ ")"
  | autoincrement r => "(" ++ r.name ++ ")+"
  | immediate _ value => "$" ++ Text.unsigned value ++ kind.valueSuffix
  | autoincrementDeferred r => "*(" ++ r.name ++ ")+"
  | absolute address => "*" ++ addressText symbols address
  | displacement r offset isDeferred =>
    star isDeferred ++ (if offset = 0 then "" else Text.signed offset) ++ "(" ++ r.name ++ ")"
  | relative target isDeferred => star isDeferred ++ addressText symbols target
  | reserved _ => "???"

end Mode

namespace Specifier

/-- Fetches the specifier of an operand.  A branch displacement is signed and
counts from the address just after it. -/
def fetch (m : Memory) (kind : OperandKind) : Fetch Specifier := do
  if kind.isBranch then
    let offset ← Fetch.displacement m kind.size
    return branch ((← Fetch.position) + UInt32.ofInt offset)
  let byte ← Fetch.byte m
  if Mode.selector byte = Mode.indexSelector then
    return indexed (← Mode.fetch m kind) (Register.ofByte byte)
  else
    return plain (← Mode.fetchAfter m kind byte)

/-- The address that the specifier names without looking at a register; that
of an indexed operand is its base. -/
def target? : Specifier → Option UInt32
  | plain mode => mode.target?
  | indexed base _ => base.target?
  | branch target => some target

/-- The literal or immediate value, which is known without running anything. -/
def constant? : Specifier → Option Nat
  | plain (.literal byte) => some byte.toNat
  | plain (.immediate _ value) => some value
  | _ => none

def render (kind : OperandKind) (symbols : SymbolTable) : Specifier → String
  | plain mode => mode.render kind symbols
  | indexed base r => base.render kind symbols ++ "[" ++ r.name ++ "]"
  | branch target => Text.marked target.toNat

end Specifier

namespace Operand

def fetch (m : Memory) (kind : OperandKind) : Fetch Operand :=
  Operand.mk kind <$> Specifier.fetch m kind

def render (symbols : SymbolTable) (operand : Operand) : String :=
  operand.specifier.render operand.kind symbols

end Operand

end Vax
