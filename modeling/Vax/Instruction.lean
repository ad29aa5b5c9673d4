import Vax.Width
import Vax.Instruction.Catalog
import Vax.Instruction.Specifier
/-!
# Instructions

An instruction is a catalog entry with its decoded operands.  There are two
ways to read the opcode in front of them: a listing always has something to
show, so `Opcode.fetch` takes two bytes that are no opcode as a raw word; the
machine reads no further than it must before it refuses one.
-/

namespace Vax

structure Instruction where
  /-- The address of the opcode. -/
  address : UInt32
  /-- The size of the whole instruction, modulo 2^32. -/
  length : UInt32
  descriptor : Descriptor
  operands : List Operand

/-- What stands at the front of an instruction. -/
inductive Opcode where
  | known (descriptor : Descriptor)
  /-- Two bytes that are not in the catalog. -/
  | raw (code : UInt16)

namespace Opcode

/-- The code of an opcode with an escape byte. -/
def twoByteCode (first second : UInt8) : UInt16 :=
  UInt16.ofNat (first.toNat * 256 + second.toNat)

/-- Fetches an opcode.  When the first byte has no entry of its own a second
is read, whether or not the first is an escape byte. -/
def fetch (m : Memory) : Fetch Opcode := do
  let first ← Fetch.byte m
  match Catalog.find? first.toUInt16 with
  | some descriptor => return known descriptor
  | none =>
    let code := twoByteCode first (← Fetch.byte m)
    match Catalog.find? code with
    | some descriptor => return known descriptor
    | none => return raw code

def text : Opcode → String
  | known descriptor => descriptor.mnemonic
  | raw code => ".word " ++ Text.marked code.toNat

end Opcode

namespace Instruction

/-- Fetches the operands of an instruction whose opcode, at `address`, has
just been read. -/
def fetchOperands (m : Memory) (address : UInt32) (descriptor : Descriptor) :
    Fetch Instruction := do
  let operands ← descriptor.operands.mapM (Operand.fetch m)
  return ⟨address, (← Fetch.position) - address, descriptor, operands⟩

def nextAddress (i : Instruction) : UInt32 :=
  i.address + i.length

def width (i : Instruction) : Width :=
  Width.ofOpcode i.descriptor.code.toNat

/-- The integer width of one operand. -/
def operandWidth? (i : Instruction) (index : Nat) : Option Width :=
  i.operands[index]?.bind fun operand => Width.ofSize? operand.kind.size

/-- The addresses that the operands name. -/
def targets (i : Instruction) : List UInt32 :=
  i.operands.filterMap fun operand => operand.specifier.target?

def render (symbols : SymbolTable) (i : Instruction) : String :=
  let operands := i.operands.map (Operand.render symbols)
  i.descriptor.mnemonic ++ (if operands.isEmpty then "" else " ") ++ ",".intercalate operands

end Instruction

end Vax
