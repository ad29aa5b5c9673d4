import Vax.Instruction
/-!
# Decoding one instruction

A disassembler looks at a memory image with the symbols of its program.  It
decodes one address at a time: an instruction, the register mask at the entry
of a procedure, or a raw word where there is no opcode.
-/

namespace Vax

/-- The table of word displacements behind a case instruction. -/
structure CaseTable where
  /-- The address of the first entry, from which every displacement counts. -/
  base : UInt32
  entries : Nat
  deriving DecidableEq, Repr

/-- What was found at an address. -/
structure Decoded where
  address : UInt32
  length : UInt32
  text : String
  targets : List UInt32
  table : Option CaseTable

def Decoded.nextAddress (d : Decoded) : UInt32 :=
  d.address + d.length

/-- The table of a case instruction whose limit is known while decoding. -/
def Instruction.caseTable? (i : Instruction) : Option CaseTable := do
  guard (i.descriptor.action = .select)
  let limit ← (← i.operands.getLast?).specifier.constant?
  guard (limit + 1 < 2 ^ 32)
  return ⟨i.nextAddress, limit + 1⟩

structure Disassembler where
  memory : Memory
  symbols : SymbolTable
  /-- The entry of the program, where a register mask stands. -/
  entry : Option UInt32

namespace Disassembler

/-- Two bytes shown as one word. -/
def wordAt (address : UInt32) (text : String) : Decoded :=
  ⟨address, 2, text, [], none⟩

def decodeAt (d : Disassembler) (address : UInt32) : Except OutOfRange Decoded := do
  let (opcode, position) ← (Opcode.fetch d.memory).run address
  match opcode with
  | .raw _ => return wordAt address opcode.text
  | .known descriptor =>
    let (i, _) ← (Instruction.fetchOperands d.memory address descriptor).run position
    return ⟨address, i.length, i.render d.symbols, i.targets, i.caseTable?⟩

/-- Decodes the register mask at the entry of a procedure. -/
def maskAt (d : Disassembler) (address : UInt32) : Except OutOfRange Decoded := do
  let mask ← d.memory.readWord address
  return wordAt address (".word " ++ Text.unsigned mask.toNat)

end Disassembler

end Vax
