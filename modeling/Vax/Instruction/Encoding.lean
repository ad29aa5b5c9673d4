import Vax.Instruction
/-!
# Machine code

The way back from instructions to bytes.  An encoding says how an operand is
written in the instruction stream; its fields are the runs of bytes that a
fetch reads one by one, and its meaning may depend on where it stands.
-/

namespace Vax

/-- How a mode is written. -/
inductive Mode.Encoding where
  | literal (value : UInt8)
  | register (r : Register)
  | deferred (r : Register)
  | autodecrement (r : Register)
  | autoincrement (r : Register)
  | immediate (value : Nat)
  | autoincrementDeferred (r : Register)
  | absolute (address : UInt32)
  | displacement (r : Register) (width : Width) (offset : BitVec width.bits) (isDeferred : Bool)
  /-- The specifier of an index in the place of a mode. -/
  | reserved (r : Register)

namespace Mode.Encoding

def specifierByte (selector : Nat) (r : Register) : UInt8 :=
  UInt8.ofNat (16 * selector + r.val)

/-- The selector of a displacement of some width. -/
def displacementSelector (width : Width) (isDeferred : Bool) : Nat :=
  isDeferred.toNat +
    match width with
    | .byte => 10
    | .word => 12
    | .long | .quad => 14

/-- Whether an operand of some kind can be written so. -/
def WellFormed (kind : OperandKind) : Mode.Encoding → Prop
  | literal value => value.toNat < 64
  | autoincrement r | autoincrementDeferred r => r ≠ Register.pc
  | immediate value => value < 256 ^ kind.size
  | displacement _ width _ _ => width ≠ .quad
  | _ => True

/-- The byte at the front. -/
def byte : Mode.Encoding → UInt8
  | literal value => value
  | register r => specifierByte 5 r
  | deferred r => specifierByte 6 r
  | autodecrement r => specifierByte 7 r
  | autoincrement r => specifierByte 8 r
  | immediate _ => specifierByte 8 Register.pc
  | autoincrementDeferred r => specifierByte 9 r
  | absolute _ => specifierByte 9 Register.pc
  | displacement r width _ isDeferred => specifierByte (displacementSelector width isDeferred) r
  | reserved r => specifierByte Mode.indexSelector r

/-- What follows the byte at the front. -/
def extension (kind : OperandKind) : Mode.Encoding → List (List UInt8)
  | immediate value => [LittleEndian.toBytes kind.size value]
  | absolute address => [LittleEndian.toBytes 4 address.toNat]
  | displacement _ width offset _ => [LittleEndian.toBytes width.size offset.toNat]
  | _ => []

/-- The mode that is meant when the extension stands at `position`.  What
counts from the program counter counts from the end of the extension. -/
def mode (position : UInt32) : Mode.Encoding → Mode
  | literal value => .literal value
  | register r => .register r
  | deferred r => .deferred r
  | autodecrement r => .autodecrement r
  | autoincrement r => .autoincrement r
  | immediate value => .immediate position value
  | autoincrementDeferred r => .autoincrementDeferred r
  | absolute address => .absolute address
  | displacement r width offset isDeferred =>
    if r = Register.pc then
      .relative (position + UInt32.ofNat width.size + UInt32.ofInt offset.toInt) isDeferred
    else
      .displacement r offset.toInt isDeferred
  | reserved r => .reserved (specifierByte Mode.indexSelector r)

end Mode.Encoding

inductive Specifier.Encoding where
  | plain (mode : Mode.Encoding)
  | indexed (base : Mode.Encoding) (r : Register)
  | branch (width : Width) (offset : BitVec width.bits)

namespace Specifier.Encoding

/-- Whether an operand of some kind can be written so.  Only the base of an
index can be reserved. -/
def WellFormed (kind : OperandKind) : Specifier.Encoding → Prop
  | plain mode => kind.isBranch = false ∧ mode.WellFormed kind ∧ ∀ r, mode ≠ .reserved r
  | indexed base _ => kind.isBranch = false ∧ base.WellFormed kind
  | branch width _ => kind.isBranch = true ∧ width.size = kind.size

def fields (kind : OperandKind) : Specifier.Encoding → List (List UInt8)
  | plain mode => [mode.byte] :: mode.extension kind
  | indexed base r =>
    [Mode.Encoding.specifierByte Mode.indexSelector r] :: [base.byte] :: base.extension kind
  | branch width offset => [LittleEndian.toBytes width.size offset.toNat]

/-- The specifier that is meant when the first field stands at `position`. -/
def specifier (position : UInt32) : Specifier.Encoding → Specifier
  | plain mode => .plain (mode.mode (position + 1))
  | indexed base r => .indexed (base.mode (position + 1 + 1)) r
  | branch width offset =>
    .branch (position + UInt32.ofNat width.size + UInt32.ofInt offset.toInt)

end Specifier.Encoding

structure Operand.Encoding where
  kind : OperandKind
  specifier : Specifier.Encoding

namespace Operand.Encoding

def WellFormed (e : Operand.Encoding) : Prop :=
  e.specifier.WellFormed e.kind

def fields (e : Operand.Encoding) : List (List UInt8) :=
  e.specifier.fields e.kind

def operand (position : UInt32) (e : Operand.Encoding) : Operand :=
  ⟨e.kind, e.specifier.specifier position⟩

/-- The operands that are meant when they follow each other from `position` on. -/
def operands : UInt32 → List Operand.Encoding → List Operand
  | _, [] => []
  | position, e :: rest =>
    e.operand position :: operands (position + UInt32.ofNat e.fields.flatten.length) rest

end Operand.Encoding

/-- The bytes of an opcode, the escape byte first. -/
def Descriptor.codeFields (d : Descriptor) : List (List UInt8) :=
  if d.codeLength = 1 then [[UInt8.ofNat d.code.toNat]]
  else [[UInt8.ofNat (d.code.toNat / 256)], [UInt8.ofNat d.code.toNat]]

structure Instruction.Encoding where
  descriptor : Descriptor
  operands : List Operand.Encoding

namespace Instruction.Encoding

/-- The operands are those of an instruction in the catalog. -/
structure WellFormed (e : Instruction.Encoding) : Prop where
  catalogued : e.descriptor ∈ Catalog.descriptors
  kinds : e.operands.map Operand.Encoding.kind = e.descriptor.operands
  operands : ∀ operand ∈ e.operands, operand.WellFormed

def operandFields (e : Instruction.Encoding) : List (List UInt8) :=
  e.operands.flatMap Operand.Encoding.fields

def fields (e : Instruction.Encoding) : List (List UInt8) :=
  e.descriptor.codeFields ++ e.operandFields

/-- The machine code. -/
def bytes (e : Instruction.Encoding) : List UInt8 :=
  e.fields.flatten

/-- The instruction that is meant at `address`. -/
def instruction (address : UInt32) (e : Instruction.Encoding) : Instruction :=
  ⟨address, UInt32.ofNat e.bytes.length, e.descriptor,
    Operand.Encoding.operands (address + UInt32.ofNat e.descriptor.codeLength) e.operands⟩

end Instruction.Encoding

namespace Memory

/-- The opcode at `address` is in the catalog, and `i`, the instruction read
with it, ends before `stop`. -/
def Decodes (m : Memory) (address : UInt32) (i : Instruction) (stop : UInt32) : Prop :=
  ∃ position,
    (Opcode.fetch m).run address = .ok (.known i.descriptor, position) ∧
      (Instruction.fetchOperands m address i.descriptor).run position = .ok (i, stop)

end Memory

end Vax
