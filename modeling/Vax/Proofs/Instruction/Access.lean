import Mathlib.Data.List.Forall2
import Vax.Instruction
/-!
# How instructions use their operands

Every instruction that the machine executes reads an operand as a value of
some width, writes it, does both, takes the place of it, or branches to it.
The catalog gives each operand the kind that its use asks for.
-/

namespace Vax

inductive Access where
  | read (w : Width)
  | write (w : Width)
  | modify (w : Width)
  /-- The operand is an address, or where a bit field lies. -/
  | place
  | branch
  deriving DecidableEq

/-- The kind of the operands that have a width. -/
def Width.kind : Width → OperandKind
  | byte => .byte
  | word => .word
  | long => .long
  | quad => .quad

theorem Width.size_kind (w : Width) : w.kind.size = w.size := by
  cases w <;> rfl

theorem Width.ofSize?_size_kind (w : Width) : ofSize? w.kind.size = some w := by
  rw [size_kind, ofSize?_size]

theorem Width.kind_injective {u w : Width} (h : u.kind = w.kind) : u = w := by
  have hsize := congrArg (fun kind : OperandKind => ofSize? kind.size) h
  simp only [ofSize?_size_kind] at hsize
  exact Option.some.inj hsize

namespace Access

/-- The width at which the value is read. -/
def readWidth? : Access → Option Width
  | read w | modify w => some w
  | write _ | place | branch => none

/-- The operand has the kind that its use asks for. -/
def Fits (access : Access) (kind : OperandKind) : Prop :=
  match access with
  | read w | write w | modify w => kind = w.kind
  | place => kind.isBranch = false
  | branch => kind.isBranch = true

instance (access : Access) (kind : OperandKind) : Decidable (access.Fits kind) := by
  unfold Fits
  cases access <;> infer_instance

end Access

namespace Descriptor

/-- The width of an operand that has one. -/
def operandWidth (d : Descriptor) (index : Nat) : Width :=
  ((d.operands[index]?.bind fun kind => Width.ofSize? kind.size).getD .long)

/-- How the machine uses the operands. -/
def accesses (d : Descriptor) : List Access :=
  let w := Width.ofOpcode d.code.toNat
  match d.action with
  | .arithmetic _ =>
    if d.operands.length = 2 then [.read w, .modify w] else [.read w, .read w, .write w]
  | .move | .negate | .complement => [.read w, .write w]
  | .compare | .bitTest => [.read w, .read w]
  | .test => [.read w]
  | .clear => [.write w]
  | .increment | .decrement => [.modify w]
  | .zeroExtend | .convert => [.read (d.operandWidth 0), .write (d.operandWidth 1)]
  | .moveAddress => [.place, .write .long]
  | .pushAddress | .jump | .jumpToSubroutine => [.place]
  | .pushLong => [.read .long]
  | .shift => [.read .byte, .read .long, .write .long]
  | .branch _ | .branchToSubroutine => [.branch]
  | .branchOnBit _ _ => [.read .long, .place, .branch]
  | .branchOnLowBit _ => [.read .long, .branch]
  | .addCompareBranch =>
    [.read (d.operandWidth 0), .read (d.operandWidth 0), .modify (d.operandWidth 0), .branch]
  | .addOneBranch _ => [.read .long, .modify .long, .branch]
  | .subtractOneBranch _ => [.modify .long, .branch]
  | .select => [.read w, .read w, .read w]
  | .extractField _ => [.read .long, .read .byte, .place, .write .long]
  | .call => [.read .long, .place]
  | .longToPacked => [.read .long, .read .word, .place]
  | .editPacked => [.read .word, .place, .place, .place]
  | .scan _ => [.read .byte, .read .word, .place]
  | .copyString => [.read .word, .place, .place]
  | .systemCall => [.read .word]
  | .privileged | .nothing | .returnFromSubroutine | .returnFromCall | .unimplemented => []

end Descriptor

/-- Every operand of an executed instruction has the kind that its use asks for. -/
theorem Catalog.accesses_fit : ∀ d ∈ descriptors, d.action ≠ .unimplemented →
    d.accesses.Forall₂ Access.Fits d.operands := by
  decide +kernel

end Vax
