import Vax.Proofs.Checked.Decoding
import Vax.Proofs.Checked.Operand
/-!
# Trace lines that can fail

A trace line shows all registers by number and decodes the instruction once
more, whose registers it looks up in the table of their names.
-/

namespace Vax

namespace Checked

variable (kind : OperandKind) (symbols : SymbolTable)

def registerName (number : Nat) : Option String :=
  Register.name <$> register number

def Mode.render : Mode → Option String
  | .register r => registerName r.val
  | .deferred r => return "(" ++ (← registerName r.val) ++ ")"
  | .autodecrement r => return "-(" ++ (← registerName r.val) ++ ")"
  | .autoincrement r => return "(" ++ (← registerName r.val) ++ ")+"
  | .autoincrementDeferred r => return "*(" ++ (← registerName r.val) ++ ")+"
  | .displacement r offset isDeferred =>
    return Mode.star isDeferred ++ (if offset = 0 then "" else Text.signed offset) ++ "(" ++
      (← registerName r.val) ++ ")"
  | mode => return mode.render kind symbols

def Specifier.render : Specifier → Option String
  | .plain mode => Mode.render kind symbols mode
  | .indexed base r =>
    return (← Mode.render kind symbols base) ++ "[" ++ (← registerName r.val) ++ "]"
  | .branch target => return Text.marked target.toNat

def Operand.render (operand : Operand) : Option String :=
  Specifier.render operand.kind symbols operand.specifier

def Instruction.render (i : Instruction) : Option String := do
  let operands ← i.operands.mapM (Operand.render symbols)
  return i.descriptor.mnemonic ++ (if operands.isEmpty then "" else " ") ++
    ",".intercalate operands

def decodeAt (d : Disassembler) (address : UInt32) : Access Decoded := do
  let (opcode, position) ← (Opcode.fetch d.memory).run address
  match opcode with
  | .raw _ => return Disassembler.wordAt address opcode.text
  | .known descriptor =>
    let (i, _) ← (fetchOperands d.memory address descriptor).run position
    return ⟨address, i.length, ← Instruction.render d.symbols i, i.targets, i.caseTable?⟩

def traceLine (m : Machine) : Option String := do
  let registers ← (List.range 16).mapM fun number => do
    return Text.hexLong (m.registers.get (← register number))
  let text ← match ← (decodeAt m.disassembler m.registers.pc).run with
    | .ok decoded => pure decoded.text
    | .error e => pure e.message
  return m.registers.flags.text ++ " " ++ " ".intercalate registers ++ " " ++ text

/-- Begins an instruction.  The trace line is made only for a log that takes it. -/
def begun (m : Machine) : Option Machine := do
  let m' := { m with current := m.registers.pc }
  if m.log.enabled .trace then
    let line ← traceLine m
    return m'.logged .trace fun _ => line
  else
    return m'

theorem registerName_eq (r : Register) : registerName r.val = some r.name := by
  rw [registerName, register_val]
  rfl

theorem render_mode_eq (mode : Mode) :
    Mode.render kind symbols mode = some (mode.render kind symbols) := by
  cases mode
  case register r => exact registerName_eq r
  case deferred r | autodecrement r | autoincrement r | autoincrementDeferred r =>
    exact bind_eq_some (registerName_eq r) rfl
  case displacement r offset isDeferred => exact bind_eq_some (registerName_eq r) rfl
  all_goals rfl

theorem render_specifier_eq (specifier : Specifier) :
    Specifier.render kind symbols specifier = some (specifier.render kind symbols) := by
  cases specifier with
  | plain mode => exact render_mode_eq kind symbols mode
  | indexed base r =>
    exact bind_eq_some (render_mode_eq kind symbols base) <|
      bind_eq_some (registerName_eq r) rfl
  | branch target => rfl

theorem mapM_eq_some {α β : Type} {f : α → Option β} {g : α → β} (h : ∀ a, f a = some (g a))
    (as : List α) : as.mapM f = some (as.map g) := by
  obtain rfl : f = fun a => pure (g a) := funext h
  exact List.mapM_pure

theorem render_eq (i : Instruction) : Instruction.render symbols i = some (i.render symbols) :=
  bind_eq_some (mapM_eq_some (fun operand : Operand =>
    render_specifier_eq operand.kind symbols operand.specifier) i.operands) rfl

theorem follows_decodeAt (d : Disassembler) (address : UInt32) :
    Follows id (decodeAt d address) (d.decodeAt address) := by
  refine (follows_run (follows_fetchOpcode d.memory) address).bind fun opcode => ?_
  dsimp only [id]
  cases opcode.1 with
  | raw code => exact follows_pure id _
  | known descriptor =>
    exact (follows_run (follows_fetchOperands d.memory address descriptor) _).bind fun i =>
      .compute (render_eq d.symbols i.1) <| follows_pure id _

theorem traceLine_eq (m : Machine) : traceLine m = some m.traceLine := by
  have hregisters : ((List.range 16).mapM fun number => do
      return Text.hexLong (m.registers.get (← register number)) : Option (List String)) =
      some ((List.finRange 16).map fun r => Text.hexLong (m.registers.get r)) := by
    have hnumbers : List.finRange 16 = (List.range 16).map (Fin.ofNat 16) := by decide
    rw [hnumbers, List.map_map]
    refine mapM_eq_some (fun number => ?_) _
    rw [register_eq]
    rfl
  have hdecoded : (decodeAt m.disassembler m.registers.pc).run =
      some (m.disassembler.decodeAt m.registers.pc) :=
    (follows_decodeAt _ _).eq
  refine bind_eq_some hregisters <| bind_eq_some hdecoded ?_
  unfold Machine.traceLine
  cases m.disassembler.decodeAt m.registers.pc <;> rfl

theorem begun_eq (m : Machine) : begun m = some m.begun := by
  unfold begun
  split
  · exact bind_eq_some (traceLine_eq m) rfl
  · next hquiet =>
    rw [Machine.begun, Machine.logged, Log.add, if_neg hquiet]
    rfl

end Checked

end Vax
