import Vax.Memory
import Vax.SystemCall
/-!
# Faults

A fault ends the program at the instruction that raised it.  Its cause says
what went wrong, and `message` how that is worded.
-/

namespace Vax

namespace Fault

inductive Cause where
  /-- The opcode is not in the catalog; it was read from `length` bytes. -/
  | unknownOpcode (code : UInt16) (length : Nat)
  /-- The catalog knows the opcode, the machine does not. -/
  | unimplemented (code : UInt16) (mnemonic : String)
  /-- The operand cannot be used in this way; the byte is its specifier. -/
  | addressingMode (specifier : UInt8)
  | memory (access : OutOfRange)
  | privileged (mnemonic : String)
  | reservedOperand (mnemonic : String)
  | systemCall (number : Nat)
  /-- An edit pattern asked for more digits than its source has. -/
  | decimalSourceExhausted
  /-- A byte of an edit pattern is no operator. -/
  | editPattern (byte : UInt8)
  /-- The output refused what the program wrote. -/
  | output (text : String)
  deriving DecidableEq, Repr

def Cause.message : Cause → String
  | .unknownOpcode code length =>
    "unknown opcode " ++ Text.hexPadded (if length = 1 then 2 else 4) code.toNat
  | .unimplemented code mnemonic =>
    "unimplemented instruction " ++ mnemonic ++ " (" ++ Text.hexPadded 2 code.toNat ++ ")"
  | .addressingMode specifier => "unsupported operand specifier " ++ Text.hexByte specifier
  | .memory access => access.message
  | .privileged mnemonic => "privileged instruction " ++ mnemonic
  | .reservedOperand mnemonic => "reserved operand in " ++ mnemonic
  | .systemCall number =>
    "unknown syscall " ++ Text.hexPadded 2 number ++ " (" ++ SystemCall.nameOf number ++ ")"
  | .decimalSourceExhausted => "editpc: source is too short"
  | .editPattern byte => "editpc: unknown operator " ++ Text.hexByte byte
  | .output text => "output failed: " ++ text

end Fault

/-- A cause with the address of the instruction that raised it. -/
structure Fault where
  address : UInt32
  cause : Fault.Cause
  deriving DecidableEq, Repr

def Fault.message (f : Fault) : String :=
  Text.hexLong f.address ++ ": " ++ f.cause.message

end Vax
