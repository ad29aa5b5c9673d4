import Vax.Flags
/-!
# The call status longword

A procedure call saves one longword that tells the return what to restore:

* bits 0 to 3, the condition codes C, V, Z, N of the caller;
* bits 16 to 27, the registers `r0` to `r11` that were saved;
* bit 29, whether an argument count was pushed;
* bits 30 and 31, the bytes by which the stack pointer was rounded down.

Setting a field keeps the low bits of the value that fit and leaves every
other bit of the longword alone.
-/

namespace Vax

structure CallStatus where
  word : UInt32
  deriving DecidableEq, Repr

namespace CallStatus

/-- The `width` bits from bit `low` on. -/
def field (s : CallStatus) (low width : Nat) : Nat :=
  s.word.toNat / 2 ^ low % 2 ^ width

/-- The longword with the `width` bits from bit `low` on replaced. -/
def setField (s : CallStatus) (low width value : Nat) : CallStatus :=
  ⟨UInt32.ofNat (s.word.toNat - s.field low width * 2 ^ low + value % 2 ^ width * 2 ^ low)⟩

def bit (s : CallStatus) (position : Nat) : Bool :=
  s.field position 1 == 1

def setBit (s : CallStatus) (position : Nat) (value : Bool) : CallStatus :=
  s.setField position 1 value.toNat

def flags (s : CallStatus) : Flags :=
  ⟨s.bit 3, s.bit 2, s.bit 1, s.bit 0⟩

def setFlags (s : CallStatus) (flags : Flags) : CallStatus :=
  (((s.setBit 3 flags.n).setBit 2 flags.z).setBit 1 flags.v).setBit 0 flags.c

/-- The saved registers, bit 0 being `r0`. -/
def mask (s : CallStatus) : Nat :=
  s.field 16 12

def setMask (s : CallStatus) (mask : Nat) : CallStatus :=
  s.setField 16 12 mask

/-- Whether an argument count lies above the frame. -/
def counted (s : CallStatus) : Bool :=
  s.bit 29

def setCounted (s : CallStatus) (counted : Bool) : CallStatus :=
  s.setBit 29 counted

/-- The bytes by which the stack pointer was rounded down. -/
def align (s : CallStatus) : Nat :=
  s.field 30 2

def setAlign (s : CallStatus) (align : Nat) : CallStatus :=
  s.setField 30 2 align

end CallStatus

end Vax
