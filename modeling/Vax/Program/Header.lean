import Vax.ByteOrder
import Vax.Text.Number
/-!
# The program header

A program file begins with eight longwords.  They give the sizes of what
follows and the entry address, whose sign bit chooses the half of the address
space that the program lives in.
-/

namespace Vax

structure Header where
  magic : UInt32
  /-- The size of the text segment. -/
  text : UInt32
  /-- The size of the data segment. -/
  data : UInt32
  /-- The size of the zero-filled segment that follows the data in memory. -/
  bss : UInt32
  /-- The size of the symbol table. -/
  syms : UInt32
  entry : UInt32
  /-- The size of the text relocation table. -/
  trsize : UInt32
  /-- The size of the data relocation table. -/
  drsize : UInt32
  deriving DecidableEq, Repr

namespace Header

def executableMagic : UInt32 := 0x108

def length : Nat := 32

/-- The base address of programs in the upper half of the address space. -/
def highBase : UInt32 := 0x80000000

/-- The alignment of the data segment in memory. -/
def dataAlignment : UInt32 := 0x200

/-- The header with the given words; words that are missing count as zero. -/
def ofBytes (bytes : List UInt8) : Header :=
  let word (i : Nat) := UInt32.ofNat (LittleEndian.ofBytes ((bytes.drop (4 * i)).take 4))
  ⟨word 0, word 1, word 2, word 3, word 4, word 5, word 6, word 7⟩

/-- The header at the front of a file, if the file is long enough to have one. -/
def ofBytes? (file : List UInt8) : Option Header :=
  if length ≤ file.length then some (ofBytes (file.take length)) else none

/-- The eight words in order. -/
def words (h : Header) : List UInt32 :=
  [h.magic, h.text, h.data, h.bss, h.syms, h.entry, h.trsize, h.drsize]

def toBytes (h : Header) : List UInt8 :=
  h.words.flatMap fun word => LittleEndian.toBytes 4 word.toNat

/-- The lowest address of the program. -/
def base (h : Header) : UInt32 :=
  if highBase ≤ h.entry then highBase else 0

/-- How far the data segment lies above the base: the text size rounded up to
the alignment, modulo 2^32. -/
def dataOffset (h : Header) : UInt32 :=
  let raised := h.text + (dataAlignment - 1)
  raised - raised % dataAlignment

def describe (h : Header) : String :=
  "magic = " ++ Text.hexLong h.magic ++ ", text  = " ++ Text.hexLong h.text ++
    ", data   = " ++ Text.hexLong h.data ++ ", bss    = " ++ Text.hexLong h.bss ++ "\n" ++
  "syms  = " ++ Text.hexLong h.syms ++ ", entry = " ++ Text.hexLong h.entry ++
    ", trsize = " ++ Text.hexLong h.trsize ++ ", drsize = " ++ Text.hexLong h.drsize

end Header

end Vax
