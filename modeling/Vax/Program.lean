import Vax.Log
import Vax.Program.Header
import Vax.Program.SymbolTable
/-!
# Program files

A program file is a header, the text segment, the data segment, the relocation
tables, and the symbol table.  Relocations are skipped: a program is loaded
where it was linked.  A file without the magic number is not refused but taken
as text alone, which can be listed and not run.
-/

namespace Vax

inductive Segment where
  | text
  | data
  | relocations
  | symbols
  deriving DecidableEq, Repr

def Segment.name : Segment → String
  | text => "text segment"
  | data => "data segment"
  | relocations => "relocation tables"
  | symbols => "symbol table"

/-- The file ends before a segment does. -/
structure Truncated where
  segment : Segment
  deriving DecidableEq, Repr

def Truncated.message (e : Truncated) : String :=
  "executable is truncated in its " ++ e.segment.name

structure Program where
  /-- The header, which only an executable has. -/
  header : Option Header
  text : List UInt8
  data : List UInt8
  symbols : SymbolTable

namespace Program

/-- Text without anything else. -/
def raw (text : List UInt8) : Program :=
  ⟨none, text, [], SymbolTable.empty⟩

/-- Splits a segment off the rest of a file. -/
def takeSegment (segment : Segment) (length : UInt32) (rest : List UInt8) :
    Except Truncated (List UInt8 × List UInt8) :=
  if length.toNat ≤ rest.length then
    .ok (rest.take length.toNat, rest.drop length.toNat)
  else
    .error ⟨segment⟩

def symbolBytes (h : Header) (rest : List UInt8) : Except Truncated (List UInt8) := do
  let (_, rest) ← takeSegment .relocations (h.trsize + h.drsize) rest
  let (table, _) ← takeSegment .symbols h.syms rest
  return table

/-- The executable whose segments follow the header. -/
def ofSegments (h : Header) (body : List UInt8) : Except Truncated Program := do
  let (text, rest) ← takeSegment .text h.text body
  let (data, rest) ← takeSegment .data h.data rest
  if h.syms = 0 then
    return ⟨some h, text, data, SymbolTable.empty⟩
  let table ← symbolBytes h rest
  return ⟨some h, text, data, SymbolTable.ofBytes h.base table⟩

/-- The header of a file that has one with the magic number. -/
def executableHeader? (file : List UInt8) : Option Header :=
  (Header.ofBytes? file).filter fun h => h.magic == Header.executableMagic

def ofFile (file : List UInt8) : Except Truncated Program :=
  match executableHeader? file with
  | some h => ofSegments h (file.drop Header.length)
  | none => .ok (raw file)

/-- What is logged about the symbols of an executable that was read. -/
def symbolEvents (h : Header) (file : List UInt8) (program : Program) : List Event :=
  let discarded :=
    match symbolBytes h (file.drop (Header.length + program.text.length + program.data.length)) with
    | .ok table => SymbolTable.discarded h.base table
    | .error _ => 0
  let trace : List Event :=
    if h.syms = 0 then [] else [⟨.trace, "discarded " ++ toString discarded ++ " symbols"⟩]
  trace ++ [⟨.debug, "retained " ++ toString program.symbols.size ++ " symbols"⟩]

/-- What reading a file logs. -/
def readEvents (file : List UInt8) : List Event :=
  match executableHeader? file with
  | some h =>
    ⟨.debug, "a.out header:\n" ++ h.describe⟩ ::
      match ofFile file with
      | .ok program => symbolEvents h file program
      | .error _ => []
  | none =>
    let magic := ((Header.ofBytes? file).map Header.magic).getD 0
    [⟨.warn, "unknown format: " ++ Text.hexLong magic ++ "; treating the file as raw text"⟩]

def isExecutable (p : Program) : Bool :=
  p.header.isSome

def entry? (p : Program) : Option UInt32 :=
  p.header.map Header.entry

def base (p : Program) : UInt32 :=
  (p.header.map Header.base).getD 0

def textEnd (p : Program) : UInt32 :=
  p.base + UInt32.ofNat p.text.length

def dataAddress (p : Program) : UInt32 :=
  p.base + (p.header.map Header.dataOffset).getD 0

def bssLength (p : Program) : UInt32 :=
  (p.header.map Header.bss).getD 0

/-- The header that describes the parts of a program as they are. -/
def actualHeader (h : Header) (p : Program) : Header :=
  { h with
    text := UInt32.ofNat p.text.length
    data := UInt32.ofNat p.data.length
    syms := UInt32.ofNat p.symbols.toBytes.length
    trsize := 0
    drsize := 0 }

/-- The file of a program, without relocation tables. -/
def toFile (p : Program) : List UInt8 :=
  match p.header with
  | none => p.text
  | some h => (actualHeader h p).toBytes ++ p.text ++ p.data ++ p.symbols.toBytes

end Program

end Vax
