import Vax.Disassembler
import Vax.Text.Row
import Vax.Program
/-!
# Listings

A listing covers a range of addresses.  It marks the places of symbols, which
get a line of their own, and the addresses that instructions name, and no
entry runs past a mark: bytes that would hide one, or that do not decode, are
listed as raw bytes up to the next mark or the end of the range.
-/

namespace Vax

inductive Line where
  /-- The start of a compilation unit. -/
  | unit (address : UInt32) (name : String)
  /-- The start of a procedure or variable. -/
  | label (address : UInt32) (name : String)
  /-- Bytes with what they mean. -/
  | code (address : UInt32) (bytes : List UInt8) (text : String)
  deriving DecidableEq, Repr

def Line.text : Line → String
  | unit _ name => "[" ++ name ++ "]"
  | label _ name => name ++ ":"
  | code address bytes text => Text.entry address bytes text

namespace Listing

/-- Why an address is marked. -/
inductive MarkKind where
  | unit (name : String)
  | procedure (name : String)
  /-- An instruction or a case table names the address. -/
  | target
  deriving DecidableEq, Repr

structure Mark where
  address : UInt32
  kind : MarkKind
  deriving DecidableEq, Repr

namespace Mark

def ofSymbol (s : Symbol) : Mark :=
  ⟨s.address, if s.isUnit then .unit s.name else .procedure s.name⟩

def heading? (mark : Mark) : Option Line :=
  match mark.kind with
  | .unit name => some (.unit mark.address name)
  | .procedure name => some (.label mark.address name)
  | .target => none

def isProcedure (mark : Mark) : Bool :=
  match mark.kind with
  | .procedure _ => true
  | _ => false

end Mark

/-- Marks a target, behind every mark at the same or a lower address. -/
def insertTarget (address : UInt32) : List Mark → List Mark
  | [] => [⟨address, .target⟩]
  | mark :: rest =>
    if mark.address ≤ address then mark :: insertTarget address rest
    else ⟨address, .target⟩ :: mark :: rest

/-- The entries of a case table that are still to be listed. -/
structure PendingTable where
  base : UInt32
  remaining : Nat
  deriving DecidableEq, Repr

/-- Where a listing stands between two entries. -/
structure State where
  position : UInt32
  /-- The marks from the position on, in order of address. -/
  marks : List Mark
  table : Option PendingTable

/-- The address at which the next entry must end at the latest. -/
def limit (stop : UInt32) (marks : List Mark) : UInt32 :=
  match marks with
  | [] => stop
  | mark :: _ => min mark.address stop

/-- The entry of `length` bytes at the position, if they are in the image. -/
def entry? (m : Memory) (position length : UInt32) (text : List UInt8 → String)
    (marks : List Mark) (table : Option PendingTable) : Option (Line × State) :=
  match m.slice position length.toNat with
  | .ok bytes => some (.code position bytes (text bytes), ⟨position + length, marks, table⟩)
  | .error _ => none

def byteDirective (bytes : List UInt8) : String :=
  ".byte " ++ ", ".intercalate (bytes.map fun byte => "0x" ++ Text.hexByte byte)

/-- Raw bytes up to the limit. -/
def rawEntry? (d : Disassembler) (stop position : UInt32) (marks : List Mark) :
    Option (Line × State) :=
  let length := min (max 1 (limit stop marks - position)) (stop - position)
  entry? d.memory position length byteDirective marks none

/-- An instruction or a register mask, unless it does not decode or would run
past the limit.  Its targets behind it are marked. -/
def codeEntry? (d : Disassembler) (stop position : UInt32) (isMask : Bool)
    (marks : List Mark) : Option (Line × State) :=
  match if isMask then d.maskAt position else d.decodeAt position with
  | .ok decoded =>
    let next := decoded.nextAddress
    if next ≤ limit stop marks then
      let targets := decoded.targets.filter fun target => next ≤ target
      entry? d.memory position decoded.length (fun _ => decoded.text)
        (targets.foldl (fun marks target => insertTarget target marks) marks)
        (decoded.table.map fun table => ⟨table.base, table.entries⟩)
    else
      rawEntry? d stop position marks
  | .error _ => rawEntry? d stop position marks

/-- One displacement of a case table.  A table that would hide a mark is
abandoned. -/
def tableEntry? (d : Disassembler) (stop position : UInt32) (table : PendingTable)
    (marks : List Mark) : Option (Line × State) :=
  match d.memory.readWord position with
  | .ok word =>
    if position + 2 ≤ limit stop marks then
      let target := table.base + UInt32.ofInt word.toBitVec.toInt
      let text := ".word " ++ Text.marked target.toNat ++ "-" ++ Text.marked table.base.toNat
      let rest : Option PendingTable :=
        if table.remaining ≤ 1 then none else some ⟨table.base, table.remaining - 1⟩
      entry? d.memory position 2 (fun _ => text) (insertTarget target marks) rest
    else
      rawEntry? d stop position marks
  | .error _ => rawEntry? d stop position marks

/-- The headings at the position and the entry that follows them.  Marks that
were passed are dropped.  Without an entry the listing ends. -/
def advance (d : Disassembler) (stop : UInt32) (s : State) : List Line × Option State :=
  let ahead := s.marks.dropWhile fun mark => mark.address < s.position
  let here := ahead.takeWhile fun mark => mark.address == s.position
  let marks := ahead.dropWhile fun mark => mark.address == s.position
  let headings := here.filterMap Mark.heading?
  let next :=
    match s.table with
    | some table => tableEntry? d stop s.position table marks
    | none =>
      let isMask := d.entry == some s.position || here.any Mark.isProcedure
      codeEntry? d stop s.position isMask marks
  match next with
  | some (line, s) => (headings ++ [line], some s)
  | none => (headings, none)

/-- The lines of at most `entries` entries. -/
def linesFrom (d : Disassembler) (stop : UInt32) : Nat → State → List Line
  | 0, _ => []
  | entries + 1, s =>
    if stop ≤ s.position then []
    else
      let (lines, next) := advance d stop s
      match next with
      | some s => lines ++ linesFrom d stop entries s
      | none => lines

end Listing

/-- The lines from `start` up to `stop`.  Every entry holds a byte of the
image, so there are no more entries than the image has bytes. -/
def Disassembler.listing (d : Disassembler) (start stop : UInt32) : List Line :=
  Listing.linesFrom d stop (d.memory.size + 1)
    ⟨start, d.symbols.symbols.map Listing.Mark.ofSymbol, none⟩

def Program.disassembler (p : Program) : Disassembler :=
  ⟨Memory.ofBytes p.base p.text, p.symbols, p.entry?⟩

def Program.listing (p : Program) : List Line :=
  p.disassembler.listing p.base p.textEnd

def Program.disassembly (p : Program) : String :=
  String.join (p.listing.map fun line => line.text ++ "\n")

end Vax
