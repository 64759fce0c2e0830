import BlockTable.Codec.Basic
import BlockTable.Hash.Hasher

/-!
# Blocks

An entry is stored as a *block*: the field of its key and behind it the field of its value.
`Scheme` holds what is needed to write and to read blocks, the two codecs, and the hash function
that gives a key its home slot.

A block is written in one draft, through a cursor over the whole block from which both fields are
split off.  It is read through a reader over as many bytes as its own headers tell
(`Scheme.storedSize`).
-/

namespace BlockTable

/-- The bytes of an entry. -/
abbrev Block := List UInt8

/-- How entries are stored. -/
structure Scheme (κ ν : Type) where
  /-- The codec of keys. -/
  key : Codec κ
  /-- The codec of values. -/
  value : Codec ν
  /-- The hash of a key. -/
  hash : κ → UInt64

namespace Scheme

variable {κ ν : Type} (scheme : Scheme κ ν)

/-! ## Homes -/

/-- A hash folded to 31 bits, in which all of its bits take part. -/
def fold31 (hash : UInt64) : Nat :=
  let folded := (hash ^^^ (hash >>> 32)).toUInt32
  ((folded ^^^ (folded >>> 16)) &&& 0x7fffffff).toNat

/-- The home slot of a key among `capacity` slots. -/
def home (k : κ) (capacity : Nat) : Nat := fold31 (scheme.hash k) % capacity

/-! ## Writing -/

/-- The number of bytes of the block of an entry. -/
def blockSize (k : κ) (v : ν) : Nat := scheme.key.fieldSize k + scheme.value.fieldSize v

/-- What is done to write a block: the key, and the value if the key went well. -/
def writing (k : κ) (v : ν) : Writing :=
  scheme.key.writeField k (Writing.onSuccess (scheme.value.writeField v .done))

/-- The block of an entry.  Bytes that no codec wrote are zero. -/
def encode (k : κ) (v : ν) : Except TableError Block :=
  let size := scheme.blockSize k v
  match (scheme.writing k v).run (.blank size) with
  | (.ok (), d) => .ok (d.contents size)
  | (.error e, _) => .error e

/-! ## Reading -/

/-- The number of bytes of a block, as its headers tell. -/
def storedSize (b : Block) : Nat :=
  let keySize := scheme.key.storedSize b
  keySize + scheme.value.storedSize (b.drop keySize)

/-- A reader over a block. -/
def reader (b : Block) : Reader := ⟨b.take (scheme.storedSize b)⟩

/-- The key of a block. -/
def decodeKey (b : Block) : Except TableError κ := (scheme.key.readField (scheme.reader b)).1

/-- A reader over the body of the value of a block, which skips the key undecoded. -/
def valueBody (b : Block) : Except TableError Reader :=
  match scheme.key.splitField (scheme.reader b) with
  | (.error e, _) => .error e
  | (.ok _, r) => (scheme.value.splitField r).1

/-- The value of a block. -/
def decodeValue (b : Block) : Except TableError ν :=
  match scheme.valueBody b with
  | .error e => .error e
  | .ok body => (scheme.value.read body).1

/-- The key and the value of a block, in this order. -/
def decode (b : Block) : Except TableError (κ × ν) :=
  match scheme.key.readField (scheme.reader b) with
  | (.error e, _) => .error e
  | (.ok k, r) =>
      match (scheme.value.readField r).1 with
      | .error e => .error e
      | .ok v => .ok (k, v)

/-- The home slot of a block among `capacity` slots. -/
def blockHome (capacity : Nat) (b : Block) : Except TableError Nat :=
  match scheme.decodeKey b with
  | .error e => .error e
  | .ok k => .ok (scheme.home k capacity)

/-- Whether a block holds a key. -/
def holds [BEq κ] (k : κ) (b : Block) : Except TableError Bool :=
  match scheme.decodeKey b with
  | .error e => .error e
  | .ok stored => .ok (stored == k)

end Scheme

end BlockTable
