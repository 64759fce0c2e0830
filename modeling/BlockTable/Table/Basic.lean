import BlockTable.Sizing
import BlockTable.Table.Block
import BlockTable.Table.Slots

/-!
# Tables

A hash table whose entries are blocks of bytes in an array of slots.  A key is searched from its
home slot on, and removing an entry closes the gap it leaves, so no mark of it remains.

Every operation answers together with the table after it.  An operation that fails answers an error,
and the table after it shows how far it came: a resize that went through stays, an entry that was
taken out stays out.  Only `put` can give up for good, when every slot is taken by another key.

The *version* of a table lets an iterator see that the table was modified.  It counts the calls of
`put` that came past the resize, the entries removed or cleared, and the resizes, modulo `2 ^ 64`.

A table that is closed has no slots, and every operation on it fails.
-/

namespace BlockTable

/-- A hash table of blocks. -/
structure Table (κ ν : Type) where
  /-- How entries are stored. -/
  scheme : Scheme κ ν
  /-- The slots, until the table is closed. -/
  slots? : Option (Slots Block)
  /-- The bits of the load above which the slots are doubled. -/
  loadFactor : UInt64
  /-- The number of slots that the table never shrinks to. -/
  minCapacity : Nat
  /-- The number of entries. -/
  size : Nat
  /-- The count of modifications. -/
  version : UInt64

namespace Table

variable {κ ν : Type}

/-! ## Making a table -/

/-- An empty table with settings that are taken as they are. -/
def ofSizing (scheme : Scheme κ ν) (sizing : Sizing) : Table κ ν where
  scheme
  slots? := some (.empty sizing.initialCapacity)
  loadFactor := sizing.loadFactor
  minCapacity := sizing.minCapacity
  size := 0
  version := 0

/-- An empty table with the default settings. -/
def new (scheme : Scheme κ ν) : Table κ ν := ofSizing scheme .default

/-- An empty table, if the settings are valid and the slots are not too many to exist. -/
def make (scheme : Scheme κ ν) (sizing : Sizing) : Outcome (Table κ ν) :=
  match sizing.validate with
  | .error e => .failed e
  | .ok () =>
      if Sizing.allocatable sizing.initialCapacity then .done (ofSizing scheme sizing)
      else .aborted

/-! ## Asking without a key -/

/-- The slots of an open table. -/
def slots (t : Table κ ν) : Except TableError (Slots Block) :=
  match t.slots? with
  | some s => .ok s
  | none => .error .closed

/-- The table is closed. -/
def isClosed (t : Table κ ν) : Bool := t.slots?.isNone

/-- The number of slots, zero once the table is closed. -/
def capacity (t : Table κ ν) : Nat :=
  match t.slots? with
  | some s => s.capacity
  | none => 0

/-- The number of entries. -/
def length (t : Table κ ν) : Except TableError Nat :=
  match t.slots with
  | .ok _ => .ok t.size
  | .error e => .error e

/-- The table has no entry. -/
def isEmpty (t : Table κ ν) : Except TableError Bool :=
  match t.length with
  | .ok n => .ok (n == 0)
  | .error e => .error e

/-! ## Resizing -/

/-- Moves every entry into an array of `capacity` slots.  Nothing changes if the home of one is not
known. -/
def rehash (t : Table κ ν) (s : Slots Block) (capacity : Nat) :
    Except TableError Unit × Table κ ν :=
  match s.rehash (t.scheme.blockHome capacity) capacity with
  | .error e => (.error e, t)
  | .ok s => (.ok (), { t with slots? := some s, version := t.version + 1 })

/-- Gives the table the number of slots that its load asks for. -/
def adjust (t : Table κ ν) : Except TableError Unit × Table κ ν :=
  match t.slots with
  | .error e => (.error e, t)
  | .ok s =>
      let capacity := Sizing.nextCapacity t.loadFactor t.minCapacity t.size s.capacity
      if capacity = s.capacity then (.ok (), t) else t.rehash s capacity

/-! ## Operations with a key -/

variable [BEq κ]

/-- Searches a key. -/
def search (t : Table κ ν) (s : Slots Block) (k : κ) : Except TableError Slots.Search :=
  s.search (t.scheme.holds k) (t.scheme.home k s.capacity)

/-- The block of a key. -/
def find? (t : Table κ ν) (k : κ) : Except TableError (Option Block) :=
  match t.slots with
  | .error e => .error e
  | .ok s =>
      match t.search s k with
      | .error e => .error e
      | .ok (.found slot) => .ok (s.block? slot)
      | .ok (.vacant _) | .ok .full => .ok none

/-- The value of a key. -/
def get (t : Table κ ν) (k : κ) : Except TableError (Option ν) :=
  match t.find? k with
  | .error e => .error e
  | .ok none => .ok none
  | .ok (some b) =>
      match t.scheme.decodeValue b with
      | .error e => .error e
      | .ok v => .ok (some v)

/-- The bytes that the value of a key is stored as. -/
def getBytes (t : Table κ ν) (k : κ) : Except TableError (Option (List UInt8)) :=
  match t.find? k with
  | .error e => .error e
  | .ok none => .ok none
  | .ok (some b) =>
      match t.scheme.valueBody b with
      | .error e => .error e
      | .ok body => .ok (some body.left)

/-- The table has an entry for a key. -/
def contains (t : Table κ ν) (k : κ) : Except TableError Bool :=
  match t.find? k with
  | .error e => .error e
  | .ok b? => .ok b?.isSome

/-- Replaces the block in a slot, and answers the value it held. -/
def replaceAt (t : Table κ ν) (s : Slots Block) (slot : Nat) (k : κ) (v : ν) :
    Except TableError ν × Table κ ν :=
  match t.scheme.decodeValue ((s.block? slot).getD []) with
  | .error e => (.error e, t)
  | .ok old =>
      match t.scheme.encode k v with
      | .error e => (.error e, t)
      | .ok b => (.ok old, { t with slots? := some (s.set slot (some b)) })

/-- Fills an empty slot. -/
def insertAt (t : Table κ ν) (s : Slots Block) (slot : Nat) (k : κ) (v : ν) :
    Except TableError Unit × Table κ ν :=
  match t.scheme.encode k v with
  | .error e => (.error e, t)
  | .ok b => (.ok (), { t with slots? := some (s.set slot (some b)), size := t.size + 1 })

/-- Stores a value under a key, and answers the value that was stored there. -/
def put (t : Table κ ν) (k : κ) (v : ν) : Outcome (Option ν) × Table κ ν :=
  match t.adjust with
  | (.error e, t) => (.failed e, t)
  | (.ok (), t) =>
      let t := { t with version := t.version + 1 }
      match t.slots with
      | .error e => (.failed e, t)
      | .ok s =>
          match t.search s k with
          | .error e => (.failed e, t)
          | .ok (.found slot) =>
              let (answer, t) := t.replaceAt s slot k v
              ((Outcome.ofExcept answer).map some, t)
          | .ok (.vacant slot) =>
              let (answer, t) := t.insertAt s slot k v
              ((Outcome.ofExcept answer).map fun () => none, t)
          | .ok .full => (.aborted, t)

/-- Takes the entry out of a slot and closes the gap, and answers its value.  When the gap cannot be
closed the entry is out all the same. -/
def removeAt (t : Table κ ν) (s : Slots Block) (slot : Nat) : Except TableError ν × Table κ ν :=
  match t.scheme.decodeValue ((s.block? slot).getD []) with
  | .error e => (.error e, t)
  | .ok old =>
      let (closing, s) := (s.set slot none).closeGap (t.scheme.blockHome s.capacity) slot
      let t := { t with slots? := some s, size := t.size - 1, version := t.version + 1 }
      match closing with
      | .stopped e => (.error e, t)
      | .closed | .unfinished => (.ok old, t)

/-- Removes a key, and answers the value that was stored there. -/
def remove (t : Table κ ν) (k : κ) : Except TableError (Option ν) × Table κ ν :=
  match t.adjust with
  | (.error e, t) => (.error e, t)
  | (.ok (), t) =>
      match t.slots with
      | .error e => (.error e, t)
      | .ok s =>
          match t.search s k with
          | .error e => (.error e, t)
          | .ok (.vacant _) | .ok .full => (.ok none, t)
          | .ok (.found slot) =>
              let (answer, t) := t.removeAt s slot
              (answer.map some, t)

/-! ## All entries at once -/

omit [BEq κ]

/-- Removes every entry and keeps the slots. -/
def clear (t : Table κ ν) : Except TableError Unit × Table κ ν :=
  match t.slots with
  | .error e => (.error e, t)
  | .ok s =>
      (.ok (), { t with
        slots? := some (.empty s.capacity)
        size := 0
        version := t.version + UInt64.ofNat s.blocks.length })

/-- Gives up the slots and all entries. -/
def close (t : Table κ ν) : Except TableError Unit × Table κ ν :=
  match t.slots with
  | .error e => (.error e, t)
  | .ok _ => (.ok (), { t with slots? := none, size := 0 })

end Table

end BlockTable
