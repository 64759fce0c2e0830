import BlockTable.Table.Contents

/-!
# Maps

A map is a table behind its owner's name.  Its operations are those of the table, and it differs
from a table in two things only: a map always equals itself, whatever it holds, and it can be put
together part by part by a builder.
-/

namespace BlockTable

/-- A map from keys to values. -/
structure BlockMap (κ ν : Type) where
  /-- The table of its entries. -/
  table : Table κ ν

namespace BlockMap

variable {κ ν : Type}

/-! ## Making a map -/

/-- An empty map with the default settings. -/
def new (scheme : Scheme κ ν) : BlockMap κ ν := ⟨.new scheme⟩

/-- An empty map with given settings. -/
def make (scheme : Scheme κ ν) (sizing : Sizing) : Outcome (BlockMap κ ν) :=
  (Table.make scheme sizing).map .mk

/-- An empty map with the default settings but for the load factor. -/
def withLoadFactor (scheme : Scheme κ ν) (loadFactor : UInt64) : Outcome (BlockMap κ ν) :=
  make scheme (.ofLoadFactor loadFactor)

/-- An empty map with the default settings but for the initial capacity. -/
def withCapacity (scheme : Scheme κ ν) (capacity : Nat) : Outcome (BlockMap κ ν) :=
  make scheme (.ofCapacity capacity)

/-- The parts of a map in the making. -/
structure Builder (κ ν : Type) where
  /-- The codec of keys, once it is given. -/
  key? : Option (Codec κ) := none
  /-- The codec of values, once it is given. -/
  value? : Option (Codec ν) := none
  /-- The settings. -/
  sizing : Sizing := .default
  /-- The hash of a key. -/
  hash : κ → UInt64

namespace Builder

def loadFactor (b : Builder κ ν) (loadFactor : UInt64) : Builder κ ν :=
  { b with sizing := { b.sizing with loadFactor } }

def initialCapacity (b : Builder κ ν) (initialCapacity : Nat) : Builder κ ν :=
  { b with sizing := { b.sizing with initialCapacity } }

def minCapacity (b : Builder κ ν) (minCapacity : Nat) : Builder κ ν :=
  { b with sizing := { b.sizing with minCapacity } }

/-- The map, if both codecs were given and the settings are valid.  They are looked at in this
order. -/
def build (b : Builder κ ν) : Outcome (BlockMap κ ν) :=
  match b.key?, b.value? with
  | none, _ => .failed (.missing "key codec")
  | some _, none => .failed (.missing "value codec")
  | some key, some value => make ⟨key, value, b.hash⟩ b.sizing

end Builder

/-!
## Operations

Those of the table.
-/

def isClosed (m : BlockMap κ ν) : Bool := m.table.isClosed

def capacity (m : BlockMap κ ν) : Nat := m.table.capacity

def loadFactor (m : BlockMap κ ν) : UInt64 := m.table.loadFactor

def length (m : BlockMap κ ν) : Except TableError Nat := m.table.length

def isEmpty (m : BlockMap κ ν) : Except TableError Bool := m.table.isEmpty

def clear (m : BlockMap κ ν) : Except TableError Unit × BlockMap κ ν := m.table.clear.map id .mk

def close (m : BlockMap κ ν) : Except TableError Unit × BlockMap κ ν := m.table.close.map id .mk

def get [BEq κ] (m : BlockMap κ ν) (k : κ) : Except TableError (Option ν) := m.table.get k

def contains [BEq κ] (m : BlockMap κ ν) (k : κ) : Except TableError Bool := m.table.contains k

def put [BEq κ] (m : BlockMap κ ν) (k : κ) (v : ν) : Outcome (Option ν) × BlockMap κ ν :=
  (m.table.put k v).map id .mk

def remove [BEq κ] (m : BlockMap κ ν) (k : κ) : Except TableError (Option ν) × BlockMap κ ν :=
  (m.table.remove k).map id .mk

/-! ## Iterators -/

def iterator (m : BlockMap κ ν) : Except TableError Iterator := m.table.iterator

def hasMore (m : BlockMap κ ν) (it : Iterator) : Except TableError Bool := m.table.hasMore it

def next (m : BlockMap κ ν) (it : Iterator) : Except TableError (κ × ν) × Iterator :=
  m.table.next it

def next? (m : BlockMap κ ν) (it : Iterator) : Option (Except TableError (κ × ν)) × Iterator :=
  m.table.next? it

def entries (m : BlockMap κ ν) : Except TableError (List (Except TableError (κ × ν))) :=
  m.table.entries

/-! ## Contents -/

/-- Every answer is an entry that the map holds with an equal value. -/
def holdsAll [BEq κ] [BEq ν] (m : BlockMap κ ν) :
    List (Except TableError (κ × ν)) → Except TableError Bool
  | [] => .ok true
  | .error e :: _ => .error e
  | .ok (k, v) :: rest =>
      match m.get k with
      | .error e => .error e
      | .ok none => .ok false
      | .ok (some v') => if v' == v then m.holdsAll rest else .ok false

/-- Two open maps hold the same entries. -/
def sameEntries [BEq κ] [BEq ν] (a b : BlockMap κ ν) : Except TableError Bool :=
  match a.length, b.length, a.entries with
  | .error e, _, _ | .ok _, .error e, _ | .ok _, .ok _, .error e => .error e
  | .ok m, .ok n, .ok answers => if m = n then b.holdsAll answers else .ok false

/-- Equality of maps.  When both are one and the same map their entries are not looked at. -/
def beq [BEq κ] [BEq ν] (areOne : Bool) (a b : BlockMap κ ν) : Bool :=
  areOne ||
    match a.isClosed, b.isClosed with
    | true, true => true
    | false, false =>
        match a.sameEntries b with
        | .ok same => same
        | .error _ => false
    | _, _ => false

/-- How a map is fed to a hasher. -/
def feeds (m : BlockMap κ ν) (feedsOfKey : κ → List Feed) (feedsOfValue : ν → List Feed)
    (content : Hasher := .multiplying) : List Feed :=
  m.table.feeds feedsOfKey feedsOfValue content

/-- The text of a map, with a line `key=value` for each entry. -/
def text (m : BlockMap κ ν) (textOfKey : κ → String) (textOfValue : ν → String) :
    Except String String :=
  m.table.text textOfKey textOfValue

/-- The description of a map. -/
def outline (m : BlockMap κ ν) : Outline :=
  .record "LargeHashMap" (.ofList [("table", m.table.outline)])

end BlockMap

end BlockTable
