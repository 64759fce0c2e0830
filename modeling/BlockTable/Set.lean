import BlockTable.Codec.Stock
import BlockTable.Map

/-!
# Sets

A set is a map from its elements to the unit value, which takes no byte.  An element is in the set
when it is a key of the map.
-/

namespace BlockTable

/-- A set of elements. -/
structure BlockSet (α : Type) where
  /-- The map whose keys are the elements. -/
  map : BlockMap α Unit

namespace BlockSet

variable {α : Type}

/-! ## Making a set -/

/-- How elements are stored. -/
def scheme (element : Codec α) (hash : α → UInt64) : Scheme α Unit := ⟨element, Codec.unit, hash⟩

/-- An empty set with the default settings. -/
def new (element : Codec α) (hash : α → UInt64) : BlockSet α := ⟨.new (scheme element hash)⟩

/-- An empty set with given settings. -/
def make (element : Codec α) (hash : α → UInt64) (sizing : Sizing) : Outcome (BlockSet α) :=
  (BlockMap.make (scheme element hash) sizing).map .mk

def withLoadFactor (element : Codec α) (hash : α → UInt64) (loadFactor : UInt64) :
    Outcome (BlockSet α) :=
  make element hash (.ofLoadFactor loadFactor)

def withCapacity (element : Codec α) (hash : α → UInt64) (capacity : Nat) : Outcome (BlockSet α) :=
  make element hash (.ofCapacity capacity)

/-- The parts of a set in the making. -/
structure Builder (α : Type) where
  /-- The builder of its map. -/
  map : BlockMap.Builder α Unit

namespace Builder

/-- A builder without a codec of elements. -/
def new (hash : α → UInt64) : Builder α := ⟨{ value? := some Codec.unit, hash }⟩

/-- The builder with a codec of elements. -/
def element (b : Builder α) (codec : Codec α) : Builder α := ⟨{ b.map with key? := some codec }⟩

def loadFactor (b : Builder α) (loadFactor : UInt64) : Builder α := ⟨b.map.loadFactor loadFactor⟩

def initialCapacity (b : Builder α) (initialCapacity : Nat) : Builder α :=
  ⟨b.map.initialCapacity initialCapacity⟩

def minCapacity (b : Builder α) (minCapacity : Nat) : Builder α := ⟨b.map.minCapacity minCapacity⟩

/-- The set, if the codec of elements was given and the settings are valid. -/
def build (b : Builder α) : Outcome (BlockSet α) :=
  match b.map.key? with
  | none => .failed (.missing "element codec")
  | some _ => b.map.build.map .mk

end Builder

/-!
## Operations

Those of the map, with elements for its keys.
-/

def isClosed (s : BlockSet α) : Bool := s.map.isClosed

def capacity (s : BlockSet α) : Nat := s.map.capacity

def length (s : BlockSet α) : Except TableError Nat := s.map.length

def isEmpty (s : BlockSet α) : Except TableError Bool := s.map.isEmpty

def clear (s : BlockSet α) : Except TableError Unit × BlockSet α := s.map.clear.map id .mk

def close (s : BlockSet α) : Except TableError Unit × BlockSet α := s.map.close.map id .mk

/-- The element is in the set. -/
def contains [BEq α] (s : BlockSet α) (x : α) : Except TableError Bool := s.map.contains x

/-- Adds an element, and answers whether it was absent. -/
def add [BEq α] (s : BlockSet α) (x : α) : Outcome Bool × BlockSet α :=
  (s.map.put x ()).map (·.map Option.isNone) .mk

/-- Removes an element, and answers whether it was present. -/
def remove [BEq α] (s : BlockSet α) (x : α) : Except TableError Bool × BlockSet α :=
  (s.map.remove x).map (·.map Option.isSome) .mk

/-! ## Iterators -/

def iterator (s : BlockSet α) : Except TableError Iterator := s.map.iterator

def hasMore (s : BlockSet α) (it : Iterator) : Except TableError Bool := s.map.hasMore it

def next (s : BlockSet α) (it : Iterator) : Except TableError α × Iterator :=
  (s.map.next it).map (·.map Prod.fst) id

def next? (s : BlockSet α) (it : Iterator) : Option (Except TableError α) × Iterator :=
  (s.map.next? it).map (·.map (·.map Prod.fst)) id

def elements (s : BlockSet α) : Except TableError (List (Except TableError α)) :=
  s.map.entries.map (·.map (·.map Prod.fst))

/-! ## Contents -/

/-- Equality of sets.  When both are one and the same set their elements are not looked at. -/
def beq [BEq α] (areOne : Bool) (a b : BlockSet α) : Bool := a.map.beq areOne b.map

/-- How a set is fed to a hasher: like a map, with the hashes of its elements alone. -/
def feeds (s : BlockSet α) (feedsOfElement : α → List Feed) (content : Hasher := .multiplying) :
    List Feed :=
  s.map.table.feedsWith
    (s.map.table.entriesHash fun entry => content.hash (feedsOfElement entry.1))

/-- The text of a set, with a line for each element. -/
def text (s : BlockSet α) (textOfElement : α → String) : Except String String :=
  s.map.table.textWith fun entry => textOfElement entry.1

/-- The description of a set. -/
def outline (s : BlockSet α) : Outline := .record "LargeHashSet" (.ofList [("map", s.map.outline)])

end BlockSet

end BlockTable
