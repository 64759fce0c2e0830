/-!
# Slots

An array of slots, each empty or holding a block, that is walked in a circle.  Every block has a
*home* slot, and it is kept at the first free slot on the walk from there.  The functions here know
of a block only what they are told by a function that can fail: whether it is the one sought
(`search`), or where its home is (`rehash`, `closeGap`).

* `search` walks from a slot until it meets the block sought or an empty slot, and at most once
  around.
* `place` puts a block at the first empty slot on the walk from its home.
* `rehash` places the blocks of an array in another one, in the order of their slots.
* `closeGap` mends the array after a slot was emptied.  It walks on from the gap up to the next
  empty slot.  A block whose home lies behind the gap stays.  Any other block moves into the gap,
  and its old slot is the gap from then on.

Each move of `closeGap` brings a block nearer to its home, and between two moves it passes each slot
once at most.  So the number of its steps is bounded (`closeGapSteps`), whatever is said of homes.
-/

namespace BlockTable

/-- An array of slots. -/
structure Slots (β : Type) where
  /-- The slots. -/
  cells : Array (Option β)

namespace Slots

variable {β ε : Type}

/-- An array of empty slots. -/
def empty (capacity : Nat) : Slots β := ⟨Array.replicate capacity none⟩

/-- The number of slots. -/
def capacity (s : Slots β) : Nat := s.cells.size

/-- The block in a slot. -/
def block? (s : Slots β) (slot : Nat) : Option β := s.cells[slot]?.join

/-- The array with a slot filled or emptied. -/
def set (s : Slots β) (slot : Nat) (content : Option β) : Slots β :=
  ⟨s.cells.setIfInBounds slot content⟩

/-- The slot after another one, in a circle. -/
def next (s : Slots β) (slot : Nat) : Nat := (slot + 1) % s.capacity

/-- The blocks, in the order of their slots. -/
def blocks (s : Slots β) : List β := s.cells.toList.filterMap id

/-! ## Searching -/

/-- Where a search ends. -/
inductive Search where
  /-- At the slot of the block sought. -/
  | found (slot : Nat)
  /-- At an empty slot, where the block sought would be put. -/
  | vacant (slot : Nat)
  /-- Where it began: every slot is taken, and none holds the block sought. -/
  | full
  deriving DecidableEq, Repr

/-- Looks at `steps` slots from `slot` on. -/
def searchFrom (s : Slots β) (isSought : β → Except ε Bool) : (steps slot : Nat) → Except ε Search
  | 0, _ => .ok .full
  | steps + 1, slot =>
      match s.block? slot with
      | none => .ok (.vacant slot)
      | some b =>
          match isSought b with
          | .error e => .error e
          | .ok true => .ok (.found slot)
          | .ok false => s.searchFrom isSought steps (s.next slot)

/-- Walks from the home slot, once around at most. -/
def search (s : Slots β) (isSought : β → Except ε Bool) (home : Nat) : Except ε Search :=
  s.searchFrom isSought s.capacity home

/-! ## Placing -/

/-- The first empty slot among `steps` slots from `slot` on. -/
def vacantFrom (s : Slots β) : (steps slot : Nat) → Option Nat
  | 0, _ => none
  | steps + 1, slot =>
      match s.block? slot with
      | none => some slot
      | some _ => s.vacantFrom steps (s.next slot)

/-- Puts a block at the first empty slot from its home on.  An array without one stays as it is. -/
def place (s : Slots β) (home : Nat) (b : β) : Slots β :=
  match s.vacantFrom s.capacity home with
  | some slot => s.set slot (some b)
  | none => s

/-- Places the blocks of a list of slots, up to the first whose home is not known. -/
def placeAll (home : β → Except ε Nat) : List (Option β) → Slots β → Except ε (Slots β)
  | [], s => .ok s
  | none :: rest, s => placeAll home rest s
  | some b :: rest, s =>
      match home b with
      | .error e => .error e
      | .ok slot => placeAll home rest (s.place slot b)

/-- An array of `capacity` slots with the same blocks.  Here `home` counts the slots of the new
array. -/
def rehash (s : Slots β) (home : β → Except ε Nat) (capacity : Nat) : Except ε (Slots β) :=
  placeAll home s.cells.toList (.empty capacity)

/-! ## Closing a gap -/

/-- The slot lies on the walk that begins behind `gap` and ends with `last`. -/
def isBehind (gap last slot : Nat) : Bool :=
  if gap ≤ last then gap < slot && slot ≤ last else gap < slot || slot ≤ last

/-- How a walk of `closeGap` ends. -/
inductive Closing (ε : Type) where
  /-- At an empty slot: the gap is closed. -/
  | closed
  /-- At a block whose home is not known. -/
  | stopped (error : ε)
  /-- After the given number of steps. -/
  | unfinished
  deriving DecidableEq, Repr

/-- Walks `steps` slots from `slot` on and moves blocks back into the gap. -/
def closeGapFrom (home : β → Except ε Nat) : (steps gap slot : Nat) → Slots β → Closing ε × Slots β
  | 0, _, _, s => (.unfinished, s)
  | steps + 1, gap, slot, s =>
      match s.block? slot with
      | none => (.closed, s)
      | some b =>
          match home b with
          | .error e => (.stopped e, s)
          | .ok h =>
              if isBehind gap slot h then closeGapFrom home steps gap (s.next slot) s
              else closeGapFrom home steps slot (s.next slot) ((s.set gap (some b)).set slot none)

/-- A number of steps in which every gap of an array is closed. -/
def closeGapSteps (capacity : Nat) : Nat := capacity * (capacity * capacity + 1) + 1

/-- Closes the gap at an emptied slot. -/
def closeGap (s : Slots β) (home : β → Except ε Nat) (gap : Nat) : Closing ε × Slots β :=
  closeGapFrom home (closeGapSteps s.capacity) gap (s.next gap) s

/-! ## Listing -/

/-- The first block among `steps` slots from `slot` on, with its slot.  This walk ends at the last
slot. -/
def blockFrom (s : Slots β) : (steps slot : Nat) → Option (Nat × β)
  | 0, _ => none
  | steps + 1, slot =>
      match s.block? slot with
      | some b => some (slot, b)
      | none => s.blockFrom steps (slot + 1)

/-- The first block in the slots from `slot` on, with its slot. -/
def nextBlock (s : Slots β) (slot : Nat) : Option (Nat × β) := s.blockFrom (s.capacity - slot) slot

end Slots

end BlockTable
