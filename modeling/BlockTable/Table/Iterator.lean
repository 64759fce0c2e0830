import BlockTable.Table.Basic

/-!
# Iterators

An iterator is a position in the slots of a table, kept apart from the table.  It also remembers the
version of the table at its making and how many entries it has passed.  Every step compares the
versions, so an iterator of a table that was modified since then answers nothing but that.

Entries come in the order of their slots.  An entry that does not decode is an answer like any
other: it counts as passed, and the next step goes on behind it.
-/

namespace BlockTable

/-- A position in the slots of a table. -/
structure Iterator where
  /-- The slot to look at next. -/
  nextSlot : Nat
  /-- How many entries were passed. -/
  passed : Nat
  /-- The version of the table at its making. -/
  version : UInt64
  deriving DecidableEq, Repr

/-- The description of an iterator. -/
def Iterator.outline (it : Iterator) : Outline :=
  .record "IterState" (.ofList [
    ("next_slot", .nat it.nextSlot),
    ("read", .nat it.passed),
    ("expected_modifications", .nat it.version.toNat)])

namespace Table

variable {κ ν : Type}

/-- An iterator ahead of the first entry. -/
def iterator (t : Table κ ν) : Except TableError Iterator :=
  match t.slots with
  | .error e => .error e
  | .ok _ => .ok ⟨0, 0, t.version⟩

/-- There are entries that the iterator has not passed. -/
def hasMore (t : Table κ ν) (it : Iterator) : Except TableError Bool :=
  match t.slots with
  | .error e => .error e
  | .ok _ => if it.version ≠ t.version then .error .modified else .ok (it.passed < t.size)

/-- The next entry, and the iterator behind it. -/
def next (t : Table κ ν) (it : Iterator) : Except TableError (κ × ν) × Iterator :=
  match t.hasMore it, t.slots with
  | .error e, _ => (.error e, it)
  | .ok false, _ => (.error .exhausted, it)
  | .ok true, .error e => (.error e, it)
  | .ok true, .ok s =>
      match s.nextBlock it.nextSlot with
      | none => (.error .exhausted, { it with nextSlot := max it.nextSlot s.capacity })
      | some (slot, b) =>
          (t.scheme.decode b, { it with nextSlot := slot + 1, passed := it.passed + 1 })

/-- The next entry, or nothing when there is none left. -/
def next? (t : Table κ ν) (it : Iterator) : Option (Except TableError (κ × ν)) × Iterator :=
  match t.next it with
  | (.error .exhausted, it) => (none, it)
  | (answer, it) => (some answer, it)

/-- How many answers an iterator can still give at most. -/
def entriesLeft (t : Table κ ν) (it : Iterator) : Nat := t.size - it.passed

/-- The answers of at most `steps` steps, up to the end. -/
def drain (t : Table κ ν) : (steps : Nat) → Iterator → List (Except TableError (κ × ν))
  | 0, _ => []
  | steps + 1, it =>
      match t.next? it with
      | (none, _) => []
      | (some answer, it) => answer :: t.drain steps it

/-- What an iterator of its own answers, step by step to the end. -/
def entries (t : Table κ ν) : Except TableError (List (Except TableError (κ × ν))) :=
  match t.iterator with
  | .error e => .error e
  | .ok it => .ok (t.drain (t.capacity + 1) it)

/-- How many entries are left at most, at first and after each answer of at most `steps` steps. -/
def drainBounds (t : Table κ ν) : (steps : Nat) → Iterator → List Nat
  | 0, it => [t.entriesLeft it]
  | steps + 1, it =>
      t.entriesLeft it ::
        match t.next? it with
        | (none, _) => []
        | (some _, it) => t.drainBounds steps it

/-- The bounds that an iterator of its own gives on its way. -/
def bounds (t : Table κ ν) : Except TableError (List Nat) :=
  match t.iterator with
  | .error e => .error e
  | .ok it => .ok (t.drainBounds (t.capacity + 1) it)

/-- The answers while the iterator has a next entry, for at most `steps` steps, and one more. -/
def walkFrom (t : Table κ ν) : (steps : Nat) → Iterator → List (Except TableError (κ × ν))
  | 0, it => [(t.next it).1]
  | steps + 1, it =>
      let (answer, after) := t.next it
      match t.hasMore it with
      | .ok true => answer :: t.walkFrom steps after
      | _ => [answer]

/-- What an iterator of its own answers when it is asked before each step, and once more at the
end. -/
def walk (t : Table κ ν) : Except TableError (List (Except TableError (κ × ν))) :=
  match t.iterator with
  | .error e => .error e
  | .ok it => .ok (t.walkFrom t.size it)

end Table

end BlockTable
