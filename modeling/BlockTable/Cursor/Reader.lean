import BlockTable.Error
import BlockTable.Numeric.LittleEndian

/-!
# Readers

A reader is bounded to a span of bytes and holds those not read yet.  A request for more than is
left fails, and it leaves the reader with nothing, so that a decoder which goes on after a failure
finds no byte.

A part that is split off is a reader of its own over the bytes taken, and what happens to it later
does not touch the reader it came from.
-/

namespace BlockTable

/-- A reader, as the bytes it has left. -/
structure Reader where
  /-- The bytes not read yet. -/
  left : List UInt8
  deriving DecidableEq, Repr

namespace Reader

/-- How many bytes are left. -/
def remaining (r : Reader) : Nat := r.left.length

/-- The next `width` bytes. -/
def take (r : Reader) (width : Nat) : Except TableError (List UInt8) × Reader :=
  if width ≤ r.remaining then (.ok (r.left.take width), ⟨r.left.drop width⟩)
  else (.error (.outOfRange width r.remaining), ⟨[]⟩)

/-- A reader over the next `width` bytes. -/
def split (r : Reader) (width : Nat) : Except TableError Reader × Reader :=
  match r.take width with
  | (.ok bytes, r) => (.ok ⟨bytes⟩, r)
  | (.error e, r) => (.error e, r)

/-- The number in the next `width` bytes. -/
def takeNat (r : Reader) (width : Nat) : Except TableError Nat × Reader :=
  match r.take width with
  | (.ok bytes, r) => (.ok (LittleEndian.decode bytes), r)
  | (.error e, r) => (.error e, r)

theorem take_of_le {r : Reader} {width : Nat} (h : width ≤ r.remaining) :
    r.take width = (.ok (r.left.take width), ⟨r.left.drop width⟩) := if_pos h

/-- A failed access leaves nothing behind, so later ones fail too. -/
theorem take_of_lt {r : Reader} {width : Nat} (h : r.remaining < width) :
    r.take width = (.error (.outOfRange width r.remaining), ⟨[]⟩) := if_neg (Nat.not_le.2 h)

end Reader

end BlockTable
