import BlockTable.Error

/-!
# Drafts

A *draft* is a run of bytes that is being written through cursors.  Each cursor has a *span*: the
position it writes at next and the number of bytes it may still write.  Cursors are numbered in the
order in which they were made.

A request takes its bytes off the span of its cursor.  What does not fit is refused, changes no
byte, and leaves the cursor without any room.  A part that is split off a span becomes the span of a
new cursor, and the old one goes on behind it, so two cursors never meet.  A number that no cursor
has yet stands for a cursor without room.

Bytes behind the last written one need not be present.  They count as zero.
-/

namespace BlockTable

/-- Where a cursor stands. -/
structure Span where
  /-- The position of the next byte. -/
  start : Nat
  /-- How many bytes may still be written. -/
  room : Nat
  deriving DecidableEq, Repr

/-- Bytes that are being written, with the spans of the cursors that write them. -/
structure Draft where
  /-- The bytes up to the last written one at least. -/
  bytes : List UInt8
  /-- The spans, by the numbers of their cursors. -/
  spans : List Span
  deriving DecidableEq, Repr

/-- The bytes `old` with `new` written over them from `position` on.  Bytes that `old` lacks ahead
of them are zero. -/
def overlay (position : Nat) (new old : List UInt8) : List UInt8 :=
  (old.take position).rightpad position 0 ++ new ++ old.drop (position + new.length)

namespace Draft

/-- The span of a cursor. -/
def span (d : Draft) (cursor : Nat) : Span := d.spans[cursor]?.getD ⟨0, 0⟩

/-- How many bytes a cursor may still write. -/
def room (d : Draft) (cursor : Nat) : Nat := (d.span cursor).room

/-- Takes `width` bytes off the span of a cursor and answers where they begin. -/
def reserve (d : Draft) (cursor width : Nat) : Except TableError Nat × Draft :=
  let span := d.span cursor
  if width ≤ span.room then
    (.ok span.start, { d with spans := d.spans.set cursor ⟨span.start + width, span.room - width⟩ })
  else
    (.error (.outOfRange width span.room), { d with spans := d.spans.set cursor ⟨span.start, 0⟩ })

/-- Writes bytes. -/
def put (d : Draft) (cursor : Nat) (bytes : List UInt8) : Except TableError Unit × Draft :=
  match d.reserve cursor bytes.length with
  | (.ok start, d) => (.ok (), { d with bytes := overlay start bytes d.bytes })
  | (.error e, d) => (.error e, d)

/-- Makes the next cursor, over the next `width` bytes of a cursor. -/
def split (d : Draft) (cursor width : Nat) : Except TableError Unit × Draft :=
  match d.reserve cursor width with
  | (.ok start, d) => (.ok (), { d with spans := d.spans ++ [⟨start, width⟩] })
  | (.error e, d) => (.error e, d)

/-- An unwritten draft with one cursor over `width` bytes. -/
def blank (width : Nat) : Draft := ⟨[], [⟨0, width⟩]⟩

/-- The first `width` bytes of a draft. -/
def contents (d : Draft) (width : Nat) : List UInt8 := (d.bytes.rightpad width 0).take width

end Draft

end BlockTable
