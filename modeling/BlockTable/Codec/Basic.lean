import BlockTable.Codec.Writing
import BlockTable.Cursor.Reader

/-!
# Codecs and fields

A codec writes values of a type as bytes and reads them back.  It also says how many bytes a value
takes.  These four parts are only data here: nothing asks that they agree, and a codec that
misstates a size or fails is still a codec.

A *field* is one value in a row of others.  When the codec has a fixed width the field is a body of
that width.  Otherwise it is a header of four bytes that holds the length of the body, and the body.
The codec writes the body through a cursor over exactly those bytes and reads it through a reader
over exactly those bytes, so no codec reaches a header or a neighbour.
-/

namespace BlockTable

/-- A way to write values of a type as bytes and to read them back. -/
structure Codec (α : Type) where
  /-- The number of bytes of every value, if it is the same for all. -/
  width? : Option Nat
  /-- The number of bytes of a value. -/
  size : α → Nat
  /-- What is done to write a value. -/
  write : α → Writing
  /-- The value in the bytes ahead, and the reader behind it. -/
  read : Reader → Except TableError α × Reader

namespace Codec

variable {α : Type} (codec : Codec α)

/-! ## Sizes of a field -/

/-- The number of bytes of a header. -/
def headerWidth : Nat := 4

/-- The first length that a header cannot hold. -/
def headerLimit : Nat := 1 <<< (8 * headerWidth)

/-- The number of bytes ahead of the body. -/
def headerSize : Nat :=
  match codec.width? with
  | some _ => 0
  | none => headerWidth

/-- The number of bytes of the body. -/
def bodySize (x : α) : Nat :=
  match codec.width? with
  | some width => width
  | none => codec.size x

/-- The number of bytes of the whole field. -/
def fieldSize (x : α) : Nat := codec.headerSize + codec.bodySize x

/-- The number of bytes of the field at the start of `bytes`, as its header tells. -/
def storedSize (bytes : List UInt8) : Nat :=
  match codec.width? with
  | some width => width
  | none => headerWidth + LittleEndian.decode (bytes.take headerWidth)

/-! ## Writing and reading a field -/

/-- Writes a field at the cursor given, and goes on with the result.  A length that the header
cannot hold is refused before anything is written. -/
def writeField (x : α) (next : Except TableError Unit → Writing) : Writing :=
  match codec.width? with
  | some width => .within 0 width (codec.write x) next
  | none =>
      let length := codec.size x
      if length < headerLimit then
        .put 0 (LittleEndian.encode headerWidth length) fun
          | .ok () => .within 0 length (codec.write x) next
          | .error e => next (.error e)
      else next (.error (.argument (.fieldTooLong length)))

/-- A reader over the body of the field ahead, and the reader behind the field. -/
def splitField (r : Reader) : Except TableError Reader × Reader :=
  match codec.width? with
  | some width => r.split width
  | none =>
      match r.takeNat headerWidth with
      | (.ok length, r) => r.split length
      | (.error e, r) => (.error e, r)

/-- The value of the field ahead, and the reader behind the field. -/
def readField (r : Reader) : Except TableError α × Reader :=
  match codec.splitField r with
  | (.ok body, r) => ((codec.read body).1, r)
  | (.error e, r) => (.error e, r)

end Codec

end BlockTable
