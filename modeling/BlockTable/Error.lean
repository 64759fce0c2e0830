import BlockTable.Numeric.Decimal
import BlockTable.Text.Outline
import BlockTable.Text.Quoted
import BlockTable.Text.Utf8

/-!
# Errors

Every way in which a call on a table, a codec or a cursor can fail.  An error is its cause, and the
wording is one function of it (`TableError.message`).  A codec of a caller can add causes of its own
(`ArgumentFault.other`, `DecodingFault.other`).
-/

namespace BlockTable

/-- Why an argument is refused. -/
inductive ArgumentFault where
  /-- The load factor with these bits is not strictly between zero and one. -/
  | loadFactor (bits : UInt64)
  /-- The initial capacity is zero. -/
  | initialCapacity
  /-- The minimum capacity is zero. -/
  | minCapacity
  /-- An array has more elements than its count can hold. -/
  | arrayTooLong (count : Nat)
  /-- A field is longer than its header can say. -/
  | fieldTooLong (length : Nat)
  /-- A cause with a wording of its own. -/
  | other (text : String)
  deriving DecidableEq, Repr

/-- Why bytes do not decode. -/
inductive DecodingFault where
  /-- A truth value that is neither zero nor one. -/
  | truthValue (byte : UInt8)
  /-- A number that is no code point of a character. -/
  | codePoint (code : Nat)
  /-- An array with a negative count. -/
  | negativeCount (count : Int)
  /-- Bytes that are no text. -/
  | utf8 (fault : Utf8.Fault)
  /-- A cause with a wording of its own. -/
  | other (text : String)
  deriving DecidableEq, Repr

/-- Why a call failed. -/
inductive TableError where
  /-- An argument is refused. -/
  | argument (fault : ArgumentFault)
  /-- A part that a builder needs was not given. -/
  | missing (what : String)
  /-- The table is closed. -/
  | closed
  /-- The table was modified since the iterator was made. -/
  | modified
  /-- The iterator has no entry left. -/
  | exhausted
  /-- A cursor was asked for more bytes than it has. -/
  | outOfRange (requested remaining : Nat)
  /-- Stored bytes do not decode. -/
  | undecodable (fault : DecodingFault)
  deriving DecidableEq, Repr

/-- The wording of a refused argument. -/
def ArgumentFault.message : ArgumentFault → String
  | .loadFactor bits =>
      "load factor must be in (0, 1), got " ++ AmountStyle.plain.text .double bits.toNat
  | .initialCapacity => "initial capacity must be at least 1"
  | .minCapacity => "minimum capacity must be at least 1"
  | .arrayTooLong count => s!"array of {count} elements is too long"
  | .fieldTooLong length => s!"field of {length} bytes does not fit a 4-byte length header"
  | .other text => text

/-- A byte in base sixteen with two digits. -/
def hexByte (b : UInt8) : String := (if b < 0x10 then "0" else "") ++ Quoted.hex b.toNat

/-- The wording of bytes that do not decode. -/
def DecodingFault.message : DecodingFault → String
  | .truthValue byte => "invalid bool byte 0x" ++ hexByte byte
  | .codePoint code => "invalid char 0x" ++ Quoted.hex code
  | .negativeCount count => s!"negative array length {count}"
  | .utf8 fault => fault.message
  | .other text => text

namespace TableError

/-- The name of a kind of error. -/
def name : TableError → String
  | .argument _ => "InvalidArgument"
  | .missing _ => "MissingArgument"
  | .closed => "Closed"
  | .modified => "ConcurrentModification"
  | .exhausted => "Exhausted"
  | .outOfRange _ _ => "OutOfRange"
  | .undecodable _ => "Decoding"

/-- The wording of an error. -/
def message : TableError → String
  | .argument fault => "Invalid argument: " ++ fault.message
  | .missing what => s!"Missing argument: {what} must be provided"
  | .closed => "Map was already closed"
  | .modified => "Map has been modified since iterator was created"
  | .exhausted => "Iterator exhausted, check has_next() for available items first"
  | .outOfRange requested remaining =>
      s!"Out of range: requested {requested} bytes with {remaining} remaining"
  | .undecodable fault => "Decoding error: " ++ fault.message

/-- The description of an error. -/
def outline (e : TableError) : Outline :=
  match e with
  | .argument fault => .wrapped e.name (.leaf (Quoted.encode fault.message))
  | .missing what => .wrapped e.name (.leaf (Quoted.encode what))
  | .outOfRange requested remaining =>
      .record e.name (.ofList [("requested", .nat requested), ("remaining", .nat remaining)])
  | .undecodable fault => .wrapped e.name (.leaf (Quoted.encode fault.message))
  | .closed | .modified | .exhausted => .leaf e.name

end TableError

/-- How a call ends that can give up for good: with a result, with an error that the caller can act
on, or without a way to go on. -/
inductive Outcome (α : Type) where
  /-- The result. -/
  | done (value : α)
  /-- An error. -/
  | failed (error : TableError)
  /-- Nothing can be answered, and the table is lost. -/
  | aborted
  deriving DecidableEq, Repr

/-- A call that cannot give up. -/
def Outcome.ofExcept {α : Type} : Except TableError α → Outcome α
  | .ok value => .done value
  | .error e => .failed e

/-- The same outcome with another result. -/
def Outcome.map {α β : Type} (f : α → β) : Outcome α → Outcome β
  | .done value => .done (f value)
  | .failed e => .failed e
  | .aborted => .aborted

end BlockTable
