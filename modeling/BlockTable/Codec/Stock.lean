import BlockTable.Codec.Basic

/-!
# The stock codecs

Codecs for bit patterns of a given width, truth values, characters, texts, byte strings, the unit
value, and arrays of any of these.

A text or a byte string takes all bytes of its field and needs no length of its own.  An array
begins with the number of its elements, in four bytes and signed, and each element is a field.  What
follows the last element is not looked at.
-/

namespace BlockTable.Codec

/-! ## Values of a fixed width -/

/-- Bit patterns of `width` bytes. -/
def native (width : Nat) : Codec (BitVec (8 * width)) where
  width? := some width
  size _ := width
  write x := .bytes (LittleEndian.encode width x.toNat)
  read r :=
    match r.takeNat width with
    | (.ok n, r) => (.ok (BitVec.ofNat _ n), r)
    | (.error e, r) => (.error e, r)

/-- Truth values, one byte that is zero or one. -/
def bool : Codec Bool where
  width? := some 1
  size _ := 1
  write x := .bytes [if x then 1 else 0]
  read r :=
    match r.takeNat 1 with
    | (.ok 0, r) => (.ok false, r)
    | (.ok 1, r) => (.ok true, r)
    | (.ok n, r) => (.error (.undecodable (.truthValue (UInt8.ofNat n))), r)
    | (.error e, r) => (.error e, r)

/-- Characters, their code point in four bytes. -/
def char : Codec Char where
  width? := some 4
  size _ := 4
  write x := .bytes (LittleEndian.encode 4 x.toNat)
  read r :=
    match r.takeNat 4 with
    | (.ok n, r) =>
        if n.isValidChar then (.ok (Char.ofNat n), r) else (.error (.undecodable (.codePoint n)), r)
    | (.error e, r) => (.error e, r)

/-- The unit value, no byte at all. -/
def unit : Codec Unit where
  width? := some 0
  size _ := 0
  write _ := .skip
  read r := (.ok (), r)

/-! ## Values that fill their field -/

/-- Byte strings. -/
def bytes : Codec (List UInt8) where
  width? := none
  size x := x.length
  write x := .bytes x
  read r := r.take r.remaining

/-- Texts. -/
def str : Codec String where
  width? := none
  size x := x.utf8ByteSize
  write x := .bytes (Utf8.encode x)
  read r :=
    match r.take r.remaining with
    | (.ok bs, r) =>
        match Utf8.decode bs with
        | .ok s => (.ok s, r)
        | .error fault => (.error (.undecodable (.utf8 fault)), r)
    | (.error e, r) => (.error e, r)

/-! ## Arrays -/

/-- The number of bytes of a count. -/
def countWidth : Nat := 4

/-- The first count that is too large.  The patterns from here on stand for negative counts. -/
def countLimit : Nat := 1 <<< (8 * countWidth - 1)

/-- Writes fields one after the other, up to the first that fails. -/
def writeFields {α : Type} (element : Codec α) : List α → Writing
  | [] => .skip
  | x :: xs => element.writeField x (Writing.onSuccess (writeFields element xs))

/-- Reads `count` fields, up to the first that fails. -/
def readFields {α : Type} (element : Codec α) :
    (count : Nat) → Reader → Except TableError (List α) × Reader
  | 0, r => (.ok [], r)
  | count + 1, r =>
      match element.readField r with
      | (.error e, r) => (.error e, r)
      | (.ok x, r) =>
          match readFields element count r with
          | (.error e, r) => (.error e, r)
          | (.ok xs, r) => (.ok (x :: xs), r)

/-- Arrays of values of another codec. -/
def array {α : Type} (element : Codec α) : Codec (List α) where
  width? := none
  size xs := xs.foldr (fun x size => element.fieldSize x + size) countWidth
  write xs :=
    if xs.length < countLimit then
      .put 0 (LittleEndian.encode countWidth xs.length) (Writing.onSuccess (writeFields element xs))
    else .fail (.argument (.arrayTooLong xs.length))
  read r :=
    match r.takeNat countWidth with
    | (.error e, r) => (.error e, r)
    | (.ok n, r) =>
        if n < countLimit then readFields element n r
        else
          (.error (.undecodable (.negativeCount ((n : Int) - (1 <<< (8 * countWidth) : Nat)))), r)

end BlockTable.Codec
