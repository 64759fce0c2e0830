import BlockTable.Codec.Stock
import BlockTable.Hash.Hasher
import BlockTable.Numeric.Decimal

/-!
# Formats

The stock codecs as a tree.  A `Format` says which codec is meant, and `Format.Item` is the type of
its values, so that one statement can speak of all stock codecs at once.

Besides the codec a format fixes what is to be known of its values by a table: when two are equal
(`Format.beq`), how one is hashed (`Format.feeds`) and how one is written in a text
(`Format.text?`).  Floating point values are compared as numbers: zeros of both signs are equal, and
what is not a number differs from itself.
-/

namespace BlockTable

/-! ## Scalars -/

/-- The widths of whole numbers. -/
inductive IntWidth where
  /-- One byte. -/
  | w8
  /-- Two bytes. -/
  | w16
  /-- Four bytes. -/
  | w32
  /-- Eight bytes. -/
  | w64
  /-- Sixteen bytes. -/
  | w128
  deriving DecidableEq, Repr

/-- The number of bytes. -/
def IntWidth.bytes : IntWidth → Nat
  | .w8 => 1
  | .w16 => 2
  | .w32 => 4
  | .w64 => 8
  | .w128 => 16

/-- The plain data that is stored as its bit pattern. -/
inductive Scalar where
  /-- Whole numbers from zero on. -/
  | unsigned (width : IntWidth)
  /-- Whole numbers in two's complement. -/
  | signed (width : IntWidth)
  /-- Floating point numbers of 32 bits. -/
  | single
  /-- Floating point numbers of 64 bits. -/
  | double
  /-- A weighted point: two signed numbers of four bytes and a floating point number of 64 bits, in
  this order. -/
  | point
  deriving DecidableEq, Repr

namespace Scalar

/-- The number of bytes. -/
def width : Scalar → Nat
  | .unsigned w | .signed w => w.bytes
  | .single => 4
  | .double => 8
  | .point => 16

/-- The bit patterns of a scalar. -/
abbrev Bits (s : Scalar) : Type := BitVec (8 * s.width)

/-- The scalar is a whole number. -/
def isInteger : Scalar → Bool
  | .unsigned _ | .signed _ => true
  | _ => false

/-- Equality of values.  Points are equal when all three parts are. -/
def beq (s : Scalar) (x y : s.Bits) : Bool :=
  match s with
  | .unsigned _ | .signed _ => x.toNat == y.toNat
  | .single => FloatFormat.single.equal x.toNat y.toNat
  | .double => FloatFormat.double.equal x.toNat y.toNat
  | .point =>
      x.toNat % UInt64.size == y.toNat % UInt64.size &&
        FloatFormat.double.equal (x.toNat / UInt64.size) (y.toNat / UInt64.size)

/-- The decimal text of a number.  A point has none. -/
def text? (s : Scalar) (x : s.Bits) : Option String :=
  match s with
  | .unsigned _ => some (toString x.toNat)
  | .signed _ => some (toString x.toInt)
  | .single => some (AmountStyle.plain.text .single x.toNat)
  | .double => some (AmountStyle.plain.text .double x.toNat)
  | .point => none

end Scalar

/-! ## The tree of formats -/

/-- A stock codec. -/
inductive Format where
  /-- Bit patterns. -/
  | native (scalar : Scalar)
  /-- Truth values. -/
  | bool
  /-- Characters. -/
  | char
  /-- Texts. -/
  | str
  /-- Byte strings. -/
  | bytes
  /-- The unit value. -/
  | unit
  /-- Arrays of values of one format. -/
  | array (element : Format)
  deriving DecidableEq, Repr

namespace Format

/-- The values of a format. -/
def Item : Format → Type
  | .native s => s.Bits
  | .bool => Bool
  | .char => Char
  | .str => String
  | .bytes => List UInt8
  | .unit => Unit
  | .array element => List element.Item

/-- The codec of a format. -/
def codec : (f : Format) → Codec f.Item
  | .native s => Codec.native s.width
  | .bool => Codec.bool
  | .char => Codec.char
  | .str => Codec.str
  | .bytes => Codec.bytes
  | .unit => Codec.unit
  | .array element => Codec.array element.codec

/-! ## Equality -/

/-- Two lists agree place by place. -/
def listBeq {α : Type} (eq : α → α → Bool) : List α → List α → Bool
  | [], [] => true
  | x :: xs, y :: ys => eq x y && listBeq eq xs ys
  | _, _ => false

/-- Equality of values. -/
def beq : (f : Format) → f.Item → f.Item → Bool
  | .native s, x, y => s.beq x y
  | .bool, (x : Bool), (y : Bool) => x == y
  | .char, (x : Char), (y : Char) => x == y
  | .str, (x : String), (y : String) => x == y
  | .bytes, (x : List UInt8), (y : List UInt8) => x == y
  | .unit, _, _ => true
  | .array element, xs, ys => listBeq element.beq xs ys

instance (f : Format) : BEq f.Item := ⟨f.beq⟩

/-! ## Hashing -/

/-- The values are whole numbers. -/
def isInteger : Format → Bool
  | .native s => s.isInteger
  | _ => false

/-- The feed of a count, which has eight bytes. -/
def countFeed (n : Nat) : Feed := .word 8 n

/-- How a value is fed to a hasher.  Whole numbers of an array are fed as one string of bytes behind
the count, and values of other kinds one by one.  A floating point number or a point is fed as a
number of its width. -/
def feeds : (f : Format) → f.Item → List Feed
  | .native s, (x : s.Bits) => [.word s.width x.toNat]
  | .bool, (x : Bool) => [.word 1 x.toNat]
  | .char, (x : Char) => [.word 4 x.toNat]
  | .str, (x : String) => [.bytes (Utf8.encode x), .word 1 0xff]
  | .bytes, (x : List UInt8) => [countFeed x.length, .bytes x]
  | .unit, _ => []
  | .array element, (xs : List element.Item) =>
      countFeed xs.length ::
        if element.isInteger then
          [.bytes (xs.flatMap fun x => (element.feeds x).flatMap Feed.encode)]
        else xs.flatMap element.feeds

/-! ## Text -/

/-- The plain text of a value.  Byte strings, points, units and arrays have none. -/
def text? : (f : Format) → f.Item → Option String
  | .native s, x => s.text? x
  | .bool, (x : Bool) => some (if x then "true" else "false")
  | .char, (x : Char) => some x.toString
  | .str, (x : String) => some x
  | .bytes, _ | .unit, _ | .array _, _ => none

end Format

end BlockTable
