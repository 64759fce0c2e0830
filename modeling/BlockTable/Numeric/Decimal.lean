import BlockTable.Numeric.FloatFormat

/-!
# Decimal text of floating point numbers

A finite value is written with the fewest digits that read back as the same value, and with the
digits nearest to the value among those.  `Decimal.shortest` finds them on exact fractions: the
decimals that read back lie between the midpoints to the two neighbouring values, ends included when
the significand is even.  It tries one digit, two digits and so on.  At each count only the two grid
points around the value can be the nearest that reads back, and of two equally near ones the upper
is taken.

How the digits are then laid out is an `AmountStyle`.
-/

namespace BlockTable

/-- The number `digits · 10 ^ exponent`. -/
structure Decimal where
  /-- The digits, read as one number. -/
  digits : Nat
  /-- The power of ten of the last digit. -/
  exponent : Int
  deriving DecidableEq, Repr

namespace Decimal

/-! ## The shortest digits -/

/-- How many decimal digits a number has. -/
def digitCount (n : Nat) : Nat := (Nat.toDigits 10 n).length

/-- The place `p` of the decimal point, so that `10 ^ (p - 1) ≤ num / den < 10 ^ p`. -/
def pointPlace (num den : Nat) : Int :=
  if den ≤ num then digitCount (num / den) else 1 - digitCount ((den - 1) / num)

/-- The open or closed interval of the numbers that read back as one value, as two fractions over
`den`. -/
structure ReadBack where
  /-- The numerator of the lower end. -/
  low : Nat
  /-- The numerator of the upper end. -/
  high : Nat
  /-- The denominator of both ends. -/
  den : Nat
  /-- Whether the ends read back too. -/
  closed : Bool

/-- The whole number `n` reads back. -/
def ReadBack.admits (r : ReadBack) (n : Nat) : Bool :=
  if r.closed then r.low ≤ n * r.den && n * r.den ≤ r.high
  else r.low < n * r.den && n * r.den < r.high

/-- Of the two whole numbers around `num / den` the nearer one that reads back, the upper one if
both are as near. -/
def nearest? (r : ReadBack) (num den : Nat) : Option Nat :=
  let below := num / den
  match r.admits below, r.admits (below + 1) with
  | true, true => some (if 2 * (num % den) < den then below else below + 1)
  | true, false => some below
  | false, true => some (below + 1)
  | false, false => none

/-- Tries `count` digits and more, at most `fuel` further counts.  The value is `num / den`, and
`low` and `high` are numerators over `2 * den`. -/
def search (low high num den : Nat) (closed : Bool) (place : Int) : (fuel count : Nat) → Decimal
  | 0, count => ⟨num / den, place - count⟩
  | fuel + 1, count =>
      let exponent := place - count
      let up := 10 ^ (-exponent).toNat
      let down := 10 ^ exponent.toNat
      match nearest? ⟨low * up, high * up, 2 * (den * down), closed⟩ (num * up) (den * down) with
      | some digits => if digits = 10 then ⟨1, exponent + 1⟩ else ⟨digits, exponent⟩
      | none => search low high num den closed place fuel (count + 1)

/-- A count of digits at which every value of the format reads back. -/
def enoughDigits (F : FloatFormat) : Nat := (F.fractionBits + 1) * 30103 / 100000 + 2

/-- The shortest decimal that reads back as a positive finite magnitude. -/
def shortest (F : FloatFormat) (magnitude : Nat) : Decimal :=
  let value := F.units magnitude
  search (F.units (magnitude - 1) + value) (value + F.units (magnitude + 1)) value F.scale
    (F.significand magnitude % 2 == 0) (pointPlace value F.scale) (enoughDigits F) 1

/-! ## Layout -/

/-- The power of ten of the first digit. -/
def leadingExponent (d : Decimal) : Int := d.exponent + digitCount d.digits - 1

/-- A run of zeros. -/
def zeros (n : Nat) : String := String.ofList (List.replicate n '0')

/-- The number without an exponent, with at least `places` digits behind the point. -/
def positional (d : Decimal) (places : Nat) : String :=
  let digits := Nat.toDigits 10 d.digits
  let behind := (-d.exponent).toNat
  if behind = 0 then
    String.ofList digits ++ zeros d.exponent.toNat ++ if places = 0 then "" else "." ++ zeros places
  else
    let ahead := digits.take (digits.length - behind)
    let tail := digits.drop (digits.length - behind)
    (if ahead = [] then "0" else String.ofList ahead) ++ "." ++ zeros (behind - tail.length) ++
      String.ofList tail

/-- The number with one digit ahead of the point and an exponent. -/
def scientific (d : Decimal) : String :=
  let digits := Nat.toDigits 10 d.digits
  let tail := digits.drop 1
  String.ofList (digits.take 1) ++ (if tail = [] then "" else "." ++ String.ofList tail) ++ "e" ++
    toString d.leadingExponent

end Decimal

/-- How an amount is laid out. -/
structure AmountStyle where
  /-- The least number of digits behind the point of a positional amount. -/
  places : Nat
  /-- The leading exponents, from the first up to but without the second, that are written
  positionally.  Without bounds every amount is. -/
  positional? : Option (Int × Int)

namespace AmountStyle

/-- Amounts in messages and in the text of contents: never an exponent, and no point behind a whole
number. -/
def plain : AmountStyle := ⟨0, none⟩

/-- Amounts in descriptions: one digit behind the point at least, and an exponent below `10⁻⁴` and
from `10¹⁶` on. -/
def described : AmountStyle := ⟨1, some (-4, 16)⟩

/-- The text of a positive finite magnitude. -/
def layout (style : AmountStyle) (d : Decimal) : String :=
  match style.positional? with
  | none => d.positional style.places
  | some (first, last) =>
      if first ≤ d.leadingExponent ∧ d.leadingExponent < last then d.positional style.places
      else d.scientific

/-- The text of any bit pattern.  What is not a number has no sign, and zero and infinity have
one. -/
def text (style : AmountStyle) (F : FloatFormat) (bits : Nat) : String :=
  let magnitude := F.magnitude bits
  if F.isNaN bits then "NaN"
  else
    (if F.isNegative bits then "-" else "") ++
      if magnitude = F.infinity then "inf"
      else if magnitude = 0 then (⟨0, 0⟩ : Decimal).positional style.places
      else style.layout (.shortest F magnitude)

end AmountStyle

end BlockTable
