/-!
# Binary floating point as bits

A floating point number is handled here as the natural number its bits spell.  `FloatFormat` says
how an interchange format splits those bits, and everything else is exact arithmetic on natural
numbers.

The *magnitude* is all bits but the sign.  Magnitudes are ordered as the values are, so a comparison
needs no decoding.  Every finite value is a whole number of *units*, the smallest positive value of
the format, and there are `scale` units in one.

`ofRatio` is the correctly rounded quotient of two natural numbers.  It is one formula for small and
normal results, because a magnitude is the shift times the implicit bit plus the significand, and a
significand that rounds up to the next power of two carries into the shift by itself.
-/

namespace BlockTable

/-- The two widths that fix a binary interchange format. -/
structure FloatFormat where
  /-- Bits of the fraction, without the implicit leading one. -/
  fractionBits : Nat
  /-- Bits of the exponent. -/
  exponentBits : Nat

namespace FloatFormat

/-- The 32-bit format. -/
def single : FloatFormat := ⟨23, 8⟩

/-- The 64-bit format. -/
def double : FloatFormat := ⟨52, 11⟩

variable (F : FloatFormat)

/-! ## Parts of a bit pattern -/

/-- The weight of the lowest exponent bit, which is also the implicit leading one of a
significand. -/
def leadingOne : Nat := 1 <<< F.fractionBits

/-- The weight of the sign bit. -/
def signBit : Nat := 1 <<< (F.exponentBits + F.fractionBits)

/-- The magnitude of infinity.  Larger magnitudes are not numbers. -/
def infinity : Nat := (1 <<< F.exponentBits - 1) * F.leadingOne

/-- All bits but the sign. -/
def magnitude (bits : Nat) : Nat := bits % F.signBit

/-- The sign bit. -/
def isNegative (bits : Nat) : Bool := F.signBit ≤ bits

/-- The bits denote no number. -/
def isNaN (bits : Nat) : Bool := F.infinity < F.magnitude bits

/-! ## Order -/

/-- The place of a number in the order of values, with both zeros at the same place.  A bit pattern
that is not a number has none. -/
def place? (bits : Nat) : Option Int :=
  if F.isNaN bits then none
  else if F.isNegative bits then some (-(F.magnitude bits : Int))
  else some (F.magnitude bits)

/-- Strictly less, false when one side is not a number. -/
def less (a b : Nat) : Bool :=
  match F.place? a, F.place? b with
  | some x, some y => x < y
  | _, _ => false

/-- Equal as values: zeros of both signs are equal, and what is not a number equals nothing. -/
def equal (a b : Nat) : Bool :=
  match F.place? a, F.place? b with
  | some x, some y => x == y
  | _, _ => false

/-! ## Values -/

/-- How many units there are in one. -/
def scale : Nat := 1 <<< (1 <<< (F.exponentBits - 1) - 2 + F.fractionBits)

/-- The number of bits by which the significand of a magnitude is shifted. -/
def shift (magnitude : Nat) : Nat := magnitude / F.leadingOne - 1

/-- The significand of a magnitude, with its implicit leading one. -/
def significand (magnitude : Nat) : Nat := magnitude - F.shift magnitude * F.leadingOne

/-- The value of a finite magnitude in units. -/
def units (magnitude : Nat) : Nat := F.significand magnitude <<< F.shift magnitude

/-- The whole number nearest to `num / den`, of two equally near ones the even one. -/
def roundEven (num den : Nat) : Nat :=
  let low := num / den
  let rest := 2 * (num % den)
  if rest < den then low
  else if den < rest then low + 1
  else low + low % 2

/-- The magnitude nearest to `num / den`, of two equally near ones the even one, and infinity beyond
the range. -/
def ofRatio (num den : Nat) : Nat :=
  let shift := (num * F.scale / den).log2 - F.fractionBits
  min F.infinity (shift * F.leadingOne + roundEven (num * F.scale) (den <<< shift))

/-- Half of a finite magnitude, rounded to the format. -/
def half (magnitude : Nat) : Nat := F.ofRatio (F.units magnitude) (2 * F.scale)

end FloatFormat

end BlockTable
