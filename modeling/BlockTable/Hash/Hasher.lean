import BlockTable.Numeric.LittleEndian

/-!
# Hashers

A value is hashed by *feeding* it to a hasher: a list of numbers of a width and of byte strings
(`Feed`).  A hasher is a state of 64 bits, a step for each feed, and a last step (`Hasher`).

`Hasher.multiplying` is the one that contents are hashed with, unless another is given.  It adds
each number to its state and multiplies by an odd constant, and folds a byte string into one number
first.  The others serve to place keys on purpose: one sends all keys to one place, one reads a
polynomial, and one hands a number through.
-/

namespace BlockTable

/-- What is fed to a hasher at once. -/
inductive Feed where
  /-- A number of `width` bytes. -/
  | word (width value : Nat)
  /-- A string of bytes. -/
  | bytes (bs : List UInt8)
  deriving DecidableEq, Repr

/-- The bytes of a feed. -/
def Feed.encode : Feed → List UInt8
  | .word width value => LittleEndian.encode width value
  | .bytes bs => bs

/-- A hash function over feeds. -/
structure Hasher where
  /-- The state before any feed. -/
  start : UInt64
  /-- The state after a feed. -/
  step : UInt64 → Feed → UInt64
  /-- The hash in a state. -/
  finish : UInt64 → UInt64

namespace Hasher

/-- The hash of a list of feeds. -/
def hash (h : Hasher) (feeds : List Feed) : UInt64 := h.finish (feeds.foldl h.step h.start)

/-! ## The multiplying hasher -/

/-- The two halves of the product of two numbers, one xor the other. -/
def mix (x y : UInt64) : UInt64 :=
  let product := x.toNat * y.toNat
  UInt64.ofNat product ^^^ UInt64.ofNat (product / UInt64.size)

/-- The number in the `width` bytes from `position` on. -/
def load (bs : List UInt8) (position width : Nat) : UInt64 :=
  UInt64.ofNat (LittleEndian.decode ((bs.drop position).take width))

/-- The first state word for a string of bytes. -/
def seed₀ : UInt64 := 0x243f6a8885a308d3

/-- The second state word for a string of bytes. -/
def seed₁ : UInt64 := 0x13198a2e03707344

/-- The word that keeps runs of zero bytes from being ignored. -/
def salt : UInt64 := 0xa4093822299f31d0

/-- Mixes pieces of 16 bytes into two state words while more than one piece is left. -/
def mixPieces (bs : List UInt8) : (pieces position : Nat) → UInt64 → UInt64 → UInt64 × UInt64
  | 0, _, s₀, s₁ => (s₀, s₁)
  | pieces + 1, position, s₀, s₁ =>
      mixPieces bs pieces (position + 16) s₁
        (mix (s₀ ^^^ load bs position 8) (salt ^^^ load bs (position + 8) 8))

/-- A string of bytes as one number. -/
def foldBytes (bs : List UInt8) : UInt64 :=
  let n := bs.length
  let (s₀, s₁) :=
    if n = 0 then (seed₀, seed₁)
    else if n < 4 then
      (seed₀ ^^^ load bs 0 1, seed₁ ^^^ (load bs (n - 1) 1 <<< 8 ||| load bs (n / 2) 1))
    else if n < 8 then (seed₀ ^^^ load bs 0 4, seed₁ ^^^ load bs (n - 4) 4)
    else if n ≤ 16 then (seed₀ ^^^ load bs 0 8, seed₁ ^^^ load bs (n - 8) 8)
    else
      let (s₀, s₁) := mixPieces bs ((n - 1) / 16) 0 seed₀ seed₁
      (s₀ ^^^ load bs (n - 16) 8, s₁ ^^^ load bs (n - 8) 8)
  mix s₀ s₁ ^^^ UInt64.ofNat n

/-- Adds a number to the state and multiplies. -/
def absorb (state x : UInt64) : UInt64 := (state + x) * 0xf1357aea2e62a9c5

/-- Adds and multiplies, and turns the bits by 26 places at the end.  A number of more than 64 bits
is fed in two halves, the lower one first. -/
def multiplying : Hasher where
  start := 0
  step state
    | .word width value =>
        if width ≤ 8 then absorb state (UInt64.ofNat value)
        else absorb (absorb state (UInt64.ofNat value)) (UInt64.ofNat (value / UInt64.size))
    | .bytes bs => absorb state (foldBytes bs)
  finish state := state <<< 26 ||| state >>> 38

/-! ## Hashers that place keys on purpose -/

/-- Sends everything to one hash. -/
def constant (hash : UInt64) : Hasher where
  start := hash
  step state _ := state
  finish state := state

/-- Reads all bytes as the coefficients of a polynomial at 31, beginning with the seed. -/
def polynomial (seed : UInt64) : Hasher where
  start := seed
  step state feed := feed.encode.foldl (fun state b => state * 31 + b.toUInt64) state
  finish state := state

/-- Hands through the last eight bytes of the last feed. -/
def last : Hasher where
  start := 0
  step _ feed :=
    let bs := feed.encode
    load bs (bs.length - 8) 8
  finish state := state

end Hasher

end BlockTable
