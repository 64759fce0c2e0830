import BlockTable.Error

/-!
# Sizing

How large the slot array of a table is: at first, at least, and when it grows or shrinks.

The *load* is the number of entries over the number of slots, rounded to a floating point number.
Above the load factor the slots are doubled.  Below half the load factor they are halved, unless
that would leave the minimum capacity or less (`nextCapacity`).  Both tests compare rounded numbers,
the load and half the load factor, and they are computed here on the bits (`FloatFormat.ofRatio`,
`FloatFormat.half`).
-/

namespace BlockTable

/-- The settings of a slot array. -/
structure Sizing where
  /-- The bits of the load above which the array grows. -/
  loadFactor : UInt64
  /-- The number of slots at first. -/
  initialCapacity : Nat
  /-- The number of slots that the array never shrinks to. -/
  minCapacity : Nat
  deriving DecidableEq, Repr

namespace Sizing

/-- The load factor unless another is given, 0.65. -/
def defaultLoadFactor : UInt64 := 0x3fe4cccccccccccd

/-- Both capacities unless others are given. -/
def defaultCapacity : Nat := 512

/-- The settings unless others are given. -/
def default : Sizing := ⟨defaultLoadFactor, defaultCapacity, defaultCapacity⟩

instance : Inhabited Sizing := ⟨default⟩

/-- The default settings with another load factor. -/
def ofLoadFactor (loadFactor : UInt64) : Sizing := { default with loadFactor }

/-- The default settings with another initial capacity. -/
def ofCapacity (initialCapacity : Nat) : Sizing := { default with initialCapacity }

/-- Equality of settings, with load factors compared as numbers. -/
def beq (a b : Sizing) : Bool :=
  FloatFormat.double.equal a.loadFactor.toNat b.loadFactor.toNat &&
    a.initialCapacity == b.initialCapacity && a.minCapacity == b.minCapacity

/-- The bits of one. -/
def one : Nat := 0x3ff0000000000000

/-- The load factor is strictly between zero and one.  What is not a number is not. -/
def hasLoadFactor (s : Sizing) : Bool :=
  FloatFormat.double.less 0 s.loadFactor.toNat && FloatFormat.double.less s.loadFactor.toNat one

/-- Refuses settings that no table can keep.  The load factor is looked at first and the minimum
capacity last. -/
def validate (s : Sizing) : Except TableError Unit :=
  if !s.hasLoadFactor then .error (.argument (.loadFactor s.loadFactor))
  else if s.initialCapacity < 1 then .error (.argument .initialCapacity)
  else if s.minCapacity < 1 then .error (.argument .minCapacity)
  else .ok ()

/-- The description of settings. -/
def outline (s : Sizing) : Outline :=
  .record "MapConfig" (.ofList [
    ("load_factor", .leaf (AmountStyle.described.text .double s.loadFactor.toNat)),
    ("initial_capacity", .nat s.initialCapacity),
    ("min_capacity", .nat s.minCapacity)])

/-! ## Growing and shrinking -/

/-- The magnitude of the load. -/
def load (size capacity : Nat) : Nat := FloatFormat.double.ofRatio size capacity

/-- The load is above the load factor. -/
def isCrowded (loadFactor : UInt64) (size capacity : Nat) : Bool :=
  FloatFormat.double.less loadFactor.toNat (load size capacity)

/-- The load is below half the load factor. -/
def isSparse (loadFactor : UInt64) (size capacity : Nat) : Bool :=
  FloatFormat.double.less (load size capacity) (FloatFormat.double.half loadFactor.toNat)

/-- The number of slots that an array should have before its next change. -/
def nextCapacity (loadFactor : UInt64) (minCapacity size capacity : Nat) : Nat :=
  if isCrowded loadFactor size capacity then capacity * 2
  else if isSparse loadFactor size capacity && minCapacity < capacity / 2 then capacity / 2
  else capacity

/-- An array of `capacity` slots of eight bytes each is not too large to exist. -/
def allocatable (capacity : Nat) : Bool := 8 * capacity ≤ 1 <<< 63 - 8

end Sizing

end BlockTable
