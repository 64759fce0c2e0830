import BlockTable.Proofs.Table.Agreement
import BlockTable.Set

/-!
# Finite sets

What a set stands for: elements of which no two are equal, in no particular order, and the calls on
them.  To add an element that is present is to put it in the place of the one it equals, so it is
the element added last that is listed.

The keys of a finite map are such elements (`Dict.keys`), and each call on a set is a call on a map
that takes these to those of the result (`Dict.call_keys`).
-/

namespace BlockTable

/-- A call on an open set. -/
inductive SetCall (α : Type) where
  | add (x : α)
  | contains (x : α)
  | remove (x : α)
  | length
  | isEmpty
  | clear
  deriving DecidableEq, Repr

/-- What a call on a set answers. -/
inductive SetAnswer where
  | truth (b : Bool)
  | count (n : Nat)
  | nothing
  deriving DecidableEq, Repr

namespace SetCall

variable {α : Type}

/-- The call on the map that a set is. -/
def onMap : SetCall α → Call α Unit
  | .add x => .put x ()
  | .contains x => .contains x
  | .remove x => .remove x
  | .length => .length
  | .isEmpty => .isEmpty
  | .clear => .clear

/-- What a set makes of the answer of its map.  A value is the value that a key had before. -/
def read : SetCall α → Answer Unit → SetAnswer
  | .add _, .value v? => .truth v?.isNone
  | _, .value v? => .truth v?.isSome
  | _, .truth b => .truth b
  | _, .count n => .count n
  | _, .nothing => .nothing

end SetCall

/-- Elements of which no two are equal. -/
structure FiniteSet (α : Type) [BEq α] where
  elements : List α
  distinct : elements.Pairwise fun x y => (x == y) = false

namespace FiniteSet

variable {α : Type} [BEq α]

def empty : FiniteSet α := ⟨[], .nil⟩

def size (s : FiniteSet α) : Nat := s.elements.length

def has (s : FiniteSet α) (x : α) : Bool := s.elements.any (x == ·)

/-- All elements but the one that equals `x`. -/
def erase (s : FiniteSet α) (x : α) : FiniteSet α where
  elements := s.elements.filter fun y => !(x == y)
  distinct := s.distinct.filter _

def add (s : FiniteSet α) (x : α) : FiniteSet α where
  elements := x :: (s.erase x).elements
  distinct := by
    refine List.pairwise_cons.mpr ⟨fun y h => ?_, (s.erase x).distinct⟩
    simpa using (List.mem_filter.mp h).2

/-- The answer of a call and the elements after it. -/
def call (s : FiniteSet α) : SetCall α → SetAnswer × FiniteSet α
  | .add x => (.truth (!s.has x), s.add x)
  | .contains x => (.truth (s.has x), s)
  | .remove x => (.truth (s.has x), s.erase x)
  | .length => (.count s.size, s)
  | .isEmpty => (.truth (s.size == 0), s)
  | .clear => (.nothing, empty)

/-- The elements after a run. -/
def after (s : FiniteSet α) : List (SetCall α) → FiniteSet α
  | [] => s
  | c :: cs => (s.call c).2.after cs

/-- The answers of a run. -/
def answers (s : FiniteSet α) : List (SetCall α) → List SetAnswer
  | [] => []
  | c :: cs => (s.call c).1 :: (s.call c).2.answers cs

end FiniteSet

/-! ## The keys of a map -/

namespace Dict

variable {α ν : Type} [BEq α] (d : Dict α ν)

def keys : FiniteSet α := ⟨d.entries.map Prod.fst, List.pairwise_map.mpr d.distinct⟩

theorem size_keys : d.keys.size = d.size := List.length_map ..

theorem has_keys (x : α) : d.keys.has x = (d.find? x).isSome := by
  rw [FiniteSet.has, keys, List.any_map, find?, Option.isSome_map, List.isSome_find?]
  rfl

theorem keys_erase (x : α) : (d.erase x).keys = d.keys.erase x := by
  simp only [keys, erase, FiniteSet.erase, FiniteSet.mk.injEq]
  rw [List.filter_map]
  rfl

theorem keys_put (x : α) (v : ν) : (d.put x v).keys = d.keys.add x := by
  have hrest := congrArg FiniteSet.elements (d.keys_erase x)
  simp only [FiniteSet.add, keys, put, FiniteSet.mk.injEq, List.map_cons]
  exact congrArg _ hrest

/-- A set answers what its map answers, and goes on with the keys. -/
theorem call_keys (d : Dict α Unit) (c : SetCall α) :
    d.keys.call c = (c.read (d.call c.onMap).1, (d.call c.onMap).2.keys) := by
  cases c with
  | add x =>
      rw [FiniteSet.call, has_keys, ← d.keys_put x (), Option.not_isSome]
      rfl
  | contains x =>
      rw [FiniteSet.call, has_keys]
      rfl
  | remove x =>
      rw [FiniteSet.call, has_keys, ← keys_erase]
      rfl
  | length =>
      rw [FiniteSet.call, size_keys]
      rfl
  | isEmpty =>
      rw [FiniteSet.call, size_keys]
      rfl
  | clear => rfl

/-- Maps without values agree when their keys do. -/
theorem agrees_iff_has {a b : Dict α Unit} :
    Agrees a b ↔ ∀ x, a.keys.has x = b.keys.has x := by
  refine forall_congr' fun x => ?_
  rw [has_keys, has_keys]
  cases a.find? x <;> cases b.find? x <;> simp

end Dict

end BlockTable
