import BlockTable.Table.Slots

/-!
# Labelled slots

The functions of `Slots` know of a block only what they are told.  So they do the same to an array
whose blocks carry a label: whatever a function does to the labelled array, the same happens to the
array without labels (`map`).

A proof can therefore give every block the entry it stands for, also where the bytes of the block
no longer tell it, and speak of the labelled array all the time.
-/

namespace BlockTable.Slots

variable {α β ε : Type} (f : α → β)

/-- The array with every block replaced. -/
def map (s : Slots α) : Slots β := ⟨s.cells.map (Option.map f)⟩

@[simp] theorem capacity_map (s : Slots α) : (s.map f).capacity = s.capacity := by
  simp [map, capacity]

@[simp] theorem block?_map (s : Slots α) (slot : Nat) :
    (s.map f).block? slot = (s.block? slot).map f := by
  simp only [map, block?, Array.getElem?_map]
  cases s.cells[slot]? <;> rfl

@[simp] theorem empty_map (n : Nat) : (empty n : Slots α).map f = empty n := by
  simp [map, empty]

@[simp] theorem set_map (s : Slots α) (slot : Nat) (c : Option α) :
    (s.map f).set slot (c.map f) = (s.set slot c).map f := by
  simp only [map, set, mk.injEq]
  apply Array.ext_getElem?
  intro i
  simp only [Array.getElem?_setIfInBounds, Array.getElem?_map, Array.size_map]
  split
  · split <;> rfl
  · rfl

@[simp] theorem next_map (s : Slots α) (slot : Nat) : (s.map f).next slot = s.next slot := by
  simp [next]

@[simp] theorem blocks_map (s : Slots α) : (s.map f).blocks = s.blocks.map f := by
  simp only [blocks, map, Array.toList_map, List.filterMap_map, List.map_filterMap]
  congr 1

/-! ## Searching and placing -/

/-- A search for a block looks through its label, and ends at the same slot. -/
theorem searchFrom_map (s : Slots α) (isSought : β → Except ε Bool) (steps slot : Nat) :
    (s.map f).searchFrom isSought steps slot = s.searchFrom (isSought ∘ f) steps slot := by
  induction steps generalizing slot with
  | zero => rfl
  | succ steps ih =>
      rw [searchFrom, searchFrom, block?_map, next_map]
      cases s.block? slot with
      | none => rfl
      | some a =>
          simp only [Option.map_some, Function.comp_apply]
          rw [ih]

theorem search_map (s : Slots α) (isSought : β → Except ε Bool) (home : Nat) :
    (s.map f).search isSought home = s.search (isSought ∘ f) home := by
  rw [search, search, searchFrom_map, capacity_map]

/-- Which slot is vacant does not depend on what the others hold. -/
theorem vacantFrom_map (s : Slots α) (steps slot : Nat) :
    (s.map f).vacantFrom steps slot = s.vacantFrom steps slot := by
  induction steps generalizing slot with
  | zero => rfl
  | succ steps ih =>
      rw [vacantFrom, vacantFrom, block?_map, next_map]
      cases s.block? slot with
      | none => rfl
      | some a => exact ih _

theorem place_map (s : Slots α) (home : Nat) (a : α) :
    (s.map f).place home (f a) = (s.place home a).map f := by
  rw [place, place, vacantFrom_map, capacity_map]
  cases s.vacantFrom s.capacity home with
  | none => rfl
  | some slot => exact set_map f s slot (some a)

/-- The induction is on the cells that the blocks come from.  It ends early at a block whose home is
not known, and then on both sides. -/
theorem placeAll_map (home : β → Except ε Nat) (cells : List (Option α)) (s : Slots α) :
    placeAll home (cells.map (Option.map f)) (s.map f) =
      (placeAll (home ∘ f) cells s).map (map f) := by
  induction cells generalizing s with
  | nil => rfl
  | cons c rest ih =>
      cases c with
      | none => exact ih s
      | some a =>
          simp only [List.map_cons, Option.map_some, placeAll, Function.comp_apply]
          cases home (f a) with
          | error e => rfl
          | ok slot =>
              simp only [place_map]
              exact ih (s.place slot a)

/-- Labels go with their blocks into a new array. -/
theorem rehash_map (s : Slots α) (home : β → Except ε Nat) (n : Nat) :
    (s.map f).rehash home n = (s.rehash (home ∘ f) n).map (map f) := by
  rw [rehash, rehash, ← placeAll_map, empty_map, map, Array.toList_map]

/-! ## Closing a gap -/

/-- The induction is on the steps.  Whether a block moves depends on its home, which is asked
through the label, and if it moves its label moves with it. -/
theorem closeGapFrom_map (home : β → Except ε Nat) (steps gap slot : Nat) (s : Slots α) :
    closeGapFrom home steps gap slot (s.map f) =
      ((closeGapFrom (home ∘ f) steps gap slot s).1,
        (closeGapFrom (home ∘ f) steps gap slot s).2.map f) := by
  induction steps generalizing gap slot s with
  | zero => rfl
  | succ steps ih =>
      rw [closeGapFrom, closeGapFrom, block?_map, next_map]
      cases s.block? slot with
      | none => rfl
      | some a =>
          simp only [Option.map_some, Function.comp_apply]
          cases home (f a) with
          | error e => rfl
          | ok h =>
              cases hbehind : isBehind gap slot h with
              | true =>
                  simp only [hbehind, if_true]
                  exact ih gap (s.next slot) s
              | false =>
                  simp only [hbehind, Bool.false_eq_true, if_false]
                  rw [← Option.map_some, ← Option.map_none, set_map, set_map]
                  exact ih slot (s.next slot) _

/-- How the walk ends does not depend on the labels. -/
theorem closeGap_map (s : Slots α) (home : β → Except ε Nat) (gap : Nat) :
    (s.map f).closeGap home gap =
      ((s.closeGap (home ∘ f) gap).1, (s.closeGap (home ∘ f) gap).2.map f) := by
  rw [closeGap, closeGap, closeGapFrom_map, capacity_map, next_map]

end BlockTable.Slots
