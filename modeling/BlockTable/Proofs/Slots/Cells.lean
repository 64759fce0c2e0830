import BlockTable.Table.Slots

/-!
# Slots and their blocks

What filling or emptying one slot does to an array, seen slot by slot (`block?_set`) and seen as
the list of its blocks (`blocks_set`).  The order of that list says where the blocks stand, so
most statements about it are up to `List.Perm`.

An array has an empty slot exactly when it has fewer blocks than slots (`exists_vacant_iff`).
-/

namespace BlockTable.Slots

variable {α β ε : Type}

/-! ## Slot by slot -/

@[simp] theorem capacity_empty (n : Nat) : (empty n : Slots β).capacity = n := by
  simp [empty, capacity]

@[simp] theorem capacity_set (s : Slots β) (slot : Nat) (c : Option β) :
    (s.set slot c).capacity = s.capacity := by
  simp [set, capacity]

@[simp] theorem block?_empty (n slot : Nat) : (empty n : Slots β).block? slot = none := by
  simp only [empty, block?, Array.getElem?_replicate]
  split <;> rfl

theorem block?_set (s : Slots β) (slot other : Nat) (c : Option β) :
    (s.set slot c).block? other =
      if slot = other ∧ slot < s.capacity then c else s.block? other := by
  simp only [block?, set, Array.getElem?_setIfInBounds, capacity]
  grind

theorem block?_set_self {s : Slots β} {slot : Nat} (c : Option β) (h : slot < s.capacity) :
    (s.set slot c).block? slot = c := by
  rw [block?_set, if_pos ⟨rfl, h⟩]

theorem block?_set_ne {s : Slots β} {slot other : Nat} (c : Option β) (h : slot ≠ other) :
    (s.set slot c).block? other = s.block? other := by
  rw [block?_set, if_neg fun hs => h hs.1]

theorem block?_eq_getElem {s : Slots β} {slot : Nat} (h : slot < s.cells.size) :
    s.block? slot = s.cells[slot] := by
  rw [block?, Array.getElem?_eq_getElem h, Option.join_some]

theorem lt_of_block? {s : Slots β} {slot : Nat} {b : β} (h : s.block? slot = some b) :
    slot < s.capacity := by
  by_cases hlt : slot < s.cells.size
  · exact hlt
  · rw [block?, Array.getElem?_eq_none (Nat.le_of_not_lt hlt)] at h
    cases h

/-- Filling a slot with what it holds changes nothing. -/
theorem set_block? {s : Slots β} {slot : Nat} {c : Option β} (h : s.block? slot = c) :
    s.set slot c = s := by
  cases s with
  | mk cells =>
      simp only [set, mk.injEq]
      apply Array.ext_getElem?
      intro i
      rw [Array.getElem?_setIfInBounds]
      split
      next hi =>
        subst hi
        split
        next hlt =>
          rw [block?_eq_getElem hlt] at h
          rw [Array.getElem?_eq_getElem hlt, h]
        next hge => rw [Array.getElem?_eq_none (Nat.le_of_not_lt hge)]
      next => rfl

/-! ## The list of blocks -/

@[simp] theorem blocks_empty (n : Nat) : (empty n : Slots β).blocks = [] := by
  simp [empty, blocks]

/-- An array without blocks has empty slots only. -/
theorem eq_empty {s : Slots β} (h : s.blocks = []) : s = .empty s.capacity := by
  have hnone : ∀ c ∈ s.cells.toList, c = none := fun c hc => List.filterMap_eq_nil_iff.mp h c hc
  refine congrArg Slots.mk (Array.ext' ?_)
  rw [Array.toList_replicate]
  exact List.eq_replicate_of_mem hnone

/-- The blocks are those of the array with the slot emptied, and what the slot is filled with. -/
theorem blocks_set {s : Slots β} {slot : Nat} (c : Option β) (h : slot < s.capacity) :
    (s.set slot c).blocks.Perm (c.toList ++ (s.set slot none).blocks) := by
  have hlen : slot < s.cells.toList.length := by simpa [capacity] using h
  have hsplit : ∀ d : Option β, (s.set slot d).blocks =
      (s.cells.toList.take slot).filterMap id ++
        (d.toList ++ (s.cells.toList.drop (slot + 1)).filterMap id) := by
    intro d
    simp only [blocks, set, Array.toList_setIfInBounds, List.set_eq_take_append_cons_drop,
      if_pos hlen, List.filterMap_append]
    cases d <;> simp
  rw [hsplit c, hsplit none, Option.toList_none, List.nil_append]
  exact List.perm_append_comm_assoc _ _ _

/-- The block in a slot, and all others. -/
theorem blocks_of_block? {s : Slots β} {slot : Nat} {b : β} (h : s.block? slot = some b) :
    s.blocks.Perm (b :: (s.set slot none).blocks) := by
  have hset := blocks_set (some b) (lt_of_block? h)
  rwa [set_block? h] at hset

/-- The blocks are what stands in some slot. -/
theorem mem_blocks {s : Slots β} {b : β} : b ∈ s.blocks ↔ ∃ slot, s.block? slot = some b := by
  constructor
  · intro h
    obtain ⟨c, hc, hcb⟩ := List.mem_filterMap.mp h
    obtain ⟨slot, hlt, hget⟩ := List.getElem_of_mem hc
    refine ⟨slot, ?_⟩
    rw [Array.getElem_toList] at hget
    rw [block?_eq_getElem (by simpa using hlt), hget]
    exact hcb
  · rintro ⟨slot, h⟩
    have hlt : slot < s.cells.size := lt_of_block? h
    rw [block?_eq_getElem hlt] at h
    refine List.mem_filterMap.mpr ⟨some b, ?_, rfl⟩
    rw [← h]
    simp

/-- A relation that holds between the blocks of any two slots. -/
theorem pairwise_blocks {s : Slots β} {R : β → β → Prop} (h : s.blocks.Pairwise R)
    {i j : Nat} {a b : β} (hij : i < j) (hi : s.block? i = some a) (hj : s.block? j = some b) :
    R a b := by
  rw [blocks, List.pairwise_filterMap, List.pairwise_iff_getElem] at h
  have hi' : i < s.cells.size := lt_of_block? hi
  have hj' : j < s.cells.size := lt_of_block? hj
  rw [block?_eq_getElem hi'] at hi
  rw [block?_eq_getElem hj'] at hj
  exact h i j (by simpa using hi') (by simpa using hj') hij a (by simpa using hi) b
    (by simpa using hj)

theorem length_blocks_le (s : Slots β) : s.blocks.length ≤ s.capacity := by
  simpa [blocks, capacity] using List.length_filterMap_le id s.cells.toList

/-- A slot is empty exactly if there are fewer blocks than slots. -/
theorem exists_vacant_iff {s : Slots β} :
    (∃ slot < s.capacity, s.block? slot = none) ↔ s.blocks.length < s.capacity := by
  have hlen : s.capacity = s.cells.toList.length := by simp [capacity]
  rw [hlen, blocks, List.length_filterMap_lt_length_iff_exists]
  constructor
  · rintro ⟨slot, hlt, h⟩
    refine ⟨s.cells.toList[slot], List.getElem_mem _, ?_⟩
    rw [block?_eq_getElem (by simpa using hlt)] at h
    simpa using h
  · rintro ⟨c, hc, hnone⟩
    obtain ⟨slot, hlt, hget⟩ := List.getElem_of_mem hc
    refine ⟨slot, hlt, ?_⟩
    rw [Array.getElem_toList] at hget
    rw [block?_eq_getElem (by simpa using hlt), hget]
    exact hnone

end BlockTable.Slots
