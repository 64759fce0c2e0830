import BlockTable.Proofs.Slots.Homes
import Mathlib.Data.Finset.Max

/-!
# Occupied slots

Which slots of an array are occupied, whatever is in them.  The list of these slots is in step with
the list of the blocks (`map_block?_occupied`).

A search for a block that is not there sees nothing else of the array, so it ends in the same way in
all arrays with the same occupied slots (`search_congr`).

In a homed array the empty slots follow from the homes of the blocks alone
(`Homed.block?_eq_none_iff`).  Suppose that a slot is occupied in one array and empty in another
one with the same homes.  Walk back from it to the nearest empty slot of the first array.  The
stretch between the two is occupied there, by blocks with homes in the stretch.  In the other array
the blocks with homes in the stretch are in it as well, since no walk crosses an empty slot, and
they have one slot less.
-/

namespace BlockTable.Slots

variable {α β ε : Type} {s : Slots α} {s' : Slots β}

/-- The occupied slots, in ascending order. -/
def occupied (s : Slots α) : List Nat := (List.range s.capacity).filter fun i => (s.block? i).isSome

/-- Two arrays of the same size have the same occupied slots if they have the same empty ones. -/
theorem occupied_congr (hcap : s.capacity = s'.capacity)
    (h : ∀ i, s.block? i = none ↔ s'.block? i = none) : s.occupied = s'.occupied := by
  rw [occupied, occupied, hcap]
  refine List.filter_congr fun i _ => ?_
  rw [Bool.eq_iff_iff, Option.isSome_iff_ne_none, Option.isSome_iff_ne_none, ne_eq, ne_eq, h i]

/-! ## Occupied slots and blocks -/

theorem cells_eq (s : Slots α) : s.cells.toList = (List.range s.capacity).map s.block? := by
  refine List.ext_getElem (by simp [capacity]) fun i hi _ => ?_
  rw [List.getElem_map, List.getElem_range, block?_eq_getElem (by simpa using hi),
    Array.getElem_toList]

theorem blocks_eq (s : Slots α) : s.blocks = (List.range s.capacity).filterMap s.block? := by
  rw [blocks, cells_eq, List.filterMap_map]
  rfl

/-- The blocks are those in the occupied slots, in the same order. -/
theorem map_block?_occupied (s : Slots α) : s.occupied.map s.block? = s.blocks.map some := by
  rw [occupied, blocks_eq]
  induction List.range s.capacity with
  | nil => rfl
  | cons i rest ih =>
      cases hb : s.block? i with
      | none => simp [hb, ih]
      | some b => simp [hb, ih]

theorem length_occupied (s : Slots α) : s.occupied.length = s.blocks.length := by
  simpa using congrArg List.length s.map_block?_occupied

theorem block?_of_occupied {k slot : Nat} (h : s.occupied[k]? = some slot) :
    ∃ b, s.block? slot = some b ∧ s.blocks[k]? = some b := by
  have hk := congrArg (·[k]?) s.map_block?_occupied
  simp only [List.getElem?_map, h, Option.map_some] at hk
  obtain ⟨b, hb, heq⟩ := Option.map_eq_some_iff.mp hk.symm
  exact ⟨b, heq.symm, hb⟩

/-- Blocks are counted by the slots that they are in. -/
theorem countP_blocks (s : Slots α) (p : α → Bool) :
    s.blocks.countP p = ((Finset.range s.capacity).filter fun i => (s.block? i).any p).card := by
  rw [blocks_eq, List.countP_filterMap, Finset.card, Finset.filter_val, Finset.range_val,
    Multiset.range, ← Multiset.countP_eq_card_filter, Multiset.coe_countP]
  refine List.countP_congr fun i _ => ?_
  cases s.block? i <;> simp

/-! ## Searches that find nothing -/

theorem vacantFrom_congr (hcap : s.capacity = s'.capacity)
    (h : ∀ i, s.block? i = none ↔ s'.block? i = none) (steps slot : Nat) :
    s.vacantFrom steps slot = s'.vacantFrom steps slot := by
  induction steps generalizing slot with
  | zero => rfl
  | succ steps ih =>
      have hslot := h slot
      have hnext : s.next slot = s'.next slot := by rw [next, next, hcap]
      rw [vacantFrom, vacantFrom]
      cases hb : s.block? slot with
      | none => rw [hslot.mp hb]
      | some b =>
          cases hb' : s'.block? slot with
          | none => simp [hslot.mpr hb'] at hb
          | some b' =>
              simp only
              rw [hnext, ih]

/-- A search for a block that is not there looks for an empty slot only. -/
theorem searchFrom_of_absent {isSought : α → Except ε Bool}
    (h : ∀ b ∈ s.blocks, isSought b = .ok false) (steps slot : Nat) :
    s.searchFrom isSought steps slot =
      match s.vacantFrom steps slot with
      | some i => .ok (.vacant i)
      | none => .ok .full := by
  induction steps generalizing slot with
  | zero => rfl
  | succ steps ih =>
      rw [searchFrom, vacantFrom]
      cases hb : s.block? slot with
      | none => rfl
      | some b =>
          simp only [h b (mem_blocks.mpr ⟨slot, hb⟩)]
          exact ih (s.next slot)

theorem search_congr {isSought : α → Except ε Bool} {isSought' : β → Except ε Bool}
    (hcap : s.capacity = s'.capacity) (h : ∀ i, s.block? i = none ↔ s'.block? i = none)
    (habsent : ∀ b ∈ s.blocks, isSought b = .ok false)
    (habsent' : ∀ b ∈ s'.blocks, isSought' b = .ok false) (home : Nat) :
    s.search isSought home = s'.search isSought' home := by
  rw [search, search, searchFrom_of_absent habsent, searchFrom_of_absent habsent',
    vacantFrom_congr hcap h, hcap]

/-! ## Occupied slots and homes -/

section stretch

variable {homeOf : α → Nat} {homeOf' : β → Nat} {n gap last slot home : Nat}

/-- The slot lies on the walk that begins behind `gap` and ends with `last`. -/
def Between (n gap last slot : Nat) : Prop :=
  0 < ahead n gap slot ∧ ahead n gap slot ≤ ahead n gap last

instance (n gap last slot : Nat) : Decidable (Between n gap last slot) :=
  inferInstanceAs (Decidable (_ ∧ _))

/-- A slot behind the gap is nearer to the last one than the gap is. -/
theorem Between.nearer (h : Between n gap last slot) (hs : slot < n) (hl : last < n) :
    ahead n slot last < ahead n gap last := by
  unfold Between ahead at *
  grind

/-- A walk from the stretch that stops short of the last slot stays in the stretch. -/
theorem Between.of_ahead_lt (h : Between n gap last home) (hg : gap < n) (hh : home < n)
    (hs : slot < n) (hl : last < n) (hlt : ahead n home slot < ahead n home last) :
    Between n gap last slot := by
  unfold Between ahead at *
  grind

/-- The nearest empty slot behind another one. -/
theorem exists_nearest_vacant (hvacant : ∃ i < s.capacity, s.block? i = none) (last : Nat)
    (hlast : last < s.capacity) :
    ∃ gap < s.capacity, s.block? gap = none ∧
      ∀ i < s.capacity, Between s.capacity gap last i → s.block? i ≠ none := by
  obtain ⟨i, hi, hnone⟩ := hvacant
  obtain ⟨gap, hgap, hmin⟩ := Finset.exists_min_image
    ((Finset.range s.capacity).filter fun i => s.block? i = none) (ahead s.capacity · last)
    ⟨i, by simp [hi, hnone]⟩
  simp only [Finset.mem_filter, Finset.mem_range] at hgap hmin
  refine ⟨gap, hgap.1, hgap.2, fun j hj hbetween hempty => ?_⟩
  exact absurd (hmin j ⟨hj, hempty⟩) (Nat.not_le.mpr (hbetween.nearer hj hlast))

/-- A block in an occupied stretch behind an empty slot has its home there too. -/
theorem Homed.between (hs : s.Homed homeOf) (hlt : ∀ b, homeOf b < s.capacity)
    (hg : gap < s.capacity) (hvacant : s.block? gap = none) {b : α} (hb : s.block? slot = some b)
    (h : Between s.capacity gap last slot) : Between s.capacity gap last (homeOf b) := by
  have hne : gap ≠ slot := by
    rintro rfl
    simp [hb] at hvacant
  by_contra hout
  have hcross := ahead_lt_of_not_behind (k := slot) hg (hlt b) hne
    fun hbehind => hout ⟨hbehind.1, Nat.le_trans hbehind.2 h.2⟩
  exact hs slot b hb gap hg (Nat.le_of_lt hcross) hvacant

/-- A block whose home is in a stretch that ends with an empty slot is in the stretch too. -/
theorem Homed.of_between (hs : s.Homed homeOf) (hlt : ∀ b, homeOf b < s.capacity)
    (hg : gap < s.capacity) (hl : last < s.capacity) (hvacant : s.block? last = none) {b : α}
    (hb : s.block? slot = some b) (h : Between s.capacity gap last (homeOf b)) :
    Between s.capacity gap last slot := by
  refine h.of_ahead_lt hg (hlt b) (lt_of_block? hb) hl (Nat.lt_of_not_le fun hcross => ?_)
  exact hs slot b hb last hl hcross hvacant

/-- The slots of such a walk. -/
def stretch (n gap last : Nat) : Finset Nat := (Finset.range n).filter (Between n gap last)

theorem mem_stretch : slot ∈ stretch n gap last ↔ slot < n ∧ Between n gap last slot := by
  rw [stretch, Finset.mem_filter, Finset.mem_range]

theorem last_mem_stretch (hg : gap < n) (hl : last < n) (hne : gap ≠ last) :
    last ∈ stretch n gap last := by
  have hahead : ahead n gap last ≠ 0 := fun hzero =>
    hne (ahead_inj hg hl (by rw [hzero, ahead_self]))
  exact mem_stretch.mpr ⟨hl, Nat.pos_of_ne_zero hahead, Nat.le_refl _⟩

/-- Each slot of an occupied stretch behind an empty slot has a block with its home there. -/
theorem Homed.card_le (hs : s.Homed homeOf) (hlt : ∀ b, homeOf b < s.capacity)
    (hg : gap < s.capacity) (hvacant : s.block? gap = none)
    (hrun : ∀ i < s.capacity, Between s.capacity gap last i → s.block? i ≠ none) :
    (stretch s.capacity gap last).card ≤
      (s.blocks.map homeOf).countP fun home => Between s.capacity gap last home := by
  rw [List.countP_map, countP_blocks]
  refine Finset.card_le_card fun i hi => ?_
  obtain ⟨hlt', hbetween⟩ := mem_stretch.mp hi
  obtain ⟨b, hb⟩ := Option.ne_none_iff_exists'.mp (hrun i hlt' hbetween)
  simp [hb, hlt', hs.between hlt hg hvacant hb hbetween]

/-- The blocks with homes in a stretch that ends with an empty slot are in the other slots of it. -/
theorem Homed.le_card (hs : s.Homed homeOf) (hlt : ∀ b, homeOf b < s.capacity)
    (hg : gap < s.capacity) (hl : last < s.capacity) (hvacant : s.block? last = none) :
    (s.blocks.map homeOf).countP (fun home => Between s.capacity gap last home) ≤
      ((stretch s.capacity gap last).erase last).card := by
  rw [List.countP_map, countP_blocks]
  refine Finset.card_le_card fun i hi => ?_
  simp only [Finset.mem_filter, Finset.mem_range, Option.any_eq_true, Function.comp_apply,
    decide_eq_true_eq] at hi
  obtain ⟨hlt', b, hb, hhome⟩ := hi
  refine Finset.mem_erase.mpr ⟨?_, mem_stretch.mpr ⟨hlt', ?_⟩⟩
  · rintro rfl
    simp [hb] at hvacant
  · exact hs.of_between hlt hg hl hvacant hb hhome

/-- With as many blocks at each home, a slot that is occupied in one array is not empty in the
other. -/
theorem Homed.block?_ne_none (hs : s.Homed homeOf) (hs' : s'.Homed homeOf')
    (hcap : s.capacity = s'.capacity) (hlt : ∀ b, homeOf b < s.capacity)
    (hlt' : ∀ b, homeOf' b < s'.capacity)
    (hhomes : (s.blocks.map homeOf).Perm (s'.blocks.map homeOf')) {last : Nat}
    (hlast : s.block? last ≠ none) : s'.block? last ≠ none := by
  intro hvacant'
  obtain ⟨b, hb⟩ := Option.ne_none_iff_exists'.mp hlast
  have hl := lt_of_block? hb
  have hlen : s.blocks.length = s'.blocks.length := by simpa using hhomes.length_eq
  have hroom : s.blocks.length < s.capacity := by
    rw [hlen, hcap]
    exact exists_vacant_iff.mp ⟨last, hcap ▸ hl, hvacant'⟩
  obtain ⟨gap, hg, hvacant, hrun⟩ := exists_nearest_vacant (exists_vacant_iff.mpr hroom) last hl
  have hne : gap ≠ last := by
    rintro rfl
    exact hlast hvacant
  -- the stretch has as many blocks as slots in the first array, and fewer in the other
  have hmany := hs.card_le hlt hg hvacant hrun
  have hfew := hs'.le_card hlt' (hcap ▸ hg : gap < s'.capacity) (hcap ▸ hl) hvacant'
  rw [← hcap] at hfew
  have hless := Finset.card_erase_lt_of_mem (last_mem_stretch hg hl hne)
  rw [hhomes.countP_eq] at hmany
  omega

/-- Homed arrays of the same size with as many blocks at each home have the same empty slots. -/
theorem Homed.block?_eq_none_iff (hs : s.Homed homeOf) (hs' : s'.Homed homeOf')
    (hcap : s.capacity = s'.capacity) (hlt : ∀ b, homeOf b < s.capacity)
    (hlt' : ∀ b, homeOf' b < s'.capacity)
    (hhomes : (s.blocks.map homeOf).Perm (s'.blocks.map homeOf')) (i : Nat) :
    s.block? i = none ↔ s'.block? i = none :=
  not_iff_not.mp ⟨hs.block?_ne_none hs' hcap hlt hlt' hhomes,
    hs'.block?_ne_none hs hcap.symm hlt' hlt hhomes.symm⟩

end stretch

end BlockTable.Slots
