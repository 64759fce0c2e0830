import BlockTable.Proofs.Slots.Search

/-!
# Homes

An array is *homed* when every block can be found from its home slot: the walk from there up to
the block crosses no empty slot (`Homed`).  A search may then stop at the first empty slot.

Filling a slot up to which the walk from the home of the new block is occupied keeps an array
homed (`Homed.set_some`).  So does placing, and a rehash into an array with room for all blocks
gives a homed array with the same blocks (`rehash_ok`).  On the way every block that is placed finds
an empty slot (`findsRoom`).

The functions of `Slots` ask for homes by a function that can fail.  The lemmas speak of a total
function that agrees with it where it answers (`Extends`), so that a block whose home cannot be
read has a home all the same.
-/

namespace BlockTable.Slots

variable {β ε : Type}

/-- A total function of homes among `n` slots that agrees with a partial one. -/
structure Extends (home : β → Except ε Nat) (homeOf : β → Nat) (n : Nat) : Prop where
  /-- Homes are slots. -/
  lt : ∀ b, homeOf b < n
  /-- They are the ones that the partial function answers. -/
  eq : ∀ {b h}, home b = .ok h → homeOf b = h

/-- Homes that cannot be read are as good as slot zero. -/
theorem exists_extends {home : β → Except ε Nat} {n : Nat} (hn : 0 < n)
    (hlt : ∀ b h, home b = .ok h → h < n) : ∃ homeOf, Extends home homeOf n := by
  refine ⟨fun b => (home b).toOption.getD 0, fun b => ?_, fun {b h} hb => by rw [hb]; rfl⟩
  show (home b).toOption.getD 0 < n
  cases hb : home b with
  | error e => exact hn
  | ok h => exact hlt b h hb

/-- Every block can be found from its home slot. -/
def Homed (homeOf : β → Nat) (s : Slots β) : Prop :=
  ∀ i b, s.block? i = some b → ∀ j < s.capacity,
    ahead s.capacity (homeOf b) j ≤ ahead s.capacity (homeOf b) i → s.block? j ≠ none

theorem homed_empty (homeOf : β → Nat) (n : Nat) : (empty n).Homed homeOf := by
  intro i b h
  rw [block?_empty] at h
  cases h

theorem Homed.set_some {homeOf : β → Nat} {s : Slots β} {slot : Nat} {b : β}
    (hs : s.Homed homeOf) (hslot : slot < s.capacity)
    (hwalk : ∀ j < s.capacity, ahead s.capacity (homeOf b) j < ahead s.capacity (homeOf b) slot →
      s.block? j ≠ none) : (s.set slot (some b)).Homed homeOf := by
  intro i c hi j hj hle
  rw [capacity_set] at hj hle
  by_cases hjs : slot = j
  · rw [← hjs, block?_set_self _ hslot]
    simp
  · rw [block?_set_ne _ hjs]
    by_cases his : slot = i
    · rw [← his, block?_set_self _ hslot] at hi
      cases hi
      refine hwalk j hj (Nat.lt_of_le_of_ne (his ▸ hle) fun heq => hjs ?_)
      exact (ahead_inj hj hslot heq).symm
    · rw [block?_set_ne _ his] at hi
      exact hs i c hi j hj hle

/-- A search of a homed array that finds nothing has looked at every block whose home it began
at. -/
theorem SearchEnd.not_sought {homeOf : β → Nat} {s : Slots β} {isSought : β → Except ε Bool}
    {home slot : Nat} {last : Search} {b : β} (h : SearchEnd s isSought home (.ok last))
    (hlast : ∀ slot, last ≠ .found slot) (hs : s.Homed homeOf) (hb : s.block? slot = some b)
    (hhome : homeOf b = home) : isSought b = .ok false := by
  have hlt := lt_of_block? hb
  cases h with
  | found hb' hsought hpassed => exact absurd rfl (hlast _)
  | full hall =>
      obtain ⟨c, hc, hno⟩ := hall slot hlt
      rw [hb] at hc
      cases hc
      exact hno
  | vacant hbound hnone hpassed =>
      rename_i stop
      by_cases hbefore : ahead s.capacity home slot < ahead s.capacity home stop
      · obtain ⟨c, hc, hno⟩ := hpassed slot hlt hbefore
        rw [hb] at hc
        cases hc
        exact hno
      · refine absurd hnone (hs slot b hb stop hbound ?_)
        rw [hhome]
        exact Nat.le_of_not_lt hbefore

/-! ## Placing -/

/-- A block is placed at the first empty slot from its home on. -/
theorem place_eq_set {s : Slots β} {home : Nat} (b : β) (hh : home < s.capacity)
    (hroom : s.blocks.length < s.capacity) :
    ∃ slot, s.place home b = s.set slot (some b) ∧ slot < s.capacity ∧ s.block? slot = none ∧
      ∀ j < s.capacity, ahead s.capacity home j < ahead s.capacity home slot →
        s.block? j ≠ none := by
  obtain ⟨slot, hv, hlt, hnone, hwalk⟩ := exists_vacantFrom hh hroom
  exact ⟨slot, by rw [place, hv], hlt, hnone, hwalk⟩

/-- Filling an empty slot adds one block. -/
theorem blocks_set_vacant {s : Slots β} {slot : Nat} (b : β) (hlt : slot < s.capacity)
    (hnone : s.block? slot = none) : (s.set slot (some b)).blocks.Perm (b :: s.blocks) := by
  have h := blocks_set (some b) hlt
  rwa [set_block? hnone, Option.toList_some, List.singleton_append] at h

/-- What placing the blocks of a list of slots leads to. -/
structure Placed (homeOf : β → Nat) (cells : List (Option β)) (s s' : Slots β) : Prop where
  /-- The number of slots stays. -/
  capacity : s'.capacity = s.capacity
  /-- The blocks of the list are added. -/
  blocks : s'.blocks.Perm (cells.filterMap id ++ s.blocks)
  /-- All can be found from their homes. -/
  homed : s.Homed homeOf → s'.Homed homeOf

theorem placeAll_ok {home : β → Except ε Nat} {homeOf : β → Nat} {n : Nat}
    (hhome : Extends home homeOf n) (cells : List (Option β)) {s s' : Slots β}
    (hn : s.capacity = n) (hroom : (cells.filterMap id).length + s.blocks.length ≤ n)
    (h : placeAll home cells s = .ok s') : Placed homeOf cells s s' := by
  induction cells generalizing s with
  | nil =>
      cases h
      exact ⟨rfl, .refl _, id⟩
  | cons c rest ih =>
      cases c with
      | none =>
          have hplaced := ih hn hroom h
          exact ⟨hplaced.capacity, hplaced.blocks, hplaced.homed⟩
      | some b =>
          rw [placeAll] at h
          have hfilter : (some b :: rest).filterMap id = b :: rest.filterMap id := rfl
          rw [hfilter, List.length_cons] at hroom
          cases hb : home b with
          | error e => simp only [hb] at h; cases h
          | ok slot =>
              simp only [hb] at h
              cases hhome.eq hb
              obtain ⟨slot, hplace, hslot, hnone, hwalk⟩ :=
                place_eq_set b (hn ▸ hhome.lt b) (by omega : s.blocks.length < s.capacity)
              rw [hplace] at h
              have hperm := blocks_set_vacant b hslot hnone
              have hplaced := ih ((capacity_set ..).trans hn)
                (by rw [hperm.length_eq, List.length_cons]; omega) h
              refine ⟨hplaced.capacity.trans (capacity_set ..), ?_, fun hs => ?_⟩
              · calc s'.blocks
                    _ |>.Perm (rest.filterMap id ++ (s.set slot (some b)).blocks) :=
                      hplaced.blocks
                    _ |>.Perm (rest.filterMap id ++ b :: s.blocks) := hperm.append_left _
                    _ |>.Perm (b :: (rest.filterMap id ++ s.blocks)) := List.perm_middle
              · exact hplaced.homed (hs.set_some hslot hwalk)

/-- Placing fails only at a block whose home cannot be read. -/
theorem placeAll_error {home : β → Except ε Nat} {e : ε} (cells : List (Option β))
    {s : Slots β} (h : placeAll home cells s = .error e) :
    ∃ b, some b ∈ cells ∧ home b = .error e := by
  induction cells generalizing s with
  | nil => cases h
  | cons c rest ih =>
      cases c with
      | none =>
          obtain ⟨b, hb, he⟩ := ih h
          exact ⟨b, List.mem_cons_of_mem _ hb, he⟩
      | some b =>
          rw [placeAll] at h
          cases hb : home b with
          | error e' =>
              simp only [hb] at h
              cases h
              exact ⟨b, List.mem_cons_self .., hb⟩
          | ok slot =>
              simp only [hb] at h
              obtain ⟨c, hc, he⟩ := ih h
              exact ⟨c, List.mem_cons_of_mem _ hc, he⟩

/-- Placing succeeds only if the home of every block can be read. -/
theorem placeAll_reads {home : β → Except ε Nat} (cells : List (Option β)) {s s' : Slots β}
    (h : placeAll home cells s = .ok s') : ∀ b, some b ∈ cells → ∃ slot, home b = .ok slot := by
  induction cells generalizing s with
  | nil => exact fun b hb => absurd hb List.not_mem_nil
  | cons c rest ih =>
      intro b hb
      cases c with
      | none =>
          cases List.mem_cons.mp hb with
          | inl heq => cases heq
          | inr hrest => exact ih h b hrest
      | some first =>
          rw [placeAll] at h
          cases hfirst : home first with
          | error e => simp only [hfirst] at h; cases h
          | ok slot =>
              simp only [hfirst] at h
              cases List.mem_cons.mp hb with
              | inl heq =>
                  cases heq
                  exact ⟨slot, hfirst⟩
              | inr hrest => exact ih h b hrest

/-! ## Rehashing -/

/-- A rehash into enough slots keeps the blocks and finds each of them from its home. -/
theorem rehash_ok {s s' : Slots β} {home : β → Except ε Nat} {homeOf : β → Nat} {n : Nat}
    (hhome : Extends home homeOf n) (hroom : s.blocks.length ≤ n)
    (h : s.rehash home n = .ok s') :
    s'.capacity = n ∧ s'.blocks.Perm s.blocks ∧ s'.Homed homeOf := by
  have hcells : (s.cells.toList.filterMap id).length + (empty n : Slots β).blocks.length ≤ n := by
    rw [blocks_empty]
    exact hroom
  have hplaced := placeAll_ok hhome s.cells.toList (capacity_empty n) hcells h
  have hblocks := hplaced.blocks
  rw [blocks_empty, List.append_nil] at hblocks
  exact ⟨hplaced.capacity.trans (capacity_empty n), hblocks,
    hplaced.homed (homed_empty homeOf n)⟩

theorem rehash_error {s : Slots β} {home : β → Except ε Nat} {n : Nat} {e : ε}
    (h : s.rehash home n = .error e) : ∃ b ∈ s.blocks, home b = .error e := by
  obtain ⟨b, hb, he⟩ := placeAll_error _ h
  exact ⟨b, List.mem_filterMap.mpr ⟨some b, hb, rfl⟩, he⟩

theorem rehash_reads {s s' : Slots β} {home : β → Except ε Nat} {n : Nat}
    (h : s.rehash home n = .ok s') : ∀ b ∈ s.blocks, ∃ slot, home b = .ok slot := by
  intro b hb
  obtain ⟨c, hc, heq⟩ := List.mem_filterMap.mp hb
  cases heq
  exact placeAll_reads _ h b hc

/-! ## Walks -/

/-- A walk of `steps` steps from `home` over occupied slots arrives at `slot`, within one cycle. -/
structure Walk (s : Slots β) (home steps slot : Nat) : Prop where
  /-- It does not come around. -/
  within : steps < s.capacity
  arrives : (home + steps) % s.capacity = slot
  crosses : ∀ j < steps, s.block? ((home + j) % s.capacity) ≠ none

theorem walk_of_ahead {s : Slots β} {home slot : Nat} (hh : home < s.capacity)
    (hslot : slot < s.capacity)
    (hwalk : ∀ j < s.capacity, ahead s.capacity home j < ahead s.capacity home slot →
      s.block? j ≠ none) : s.Walk home (ahead s.capacity home slot) slot := by
  have hwithin := ahead_lt hh hslot
  refine ⟨hwithin, add_ahead_mod hh hslot, fun j hj => ?_⟩
  refine hwalk _ (Nat.mod_lt _ (by omega)) ?_
  rwa [ahead_add_mod hh (by omega)]

/-- A homed array has a walk to each block from its home. -/
theorem Homed.walk {homeOf : β → Nat} {s : Slots β} {slot : Nat} {b : β} (hs : s.Homed homeOf)
    (hb : s.block? slot = some b) (hh : homeOf b < s.capacity) :
    s.Walk (homeOf b) (ahead s.capacity (homeOf b) slot) slot :=
  walk_of_ahead hh (lt_of_block? hb) fun j hj hlt => hs slot b hb j hj (Nat.le_of_lt hlt)

/-- Whichever block is the next to be placed among `n` slots, there is a walk from its home to an
empty slot, and the block is placed there. -/
def FindsRoom (home : β → Except ε Nat) (n : Nat) (s : Slots β) : Prop :=
  ∀ before b rest placed h, s.cells.toList = before ++ some b :: rest →
    placeAll home before (empty n) = .ok placed → home b = .ok h →
      ∃ steps slot, placed.Walk h steps slot ∧ placed.block? slot = none ∧
        placed.place h b = placed.set slot (some b)

/-- The slots placed before are fewer than there are blocks, so they are not all of them. -/
theorem findsRoom {s : Slots β} {home : β → Except ε Nat} {homeOf : β → Nat} {n : Nat}
    (hhome : Extends home homeOf n) (hroom : s.blocks.length ≤ n) : FindsRoom home n s := by
  intro before b rest placed h hcells hbefore hb
  have hblocks : s.blocks = before.filterMap id ++ b :: rest.filterMap id := by
    rw [blocks, hcells, List.filterMap_append, List.filterMap_cons]
    rfl
  rw [hblocks, List.length_append, List.length_cons] at hroom
  have hplaced := placeAll_ok hhome before (capacity_empty n)
    (by rw [blocks_empty, List.length_nil]; omega) hbefore
  have hcap : placed.capacity = n := hplaced.capacity.trans (capacity_empty n)
  have hlen := hplaced.blocks.length_eq
  rw [blocks_empty, List.append_nil] at hlen
  have hh : h < placed.capacity := by
    rw [hcap, ← hhome.eq hb]
    exact hhome.lt b
  obtain ⟨slot, hplace, hslot, hnone, hwalk⟩ :=
    place_eq_set b hh (by omega : placed.blocks.length < placed.capacity)
  exact ⟨_, slot, walk_of_ahead hh hslot hwalk, hnone, hplace⟩

end BlockTable.Slots
