import BlockTable.Proofs.Slots.Homes
import Mathlib.Algebra.Order.BigOperators.Group.Finset

/-!
# Closing a gap

`closeGap` walks on from an emptied slot.  At each slot it either leaves the block there (*stay*)
or moves it back into the gap (*move*), and a move makes the old slot the new gap.  `GapWalk` says
where such a walk stands.  What stays and moves preserve is preserved by the whole walk
(`closeGapFrom_preserves`), and the two facts that matter are of this kind.

* The blocks stay the same up to their order, whatever is said of homes (`closeGap_blocks`).
* Only the gap can be missing on the walk from the home of a block to the block, and the blocks
  behind the gap that were looked at do not need it (`Mending`).  So at an empty slot the array is
  homed again (`closeGap_homed`).

A move brings a block nearer to its home, whatever home it has.  So the sum of all distances from
home falls with every move, and between two moves the walk is back at its gap after one round.
That bounds the steps, and `closeGap` never runs out of them (`closeGap_finishes`).
-/

namespace BlockTable.Slots

variable {β ε : Type}

/-! ## Where the walk stands -/

/-- The walk stands `n` steps behind the gap, and at the gap itself after a full round. -/
structure GapWalk (s : Slots β) (gap slot n : Nat) : Prop where
  /-- The gap is a slot. -/
  gap_lt : gap < s.capacity
  /-- It is empty. -/
  vacant : s.block? gap = none
  /-- The walk stands at a slot. -/
  slot_lt : slot < s.capacity
  /-- It has left the gap. -/
  pos : 0 < n
  /-- It is not past the gap again. -/
  le : n ≤ s.capacity
  /-- The distance from the gap is the number of steps. -/
  ahead_eq : ahead s.capacity gap slot = n % s.capacity

theorem gapWalk_start {s : Slots β} {gap : Nat} (hg : gap < s.capacity)
    (hv : s.block? gap = none) : GapWalk s gap (s.next gap) 1 := by
  refine ⟨hg, hv, next_lt hg, Nat.one_pos, by omega, ?_⟩
  rw [ahead_next hg hg, ahead_self]
  split
  next hone => rw [← hone, Nat.mod_self]
  next hmore => rw [Nat.mod_eq_of_lt (by omega)]

theorem gapWalk_set {s : Slots β} {gap : Nat} (hg : gap < s.capacity) :
    GapWalk (s.set gap none) gap ((s.set gap none).next gap) 1 :=
  gapWalk_start (by rwa [capacity_set]) (block?_set_self none hg)

namespace GapWalk

variable {s : Slots β} {gap slot n : Nat}

/-- At a block the walk is not back at the gap. -/
theorem lt_of_block? (w : GapWalk s gap slot n) {b : β} (hb : s.block? slot = some b) :
    n < s.capacity := by
  refine Nat.lt_of_le_of_ne w.le fun hn => ?_
  have hzero : ahead s.capacity gap slot = ahead s.capacity gap gap := by
    rw [w.ahead_eq, hn, Nat.mod_self, ahead_self]
  rw [ahead_inj w.slot_lt w.gap_lt hzero, w.vacant] at hb
  cases hb

theorem ahead_eq_of_block? (w : GapWalk s gap slot n) {b : β} (hb : s.block? slot = some b) :
    ahead s.capacity gap slot = n := by
  rw [w.ahead_eq, Nat.mod_eq_of_lt (w.lt_of_block? hb)]

theorem gap_ne (w : GapWalk s gap slot n) {b : β} (hb : s.block? slot = some b) :
    gap ≠ slot := by
  intro heq
  rw [← heq, w.vacant] at hb
  cases hb

/-- A block that is not left where it is has the gap nearer to its home. -/
theorem nearer (w : GapWalk s gap slot n) {b : β} {home : Nat} (hb : s.block? slot = some b)
    (hhome : home < s.capacity) (hbehind : isBehind gap slot home = false) :
    ahead s.capacity home gap < ahead s.capacity home slot := by
  refine ahead_lt_of_not_behind w.gap_lt hhome (w.gap_ne hb) fun h => ?_
  rw [(isBehind_iff w.gap_lt w.slot_lt hhome).mpr h] at hbehind
  cases hbehind

/-- The walk after a block is left where it is. -/
theorem stay (w : GapWalk s gap slot n) {b : β} (hb : s.block? slot = some b) :
    GapWalk s gap (s.next slot) (n + 1) := by
  have hlt := w.lt_of_block? hb
  refine ⟨w.gap_lt, w.vacant, next_lt w.slot_lt, by omega, hlt, ?_⟩
  rw [ahead_next w.gap_lt w.slot_lt, w.ahead_eq_of_block? hb]
  split
  next hround => rw [hround, Nat.mod_self]
  next hinner => rw [Nat.mod_eq_of_lt (by omega)]

end GapWalk

/-- The array after a block is moved back into the gap. -/
def moveBack (s : Slots β) (gap slot : Nat) (b : β) : Slots β :=
  (s.set gap (some b)).set slot none

section moveBack

variable {s : Slots β} {gap slot : Nat} {b : β}

@[simp] theorem capacity_moveBack : (s.moveBack gap slot b).capacity = s.capacity := by
  simp [moveBack]

theorem block?_moveBack_gap (hg : gap < s.capacity) (hne : gap ≠ slot) :
    (s.moveBack gap slot b).block? gap = some b := by
  rw [moveBack, block?_set_ne _ hne.symm, block?_set_self _ hg]

theorem block?_moveBack_slot (hslot : slot < s.capacity) :
    (s.moveBack gap slot b).block? slot = none := by
  rw [moveBack, block?_set_self _ (by simpa using hslot)]

theorem block?_moveBack_ne {i : Nat} (hg : gap ≠ i) (hs : slot ≠ i) :
    (s.moveBack gap slot b).block? i = s.block? i := by
  rw [moveBack, block?_set_ne _ hs, block?_set_ne _ hg]

/-- A move keeps the blocks. -/
theorem blocks_moveBack (hg : gap < s.capacity) (hv : s.block? gap = none)
    (hb : s.block? slot = some b) : (s.moveBack gap slot b).blocks.Perm s.blocks := by
  have hne : gap ≠ slot := by
    intro heq
    rw [← heq, hv] at hb
    cases hb
  have hfilled := blocks_set_vacant b hg hv
  have hslot : (s.set gap (some b)).block? slot = some b := by
    rw [block?_set_ne _ hne, hb]
  have htaken := blocks_set (some b) (lt_of_block? hslot)
  rw [set_block? hslot] at htaken
  exact (htaken.symm.trans hfilled).cons_inv

/-- The walk after a block is moved back: its old slot is the gap now. -/
theorem GapWalk.move {n : Nat} (w : GapWalk s gap slot n) :
    GapWalk (s.moveBack gap slot b) slot (s.next slot) 1 := by
  have hslot : slot < (s.moveBack gap slot b).capacity := by
    rw [capacity_moveBack]
    exact w.slot_lt
  have h := gapWalk_start hslot (block?_moveBack_slot w.slot_lt)
  rwa [next, capacity_moveBack] at h

end moveBack

/-! ## What a walk preserves -/

/-- What the end of a walk says of the slot it ends at. -/
def Closing.EndsAt (home : β → Except ε Nat) (s : Slots β) (slot : Nat) : Closing ε → Prop
  | .closed => s.block? slot = none
  | .stopped e => ∃ b, s.block? slot = some b ∧ home b = .error e
  | .unfinished => True

/-- Every stay and every move keeps `P`, which speaks of gap, slot, steps since the gap and
array. -/
structure WalkKeeps (home : β → Except ε Nat) (P : Nat → Nat → Nat → Slots β → Prop) : Prop where
  stay : ∀ {gap slot n s b h}, GapWalk s gap slot n → P gap slot n s →
    s.block? slot = some b → home b = .ok h → isBehind gap slot h = true →
    P gap (s.next slot) (n + 1) s
  move : ∀ {gap slot n s b h}, GapWalk s gap slot n → P gap slot n s →
    s.block? slot = some b → home b = .ok h → isBehind gap slot h = false →
    P slot (s.next slot) 1 (s.moveBack gap slot b)

/-- What every stay and every move keeps holds where the walk ends. -/
theorem closeGapFrom_preserves {home : β → Except ε Nat} {P : Nat → Nat → Nat → Slots β → Prop}
    (keeps : WalkKeeps home P) (steps : Nat) {gap slot n : Nat} {s : Slots β}
    (w : GapWalk s gap slot n) (hp : P gap slot n s) :
    ∃ gap' slot' n', GapWalk (closeGapFrom home steps gap slot s).2 gap' slot' n' ∧
      P gap' slot' n' (closeGapFrom home steps gap slot s).2 ∧
      (closeGapFrom home steps gap slot s).1.EndsAt home
        (closeGapFrom home steps gap slot s).2 slot' := by
  induction steps generalizing gap slot n s with
  | zero => exact ⟨gap, slot, n, w, hp, trivial⟩
  | succ steps ih =>
      rw [closeGapFrom]
      cases hb : s.block? slot with
      | none => exact ⟨gap, slot, n, w, hp, hb⟩
      | some b =>
          cases hh : home b with
          | error e =>
              simp only [hh]
              exact ⟨gap, slot, n, w, hp, b, hb, hh⟩
          | ok h =>
              simp only [hh]
              cases hbehind : isBehind gap slot h with
              | true =>
                  rw [if_pos rfl]
                  exact ih (w.stay hb) (keeps.stay w hp hb hh hbehind)
              | false =>
                  rw [if_neg (by decide)]
                  exact ih w.move (keeps.move w hp hb hh hbehind)

/-- What holds at the gap and is kept holds where closing the gap ends. -/
theorem closeGap_preserves {home : β → Except ε Nat} {P : Nat → Nat → Nat → Slots β → Prop}
    (keeps : WalkKeeps home P) {s : Slots β} {gap : Nat} (hg : gap < s.capacity)
    (hp : P gap ((s.set gap none).next gap) 1 (s.set gap none)) :
    ∃ gap' slot' n', GapWalk ((s.set gap none).closeGap home gap).2 gap' slot' n' ∧
      P gap' slot' n' ((s.set gap none).closeGap home gap).2 ∧
      ((s.set gap none).closeGap home gap).1.EndsAt home
        ((s.set gap none).closeGap home gap).2 slot' :=
  closeGapFrom_preserves keeps _ (gapWalk_set hg) hp

theorem walkKeeps_blocks (home : β → Except ε Nat) (s : Slots β) :
    WalkKeeps home fun _ _ _ s' => s'.capacity = s.capacity ∧ s'.blocks.Perm s.blocks where
  stay _ hp _ _ _ := hp
  move w hp hb _ _ :=
    ⟨capacity_moveBack.trans hp.1, (blocks_moveBack w.gap_lt w.vacant hb).trans hp.2⟩

/-- Closing a gap keeps the number of slots and the blocks, however it ends. -/
theorem closeGap_blocks {s : Slots β} (home : β → Except ε Nat) {gap : Nat}
    (hg : gap < s.capacity) :
    ((s.set gap none).closeGap home gap).2.capacity = s.capacity ∧
      ((s.set gap none).closeGap home gap).2.blocks.Perm (s.set gap none).blocks := by
  obtain ⟨_, _, _, _, ⟨hcap, hblocks⟩, _⟩ :=
    closeGap_preserves (walkKeeps_blocks home (s.set gap none)) hg ⟨rfl, .refl _⟩
  exact ⟨hcap.trans (capacity_set ..), hblocks⟩

/-- A gap is left open only at a block whose home cannot be read. -/
theorem closeGap_stopped {s : Slots β} {home : β → Except ε Nat} {gap : Nat} {e : ε}
    (hg : gap < s.capacity) (hstopped : ((s.set gap none).closeGap home gap).1 = .stopped e) :
    ∃ b, home b = .error e := by
  obtain ⟨_, _, _, _, _, hend⟩ :=
    closeGap_preserves (walkKeeps_blocks home (s.set gap none)) hg ⟨rfl, .refl _⟩
  rw [hstopped] at hend
  obtain ⟨b, -, he⟩ := hend
  exact ⟨b, he⟩

/-! ## Homes after a gap is closed -/

/-- Only the gap is missing on the walks from homes to blocks, and the blocks looked at since the
gap do not need it. -/
structure Mending (homeOf : β → Nat) (gap n : Nat) (s : Slots β) : Prop where
  /-- Every other slot on the walk to a block is occupied. -/
  homed : ∀ i b, s.block? i = some b → ∀ j < s.capacity, j ≠ gap →
    ahead s.capacity (homeOf b) j ≤ ahead s.capacity (homeOf b) i → s.block? j ≠ none
  /-- The home of a block looked at lies behind the gap. -/
  behind : ∀ i b, s.block? i = some b → ahead s.capacity gap i < n →
    0 < ahead s.capacity gap (homeOf b) ∧
      ahead s.capacity gap (homeOf b) ≤ ahead s.capacity gap i

theorem Homed.mending {homeOf : β → Nat} {s : Slots β} {gap : Nat} (hs : s.Homed homeOf)
    (hg : gap < s.capacity) : Mending homeOf gap 1 (s.set gap none) := by
  have hvacant := block?_set_self none hg
  constructor
  · intro i b hi j hj hjg hle
    have hig : gap ≠ i := by
      intro heq
      rw [← heq, hvacant] at hi
      cases hi
    rw [block?_set_ne _ hig] at hi
    rw [capacity_set] at hj hle
    rw [block?_set_ne _ hjg.symm]
    exact hs i b hi j hj hle
  · intro i b hi hlt
    have hzero : ahead s.capacity gap i = ahead s.capacity gap gap := by
      rw [capacity_set] at hlt
      rw [ahead_self]
      omega
    have hlt' : i < s.capacity := by simpa using Slots.lt_of_block? hi
    rw [ahead_inj hlt' hg hzero, hvacant] at hi
    cases hi

namespace Mending

variable {homeOf : β → Nat} {s : Slots β} {gap slot n : Nat} {b : β}

theorem stay (m : Mending homeOf gap n s) (w : GapWalk s gap slot n)
    (hb : s.block? slot = some b) (hhome : homeOf b < s.capacity)
    (hbehind : isBehind gap slot (homeOf b) = true) : Mending homeOf gap (n + 1) s := by
  refine ⟨m.homed, fun i c hi hlt => ?_⟩
  by_cases hlast : ahead s.capacity gap i = n
  · have hslot : i = slot :=
      ahead_inj (Slots.lt_of_block? hi) w.slot_lt (hlast.trans (w.ahead_eq_of_block? hb).symm)
    rw [hslot, hb] at hi
    cases hi
    rw [hslot]
    exact (isBehind_iff w.gap_lt w.slot_lt hhome).mp hbehind
  · exact m.behind i c hi (by omega)

/-- After a move the old slot is what is missing, and no block was looked at since. -/
theorem move (m : Mending homeOf gap n s) (w : GapWalk s gap slot n)
    (hb : s.block? slot = some b) (hhome : homeOf b < s.capacity)
    (hbehind : isBehind gap slot (homeOf b) = false) :
    Mending homeOf slot 1 (s.moveBack gap slot b) := by
  have hgs := w.gap_ne hb
  have hnear := w.nearer hb hhome hbehind
  have hne : ∀ i c, (s.moveBack gap slot b).block? i = some c → slot ≠ i := by
    intro i c hi heq
    rw [← heq, block?_moveBack_slot w.slot_lt] at hi
    cases hi
  constructor
  · intro i c hi j hj hjs hle
    rw [capacity_moveBack] at hj hle
    by_cases hjg : gap = j
    · rw [← hjg, block?_moveBack_gap w.gap_lt hgs]
      simp
    · rw [block?_moveBack_ne hjg hjs.symm]
      by_cases hig : gap = i
      · -- the block moved: its walk is the front part of its old one
        rw [← hig, block?_moveBack_gap w.gap_lt hgs] at hi
        cases hi
        exact m.homed slot b hb j hj (Ne.symm hjg) (by rw [← hig] at hle; omega)
      · rw [block?_moveBack_ne hig (hne i c hi)] at hi
        exact m.homed i c hi j hj (Ne.symm hjg) hle
  · intro i c hi hlt
    have hi' : i < s.capacity := by simpa using Slots.lt_of_block? hi
    rw [capacity_moveBack] at hlt
    have hzero : ahead s.capacity slot i = ahead s.capacity slot slot := by
      rw [ahead_self]
      omega
    exact absurd (ahead_inj hi' w.slot_lt hzero).symm (hne i c hi)

/-- At an empty slot nothing is missing any more.  A walk to a block that still crosses the gap
would cross this slot as well. -/
theorem homed_of_vacant (m : Mending homeOf gap n s) (w : GapWalk s gap slot n)
    (hhome : ∀ b, homeOf b < s.capacity) (hvacant : s.block? slot = none) : s.Homed homeOf := by
  intro i b hi j hj hle
  by_cases hjg : j = gap
  · rw [hjg] at hle
    have hlt := Slots.lt_of_block? hi
    by_cases hseen : ahead s.capacity gap i < n
    -- a block that the walk has passed has its home behind the gap
    · obtain ⟨hpos, hhi⟩ := m.behind i b hi hseen
      have := ahead_lt_of_behind w.gap_lt (hhome b) hlt hpos hhi
      omega
    · have hn : n < s.capacity := by
        have := ahead_lt w.gap_lt hlt
        omega
      have hslot : ahead s.capacity gap slot = n := by rw [w.ahead_eq, Nat.mod_eq_of_lt hn]
      have hcross := ahead_le_of_between w.gap_lt (hhome b) w.slot_lt hlt hle (by omega)
      have hsg : slot ≠ gap := by
        intro heq
        rw [heq, ahead_self] at hslot
        have := w.pos
        omega
      exact absurd hvacant (m.homed i b hi slot w.slot_lt hsg hcross)
  · exact m.homed i b hi j hj hjg hle

end Mending

theorem walkKeeps_mending {home : β → Except ε Nat} {homeOf : β → Nat} {capacity : Nat}
    (hhome : Extends home homeOf capacity) :
    WalkKeeps home fun gap _ n s => s.capacity = capacity ∧ Mending homeOf gap n s where
  stay {_ _ _ _ b _} w hp hb hh hbehind :=
    ⟨hp.1, hp.2.stay w hb (hp.1 ▸ hhome.lt b) (hhome.eq hh ▸ hbehind)⟩
  move {_ _ _ _ b _} w hp hb hh hbehind :=
    ⟨capacity_moveBack.trans hp.1, hp.2.move w hb (hp.1 ▸ hhome.lt b) (hhome.eq hh ▸ hbehind)⟩

/-- When the gap left by a block is closed, every other block can again be found from its home. -/
theorem closeGap_homed {s : Slots β} {home : β → Except ε Nat} {homeOf : β → Nat} {gap : Nat}
    (hhome : Extends home homeOf s.capacity) (hs : s.Homed homeOf) (hg : gap < s.capacity)
    (hclosed : ((s.set gap none).closeGap home gap).1 = .closed) :
    ((s.set gap none).closeGap home gap).2.Homed homeOf := by
  have hcap : (s.set gap none).capacity = s.capacity := capacity_set ..
  obtain ⟨gap', slot', n', w, ⟨hcap', m⟩, hend⟩ :=
    closeGap_preserves (walkKeeps_mending hhome) hg ⟨hcap, hs.mending hg⟩
  rw [hclosed] at hend
  exact m.homed_of_vacant w (fun b => hcap' ▸ hhome.lt b) hend

/-! ## The steps are enough -/

/-- How far a content stands from its home. -/
def distance (homeOf : β → Nat) (capacity slot : Nat) : Option β → Nat
  | some b => ahead capacity (homeOf b) slot
  | none => 0

/-- The sum of the distances of all blocks from their homes. -/
def totalDistance (homeOf : β → Nat) (s : Slots β) : Nat :=
  ∑ i ∈ Finset.range s.capacity, distance homeOf s.capacity i (s.block? i)

/-- Filling or emptying a slot changes one summand. -/
theorem totalDistance_set (homeOf : β → Nat) {s : Slots β} {slot : Nat} (c : Option β)
    (h : slot < s.capacity) :
    totalDistance homeOf (s.set slot c) + distance homeOf s.capacity slot (s.block? slot) =
      totalDistance homeOf s + distance homeOf s.capacity slot c := by
  have hmem : slot ∈ Finset.range s.capacity := Finset.mem_range.mpr h
  unfold totalDistance
  rw [capacity_set, ← Finset.add_sum_erase _ _ hmem, ← Finset.add_sum_erase _ _ hmem,
    block?_set_self c h]
  have hrest : ∀ i ∈ (Finset.range s.capacity).erase slot,
      distance homeOf s.capacity i ((s.set slot c).block? i) =
        distance homeOf s.capacity i (s.block? i) := by
    intro i hi
    rw [block?_set_ne c (Finset.ne_of_mem_erase hi).symm]
  rw [Finset.sum_congr rfl hrest]
  omega

theorem totalDistance_le {homeOf : β → Nat} {s : Slots β} (hhome : ∀ b, homeOf b < s.capacity) :
    totalDistance homeOf s ≤ s.capacity * s.capacity := by
  have hle : ∀ i ∈ Finset.range s.capacity,
      distance homeOf s.capacity i (s.block? i) ≤ s.capacity := by
    intro i hi
    cases s.block? i with
    | none => exact Nat.zero_le _
    | some b => exact Nat.le_of_lt (ahead_lt (hhome b) (Finset.mem_range.mp hi))
  have h := Finset.sum_le_card_nsmul _ _ _ hle
  rwa [Finset.card_range, Nat.nsmul_eq_mul] at h

/-- A move lowers the sum by what it takes off one distance. -/
theorem totalDistance_moveBack {homeOf : β → Nat} {s : Slots β} {gap slot n : Nat} {b : β}
    (w : GapWalk s gap slot n) (hb : s.block? slot = some b) (hhome : homeOf b < s.capacity)
    (hbehind : isBehind gap slot (homeOf b) = false) :
    totalDistance homeOf (s.moveBack gap slot b) < totalDistance homeOf s := by
  have hgs := w.gap_ne hb
  have hnear := w.nearer hb hhome hbehind
  have hfill := totalDistance_set homeOf (some b) w.gap_lt
  have hempty := totalDistance_set homeOf (s := s.set gap (some b)) none
    (by simpa using w.slot_lt)
  rw [block?_set_ne _ hgs, hb, capacity_set] at hempty
  rw [w.vacant] at hfill
  simp only [distance] at hfill hempty
  rw [moveBack]
  omega

/-- A bound for the steps left: a round for each unit of the sum, and the rest of this round. -/
theorem closeGapFrom_finishes {home : β → Except ε Nat} {homeOf : β → Nat} {capacity : Nat}
    (hhome : Extends home homeOf capacity) (steps : Nat) {gap slot n : Nat} {s : Slots β}
    (hcap : s.capacity = capacity) (w : GapWalk s gap slot n)
    (hlt : totalDistance homeOf s * capacity + (capacity - n) < steps) :
    (closeGapFrom home steps gap slot s).1 ≠ .unfinished := by
  induction steps generalizing gap slot n s with
  | zero => exact absurd hlt (Nat.not_lt_zero _)
  | succ steps ih =>
      rw [closeGapFrom]
      cases hb : s.block? slot with
      | none => simp
      | some b =>
          cases hh : home b with
          | error e => simp [hh]
          | ok h =>
              simp only [hh]
              have hn := w.lt_of_block? hb
              cases hbehind : isBehind gap slot h with
              | true =>
                  rw [if_pos rfl]
                  exact ih hcap (w.stay hb) (by omega)
              | false =>
                  rw [if_neg (by decide)]
                  rw [← hhome.eq hh] at hbehind
                  have hfall := totalDistance_moveBack w hb (hcap ▸ hhome.lt b) hbehind
                  refine ih (capacity_moveBack.trans hcap) w.move ?_
                  -- the unit that the sum falls by pays for the round that begins here
                  have := Nat.mul_le_mul_right capacity (Nat.succ_le_of_lt hfall)
                  rw [Nat.succ_mul] at this
                  show totalDistance homeOf (s.moveBack gap slot b) * capacity + (capacity - 1)
                    < steps
                  omega

/-- Every gap is closed, or the walk stops at a block whose home cannot be read. -/
theorem closeGap_finishes {s : Slots β} {home : β → Except ε Nat} {homeOf : β → Nat} {gap : Nat}
    (hhome : Extends home homeOf s.capacity) (hg : gap < s.capacity) :
    ((s.set gap none).closeGap home gap).1 ≠ .unfinished := by
  have hcap : (s.set gap none).capacity = s.capacity := capacity_set ..
  refine closeGapFrom_finishes hhome _ hcap (gapWalk_set hg) ?_
  have hle := Nat.mul_le_mul_left s.capacity (totalDistance_le (fun b => hcap ▸ hhome.lt b))
  rw [hcap] at hle ⊢
  rw [closeGapSteps, Nat.mul_add, Nat.mul_comm (totalDistance homeOf _)]
  omega

end BlockTable.Slots
