import BlockTable.Proofs.Slots.Stopping

/-!
# Where blocks come to when a gap is closed

A block may be moved several times before a gap is closed, and in a full array the walk meets blocks
that it has moved itself.  `Shifts` follows each block from the slot that it began in to the slot
that it has come to, and says that it is nearer to its home unless it never left its slot.  Every
move carries one block further (`Shifts.move`).

The walk sees the slots of the occupied run behind the gap and no others, since it ends at the first
empty slot (`Tour.changed`).  With the blocks kept and every one of them homed again, this is all
that closing a gap does (`closeGap_mended`).
-/

namespace BlockTable.Slots

variable {β ε : Type} {home : β → Except ε Nat} {homeOf : β → Nat} {s s' : Slots β}
  {first gap slot n : Nat}

/-! ## Blocks followed through the moves -/

/-- The block in any slot of `s` but the first gap is in the slot `dest` of that slot in `s'`. -/
structure Shifts (homeOf : β → Nat) (s : Slots β) (first : Nat) (s' : Slots β) (dest : Nat → Nat) :
    Prop where
  block : ∀ j b, j ≠ first → s.block? j = some b → s'.block? (dest j) = some b
  /-- A block that has left its slot is nearer to its home. -/
  nearer : ∀ j b, j ≠ first → s.block? j = some b →
    dest j = j ∨ ahead s.capacity (homeOf b) (dest j) < ahead s.capacity (homeOf b) j
  /-- No two blocks come to one slot. -/
  inj : ∀ i j b c, i ≠ first → j ≠ first → s.block? i = some b → s.block? j = some c →
    dest i = dest j → i = j

theorem shifts_start (homeOf : β → Nat) (s : Slots β) (first : Nat) :
    Shifts homeOf s first (s.set first none) id where
  block j b hj hb := by rw [id, block?_set_ne none hj.symm, hb]
  nearer _ _ _ _ := .inl rfl
  inj _ _ _ _ _ _ _ _ h := h

/-- What stands in the slot moved from comes to the gap. -/
theorem Shifts.move {dest : Nat → Nat} {b : β} (h : Shifts homeOf s first s' dest)
    (hcap : s'.capacity = s.capacity) (w : GapWalk s' gap slot n) (hb : s'.block? slot = some b)
    (hhome : homeOf b < s'.capacity) (hbehind : isBehind gap slot (homeOf b) = false) :
    Shifts homeOf s first (s'.moveBack gap slot b)
      fun j => if dest j = slot then gap else dest j := by
  have hgs := w.gap_ne hb
  have hnear := w.nearer hb hhome hbehind
  rw [hcap] at hnear
  -- a block that was followed so far is not in the gap
  have hvacant : ∀ {j c}, j ≠ first → s.block? j = some c → gap ≠ dest j := by
    intro j c hj hc heq
    have hblock := h.block j c hj hc
    rw [← heq, w.vacant] at hblock
    cases hblock
  constructor
  · intro j c hj hc
    have hblock := h.block j c hj hc
    split
    next hmoved =>
      rw [hmoved, hb] at hblock
      rw [block?_moveBack_gap w.gap_lt hgs, hblock]
    next hstayed => rw [block?_moveBack_ne (hvacant hj hc) (Ne.symm hstayed), hblock]
  · intro j c hj hc
    split
    next hmoved =>
      have hblock := h.block j c hj hc
      rw [hmoved, hb] at hblock
      cases hblock
      have hbefore := h.nearer j b hj hc
      rw [hmoved] at hbefore
      obtain hslot | hlt := hbefore
      · exact .inr (hslot ▸ hnear)
      · exact .inr (Nat.lt_trans hnear hlt)
    next => exact h.nearer j c hj hc
  · intro i j c d hi hj hc hd heq
    refine h.inj i j c d hi hj hc hd ?_
    split at heq
    next himoved =>
      split at heq
      next hjmoved => rw [himoved, hjmoved]
      next => exact absurd heq (hvacant hj hd)
    next =>
      split at heq
      next => exact absurd heq.symm (hvacant hi hc)
      next => exact heq

theorem walkKeeps_shifts (hhome : Extends home homeOf s.capacity) (first : Nat) :
    WalkKeeps home fun _ _ _ s' =>
      s'.capacity = s.capacity ∧ ∃ dest, Shifts homeOf s first s' dest where
  stay _ hp _ _ _ := hp
  move {_ _ _ _ b _} w hp hb hh hbehind := by
    obtain ⟨hcap, dest, h⟩ := hp
    exact ⟨capacity_moveBack.trans hcap, _,
      h.move hcap w hb (hcap ▸ hhome.lt b) (hhome.eq hh ▸ hbehind)⟩

/-! ## The slots that change -/

/-- All slots from `gap` up to `slot` are occupied. -/
def OnRun (s : Slots β) (gap slot : Nat) : Prop :=
  ∀ j < s.capacity, ahead s.capacity gap j ≤ ahead s.capacity gap slot → s.block? j ≠ none

/-- A walk changes only slots that it has seen, and all slots up to one seen were occupied. -/
theorem Tour.changed {m : Nat} {b : β} (t : Tour home s first m gap slot s')
    (hb : s.block? first = some b) {j : Nat} (hj : s'.block? j ≠ s.block? j) :
    OnRun s first j := by
  have hlt : j < s.capacity := by
    refine Nat.lt_of_not_le fun hge => hj ?_
    have hge' : s'.cells.size ≤ j := t.capacity.trans_le hge
    rw [block?, block?, Array.getElem?_eq_none hge', Array.getElem?_eq_none hge]
  have hseen : ahead s.capacity first j < m :=
    Nat.lt_of_not_le fun hunseen => hj (t.fresh j hlt hunseen)
  intro i hi hle
  by_cases hpos : 0 < ahead s.capacity first i
  · obtain ⟨c, -, hc, -⟩ := t.passed i hi hpos (Nat.lt_of_le_of_lt hle hseen)
    rw [hc]
    simp
  · have hzero : ahead s.capacity first i = ahead s.capacity first first := by
      rw [ahead_self]
      omega
    rw [ahead_inj hi t.first_lt hzero, hb]
    simp

/-! ## Closing a gap -/

/-- What is left of `s` when the block `b` is taken out of a slot and the gap is closed. -/
structure Mended (homeOf : β → Nat) (s : Slots β) (gap : Nat) (b : β) (s' : Slots β) : Prop where
  capacity : s'.capacity = s.capacity
  /-- The blocks are all others. -/
  blocks : s.blocks.Perm (b :: s'.blocks)
  /-- Each can be found from its home. -/
  homed : s'.Homed homeOf
  /-- Each that was moved is nearer to its home. -/
  shifts : ∃ dest, Shifts homeOf s gap s' dest
  /-- A slot that has changed was on the occupied run from the gap on. -/
  onRun : ∀ j, s'.block? j ≠ s.block? j → OnRun s gap j

/-- Let any block be taken out of an array, also of a full one, where every block has a home that
can be read and can be found from there.  The walk that closes the gap comes to an empty slot and
mends the array. -/
theorem closeGap_mended {b : β} (hhome : Extends home homeOf s.capacity)
    (hread : ∀ c ∈ s.blocks, ∃ h, home c = .ok h) (hs : s.Homed homeOf)
    (hb : s.block? gap = some b) :
    ((s.set gap none).closeGap home gap).1 = .closed ∧
      Mended homeOf s gap b ((s.set gap none).closeGap home gap).2 := by
  have hg := lt_of_block? hb
  have hcap : (s.set gap none).capacity = s.capacity := capacity_set ..
  obtain ⟨hcap', hblocks⟩ := closeGap_blocks home hg
  have hclosed : ((s.set gap none).closeGap home gap).1 = .closed := by
    cases hclosing : ((s.set gap none).closeGap home gap).1 with
    | closed => rfl
    | unfinished => exact absurd hclosing (closeGap_finishes hhome hg)
    | stopped e =>
        have hlt : ∀ c h, home c = .ok h → h < s.capacity := fun c h hc => hhome.eq hc ▸ hhome.lt c
        obtain ⟨slot, hstop⟩ := (closeGap_stopped_iff hg hlt).mp hclosing
        obtain ⟨c, hc, hunread⟩ := hstop.unread
        obtain ⟨h, hok⟩ := hread c (mem_blocks.mpr ⟨slot, hc⟩)
        rw [hunread] at hok
        cases hok
  refine ⟨hclosed, hcap', ?_, closeGap_homed hhome hs hg hclosed, ?_, fun j hj => ?_⟩
  · exact (blocks_of_block? hb).trans (hblocks.symm.cons b)
  · obtain ⟨_, _, _, _, ⟨-, hshifts⟩, -⟩ := closeGap_preserves (walkKeeps_shifts hhome gap) hg
      ⟨hcap, id, shifts_start homeOf s gap⟩
    exact hshifts
  · obtain ⟨_, _, _, _, ⟨_, t⟩, -⟩ := closeGap_preserves (walkKeeps_tour home s gap) hg
      ⟨1, tour_start home hg⟩
    exact t.changed hb hj

/-- Numbers at their homes modulo three.  The array is full, and `5` has come around to slot 0. -/
def fullCircle : Slots Nat := ⟨#[some 5, some 0, some 2]⟩

/-- When `2` is taken out, `5` moves back over the end of the array and `0` follows it. -/
theorem closeGap_mended_around :
    fullCircle.Homed (· % 3) ∧
      (fullCircle.set 2 none).closeGap (fun k => (.ok (k % 3) : Except Empty Nat)) 2 =
        (.closed, ⟨#[some 0, none, some 5]⟩) ∧
      Mended (· % 3) fullCircle 2 2 ⟨#[some 0, none, some 5]⟩ := by
  have hhome : Extends (fun k => (.ok (k % 3) : Except Empty Nat)) (· % 3) fullCircle.capacity :=
    ⟨fun k => Nat.mod_lt k (by decide), fun h => by cases h; rfl⟩
  have hfull : ∀ j < fullCircle.capacity, fullCircle.block? j ≠ none := by decide
  have hs : fullCircle.Homed (· % 3) := fun _ _ _ j hj _ => hfull j hj
  exact ⟨hs, rfl, (closeGap_mended hhome (fun k _ => ⟨k % 3, rfl⟩) hs rfl).2⟩

end BlockTable.Slots
