import BlockTable.Proofs.Slots.Gap

/-!
# Where the closing of a gap stops

The walk that closes a gap reads the home of each block it meets.  It stops at the first one whose
home cannot be read, among those behind the gap and before the first empty slot
(`closeGap_stopped_iff`).  It moves only blocks that it has read, so once it is around it stops no
more.

`Tour` says what a walk has seen since it left its first gap, whichever gap it looks at now.
-/

namespace BlockTable.Slots

variable {β ε : Type} {home : β → Except ε Nat} {s s' : Slots β} {first gap slot m n : Nat}

/-! ## The block in the way -/

/-- The slot holds the first block behind the gap whose home cannot be read, and no slot before it
is empty. -/
structure Obstructs (home : β → Except ε Nat) (s : Slots β) (gap slot : Nat) (e : ε) : Prop where
  /-- It is another slot than the gap. -/
  pos : 0 < ahead s.capacity gap slot
  /-- The blocks on the way have homes. -/
  passed : ∀ j < s.capacity, 0 < ahead s.capacity gap j →
    ahead s.capacity gap j < ahead s.capacity gap slot →
      ∃ b h, s.block? j = some b ∧ home b = .ok h
  /-- The home of its block cannot be read. -/
  unread : ∃ b, s.block? slot = some b ∧ home b = .error e

theorem Obstructs.slot_eq {slot' : Nat} {e e' : ε} (h : Obstructs home s gap slot e)
    (h' : Obstructs home s gap slot' e')
    (hle : ahead s.capacity gap slot ≤ ahead s.capacity gap slot') : slot = slot' := by
  obtain ⟨b, hb, hhome⟩ := h.unread
  obtain ⟨b', hb', -⟩ := h'.unread
  refine ahead_inj (lt_of_block? hb) (lt_of_block? hb') (Nat.le_antisymm hle ?_)
  refine Nat.le_of_not_lt fun hlt => ?_
  obtain ⟨c, k, hc, hk⟩ := h'.passed slot (lt_of_block? hb) h.pos hlt
  rw [hb] at hc
  cases hc
  rw [hhome] at hk
  cases hk

/-- There is one such slot at most, and so one error. -/
theorem Obstructs.error_eq {slot' : Nat} {e e' : ε} (h : Obstructs home s gap slot e)
    (h' : Obstructs home s gap slot' e') : e = e' := by
  have hslot : slot = slot' := by
    cases Nat.le_total (ahead s.capacity gap slot) (ahead s.capacity gap slot') with
    | inl hle => exact h.slot_eq h' hle
    | inr hge => exact (h'.slot_eq h hge).symm
  obtain ⟨b, hb, hhome⟩ := h.unread
  obtain ⟨b', hb', hhome'⟩ := h'.unread
  rw [← hslot, hb] at hb'
  cases hb'
  rw [hhome] at hhome'
  cases hhome'
  rfl

/-! ## What a walk has seen -/

/-- The walk left its first gap in `s` and has seen `m` slots since, the first gap among them.  Now
it is at `slot` in `s'`, or it has been around. -/
structure Tour (home : β → Except ε Nat) (s : Slots β) (first m gap slot : Nat) (s' : Slots β) :
    Prop where
  capacity : s'.capacity = s.capacity
  first_lt : first < s.capacity
  pos : 0 < m
  at_slot : m = s.capacity ∨ ahead s.capacity first slot = m
  gap_seen : ahead s.capacity first gap < m
  /-- The slots behind the first gap that were seen held blocks with homes. -/
  passed : ∀ j < s.capacity, 0 < ahead s.capacity first j → ahead s.capacity first j < m →
    ∃ b h, s.block? j = some b ∧ home b = .ok h
  /-- The blocks that are in the slots seen have homes. -/
  homes : ∀ j b, s'.block? j = some b → ahead s.capacity first j < m → ∃ h, home b = .ok h
  /-- The other slots are as they were. -/
  fresh : ∀ j < s.capacity, m ≤ ahead s.capacity first j → s'.block? j = s.block? j

/-- A step comes one slot further, or it has been around. -/
theorem ahead_next_cases (hf : first < s.capacity) (hslot : slot < s.capacity) :
    ahead s.capacity first slot + 1 = s.capacity ∨
      ahead s.capacity first (s.next slot) = ahead s.capacity first slot + 1 := by
  rw [ahead_next hf hslot]
  split
  next hround => exact .inl hround
  next hmore => exact .inr rfl

theorem next_eq_of_capacity (h : s'.capacity = s.capacity) (slot : Nat) :
    s'.next slot = s.next slot := by
  rw [next, next, h]

theorem tour_start (home : β → Except ε Nat) (hg : gap < s.capacity) :
    Tour home s gap 1 gap ((s.set gap none).next gap) (s.set gap none) := by
  have hcap : (s.set gap none).capacity = s.capacity := capacity_set ..
  have hnext := ahead_next_cases hg hg
  rw [ahead_self] at hnext
  have hzero : ∀ {j}, j < s.capacity → ahead s.capacity gap j < 1 → gap = j := by
    intro j hj hlt
    have heq : ahead s.capacity gap gap = ahead s.capacity gap j := by
      rw [ahead_self]
      omega
    exact ahead_inj hg hj heq
  refine ⟨hcap, hg, Nat.one_pos, ?_, ?_, fun j hj hpos hlt => ?_, fun j b hb hlt => ?_,
    fun j hj hle => ?_⟩
  · rwa [next_eq_of_capacity hcap]
  · rw [ahead_self]
    exact Nat.one_pos
  · omega
  · have hj := lt_of_block? hb
    rw [hcap] at hj
    rw [← hzero hj hlt, block?_set_self none hg] at hb
    cases hb
  · refine block?_set_ne none fun hgj => ?_
    rw [← hgj, ahead_self] at hle
    omega

/-- A step over a block with a home, which stays or is moved back into the gap. -/
structure Passes (home : β → Except ε Nat) (gap slot : Nat) (s' : Slots β) (gap' : Nat)
    (s'' : Slots β) : Prop where
  slot_lt : slot < s'.capacity
  capacity : s''.capacity = s'.capacity
  block : ∃ b h, s'.block? slot = some b ∧ home b = .ok h
  gap_eq : gap' = gap ∨ gap' = slot
  kept : ∀ j, gap ≠ j → slot ≠ j → s''.block? j = s'.block? j
  homes : ∀ j c, gap = j ∨ slot = j → s''.block? j = some c → ∃ h, home c = .ok h

section Passes

variable {b : β} {h : Nat}

theorem GapWalk.passes_stay (w : GapWalk s' gap slot n) (hb : s'.block? slot = some b)
    (hh : home b = .ok h) : Passes home gap slot s' gap s' := by
  refine ⟨w.slot_lt, rfl, ⟨b, h, hb, hh⟩, .inl rfl, fun _ _ _ => rfl, ?_⟩
  rintro j c (rfl | rfl) hc
  · rw [w.vacant] at hc
    cases hc
  · rw [hb] at hc
    cases hc
    exact ⟨h, hh⟩

theorem GapWalk.passes_move (w : GapWalk s' gap slot n) (hb : s'.block? slot = some b)
    (hh : home b = .ok h) : Passes home gap slot s' slot (s'.moveBack gap slot b) := by
  refine ⟨w.slot_lt, capacity_moveBack, ⟨b, h, hb, hh⟩, .inr rfl,
    fun j hgj hsj => block?_moveBack_ne hgj hsj, ?_⟩
  rintro j c (rfl | rfl) hc
  · rw [block?_moveBack_gap w.gap_lt (w.gap_ne hb)] at hc
    cases hc
    exact ⟨h, hh⟩
  · rw [block?_moveBack_slot w.slot_lt] at hc
    cases hc

end Passes

namespace Tour

variable {gap' : Nat} {s'' : Slots β}

/-- Once the walk has been around, a step shows nothing new. -/
theorem around (t : Tour home s first m gap slot s') (hround : m = s.capacity)
    (p : Passes home gap slot s' gap' s'') :
    Tour home s first m gap' (s'.next slot) s'' := by
  have hseen : ∀ {j}, j < s.capacity → ahead s.capacity first j < m := by
    intro j hj
    rw [hround]
    exact ahead_lt t.first_lt hj
  have hslot : slot < s.capacity := t.capacity ▸ p.slot_lt
  refine ⟨p.capacity.trans t.capacity, t.first_lt, t.pos, .inl hround, ?_, t.passed,
    fun j c hc hj => ?_, fun j hj hle => absurd (hseen hj) (Nat.not_lt_of_le hle)⟩
  · obtain rfl | rfl := p.gap_eq
    · exact t.gap_seen
    · exact hseen hslot
  · by_cases hchanged : gap = j ∨ slot = j
    · exact p.homes j c hchanged hc
    · rw [not_or] at hchanged
      rw [p.kept j hchanged.1 hchanged.2] at hc
      exact t.homes j c hc hj

/-- Before that, a step shows one more slot. -/
theorem onward (t : Tour home s first m gap slot s') (hahead : ahead s.capacity first slot = m)
    (p : Passes home gap slot s' gap' s'') :
    Tour home s first (m + 1) gap' (s'.next slot) s'' := by
  have hslot : slot < s.capacity := t.capacity ▸ p.slot_lt
  have hlast : ∀ {j}, j < s.capacity → ahead s.capacity first j < m + 1 → slot ≠ j →
      ahead s.capacity first j < m := by
    intro j hj hlt hsj
    refine Nat.lt_of_le_of_ne (Nat.le_of_lt_succ hlt) fun heq => hsj ?_
    exact ahead_inj hslot hj (hahead.trans heq.symm)
  have hcap := p.capacity.trans t.capacity
  refine ⟨hcap, t.first_lt, Nat.succ_pos m, ?_, ?_, fun j hj hpos hlt => ?_,
    fun j c hc hlt => ?_, fun j hj hle => ?_⟩
  · rw [next_eq_of_capacity t.capacity, ← hahead]
    exact ahead_next_cases t.first_lt hslot
  · obtain rfl | rfl := p.gap_eq
    · exact Nat.lt_succ_of_lt t.gap_seen
    · rw [hahead]
      exact Nat.lt_succ_self m
  · by_cases hsj : slot = j
    · rw [← hsj, ← t.fresh slot hslot (Nat.le_of_eq hahead.symm)]
      exact p.block
    · exact t.passed j hj hpos (hlast hj hlt hsj)
  · by_cases hchanged : gap = j ∨ slot = j
    · exact p.homes j c hchanged hc
    · rw [not_or] at hchanged
      have hj : j < s.capacity := hcap ▸ lt_of_block? hc
      rw [p.kept j hchanged.1 hchanged.2] at hc
      exact t.homes j c hc (hlast hj hlt hchanged.2)
  · -- neither the gap nor the slot of this step is that far ahead
    have hgj : gap ≠ j := by
      intro heq
      have := t.gap_seen
      rw [heq] at this
      omega
    have hsj : slot ≠ j := by
      intro heq
      rw [heq] at hahead
      omega
    exact (p.kept j hgj hsj).trans (t.fresh j hj (by omega))

theorem step (t : Tour home s first m gap slot s') (p : Passes home gap slot s' gap' s'') :
    ∃ m', Tour home s first m' gap' (s'.next slot) s'' := by
  obtain hround | hahead := t.at_slot
  · exact ⟨m, t.around hround p⟩
  · exact ⟨m + 1, t.onward hahead p⟩

end Tour

theorem walkKeeps_tour (home : β → Except ε Nat) (s : Slots β) (first : Nat) :
    WalkKeeps home fun gap slot _ s' => ∃ m, Tour home s first m gap slot s' where
  stay w hp hb hh _ := by
    obtain ⟨m, t⟩ := hp
    exact t.step (w.passes_stay hb hh)
  move w hp hb hh _ := by
    obtain ⟨m, t⟩ := hp
    exact t.step (w.passes_move hb hh)

/-! ## The end of the walk -/

/-- At a block without a home, the walk has come to what obstructs it. -/
theorem Tour.obstructs {e : ε} {b : β} (t : Tour home s first m gap slot s')
    (hb : s'.block? slot = some b) (hh : home b = .error e) : Obstructs home s first slot e := by
  have hslot : slot < s.capacity := t.capacity ▸ lt_of_block? hb
  have hunseen : ¬ ahead s.capacity first slot < m := by
    intro hlt
    obtain ⟨h, hok⟩ := t.homes slot b hb hlt
    rw [hh] at hok
    cases hok
  obtain hround | hahead := t.at_slot
  · have := ahead_lt t.first_lt hslot
    omega
  · rw [t.fresh slot hslot (Nat.le_of_eq hahead.symm)] at hb
    exact ⟨hahead ▸ t.pos, fun j hj hpos hlt => t.passed j hj hpos (hahead ▸ hlt), b, hb, hh⟩

/-- A walk with something in its way does not come to an empty slot. -/
theorem Tour.block?_ne_none {e : ε} {blocked : Nat} (t : Tour home s first m gap slot s')
    (hslot : slot < s.capacity) (h : Obstructs home s first blocked e) :
    s'.block? slot ≠ none := by
  obtain ⟨b, hb, hh⟩ := h.unread
  have hblocked := lt_of_block? hb
  have hle : m ≤ ahead s.capacity first blocked := by
    refine Nat.le_of_not_lt fun hlt => ?_
    obtain ⟨c, k, hc, hk⟩ := t.passed blocked hblocked h.pos hlt
    rw [hb] at hc
    cases hc
    rw [hh] at hk
    cases hk
  obtain hround | hahead := t.at_slot
  · have := ahead_lt t.first_lt hblocked
    omega
  · rw [t.fresh slot hslot (Nat.le_of_eq hahead.symm)]
    by_cases heq : ahead s.capacity first blocked = m
    · rw [ahead_inj hslot hblocked (hahead.trans heq.symm), hb]
      simp
    · obtain ⟨c, -, hc, -⟩ := h.passed slot hslot (hahead ▸ t.pos) (by omega)
      rw [hc]
      simp

/-- The closing of a gap stops exactly at what is in the way of its first round. -/
theorem closeGap_stopped_iff {e : ε} (hg : gap < s.capacity)
    (hlt : ∀ b h, home b = .ok h → h < s.capacity) :
    ((s.set gap none).closeGap home gap).1 = .stopped e ↔ ∃ slot, Obstructs home s gap slot e := by
  obtain ⟨homeOf, hhome⟩ := exists_extends (Nat.lt_of_le_of_lt (Nat.zero_le _) hg) hlt
  have hfinishes := closeGap_finishes hhome hg
  obtain ⟨gap', slot', n', w, ⟨m, t⟩, hend⟩ :=
    closeGap_preserves (walkKeeps_tour home s gap) hg ⟨1, tour_start home hg⟩
  generalize (s.set gap none).closeGap home gap = result at hfinishes w t hend ⊢
  constructor
  · intro hstopped
    rw [hstopped] at hend
    obtain ⟨b, hb, hh⟩ := hend
    exact ⟨slot', t.obstructs hb hh⟩
  · rintro ⟨slot, h⟩
    cases hclosing : result.1 with
    | unfinished => exact absurd hclosing hfinishes
    | closed =>
        rw [hclosing] at hend
        exact absurd hend (t.block?_ne_none (t.capacity ▸ w.slot_lt) h)
    | stopped e' =>
        rw [hclosing] at hend
        obtain ⟨b, hb, hh⟩ := hend
        rw [(t.obstructs hb hh).error_eq h]

end BlockTable.Slots
