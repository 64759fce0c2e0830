import BlockTable.Proofs.Slots.Circle

/-!
# Where a search ends

A search walks from the home slot and passes blocks that are not the one sought.  It ends at the
first slot that is empty, that holds the block sought or whose block cannot be read, and
otherwise after it has passed every slot.  `SearchEnd` lists these four ends with what each says
of the slots passed, and `search_searchEnd` is all that later proofs need of `search`.

The walk that looks for an empty slot only is the search for a block that no block is
(`vacantFrom_eq`), so it needs no induction of its own.
-/

namespace BlockTable.Slots

variable {β ε : Type}

/-- The slots from `home` up to the one ahead of `slot` hold blocks that are not the one
sought. -/
def Passed (s : Slots β) (isSought : β → Except ε Bool) (home slot : Nat) : Prop :=
  ∀ j < s.capacity, ahead s.capacity home j < ahead s.capacity home slot →
    ∃ b, s.block? j = some b ∧ isSought b = .ok false

/-- The ends of a search. -/
inductive SearchEnd (s : Slots β) (isSought : β → Except ε Bool) (home : Nat) :
    Except ε Search → Prop where
  /-- At the block sought. -/
  | found {slot : Nat} {b : β} (block : s.block? slot = some b) (sought : isSought b = .ok true)
      (passed : s.Passed isSought home slot) : SearchEnd s isSought home (.ok (.found slot))
  /-- At an empty slot. -/
  | vacant {slot : Nat} (bound : slot < s.capacity) (block : s.block? slot = none)
      (passed : s.Passed isSought home slot) : SearchEnd s isSought home (.ok (.vacant slot))
  /-- Past every slot. -/
  | full (passed : ∀ j < s.capacity, ∃ b, s.block? j = some b ∧ isSought b = .ok false) :
      SearchEnd s isSought home (.ok .full)
  /-- At a block that cannot be read. -/
  | failed {slot : Nat} {b : β} {e : ε} (block : s.block? slot = some b)
      (unread : isSought b = .error e) (passed : s.Passed isSought home slot) :
      SearchEnd s isSought home (.error e)

/-- The induction is on the steps left, `n` slots have been passed, and the slot looked at next is
`n` steps ahead of the home slot unless all have been passed. -/
theorem searchFrom_searchEnd {s : Slots β} {isSought : β → Except ε Bool} {home : Nat}
    (hh : home < s.capacity) (steps n slot : Nat) (hn : steps + n = s.capacity)
    (hslot : slot < s.capacity) (hat : n < s.capacity → ahead s.capacity home slot = n)
    (hpass : ∀ j < s.capacity, ahead s.capacity home j < n →
      ∃ b, s.block? j = some b ∧ isSought b = .ok false) :
    SearchEnd s isSought home (s.searchFrom isSought steps slot) := by
  induction steps generalizing n slot with
  | zero =>
      refine .full fun j hj => hpass j hj ?_
      have := ahead_lt hh hj
      omega
  | succ steps ih =>
      have hdist : ahead s.capacity home slot = n := hat (by omega)
      have hpassed : s.Passed isSought home slot := by
        intro j hj hlt
        exact hpass j hj (hdist ▸ hlt)
      rw [searchFrom]
      cases hb : s.block? slot with
      | none => exact .vacant hslot hb hpassed
      | some b =>
          cases hsought : isSought b with
          | error e =>
              simp only [hsought]
              exact .failed hb hsought hpassed
          | ok found =>
              cases found with
              | true =>
                  simp only [hsought]
                  exact .found hb hsought hpassed
              | false =>
                  simp only [hsought]
                  refine ih (n + 1) (s.next slot) (by omega) (next_lt hslot) ?_ ?_
                  · intro hlt
                    rw [ahead_next hh hslot, hdist, if_neg (by omega)]
                  · intro j hj hlt
                    by_cases hlast : ahead s.capacity home j = n
                    · have hj' : j = slot := ahead_inj hj hslot (hlast.trans hdist.symm)
                      exact ⟨b, hj' ▸ hb, hsought⟩
                    · exact hpass j hj (by omega)

/-- Every search ends in one of the four ways. -/
theorem search_searchEnd {s : Slots β} (isSought : β → Except ε Bool) {home : Nat}
    (hh : home < s.capacity) : SearchEnd s isSought home (s.search isSought home) :=
  searchFrom_searchEnd hh s.capacity 0 home rfl hh (fun _ => ahead_self _ _)
    (fun _ _ hlt => absurd hlt (Nat.not_lt_zero _))

/-- A search passes every slot when all are taken and none holds the block sought. -/
theorem search_full_iff {s : Slots β} {isSought : β → Except ε Bool} {home : Nat}
    (hh : home < s.capacity) : s.search isSought home = .ok .full ↔
      s.blocks.length = s.capacity ∧ ∀ b ∈ s.blocks, isSought b = .ok false := by
  have hend := search_searchEnd isSought hh
  generalize s.search isSought home = answer at hend
  constructor
  · intro h
    rw [h] at hend
    cases hend with
    | full hall =>
        refine ⟨Nat.le_antisymm (length_blocks_le s) (Nat.le_of_not_lt fun hlt => ?_),
          fun b hb => ?_⟩
        · obtain ⟨slot, hslot, hnone⟩ := exists_vacant_iff.mpr hlt
          obtain ⟨b, hb, -⟩ := hall slot hslot
          rw [hnone] at hb
          cases hb
        · obtain ⟨slot, hslot⟩ := mem_blocks.mp hb
          obtain ⟨c, hc, hno⟩ := hall slot (lt_of_block? hslot)
          rw [hslot] at hc
          cases hc
          exact hno
  · rintro ⟨hfull, hno⟩
    cases hend with
    | found hb hsought _ =>
        rw [hno _ (mem_blocks.mpr ⟨_, hb⟩)] at hsought
        cases hsought
    | vacant hslot hnone _ =>
        have hlt := exists_vacant_iff.mp ⟨_, hslot, hnone⟩
        exact absurd hfull (Nat.ne_of_lt hlt)
    | full => rfl
    | failed hb hunread _ =>
        rw [hno _ (mem_blocks.mpr ⟨_, hb⟩)] at hunread
        cases hunread

/-! ## Looking for an empty slot only -/

/-- The walk to an empty slot is the search that no block ends. -/
theorem vacantFrom_eq (s : Slots β) (steps slot : Nat) :
    s.vacantFrom steps slot =
      match s.searchFrom (fun _ => (.ok false : Except Empty Bool)) steps slot with
      | .ok (.vacant i) => some i
      | _ => none := by
  induction steps generalizing slot with
  | zero => rfl
  | succ steps ih =>
      rw [vacantFrom, searchFrom]
      cases s.block? slot with
      | none => rfl
      | some b => exact ih (s.next slot)

/-- An array with an empty slot has a first one on the walk from any slot. -/
theorem exists_vacantFrom {s : Slots β} {home : Nat} (hh : home < s.capacity)
    (hroom : s.blocks.length < s.capacity) :
    ∃ slot, s.vacantFrom s.capacity home = some slot ∧ slot < s.capacity ∧
      s.block? slot = none ∧ ∀ j < s.capacity,
        ahead s.capacity home j < ahead s.capacity home slot → s.block? j ≠ none := by
  have hend := search_searchEnd (fun _ : β => (.ok false : Except Empty Bool)) hh
  rw [vacantFrom_eq]
  rw [search] at hend
  cases hs : s.searchFrom (fun _ : β => (.ok false : Except Empty Bool)) s.capacity home with
  | error e => exact e.elim
  | ok answer =>
      rw [hs] at hend
      cases hend with
      | found hb hsought _ => cases hsought
      | vacant hlt hb hpassed =>
          refine ⟨_, rfl, hlt, hb, fun j hj hjs hnone => ?_⟩
          obtain ⟨b, hb', _⟩ := hpassed j hj hjs
          rw [hnone] at hb'
          cases hb'
      | full hall =>
          -- it would have passed the empty slot
          obtain ⟨slot, hlt, hnone⟩ := exists_vacant_iff.mpr hroom
          obtain ⟨b, hb, _⟩ := hall slot hlt
          rw [hnone] at hb
          cases hb

end BlockTable.Slots
