import BlockTable.Proofs.Table.Entries

/-!
# Room for one more entry

Whether the slots have room for one more entry once `put` has resized them.  They nearly always do.
A crowded array is doubled, an array that is kept is not full, and a sparse array is less than
half full, so that its half has room for all entries.  But an odd number of slots is halved
downwards: `2 * n + 1` slots with `n` entries become `n` slots, and none of them is empty.  `Tight`
says that this is about to happen, and `put_aborted_iff_tight` that it is the only way in which
`put` gives up.

Two entries in five slots are not sparse up to a load factor of four fifths, and a tight table has
at least two entries.  So up to that load factor no `put` gives up (`put_ne_aborted`).
-/

namespace BlockTable

open Slots

variable {κ ν : Type} {scheme : Scheme κ ν} {t t' : Table κ ν} {g : Slots scheme.Entry}

/-- The next resize halves an odd number of slots to as many as there are entries. -/
def Table.Tight (t : Table κ ν) : Prop :=
  t.capacity = 2 * t.size + 1 ∧ t.minCapacity < t.size ∧
    Sizing.isSparse t.loadFactor t.size t.capacity = true

instance (t : Table κ ν) : Decidable t.Tight := inferInstanceAs (Decidable (_ ∧ _ ∧ _))

namespace Shows

/-- The entries fill the slots behind a resize exactly if the table was tight. -/
theorem wanted_eq_size_iff (h : Shows scheme t g) : t.wanted g.capacity = t.size ↔ t.Tight := by
  rw [Table.Tight, h.capacity_eq]
  exact Sizing.nextCapacity_eq_size_iff h.loadFactor h.pos h.size_le

/-- The entries behind a resize that goes through, and when they leave no room. -/
theorem adjust_room (h : Shows scheme t g) (hadjust : t.adjust = (.ok (), t')) :
    ∃ g', Shows scheme t' g' ∧ g'.blocks.Perm g.blocks ∧
      (g'.blocks.length = g'.capacity ↔ t.Tight) := by
  obtain ⟨homeOf, hhomes⟩ := scheme.exists_homes
  obtain ⟨g', h', hcap, hadjusted⟩ := h.adjust_ok hhomes hadjust
  refine ⟨g', h', hadjusted.blocks, ?_⟩
  rw [hadjusted.blocks.length_eq, ← h.size, hcap, ← h.wanted_eq_size_iff]
  exact eq_comm

theorem vacant_iff (h : Shows scheme t g) (hadjust : t.adjust = (.ok (), t')) {s : Slots Block}
    (hs : t'.slots? = some s) :
    (∃ slot < s.capacity, s.block? slot = none) ↔ ¬ t.Tight := by
  obtain ⟨g', h', -, htight⟩ := h.adjust_room hadjust
  rw [h'.slots] at hs
  cases hs
  have hle := length_blocks_le g'
  rw [exists_vacant_iff, blocks_map, List.length_map, capacity_map, ← htight]
  omega

variable [BEq κ]

theorem put_aborted_iff (h : Shows scheme t g) (k : κ) (v : ν) :
    (t.put k v).1 = .aborted ↔ t.adjust.1 = .ok () ∧ t.Tight ∧
      ∀ entry ∈ g.blocks, scheme.holds k entry.block = .ok false := by
  cases hadjust : t.adjust with
  | mk answer t' =>
      cases answer with
      | error e =>
          rw [Table.put_of_adjust_error hadjust]
          constructor
          · intro hput
            cases hput
          · rintro ⟨hok, -⟩
            cases hok
      | ok u =>
          obtain ⟨g', h', hperm, htight⟩ := h.adjust_room hadjust
          rw [Table.put_aborts_iff_full hadjust h'.slots, h'.search_eq,
            search_full_iff (scheme.home_lt k h'.pos), htight]
          constructor
          · rintro ⟨hfull, hno⟩
            exact ⟨rfl, hfull, fun entry hentry => hno entry (hperm.mem_iff.mpr hentry)⟩
          · rintro ⟨-, hfull, hno⟩
            exact ⟨hfull, fun entry hentry => hno entry (hperm.mem_iff.mp hentry)⟩

end Shows

namespace Table

variable [BEq κ]

/-- On every table that a run leads to, from valid settings and with any codecs: behind a resize
that goes through there is an empty slot unless the table was tight, and `put` gives up exactly when
a tight table was resized and no entry has the key. -/
theorem put_aborted_iff_tight (scheme : Scheme κ ν) {sizing : Sizing}
    (hvalid : sizing.validate = .ok ()) (calls : List (Call κ ν)) (k : κ) (v : ν) :
    let t := (ofSizing scheme sizing).after calls
    (∀ t' s, t.adjust = (.ok (), t') → t'.slots? = some s →
      ((∃ slot < s.capacity, s.block? slot = none) ↔ ¬ t.Tight)) ∧
    ((t.put k v).1 = .aborted ↔ t.adjust.1 = .ok () ∧ t.Tight ∧
      ∀ s, t.slots? = some s → ∀ b ∈ s.blocks, scheme.holds k b = .ok false) := by
  intro t
  obtain ⟨g, h⟩ := shows_after scheme hvalid calls
  refine ⟨fun t' s hadjust hs => h.vacant_iff hadjust hs, ?_⟩
  rw [h.put_aborted_iff k v]
  refine and_congr_right fun _ => and_congr_right fun _ => ?_
  constructor
  · intro hno s hs b hb
    rw [h.slots] at hs
    cases hs
    rw [blocks_map] at hb
    obtain ⟨entry, hentry, rfl⟩ := List.mem_map.mp hb
    exact hno entry hentry
  · intro hno entry hentry
    refine hno _ h.slots _ ?_
    rw [blocks_map]
    exact List.mem_map_of_mem hentry

/-- A load factor of 0.99, and 20 slots at first. -/
def tightSizing : Sizing := ⟨0x3fefae147ae147ae, 20, 1⟩

/-- Two entries in five slots are tight, and the third is the one that finds no room. -/
theorem put_aborted_at_third_entry :
    tightSizing.validate = .ok () ∧
      ((ofSizing .crowding tightSizing).after [.put 1 true, .put 2 true]).Tight ∧
      (((ofSizing .crowding tightSizing).after [.put 1 true, .put 2 true]).put 3 true).1 =
        .aborted := by
  refine ⟨by decide +kernel, by decide +kernel, ?_⟩
  refine (put_aborted_iff_tight .crowding (by decide +kernel) [.put 1 true, .put 2 true] 3
    true).2.mpr ⟨by decide +kernel, by decide +kernel, fun s hs b hb => ?_⟩
  have hblocks : ∀ b ∈ (((ofSizing .crowding tightSizing).after
      [.put 1 true, .put 2 true]).slots?.getD (empty 0)).blocks,
      Scheme.crowding.holds 3 b = .ok false := by decide +kernel
  rw [hs] at hblocks
  exact hblocks b hb

/-- Valid settings do not keep every `put` from giving up. -/
theorem not_forall_put_ne_aborted :
    ¬ ∀ (sizing : Sizing) (calls : List (Call (BitVec 8) Bool)) (k : BitVec 8) (v : Bool),
      sizing.validate = .ok () →
        (((ofSizing Scheme.crowding sizing).after calls).put k v).1 ≠ .aborted := by
  intro h
  exact h tightSizing [.put 1 true, .put 2 true] 3 true (by decide +kernel) (by decide +kernel)

/-- Up to a load factor of four fifths, no `put` of a run gives up. -/
theorem put_ne_aborted (scheme : Scheme κ ν) {sizing : Sizing} (hvalid : sizing.validate = .ok ())
    (hlf : sizing.loadFactor.toNat ≤ Sizing.fourFifths.toNat) (calls : List (Call κ ν)) (k : κ)
    (v : ν) : (((ofSizing scheme sizing).after calls).put k v).1 ≠ .aborted := by
  obtain ⟨g, h⟩ := shows_after scheme hvalid calls
  obtain ⟨hload, hminCap⟩ := after_settings (ofSizing scheme sizing) calls
  obtain ⟨-, -, -, hpos⟩ := Sizing.validate_ok hvalid
  generalize (ofSizing scheme sizing).after calls = t at h hload hminCap
  intro hput
  obtain ⟨-, ⟨hcap, hmin, hsparse⟩, -⟩ := (h.put_aborted_iff k v).mp hput
  -- a tight table has two entries at least
  have htwo : 1 < t.size := Nat.lt_of_le_of_lt (hminCap ▸ hpos) hmin
  have hle : t.loadFactor.toNat ≤ Sizing.fourFifths.toNat := by
    rw [hload]
    exact hlf
  have hnot := Sizing.not_isSparse_of_le_fourFifths hle (by omega : 0 < t.capacity)
    (by omega : 2 * t.capacity ≤ 5 * t.size)
  rw [hnot] at hsparse
  cases hsparse

end Table

end BlockTable
