import BlockTable.Proofs.Growth
import BlockTable.Proofs.Slots.Gap
import BlockTable.Proofs.Slots.Labels
import BlockTable.Proofs.Table.Blocks
import BlockTable.Proofs.Table.Calls

/-!
# The entries of a table

`Shows` ties a table to an array of entries, which has in each slot the entry that the block in the
table's slot was written for.  The codecs may be anything.  No operation writes a block otherwise
than for an entry, so the relation is kept by every call (`Shows.call`), whether it succeeds or
not.

`PutChange` and `RemoveChange` say what `put` and `remove` do to that array, and with which answer.
All that later proofs need to know of a table is said in terms of entries there.
-/

namespace BlockTable

open Slots

variable {κ ν : Type} {scheme : Scheme κ ν}

/-! ## Homes of entries -/

/-- Home slots of entries, one family for each number of slots, that agree with what is read. -/
def Scheme.Homes (scheme : Scheme κ ν) (homeOf : Nat → scheme.Entry → Nat) : Prop :=
  ∀ n, 0 < n → Extends (scheme.blockHome n ∘ Scheme.Entry.block) (homeOf n) n

theorem Scheme.exists_blockHomes (scheme : Scheme κ ν) {n : Nat} (hn : 0 < n) :
    ∃ homeOf, Extends (scheme.blockHome n) homeOf n :=
  exists_extends hn fun _ _ hslot => Scheme.blockHome_lt hn hslot

theorem Scheme.exists_homes (scheme : Scheme κ ν) : ∃ homeOf, scheme.Homes homeOf := by
  have hall : ∀ n, ∃ homeOf : scheme.Entry → Nat, 0 < n →
      Extends (scheme.blockHome n ∘ Scheme.Entry.block) homeOf n := by
    intro n
    by_cases hn : 0 < n
    · obtain ⟨homeOf, h⟩ := scheme.exists_blockHomes hn
      exact ⟨homeOf ∘ Scheme.Entry.block, fun _ => ⟨fun entry => h.lt entry.block, h.eq⟩⟩
    · exact ⟨fun _ => 0, fun hpos => absurd hpos hn⟩
  exact ⟨fun n => (hall n).choose, fun n hn => (hall n).choose_spec hn⟩

/-- With faithful codecs the home of an entry is that of its key. -/
theorem Scheme.IsFaithful.homes [BEq κ] (h : scheme.IsFaithful) :
    scheme.Homes fun n entry => scheme.home entry.key n :=
  fun _ hn => ⟨fun entry => scheme.home_lt entry.key hn, fun hslot => Entry.blockHome_eq h hslot⟩

/-! ## Tables and their entries -/

/-- The table is open, and its blocks stand for the entries of `g`. -/
structure Shows (scheme : Scheme κ ν) (t : Table κ ν) (g : Slots scheme.Entry) : Prop where
  scheme_eq : t.scheme = scheme
  slots : t.slots? = some (g.map Scheme.Entry.block)
  size : t.size = g.blocks.length
  pos : 0 < g.capacity
  loadFactor : t.loadFactor.toNat < Sizing.one

theorem shows_ofSizing (scheme : Scheme κ ν) {sizing : Sizing} (h : sizing.validate = .ok ()) :
    Shows scheme (.ofSizing scheme sizing) (empty sizing.initialCapacity) := by
  obtain ⟨-, hload, hcap, -⟩ := Sizing.validate_ok h
  refine ⟨rfl, ?_, ?_, ?_, hload⟩
  · rw [empty_map]
    rfl
  · rw [blocks_empty]
    rfl
  · rw [capacity_empty]
    exact hcap

/-- A resize keeps the entries and the walks to them. -/
structure Adjusted (homeOf : Nat → scheme.Entry → Nat) (g g' : Slots scheme.Entry) : Prop where
  blocks : g'.blocks.Perm g.blocks
  homed : g.Homed (homeOf g.capacity) → g'.Homed (homeOf g'.capacity)

theorem Adjusted.refl (homeOf : Nat → scheme.Entry → Nat) (g : Slots scheme.Entry) :
    Adjusted homeOf g g := ⟨.refl _, id⟩

namespace Shows

variable {t t' : Table κ ν} {g : Slots scheme.Entry} {homeOf : Nat → scheme.Entry → Nat}

theorem length_eq (h : Shows scheme t g) : t.length = .ok g.blocks.length := by
  rw [Table.length, Table.slots_of_some h.slots, h.size]

theorem capacity_eq (h : Shows scheme t g) : t.capacity = g.capacity := by
  rw [Table.capacity, h.slots]
  exact capacity_map _ g

theorem size_le (h : Shows scheme t g) : t.size ≤ g.capacity := h.size ▸ length_blocks_le g

/-! ## Resizing -/

theorem adjust_error (h : Shows scheme t g) {e : TableError}
    (hadjust : t.adjust = (.error e, t')) : scheme.Fault e := by
  have hend := Table.adjust_adjustEnd t
  rw [hadjust] at hend
  cases hend with
  | closed hslots =>
      rw [h.slots] at hslots
      cases hslots
  | failed hslots _ hrehash =>
      rw [h.slots] at hslots
      cases hslots
      rw [rehash_map, h.scheme_eq] at hrehash
      cases hg : g.rehash (scheme.blockHome (t.wanted (g.map Scheme.Entry.block).capacity) ∘
        Scheme.Entry.block) (t.wanted (g.map Scheme.Entry.block).capacity) with
      | ok g' =>
          rw [hg] at hrehash
          cases hrehash
      | error e' =>
          rw [hg] at hrehash
          cases hrehash
          obtain ⟨entry, -, hhome⟩ := rehash_error hg
          exact Scheme.fault_of_blockHome hhome

/-- A resize that goes through. -/
theorem adjust_ok (h : Shows scheme t g) (hhomes : scheme.Homes homeOf)
    (hadjust : t.adjust = (.ok (), t')) :
    ∃ g', Shows scheme t' g' ∧ g'.capacity = t.wanted g.capacity ∧ Adjusted homeOf g g' := by
  have hend := Table.adjust_adjustEnd t
  rw [hadjust] at hend
  cases hend with
  | kept hslots hfits =>
      rw [h.slots] at hslots
      cases hslots
      rw [capacity_map] at hfits
      exact ⟨g, h, hfits.symm, .refl homeOf g⟩
  | resized hslots _ hrehash =>
      rw [h.slots] at hslots
      cases hslots
      have hpos : 0 < t.wanted g.capacity := Sizing.nextCapacity_pos h.pos
      have hroom : g.blocks.length ≤ t.wanted g.capacity := by
        rw [← h.size]
        exact Sizing.size_le_nextCapacity h.loadFactor h.pos h.size_le
      rw [rehash_map, h.scheme_eq, capacity_map] at hrehash
      cases hg : g.rehash (scheme.blockHome (t.wanted g.capacity) ∘ Scheme.Entry.block)
        (t.wanted g.capacity) with
      | error e =>
          rw [hg] at hrehash
          cases hrehash
      | ok g' =>
          rw [hg] at hrehash
          cases hrehash
          obtain ⟨hcap, hblocks, hhomed⟩ := rehash_ok (hhomes _ hpos) hroom hg
          refine ⟨g', ⟨h.scheme_eq, rfl, h.size.trans hblocks.length_eq.symm, hcap ▸ hpos,
            h.loadFactor⟩, hcap, hblocks, fun _ => hcap ▸ hhomed⟩

/-! ## Searching -/

variable [BEq κ]

theorem search_eq (h : Shows scheme t g) (k : κ) :
    t.search (g.map Scheme.Entry.block) k =
      g.search (scheme.holds k ∘ Scheme.Entry.block) (scheme.home k g.capacity) := by
  rw [Table.search, search_map, h.scheme_eq, capacity_map]

/-- Every search of a key ends in one of the four ways. -/
theorem searchEnd (h : Shows scheme t g) (k : κ) :
    SearchEnd g (scheme.holds k ∘ Scheme.Entry.block) (scheme.home k g.capacity)
      (t.search (g.map Scheme.Entry.block) k) := by
  rw [h.search_eq]
  exact search_searchEnd _ (scheme.home_lt k h.pos)

theorem search_error (h : Shows scheme t g) {k : κ} {e : TableError}
    (hsearch : t.search (g.map Scheme.Entry.block) k = .error e) : scheme.Fault e := by
  have hend := h.searchEnd k
  rw [hsearch] at hend
  cases hend with
  | failed _ hunread _ => exact Scheme.fault_of_holds hunread

theorem search_found (h : Shows scheme t g) {k : κ} {slot : Nat}
    (hsearch : t.search (g.map Scheme.Entry.block) k = .ok (.found slot)) :
    ∃ entry, g.block? slot = some entry ∧ scheme.holds k entry.block = .ok true := by
  have hend := h.searchEnd k
  rw [hsearch] at hend
  cases hend with
  | found hblock hsought _ => exact ⟨_, hblock, hsought⟩

omit [BEq κ] in
/-- The block in a slot, as an operation takes it. -/
theorem getD_block? {slot : Nat} {entry : scheme.Entry} (hblock : g.block? slot = some entry) :
    ((g.map Scheme.Entry.block).block? slot).getD [] = entry.block := by
  rw [block?_map, hblock]
  rfl

end Shows

/-! ## Storing -/

variable [BEq κ]

/-- What a `put` does to the entries behind the resize, with its answer. -/
inductive PutChange (scheme : Scheme κ ν) (g : Slots scheme.Entry) (k : κ) (v : ν) :
    Outcome (Option ν) → Slots scheme.Entry → Prop where
  | failed {e : TableError} (fault : scheme.Fault e) : PutChange scheme g k v (.failed e) g
  | replaced {slot : Nat} {entry new : scheme.Entry} {old : ν}
      (block : g.block? slot = some entry) (holds : scheme.holds k entry.block = .ok true)
      (read : scheme.decodeValue entry.block = .ok old) (pair : new.pair = (k, v)) :
      PutChange scheme g k v (.done (some old)) (g.set slot (some new))
  | inserted {slot : Nat} {new : scheme.Entry}
      (search : SearchEnd g (scheme.holds k ∘ Scheme.Entry.block) (scheme.home k g.capacity)
        (.ok (.vacant slot)))
      (pair : new.pair = (k, v)) : PutChange scheme g k v (.done none) (g.set slot (some new))
  | aborted
      (search : SearchEnd g (scheme.holds k ∘ Scheme.Entry.block) (scheme.home k g.capacity)
        (.ok .full)) : PutChange scheme g k v .aborted g

variable {t t' : Table κ ν} {g : Slots scheme.Entry} {homeOf : Nat → scheme.Entry → Nat}

theorem Shows.put_of_adjust (h : Shows scheme t' g) (hadjust : t.adjust = (.ok (), t')) (k : κ)
    (v : ν) :
    ∃ g', Shows scheme (t.put k v).2 g' ∧ PutChange scheme g k v (t.put k v).1 g' := by
  have hsame : Shows scheme { t' with version := t'.version + 1 } g :=
    ⟨h.scheme_eq, h.slots, h.size, h.pos, h.loadFactor⟩
  have hend := Table.put_putEnd hadjust h.slots k v
  generalize t.put k v = result at hend
  cases hend with
  | unsearched hsearch => exact ⟨g, hsame, .failed (h.search_error hsearch)⟩
  | unread hsearch hold =>
      obtain ⟨entry, hblock, -⟩ := h.search_found hsearch
      rw [getD_block? hblock, h.scheme_eq] at hold
      exact ⟨g, hsame, .failed (.value hold)⟩
  | unwritten _ _ hencode =>
      rw [h.scheme_eq] at hencode
      exact ⟨g, hsame, .failed (.entry hencode)⟩
  | @replaced slot old b hsearch hread hencode =>
      obtain ⟨entry, hblock, hholds⟩ := h.search_found hsearch
      rw [getD_block? hblock, h.scheme_eq] at hread
      rw [h.scheme_eq] at hencode
      refine ⟨g.set slot (some ⟨k, v, b, hencode⟩), ⟨h.scheme_eq, ?_, ?_, ?_, h.loadFactor⟩,
        .replaced hblock hholds hread rfl⟩
      · exact congrArg some (set_map Scheme.Entry.block g slot (some ⟨k, v, b, hencode⟩))
      · have hold := (blocks_of_block? hblock).length_eq
        have hnew := (blocks_set (some ⟨k, v, b, hencode⟩) (lt_of_block? hblock)).length_eq
        exact h.size.trans (hold.trans hnew.symm)
      · rw [capacity_set]
        exact h.pos
  | @inserted slot b hsearch hencode =>
      have hvacant := h.searchEnd k
      rw [hsearch] at hvacant
      rw [h.scheme_eq] at hencode
      refine ⟨g.set slot (some ⟨k, v, b, hencode⟩), ⟨h.scheme_eq, ?_, ?_, ?_, h.loadFactor⟩,
        .inserted hvacant rfl⟩
      · exact congrArg some (set_map Scheme.Entry.block g slot (some ⟨k, v, b, hencode⟩))
      · cases hvacant with
        | vacant hbound hnone _ =>
            rw [(blocks_set_vacant _ hbound hnone).length_eq, List.length_cons, ← h.size]
      · rw [capacity_set]
        exact h.pos
  | full hsearch =>
      have hfull := h.searchEnd k
      rw [hsearch] at hfull
      exact ⟨g, hsame, .aborted hfull⟩

/-- Every `put` resizes and then changes the entries, or fails before that. -/
theorem Shows.put (h : Shows scheme t g) (hhomes : scheme.Homes homeOf) (k : κ) (v : ν) :
    ∃ g₁ g', Adjusted homeOf g g₁ ∧ Shows scheme (t.put k v).2 g' ∧
      PutChange scheme g₁ k v (t.put k v).1 g' := by
  cases hadjust : t.adjust with
  | mk answer t' =>
      cases answer with
      | error e =>
          rw [Table.put_of_adjust_error hadjust]
          exact ⟨g, g, .refl homeOf g, h, .failed (h.adjust_error hadjust)⟩
      | ok u =>
          obtain ⟨g₁, h₁, -, hadjusted⟩ := h.adjust_ok hhomes hadjust
          obtain ⟨g', h', hchange⟩ := h₁.put_of_adjust hadjust k v
          exact ⟨g₁, g', hadjusted, h', hchange⟩

/-! ## Removing -/

/-- The entries once a slot is emptied and the gap is closed. -/
abbrev Scheme.closeGap (scheme : Scheme κ ν) (g : Slots scheme.Entry) (slot : Nat) :
    Closing TableError × Slots scheme.Entry :=
  (g.set slot none).closeGap (scheme.blockHome g.capacity ∘ Scheme.Entry.block) slot

/-- What a `remove` does to the entries behind the resize, with its answer. -/
inductive RemoveChange (scheme : Scheme κ ν) (g : Slots scheme.Entry) (k : κ) :
    (torn : Bool) → Except TableError (Option ν) → Slots scheme.Entry → Prop where
  | failed {e : TableError} (fault : scheme.Fault e) : RemoveChange scheme g k false (.error e) g
  | missed {last : Search}
      (search : SearchEnd g (scheme.holds k ∘ Scheme.Entry.block) (scheme.home k g.capacity)
        (.ok last))
      (missing : ∀ slot, last ≠ .found slot) : RemoveChange scheme g k false (.ok none) g
  | removed {slot : Nat} {entry : scheme.Entry} {old : ν} (block : g.block? slot = some entry)
      (holds : scheme.holds k entry.block = .ok true)
      (read : scheme.decodeValue entry.block = .ok old)
      (closing : (scheme.closeGap g slot).1 = .closed) :
      RemoveChange scheme g k false (.ok (some old)) (scheme.closeGap g slot).2
  | torn {slot : Nat} {e : TableError} (fault : scheme.Fault e) :
      RemoveChange scheme g k true (.error e) (scheme.closeGap g slot).2

omit [BEq κ] in
/-- The table once a slot is emptied and the gap is closed. -/
theorem Shows.gapClosing {slot : Nat} {entry : scheme.Entry} (h : Shows scheme t g)
    (hblock : g.block? slot = some entry) :
    (t.gapClosing (g.map Scheme.Entry.block) slot).1 = (scheme.closeGap g slot).1 ∧
      Shows scheme
        { t with
          slots? := some (t.gapClosing (g.map Scheme.Entry.block) slot).2
          size := t.size - 1
          version := t.version + 1 } (scheme.closeGap g slot).2 := by
  have hclosing : t.gapClosing (g.map Scheme.Entry.block) slot =
      ((scheme.closeGap g slot).1, (scheme.closeGap g slot).2.map Scheme.Entry.block) := by
    have hset := set_map Scheme.Entry.block g slot none
    rw [Option.map_none] at hset
    rw [Table.gapClosing, hset, closeGap_map, h.scheme_eq, capacity_map]
  obtain ⟨hcap, hblocks⟩ := closeGap_blocks (scheme.blockHome g.capacity ∘ Scheme.Entry.block)
    (lt_of_block? hblock)
  refine ⟨by rw [hclosing], h.scheme_eq, by rw [hclosing], ?_, ?_, h.loadFactor⟩
  · show t.size - 1 = _
    rw [hblocks.length_eq, h.size, (blocks_of_block? hblock).length_eq, List.length_cons,
      Nat.add_sub_cancel]
  · rw [hcap]
    exact h.pos

theorem Shows.remove_of_adjust (h : Shows scheme t' g) (hadjust : t.adjust = (.ok (), t')) (k : κ) :
    ∃ g', Shows scheme (t.remove k).2 g' ∧
      RemoveChange scheme g k (t.tears k) (t.remove k).1 g' := by
  have hend := Table.remove_removeEnd hadjust h.slots k
  generalize t.remove k = result at hend
  generalize t.tears k = torn at hend
  cases hend with
  | unsearched hsearch => exact ⟨g, h, .failed (h.search_error hsearch)⟩
  | missed hsearch hmissing =>
      have hlast := h.searchEnd k
      rw [hsearch] at hlast
      exact ⟨g, h, .missed hlast hmissing⟩
  | unread hsearch hold =>
      obtain ⟨entry, hblock, -⟩ := h.search_found hsearch
      rw [getD_block? hblock, h.scheme_eq] at hold
      exact ⟨g, h, .failed (.value hold)⟩
  | @removed slot old hsearch hread hclosing =>
      obtain ⟨entry, hblock, hholds⟩ := h.search_found hsearch
      rw [getD_block? hblock, h.scheme_eq] at hread
      obtain ⟨hfirst, hshows⟩ := h.gapClosing hblock
      refine ⟨_, hshows, .removed hblock hholds hread ?_⟩
      -- the walk is neither stopped nor cut short
      obtain ⟨homeOf, hhomes⟩ := scheme.exists_homes
      have hfinishes := closeGap_finishes (hhomes g.capacity h.pos) (lt_of_block? hblock)
      cases hc : (scheme.closeGap g slot).1 with
      | closed => rfl
      | stopped e => exact absurd (hfirst.trans hc) (hclosing e)
      | unfinished => exact absurd hc hfinishes
  | @torn slot old e hsearch hread hclosing =>
      obtain ⟨entry, hblock, -⟩ := h.search_found hsearch
      obtain ⟨hfirst, hshows⟩ := h.gapClosing hblock
      obtain ⟨stop, hhome⟩ := closeGap_stopped (lt_of_block? hblock) (hfirst.symm.trans hclosing)
      exact ⟨_, hshows, .torn (Scheme.fault_of_blockHome hhome)⟩

/-- Every `remove` resizes and then changes the entries, or fails before that. -/
theorem Shows.remove (h : Shows scheme t g) (hhomes : scheme.Homes homeOf) (k : κ) :
    ∃ g₁ g', Adjusted homeOf g g₁ ∧ 0 < g₁.capacity ∧ Shows scheme (t.remove k).2 g' ∧
      RemoveChange scheme g₁ k (t.tears k) (t.remove k).1 g' := by
  cases hadjust : t.adjust with
  | mk answer t' =>
      cases answer with
      | error e =>
          rw [Table.remove_of_adjust_error hadjust, Table.tears_of_adjust_error hadjust]
          exact ⟨g, g, .refl homeOf g, h.pos, h, .failed (h.adjust_error hadjust)⟩
      | ok u =>
          obtain ⟨g₁, h₁, -, hadjusted⟩ := h.adjust_ok hhomes hadjust
          obtain ⟨g', h', hchange⟩ := h₁.remove_of_adjust hadjust k
          exact ⟨g₁, g', hadjusted, h₁.pos, h', hchange⟩

/-! ## Runs -/

omit [BEq κ] in
theorem Shows.clear (h : Shows scheme t g) :
    t.clear.1 = .ok () ∧ Shows scheme t.clear.2 (empty g.capacity) := by
  rw [Table.clear, Table.slots_of_some h.slots]
  refine ⟨rfl, h.scheme_eq, ?_, ?_, ?_, h.loadFactor⟩
  · show some (empty (g.map Scheme.Entry.block).capacity) = _
    rw [empty_map, capacity_map]
  · rw [blocks_empty]
    rfl
  · rw [capacity_empty]
    exact h.pos

/-- Every call keeps a table of entries. -/
theorem Shows.call (h : Shows scheme t g) (c : Call κ ν) :
    ∃ g', Shows scheme (t.call c).2 g' := by
  obtain ⟨homeOf, hhomes⟩ := scheme.exists_homes
  cases c with
  | put k v =>
      obtain ⟨_, g', _, h', _⟩ := h.put hhomes k v
      exact ⟨g', h'⟩
  | remove k =>
      obtain ⟨_, g', _, _, h', _⟩ := h.remove hhomes k
      exact ⟨g', h'⟩
  | clear => exact ⟨_, h.clear.2⟩
  | get | contains | length | isEmpty => exact ⟨g, h⟩

/-- Every run from valid settings leads to a table of entries. -/
theorem shows_after (scheme : Scheme κ ν) {sizing : Sizing} (h : sizing.validate = .ok ())
    (calls : List (Call κ ν)) : ∃ g, Shows scheme ((Table.ofSizing scheme sizing).after calls) g :=
  Table.after_preserves (P := fun t => ∃ g, Shows scheme t g) (fun _ c ⟨_, h⟩ => h.call c) calls _
    ⟨_, shows_ofSizing scheme h⟩

end BlockTable
