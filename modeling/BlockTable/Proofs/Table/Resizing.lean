import BlockTable.Proofs.Table.Acts
import BlockTable.Proofs.Table.Room

/-!
# Resizes

A resize places all blocks in a new array, each at the first empty slot from its home on.  The walk
to that slot has no bound of its own.  It ends because the new array has at least as many slots as
there are blocks: an array is doubled, or it is sparse and half of it still has room for all
(`Shows.length_blocks_le_wanted`).

A resize that meets a key that does not decode changes nothing, since the new array is thrown away.
One that goes through keeps every block and makes it reachable from its home among the new slots
(`Table.Resized`).  There is no third way (`Shows.resizeEnd`).  The home is that of the key as it
decodes, with any codecs.
-/

namespace BlockTable

open Slots

variable {κ ν : Type} {scheme : Scheme κ ν} {t t' : Table κ ν} {g : Slots scheme.Entry}
  {s s' : Slots Block}

/-- The resize went through: the table has the same blocks in as many slots as its load asks for,
and each of them can be reached from the home of its key over occupied slots. -/
structure Table.Resized (t t' : Table κ ν) (s s' : Slots Block) : Prop where
  table : t' = { t with slots? := some s', version := t.version + 1 }
  capacity : s'.capacity = t.wanted s.capacity
  blocks : s'.blocks.Perm s.blocks
  reached : ∀ slot b, s'.block? slot = some b → ∃ k steps, t.scheme.decodeKey b = .ok k ∧
    s'.Walk (t.scheme.home k s'.capacity) steps slot

namespace Table

theorem resized_of_rehash (hpos : 0 < t.wanted s.capacity)
    (hroom : s.blocks.length ≤ t.wanted s.capacity)
    (h : s.rehash (t.scheme.blockHome (t.wanted s.capacity)) (t.wanted s.capacity) = .ok s') :
    t.Resized { t with slots? := some s', version := t.version + 1 } s s' := by
  obtain ⟨homeOf, hhome⟩ := t.scheme.exists_blockHomes hpos
  obtain ⟨hcap, hblocks, hhomed⟩ := rehash_ok hhome hroom h
  refine ⟨rfl, hcap, hblocks, fun slot b hb => ?_⟩
  have hmem : b ∈ s.blocks := hblocks.mem_iff.mp (mem_blocks.mpr ⟨slot, hb⟩)
  obtain ⟨home, hread⟩ := rehash_reads h b hmem
  obtain ⟨k, hk, rfl⟩ := Scheme.exists_decodeKey_of_blockHome hread
  have hhomeOf : t.scheme.home k s'.capacity = homeOf b := by rw [hhome.eq hread, hcap]
  refine ⟨k, ahead s'.capacity (homeOf b) slot, hk, ?_⟩
  rw [hhomeOf]
  exact hhomed.walk hb (hcap ▸ hhome.lt b)

end Table

/-- The ends of a resize of an open table. -/
inductive Table.ResizeEnd (t : Table κ ν) (s : Slots Block) :
    Except TableError Unit × Table κ ν → Prop where
  | kept (fits : t.wanted s.capacity = s.capacity) : ResizeEnd t s (.ok (), t)
  | failed {b : Block} {e : TableError} (changed : t.wanted s.capacity ≠ s.capacity)
      (mem : b ∈ s.blocks) (unread : t.scheme.decodeKey b = .error e) : ResizeEnd t s (.error e, t)
  | resized {t' : Table κ ν} {s' : Slots Block} (changed : t.wanted s.capacity ≠ s.capacity)
      (resized : t.Resized t' s s') : ResizeEnd t s (.ok (), t')

namespace Shows

/-- The next number of slots is enough for all blocks. -/
theorem length_blocks_le_wanted (h : Shows scheme t g) (hs : t.slots? = some s) :
    0 < t.wanted s.capacity ∧ s.blocks.length ≤ t.wanted s.capacity := by
  rw [h.slots] at hs
  cases hs
  rw [capacity_map, blocks_map, List.length_map, ← h.size]
  exact ⟨Sizing.nextCapacity_pos h.pos, Sizing.size_le_nextCapacity h.loadFactor h.pos h.size_le⟩

theorem findsRoom (h : Shows scheme t g) (hs : t.slots? = some s) :
    FindsRoom (scheme.blockHome (t.wanted s.capacity)) (t.wanted s.capacity) s := by
  obtain ⟨hpos, hroom⟩ := h.length_blocks_le_wanted hs
  obtain ⟨homeOf, hhome⟩ := scheme.exists_blockHomes hpos
  exact Slots.findsRoom hhome hroom

theorem resizeEnd (h : Shows scheme t g) (hs : t.slots? = some s) : t.ResizeEnd s t.adjust := by
  obtain ⟨hpos, hroom⟩ := h.length_blocks_le_wanted hs
  have hend := Table.adjust_adjustEnd t
  generalize t.adjust = result at hend
  cases hend with
  | closed hslots =>
      rw [hs] at hslots
      cases hslots
  | kept hslots hfits =>
      rw [hs] at hslots
      cases hslots
      exact .kept hfits
  | failed hslots hchanged hrehash =>
      rw [hs] at hslots
      cases hslots
      obtain ⟨b, hb, hhome⟩ := rehash_error hrehash
      exact .failed hchanged hb (Scheme.decodeKey_of_blockHome hhome)
  | resized hslots hchanged hrehash =>
      rw [hs] at hslots
      cases hslots
      exact .resized hchanged (Table.resized_of_rehash hpos hroom hrehash)

end Shows

namespace Table

variable [BEq κ]

/-- On every table that a run leads to, from valid settings and with any codecs: a resize has room
for all blocks and finds an empty slot for each.  It keeps them all and makes them reachable, or it
fails at a key that does not decode and changes nothing. -/
theorem resize_all_or_nothing (scheme : Scheme κ ν) {sizing : Sizing}
    (hvalid : sizing.validate = .ok ()) (calls : List (Call κ ν)) :
    let t := (ofSizing scheme sizing).after calls
    ∃ s, t.slots? = some s ∧ t.size = s.blocks.length ∧ (t.wanted s.capacity ≠ s.capacity →
      s.blocks.length ≤ t.wanted s.capacity ∧
      FindsRoom (scheme.blockHome (t.wanted s.capacity)) (t.wanted s.capacity) s ∧
      (t.adjust.1 = .ok () → ∃ s', t.Resized t.adjust.2 s s') ∧
      ∀ e, t.adjust.1 = .error e →
        t.adjust.2 = t ∧ ∃ b ∈ s.blocks, scheme.decodeKey b = .error e) := by
  intro t
  obtain ⟨g, h⟩ : ∃ g, Shows scheme t g := shows_after scheme hvalid calls
  refine ⟨_, h.slots, h.size_eq.trans (congrArg _ (blocks_of_some h.slots)), fun hchanged =>
    ⟨(h.length_blocks_le_wanted h.slots).2, h.findsRoom h.slots, ?_⟩⟩
  have hend := h.resizeEnd h.slots
  generalize t.adjust = result at hend
  cases hend with
  | kept hfits => exact absurd hfits hchanged
  | failed _ hb hunread =>
      rw [h.scheme_eq] at hunread
      refine ⟨fun hok => (by cases hok), fun e he => ?_⟩
      cases he
      exact ⟨rfl, _, hb, hunread⟩
  | resized _ hresized => exact ⟨fun _ => ⟨_, hresized⟩, fun e he => (by cases he)⟩

/-- Five slots with two entries become two, and none of them is empty.  One slot with a key that
does not decode stays as it is. -/
theorem resize_all_or_nothing_tight :
    let t := (ofSizing .crowding tightSizing).after [.put 1 true, .put 2 true]
    let u := (ofSizing .failing ⟨0x3fe0000000000000, 1, 1⟩).after [.put true true]
    (∃ s s', t.slots? = some s ∧ s.capacity = 5 ∧ t.Resized t.adjust.2 s s' ∧ s'.capacity = 2 ∧
      s'.blocks.length = 2) ∧
    u.wanted u.capacity ≠ u.capacity ∧ u.adjust.1.isOk = false ∧ u.adjust.2 = u := by
  intro t u
  have hvalid : tightSizing.validate = .ok () := by decide +kernel
  have hvalid' : Sizing.validate ⟨0x3fe0000000000000, 1, 1⟩ = .ok () := by decide +kernel
  have hwanted : u.wanted u.capacity ≠ u.capacity := by decide +kernel
  have hfails : u.adjust.1.isOk = false := by decide +kernel
  refine ⟨?_, hwanted, hfails, ?_⟩
  · have hfive : t.capacity = 5 := by decide +kernel
    have hnext : t.wanted 5 = 2 := by decide +kernel
    have htwo : t.size = 2 := by decide +kernel
    have hadjust : t.adjust.1 = .ok () := by decide +kernel
    obtain ⟨s, hs, hsize, hresize⟩ := resize_all_or_nothing .crowding hvalid
      [.put 1 true, .put 2 true]
    have hcap : s.capacity = 5 := (capacity_of_some hs).symm.trans hfive
    rw [hcap] at hresize
    obtain ⟨-, -, hok, -⟩ := hresize (by decide +kernel)
    obtain ⟨s', hresized⟩ := hok hadjust
    refine ⟨s, s', hs, hcap, hresized, ?_, ?_⟩
    · rw [hresized.capacity, hcap]
      exact hnext
    · exact hresized.blocks.length_eq.trans (hsize.symm.trans htwo)
  · obtain ⟨s, hs, -, hresize⟩ := resize_all_or_nothing .failing hvalid' [.put true true]
    rw [← capacity_of_some hs] at hresize
    obtain ⟨-, -, -, herror⟩ := hresize hwanted
    cases hadjust : u.adjust.1 with
    | error e => exact (herror e hadjust).1
    | ok _ =>
        rw [hadjust] at hfails
        cases hfails

end Table

end BlockTable
