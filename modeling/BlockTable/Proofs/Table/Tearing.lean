import BlockTable.Proofs.Slots.Stopping
import BlockTable.Proofs.Table.Conservation

/-!
# Removals that fail

A removal resizes the table, searches the key, reads its value, takes the entry out and closes the
gap.  What fails before the entry is out leaves the table as the resize left it.  The closing of the
gap fails when a block is in its way whose key cannot be read (`Obstructed`), and then the entry is
gone although the removal answers an error.

So a removal that fails changes no entry exactly when it is not obstructed (`remove_failed`).
-/

namespace BlockTable

open Slots

variable {κ ν : Type} [BEq κ] {scheme : Scheme κ ν} {t : Table κ ν} {g : Slots scheme.Entry}
  {s : Slots Block} {k : κ} {e : TableError}

namespace Table

/-- In the slots `s` the key is found and its value can be read, but the key of a block behind it,
before any empty slot, cannot. -/
def ObstructedIn (t : Table κ ν) (s : Slots Block) (k : κ) (e : TableError) : Prop :=
  ∃ slot b old other, t.search s k = .ok (.found slot) ∧ s.block? slot = some b ∧
    t.scheme.decodeValue b = .ok old ∧ Obstructs (t.scheme.blockHome s.capacity) s slot other e

/-- So it is behind the resize of a removal. -/
def Obstructed (t : Table κ ν) (k : κ) (e : TableError) : Prop :=
  ∃ t' s, t.adjust = (.ok (), t') ∧ t'.slots? = some s ∧ t'.ObstructedIn s k e

omit [BEq κ] in
theorem gapClosing_stopped_iff (t : Table κ ν) {slot : Nat} (h : slot < s.capacity) :
    (t.gapClosing s slot).1 = .stopped e ↔
      ∃ other, Obstructs (t.scheme.blockHome s.capacity) s slot other e :=
  closeGap_stopped_iff h fun _ _ hhome => Scheme.blockHome_lt (Nat.zero_lt_of_lt h) hhome

namespace RemoveEnd

variable {torn : Bool} {result : Except TableError (Option ν) × Table κ ν}

theorem obstructedIn (h : RemoveEnd t s k torn result) (hpos : 0 < s.capacity)
    (htorn : torn = true) (herror : result.1 = .error e) : t.ObstructedIn s k e := by
  cases h with
  | unsearched | missed | unread | removed => cases htorn
  | @torn slot old _ hsearch hread hclosing =>
      cases herror
      obtain ⟨b, hblock, -⟩ := search_found hpos hsearch
      obtain ⟨other, hobstructs⟩ :=
        (t.gapClosing_stopped_iff (lt_of_block? hblock)).mp hclosing
      rw [hblock, Option.getD_some] at hread
      exact ⟨slot, b, old, other, hsearch, hblock, hread, hobstructs⟩

/-- An obstructed removal ends in no other way than torn. -/
theorem torn_of_obstructedIn (h : RemoveEnd t s k torn result)
    (hobstructed : t.ObstructedIn s k e) : torn = true ∧ result.1 = .error e := by
  obtain ⟨slot, b, old, other, hsearch, hblock, hread, hobstructs⟩ := hobstructed
  have hstopped : (t.gapClosing s slot).1 = .stopped e :=
    (t.gapClosing_stopped_iff (lt_of_block? hblock)).mpr ⟨other, hobstructs⟩
  have hfound : ∀ {slot'}, t.search s k = .ok (.found slot') → slot' = slot := by
    intro slot' hsearch'
    rw [hsearch] at hsearch'
    cases hsearch'
    rfl
  cases h with
  | unsearched hsearch' =>
      rw [hsearch] at hsearch'
      cases hsearch'
  | missed hsearch' hmissing =>
      rw [hsearch] at hsearch'
      cases hsearch'
      exact absurd rfl (hmissing slot)
  | unread hsearch' hunread =>
      cases hfound hsearch'
      rw [hblock, Option.getD_some, hread] at hunread
      cases hunread
  | removed hsearch' _ hclosing =>
      cases hfound hsearch'
      exact absurd hstopped (hclosing e)
  | torn hsearch' _ hclosing =>
      cases hfound hsearch'
      rw [hstopped] at hclosing
      cases hclosing
      exact ⟨rfl, rfl⟩

/-- A removal that fails and is not torn changes nothing behind the resize. -/
theorem eq_of_error (h : RemoveEnd t s k torn result) (htorn : torn = false)
    (herror : result.1 = .error e) : result.2 = t := by
  cases h with
  | unsearched | unread => rfl
  | missed | removed => cases herror
  | torn => cases htorn

end RemoveEnd

end Table

namespace Alive

omit [BEq κ] in
/-- A resize fails and changes nothing, or it leaves an open table with the same blocks. -/
theorem adjust_cases (h : Alive scheme t) :
    (∃ e, t.adjust = (.error e, t)) ∨
      ∃ t' g', t.adjust = (.ok (), t') ∧ Shows scheme t' g' ∧ t'.blocks.Perm t.blocks := by
  cases h with
  | closed hslots => exact .inl ⟨_, Table.adjust_of_closed hslots⟩
  | opened hshows =>
      obtain hfailed | ⟨t', g', hadjust, h', hperm, -⟩ := hshows.adjust_cases
      · exact .inl hfailed
      · exact .inr ⟨t', g', hadjust, h', hperm⟩

/-- A removal is torn exactly when it is obstructed. -/
theorem obstructed_iff (h : Alive scheme t) :
    t.Obstructed k e ↔ t.tears k = true ∧ (t.remove k).1 = .error e := by
  obtain ⟨e', hadjust⟩ | ⟨t', g', hadjust, h', -⟩ := h.adjust_cases
  · rw [Table.tears_of_adjust_error hadjust]
    refine iff_of_false ?_ fun htorn => by cases htorn.1
    rintro ⟨t'', s, hok, -⟩
    rw [hadjust] at hok
    cases hok
  · have hend := Table.remove_removeEnd hadjust h'.slots k
    constructor
    · rintro ⟨t'', s, hadjust', hs, hobstructed⟩
      rw [hadjust] at hadjust'
      cases hadjust'
      rw [h'.slots] at hs
      cases hs
      exact hend.torn_of_obstructedIn hobstructed
    · rintro ⟨htorn, herror⟩
      exact ⟨t', _, hadjust, h'.slots, hend.obstructedIn h'.slots_pos htorn herror⟩

theorem remove_eq_adjust (h : Alive scheme t) (htorn : t.tears k = false)
    (herror : (t.remove k).1 = .error e) : (t.remove k).2 = t.adjust.2 := by
  obtain ⟨e', hadjust⟩ | ⟨t', g', hadjust, h', -⟩ := h.adjust_cases
  · rw [Table.remove_of_adjust_error hadjust, hadjust]
  · rw [hadjust]
    exact (Table.remove_removeEnd hadjust h'.slots k).eq_of_error htorn herror

/-- A torn removal takes the block of an entry with the key. -/
theorem blocks_of_tears (h : Alive scheme t) (htorn : t.tears k = true) :
    ∃ entry : scheme.Entry, scheme.holds k entry.block = .ok true ∧
      t.blocks.Perm (entry.block :: (t.remove k).2.blocks) := by
  obtain ⟨e', hadjust⟩ | ⟨t', g', hadjust, h', hperm⟩ := h.adjust_cases
  · rw [Table.tears_of_adjust_error hadjust] at htorn
    cases htorn
  · have hend := Table.remove_removeEnd hadjust h'.slots k
    generalize t.tears k = torn at hend htorn
    generalize t.remove k = result at hend
    cases hend with
    | unsearched | missed | unread | removed => cases htorn
    | @torn slot _ _ hsearch =>
        obtain ⟨entry, hentry, hholds⟩ := h'.search_found hsearch
        have hblock : (g'.map Scheme.Entry.block).block? slot = some entry.block := by
          rw [block?_map, hentry]
          rfl
        have hgap := t'.gapClosing_blocks (lt_of_block? hblock)
        refine ⟨entry, hholds, hperm.symm.trans ?_⟩
        rw [Table.blocks_of_some h'.slots]
        exact (blocks_of_block? hblock).trans (hgap.symm.cons _)

end Alive

namespace Table

/-- A removal that fails leaves every entry where the resize put it, unless it is obstructed.  An
obstructed removal always fails, and the entry of the key is lost. -/
theorem remove_failed (hkey : scheme.key.IsFaithful) {sizing : Sizing}
    (hvalid : sizing.validate = .ok ()) (acts : List (Act κ ν)) (k : κ) (e : TableError) :
    let t := (ofSizing scheme sizing).afterActs acts
    let t' := (t.remove k).2
    ((t.remove k).1 = .error e → ¬ t.Obstructed k e →
      t' = t.adjust.2 ∧ t'.blocks.Perm t.blocks ∧ t'.size = t.size) ∧
    (t.Obstructed k e → (t.remove k).1 = .error e ∧
      ∃ entry : scheme.Entry, (entry.key == k) = true ∧
        t.blocks.Perm (entry.block :: t'.blocks) ∧ t.size = t'.size + 1) := by
  intro t t'
  have h : Alive scheme t := (alive_ofSizing scheme hvalid).afterActs acts
  have h' : Alive scheme t' := h.act (.call (.remove k))
  refine ⟨fun herror hfree => ?_, fun hobstructed => ?_⟩
  · have htorn : t.tears k = false := by
      rw [Bool.eq_false_iff]
      exact fun htorn => hfree (h.obstructed_iff.mpr ⟨htorn, herror⟩)
    have heq : t' = t.adjust.2 := h.remove_eq_adjust htorn herror
    have hblocks : t'.blocks.Perm t.blocks := heq ▸ h.adjust_blocks
    refine ⟨heq, hblocks, ?_⟩
    rw [h'.size_eq, h.size_eq, hblocks.length_eq]
  · obtain ⟨htorn, herror⟩ := h.obstructed_iff.mp hobstructed
    obtain ⟨entry, hholds, hblocks⟩ := h.blocks_of_tears htorn
    have hkeys := Scheme.Entry.holds_eq hkey hholds
    refine ⟨herror, entry, hkeys.symm, hblocks, ?_⟩
    rw [h'.size_eq, h.size_eq, hblocks.length_eq, List.length_cons]

/-- Two entries at one home.  The key of the second cannot be read, so the first is lost when it is
removed, and the removal fails. -/
theorem remove_failed_torn :
    let sizing : Sizing := ⟨0x3fe0000000000000, 8, 8⟩
    let t := (ofSizing .failing sizing).afterActs tornActs
    let e := TableError.undecodable (.truthValue 7)
    sizing.validate = .ok () ∧ t.Obstructed false e ∧ (t.remove false).1 = .error e ∧
      (∃ entry : Scheme.failing.Entry, (entry.key == false) = true ∧
        t.blocks.Perm (entry.block :: (t.remove false).2.blocks)) ∧
      t.contains false = .ok true ∧ (t.remove false).2.contains false = .ok false := by
  intro sizing t e
  have hvalid : sizing.validate = .ok () := by decide +kernel
  have h : Alive .failing t := (alive_ofSizing .failing hvalid).afterActs tornActs
  have hobstructed : t.Obstructed false e :=
    h.obstructed_iff.mpr ⟨by decide +kernel, by decide +kernel⟩
  obtain ⟨herror, entry, hkey, hblocks, -⟩ :=
    (remove_failed Scheme.failing_isFaithful.key hvalid tornActs false e).2 hobstructed
  exact ⟨hvalid, hobstructed, herror, ⟨entry, hkey, hblocks⟩, by decide +kernel,
    by decide +kernel⟩

/-- Not every removal that fails leaves the entries as they were. -/
theorem not_forall_remove_failed_keeps :
    ¬ ∀ (scheme : Scheme Bool Bool) (sizing : Sizing) (acts : List (Act Bool Bool)) (k : Bool)
      (e : TableError), scheme.IsFaithful → sizing.validate = .ok () →
        let t := (ofSizing scheme sizing).afterActs acts
        t.isClosed = false → (t.remove k).1 = .error e →
          (t.remove k).2.blocks.Perm t.blocks ∧ (t.remove k).2.size = t.size := by
  intro h
  have hkept := h .failing ⟨0x3fe0000000000000, 8, 8⟩ tornActs false (.undecodable (.truthValue 7))
    Scheme.failing_isFaithful (by decide +kernel) (by decide +kernel) (by decide +kernel)
  exact absurd hkept.2 (by decide +kernel)

end Table

end BlockTable
