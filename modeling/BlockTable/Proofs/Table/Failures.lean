import BlockTable.Proofs.Table.Refinement
import BlockTable.Proofs.Table.Versions

/-!
# Puts that fail

A `put` can fail at the resize, at the search behind it, at a value that cannot be read, or half-way
through a block that a codec refuses to write.  In all these ways the table is left as the resize
left it, but for its version (`Shows.put_failed`).  So the blocks are the ones before, and they are
in the same slots unless the resize went through.

A resize moves every block, and with faithful codecs no look-up notices (`Stores.find?_adjust`).
Unless a key cannot be read, the entries alone say what a look-up answers, whatever slots they are
in (`Finding.unique`), and a resize that goes through has read every key.
-/

namespace BlockTable

open Slots

variable {κ ν : Type} [BEq κ] {scheme : Scheme κ ν} {t t' : Table κ ν} {g g' : Slots scheme.Entry}
  {d : Dict κ ν} {k : κ} {v : ν}

/-! ## What a failed put leaves -/

theorem Table.PutEnd.of_failed {s : Slots Block} {e : TableError}
    {result : Outcome (Option ν) × Table κ ν} (h : PutEnd t s k v result)
    (hfailed : result.1 = .failed e) : result.2 = { t with version := t.version + 1 } := by
  cases h with
  | unsearched | unread | unwritten => rfl
  | replaced | inserted | full => cases hfailed

/-- A `put` that fails leaves the table as the resize left it, but for the version. -/
theorem Shows.put_failed (h : Shows scheme t g) {answer : Except TableError Unit} {e : TableError}
    (hadjust : t.adjust = (answer, t')) (hfailed : (t.put k v).1 = .failed e) :
    (t.put k v).2 = { t' with version := (t.put k v).2.version } := by
  obtain ⟨e', herror⟩ | ⟨t'', g', hok, h', -⟩ := h.adjust_cases
  · rw [herror] at hadjust
    cases hadjust
    rw [Table.put_of_adjust_error herror]
  · rw [hok] at hadjust
    cases hadjust
    rw [(Table.put_putEnd hok h'.slots k v).of_failed hfailed]

/-- How often a `put` bumps the version: for the resize, and for coming past it. -/
theorem Table.bumps_put (t : Table κ ν) (k : κ) (v : ν) :
    t.bumps (.call (.put k v)) = t.resizes + t.adjust.1.isOk.toNat := by
  rw [bumps]
  cases hadjust : t.adjust with
  | mk answer t' =>
      cases answer with
      | ok u => rfl
      | error e =>
          rw [eq_of_adjust_error hadjust] at hadjust
          rw [resizes_of_adjust_eq hadjust]
          rfl

omit [BEq κ] in
/-- Without a change of the number of slots a resize changes nothing. -/
theorem Shows.adjust_eq (h : Shows scheme t g) (hresizes : t.resizes = 0) : t.adjust.2 = t := by
  obtain ⟨e, hadjust⟩ | ⟨t', g', hadjust, -, hbumped⟩ := h.adjust_bumped
  · rw [hadjust]
  · rw [hadjust]
    exact hbumped.unchanged hresizes

/-! ## Looking up behind a resize -/

/-- Entries of one key are one entry. -/
theorem Keeps.eq_of_key [EquivBEq κ] (h : Keeps g d) {a b : scheme.Entry} (ha : a ∈ g.blocks)
    (hb : b ∈ g.blocks) (hka : (k == a.key) = true) (hkb : (k == b.key) = true) : a = b := by
  have hsymm : Std.Symm fun a b : scheme.Entry => (a.key == b.key) = false :=
    ⟨fun _ _ hab => BEq.comm.trans hab⟩
  have hdistinct : g.blocks.Pairwise fun a b => (a.key == b.key) = false :=
    List.pairwise_map.mp (d.pairwise_of_perm h.entries)
  have hsame : (a.key == b.key) = true := BEq.trans (BEq.symm hka) hkb
  by_cases heq : a = b
  · exact heq
  · exact absurd (hsame.symm.trans (hdistinct.forall ha hb heq)) (by decide)

theorem Finding.not_error {e : TableError}
    (hreads : ∀ entry ∈ g.blocks, ∃ stored, scheme.decodeKey entry.block = .ok stored) :
    ¬ Finding g k (.error e) := by
  intro h
  cases h with
  | unread hmem hunread =>
      obtain ⟨stored, hread⟩ := hreads _ hmem
      rw [hread] at hunread
      cases hunread

/-- Once every key can be read, the slots that the entries are in make no difference. -/
theorem Finding.unique [EquivBEq κ] {answer answer' : Except TableError (Option Block)}
    (h : Finding g k answer) (h' : Finding g' k answer') (hkeeps : Keeps g d)
    (hperm : g'.blocks.Perm g.blocks)
    (hreads : ∀ entry ∈ g.blocks, ∃ stored, scheme.decodeKey entry.block = .ok stored) :
    answer' = answer := by
  have hreads' : ∀ entry ∈ g'.blocks, ∃ stored, scheme.decodeKey entry.block = .ok stored :=
    fun entry hentry => hreads entry (hperm.mem_iff.mp hentry)
  cases h with
  | unread hmem hunread => exact absurd (.unread hmem hunread) (not_error hreads (k := k))
  | absent habsent =>
      cases h' with
      | unread hmem hunread => exact absurd (.unread hmem hunread) (not_error hreads' (k := k))
      | absent => rfl
      | present hmem hkey =>
          rw [habsent _ (hperm.mem_iff.mp hmem)] at hkey
          cases hkey
  | present hmem hkey =>
      cases h' with
      | unread hmem' hunread => exact absurd (.unread hmem' hunread) (not_error hreads' (k := k))
      | absent habsent =>
          rw [habsent _ (hperm.mem_iff.mpr hmem)] at hkey
          cases hkey
      | present hmem' hkey' => rw [hkeeps.eq_of_key hmem (hperm.mem_iff.mp hmem') hkey hkey']

omit [BEq κ] in
/-- A resize that goes through has read every key. -/
theorem Shows.keys_read (h : Shows scheme t g) (hadjust : t.adjust = (.ok (), t'))
    (hresized : t' ≠ t) :
    ∀ entry ∈ g.blocks, ∃ stored, scheme.decodeKey entry.block = .ok stored := by
  intro entry hentry
  have hend := Table.adjust_adjustEnd t
  rw [hadjust] at hend
  cases hend with
  | kept => exact absurd rfl hresized
  | resized hslots _ hrehash =>
      rw [h.slots] at hslots
      cases hslots
      have hmem : entry.block ∈ (g.map Scheme.Entry.block).blocks := by
        rw [blocks_map]
        exact List.mem_map_of_mem hentry
      obtain ⟨slot, hhome⟩ := rehash_reads hrehash entry.block hmem
      rw [h.scheme_eq, Scheme.blockHome] at hhome
      split at hhome
      next => cases hhome
      next stored hstored => exact ⟨stored, hstored⟩

namespace Stores

variable [EquivBEq κ]

/-- No look-up notices a resize. -/
theorem find?_adjust (h : Stores scheme t d) (hfaithful : scheme.IsFaithful) (k : κ) :
    t.adjust.2.find? k = t.find? k := by
  obtain ⟨g, hshows, hkeeps⟩ := h
  cases hadjust : t.adjust with
  | mk answer t' =>
      cases answer with
      | error e => rw [Table.eq_of_adjust_error hadjust]
      | ok u =>
          by_cases hkept : t' = t
          · rw [hkept]
          · obtain ⟨g', hshows', -, hadjusted⟩ := hshows.adjust_ok hfaithful.homes hadjust
            exact (hshows.finding hkeeps hfaithful k).unique
              (hshows'.finding (hkeeps.adjusted hadjusted) hfaithful k) hkeeps hadjusted.blocks
              (hshows.keys_read hadjust hkept)

theorem get_adjust (h : Stores scheme t d) (hfaithful : scheme.IsFaithful) (k : κ) :
    t.adjust.2.get k = t.get k := by
  have hscheme : t.adjust.2.scheme = t.scheme := by
    have hend := Table.adjust_adjustEnd t
    generalize t.adjust = result at hend
    cases hend <;> rfl
  rw [Table.get, Table.get, h.find?_adjust hfaithful, hscheme]

theorem contains_adjust (h : Stores scheme t d) (hfaithful : scheme.IsFaithful) (k : κ) :
    t.adjust.2.contains k = t.contains k := by
  rw [Table.contains, Table.contains, h.find?_adjust hfaithful]

end Stores

/-! ## Runs -/

namespace Table

/-- A `put` that fails, on any table that a run leads to and with any codecs, leaves the blocks and
their number as they are, and also their slots unless a resize went through.  It bumps the version
for the resize, and for coming past it.  With faithful codecs, and if no removal of the run has
torn, all keys are answered as before. -/
theorem put_failed_keeps (scheme : Scheme κ ν) [EquivBEq κ] {sizing : Sizing}
    (hvalid : sizing.validate = .ok ()) (calls : List (Call κ ν)) (k : κ) (v : ν) {e : TableError}
    (hfailed : (((ofSizing scheme sizing).after calls).put k v).1 = .failed e) :
    let t := (ofSizing scheme sizing).after calls
    let t' := (t.put k v).2
    t'.blocks.Perm t.blocks ∧ t'.length = t.length ∧
      t'.version = t.version + UInt64.ofNat (t.resizes + t.adjust.1.isOk.toNat) ∧
      (t.resizes = 0 → t'.slots? = t.slots?) ∧
      (scheme.IsFaithful → (ofSizing scheme sizing).untorn calls = true →
        ∀ k', t'.get k' = t.get k' ∧ t'.contains k' = t.contains k') := by
  intro t t'
  obtain ⟨g, h⟩ : ∃ g, Shows scheme t g := shows_after scheme hvalid calls
  obtain ⟨g', h'⟩ : ∃ g', Shows scheme t' g' := h.call (.put k v)
  have hblocks : t'.blocks.Perm t.blocks := by
    have heffect := h.put_effect k v
    rw [hfailed] at heffect
    cases heffect with
    | failed hperm => exact hperm
  have hleft : t' = { t.adjust.2 with version := t'.version } := h.put_failed rfl hfailed
  refine ⟨hblocks, ?_, ?_, fun hresizes => ?_, fun hfaithful huntorn k' => ?_⟩
  · have hlength := hblocks.length_eq
    rw [h'.blocks_eq, h.blocks_eq, List.length_map, List.length_map] at hlength
    rw [h'.length_eq, h.length_eq, hlength]
  · rw [← bumps_put t k v]
    exact (h.put_bumped k v).version
  · rw [h.adjust_eq hresizes] at hleft
    rw [hleft]
  · have hstores : Stores scheme t _ :=
      (stores_ofSizing scheme hvalid).after hfaithful calls huntorn
    rw [hleft]
    exact ⟨hstores.get_adjust hfaithful k', hstores.contains_adjust hfaithful k'⟩

/-- The only slot is taken, so the second `put` doubles the slots.  Then it finds the key, reads its
value, and fails half-way through the new block when the codec refuses the value `false`. -/
theorem put_failed_keeps_refused :
    let sizing : Sizing := ⟨0x3fe0000000000000, 1, 1⟩
    let t := (ofSizing .failing sizing).after [.put false true]
    let t' := (t.put false false).2
    sizing.validate = .ok () ∧
      (t.put false false).1 = .failed (.argument (.other "refused")) ∧
      t.capacity = 1 ∧ t'.capacity = 2 ∧ t'.blocks.Perm t.blocks ∧
      t'.version = t.version + 2 ∧ t'.get false = .ok (some true) := by
  intro sizing t t'
  have hvalid : sizing.validate = .ok () := by decide +kernel
  have hfailed : (t.put false false).1 = .failed (.argument (.other "refused")) := by
    decide +kernel
  obtain ⟨hblocks, -, hversion, -, hanswers⟩ :=
    put_failed_keeps .failing hvalid [.put false true] false false hfailed
  have huntorn : (ofSizing .failing sizing).untorn [.put false true] = true := by decide +kernel
  refine ⟨hvalid, hfailed, by decide +kernel, by decide +kernel, hblocks, ?_, ?_⟩
  · rw [hversion]
    decide +kernel
  · exact (hanswers Scheme.failing_isFaithful huntorn false).1.trans (by decide +kernel)

end Table

end BlockTable
