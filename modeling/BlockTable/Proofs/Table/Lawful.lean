import BlockTable.Proofs.Table.Listing
import BlockTable.Proofs.Table.Refinement

/-!
# Tables with lawful codecs

Lawful codecs have no errors, and codecs are all that a call on an open table can fail for.  So no
call of a run fails (`Shows.call_ne_failed`) and no removal tears (`Shows.untorn`).

What is left is the finite map: a run in which no `put` gives up answers like the map, and the
entries that the table lists at its end are those of the map (`answers_eq`).  Seen from the slots
it is an invariant of every run (`invariant_after`).
-/

namespace BlockTable

open Slots

variable {κ ν : Type} [BEq κ] {scheme : Scheme κ ν} {t : Table κ ν} {g : Slots scheme.Entry}
  {d : Dict κ ν}

/-! ## No call fails -/

namespace Shows

theorem not_tears (h : Shows scheme t g) (hlawful : scheme.IsLawful) (k : κ) :
    t.tears k = false := by
  obtain ⟨_, _, _, _, _, hchange⟩ := h.remove hlawful.isFaithful.homes k
  generalize t.tears k = torn at hchange
  generalize (t.remove k).1 = answer at hchange
  cases hchange with
  | torn hfault => exact absurd hfault hlawful.not_fault
  | failed | missed | removed => rfl

theorem untorn (h : Shows scheme t g) (hlawful : scheme.IsLawful) (calls : List (Call κ ν)) :
    t.untorn calls = true := by
  induction calls generalizing t g with
  | nil => rfl
  | cons c cs ih =>
      obtain ⟨g', h'⟩ := h.call c
      rw [Table.untorn, ih h', Bool.and_true, Bool.not_eq_true']
      cases c with
      | remove k => exact h.not_tears hlawful k
      | put | get | contains | length | isEmpty | clear => rfl

theorem find?_ne_error (h : Shows scheme t g) (hlawful : scheme.IsLawful) (k : κ)
    (e : TableError) : t.find? k ≠ .error e := by
  intro herror
  have hend := Table.find?_findEnd h.slots k
  rw [herror] at hend
  cases hend with
  | unsearched hsearch => exact hlawful.not_fault (h.search_error hsearch)

theorem get_ne_error (h : Shows scheme t g) (hlawful : scheme.IsLawful) (k : κ)
    (e : TableError) : t.get k ≠ .error e := by
  have hend := Table.find?_findEnd h.slots k
  have hfind := h.find?_ne_error hlawful k
  rw [Table.get]
  generalize t.find? k = result at hend hfind
  cases hend with
  | unsearched => exact absurd rfl (hfind _)
  | missed => exact fun herror => by cases herror
  | found hsearch =>
      obtain ⟨entry, hblock, -⟩ := h.search_found hsearch
      rw [block?_map, hblock, h.scheme_eq]
      simp only [Option.map_some, Scheme.Entry.decodeValue_eq hlawful]
      exact fun herror => by cases herror

/-- No call on an open table fails. -/
theorem call_ne_failed (h : Shows scheme t g) (hlawful : scheme.IsLawful) (c : Call κ ν)
    (e : TableError) : (t.call c).1 ≠ .failed e := by
  cases c with
  | put k v =>
      obtain ⟨_, _, _, _, hchange⟩ := h.put hlawful.isFaithful.homes k v
      rw [Table.call]
      generalize (t.put k v).1 = answer at hchange
      cases hchange with
      | failed hfault => exact absurd hfault hlawful.not_fault
      | replaced | inserted | aborted => exact fun hfailed => by cases hfailed
  | remove k =>
      obtain ⟨_, _, _, _, _, hchange⟩ := h.remove hlawful.isFaithful.homes k
      rw [Table.call]
      generalize t.tears k = torn at hchange
      generalize (t.remove k).1 = answer at hchange
      cases hchange with
      | failed hfault | torn hfault => exact absurd hfault hlawful.not_fault
      | missed | removed => exact fun hfailed => by cases hfailed
  | get k =>
      have hget := h.get_ne_error hlawful k
      rw [Table.call]
      cases hr : t.get k with
      | error e => exact absurd hr (hget e)
      | ok v? => exact fun hfailed => by cases hfailed
  | contains k =>
      have hfind := h.find?_ne_error hlawful k
      rw [Table.call, Table.contains]
      cases hr : t.find? k with
      | error e => exact absurd hr (hfind e)
      | ok b? => exact fun hfailed => by cases hfailed
  | length =>
      rw [Table.call, h.length_eq]
      exact fun hfailed => by cases hfailed
  | isEmpty =>
      rw [Table.call, Table.isEmpty, h.length_eq]
      exact fun hfailed => by cases hfailed
  | clear =>
      rw [Table.call, h.clear.1]
      exact fun hfailed => by cases hfailed

/-- However long it is asked, an iterator of its own answers the entries in the order of their
slots, and no more. -/
theorem drain_eq (h : Shows scheme t g) (hlawful : scheme.IsLawful) {steps : Nat}
    (hsteps : t.size < steps) :
    t.drain steps ⟨0, 0, t.version⟩ = (g.blocks.map Scheme.Entry.pair).map .ok := by
  have hdecode : ∀ entry : scheme.Entry, t.scheme.decode entry.block = .ok entry.pair := by
    intro entry
    rw [h.scheme_eq]
    exact Scheme.Entry.decode_eq hlawful entry
  have hblocks := blocks_map Scheme.Entry.block g
  have hcount : ((g.map Scheme.Entry.block).blocksFrom 0).length = t.size := by
    rw [blocksFrom_zero, hblocks, List.length_map, h.size]
  rw [Table.drain_eq h.slots ?_ steps ⟨0, 0, t.version⟩ rfl ((Nat.zero_add _).trans hcount)
    (hcount ▸ hsteps), blocksFrom_zero, hblocks, List.map_map, List.map_map]
  · exact List.map_congr_left fun entry _ => hdecode entry
  · intro b hb
    rw [hblocks] at hb
    obtain ⟨entry, -, rfl⟩ := List.mem_map.mp hb
    rw [hdecode]
    exact fun herror => by cases herror

theorem entries_eq (h : Shows scheme t g) (hlawful : scheme.IsLawful) :
    t.entries = .ok ((g.blocks.map Scheme.Entry.pair).map .ok) := by
  have hle : g.blocks.length ≤ (g.map Scheme.Entry.block).capacity := by
    rw [capacity_map]
    exact g.length_blocks_le
  have hsize : t.size < t.capacity + 1 := by
    rw [h.size, Table.capacity, h.slots]
    exact Nat.lt_succ_of_le hle
  rw [Table.entries, Table.iterator, Table.slots_of_some h.slots]
  exact congrArg _ (h.drain_eq hlawful hsize)

end Shows

variable [EquivBEq κ]

/-- A call that does not give up answers like the map. -/
theorem Stores.call_of_lawful (h : Stores scheme t d) (hlawful : scheme.IsLawful) {c : Call κ ν}
    (haborted : (t.call c).1 ≠ .aborted) :
    (t.call c).1 = .done (d.call c).1 ∧ Stores scheme (t.call c).2 (d.call c).2 := by
  obtain ⟨hanswer, hstores⟩ := h.call hlawful.isFaithful c
  obtain ⟨g, hshows, -⟩ := h
  have huntorn := hshows.untorn hlawful [c]
  simp only [Table.untorn, Bool.and_true, Bool.not_eq_true'] at huntorn
  have hdone : (t.call c).1 = .done (d.call c).1 := by
    cases hc : (t.call c).1 with
    | done a => rw [hanswer a hc]
    | failed e => exact absurd hc (hshows.call_ne_failed hlawful c e)
    | aborted => exact absurd hc haborted
  have hnext := hstores huntorn
  rw [hdone] at hnext
  exact ⟨hdone, hnext⟩

/-- The induction is on the run, and table and map take it side by side. -/
theorem Stores.run (h : Stores scheme t d) (hlawful : scheme.IsLawful) (calls : List (Call κ ν))
    (haborted : .aborted ∉ t.answers calls) :
    t.answers calls = (d.answers calls).map .done ∧
      Stores scheme (t.after calls) (d.after calls) := by
  induction calls generalizing t d with
  | nil => exact ⟨rfl, h⟩
  | cons c cs ih =>
      rw [Table.answers, List.mem_cons, not_or] at haborted
      obtain ⟨hdone, hnext⟩ := h.call_of_lawful hlawful (Ne.symm haborted.1)
      obtain ⟨hanswers, hafter⟩ := ih hnext haborted.2
      refine ⟨?_, hafter⟩
      rw [Table.answers, Dict.answers, List.map_cons, hdone, hanswers]

theorem Stores.get_eq (h : Stores scheme t d) (hlawful : scheme.IsLawful) (k : κ) :
    t.get k = .ok (d.find? k) := by
  cases hget : t.get k with
  | ok v? => rw [h.get hlawful.isFaithful hget]
  | error e =>
      obtain ⟨g, hshows, -⟩ := h
      exact absurd hget (hshows.get_ne_error hlawful k e)

omit [EquivBEq κ] in
/-- The entries that a table lists are those of the map, in some order. -/
theorem Stores.entries_eq (h : Stores scheme t d) (hlawful : scheme.IsLawful) :
    ∃ entries : List (κ × ν), t.entries = .ok (entries.map .ok) ∧ entries.Perm d.entries := by
  obtain ⟨g, hshows, hkeeps⟩ := h
  exact ⟨_, hshows.entries_eq hlawful, hkeeps.entries⟩

omit [EquivBEq κ] in
/-- An iterator of its own answers each entry of the map once, and no more. -/
theorem Stores.drain_eq (h : Stores scheme t d) (hlawful : scheme.IsLawful) :
    ∃ (it : Iterator) (entries : List (κ × ν)), t.iterator = .ok it ∧ entries.Perm d.entries ∧
      ∀ steps, d.size < steps → t.drain steps it = entries.map .ok := by
  obtain ⟨g, hshows, hkeeps⟩ := h
  refine ⟨⟨0, 0, t.version⟩, _, ?_, hkeeps.entries, fun steps hsteps => ?_⟩
  · rw [Table.iterator, Table.slots_of_some hshows.slots]
  · refine hshows.drain_eq hlawful ?_
    rwa [hshows.size, hkeeps.length_eq]

/-! ## The finite map -/

namespace Table

/-- A run from valid settings and with lawful codecs, in which no `put` gives up, answers like the
finite map, and the entries listed at its end are those of the map, each key once. -/
theorem answers_eq (hlawful : scheme.IsLawful) {sizing : Sizing}
    (hvalid : sizing.validate = .ok ()) (calls : List (Call κ ν))
    (haborted : .aborted ∉ (ofSizing scheme sizing).answers calls) :
    (ofSizing scheme sizing).answers calls = (Dict.empty.answers calls).map .done ∧
      ∃ entries : List (κ × ν),
        ((ofSizing scheme sizing).after calls).entries = .ok (entries.map .ok) ∧
        entries.Perm (Dict.empty.after calls).entries ∧
        entries.Pairwise fun a b => (a.1 == b.1) = false := by
  obtain ⟨hanswers, g, hshows, hkeeps⟩ :=
    (stores_ofSizing scheme hvalid).run hlawful calls haborted
  exact ⟨hanswers, _, hshows.entries_eq hlawful, hkeeps.entries,
    Dict.pairwise_of_perm hkeeps.entries⟩

/-- Four slots at first, and a load factor of three quarters. -/
def crowdingSizing : Sizing := ⟨0x3fe8000000000000, 4, 1⟩

/-- A run on keys that all have the same home, with a gap closed in their midst. -/
def crowdingCalls : List (Call (BitVec 8) Bool) :=
  [.put 1 true, .put 2 false, .put 3 true, .put 4 true, .remove 2, .put 3 false, .get 4,
    .contains 2, .length]

theorem answers_eq_crowding :
    Scheme.crowding.IsLawful ∧ crowdingSizing.validate = .ok () ∧
      .aborted ∉ (ofSizing .crowding crowdingSizing).answers crowdingCalls ∧
      (ofSizing .crowding crowdingSizing).answers crowdingCalls =
        [.done (.value none), .done (.value none), .done (.value none), .done (.value none),
          .done (.value (some false)), .done (.value (some true)), .done (.value (some true)),
          .done (.truth false), .done (.count 3)] := by
  have hvalid : crowdingSizing.validate = .ok () := by decide +kernel
  have haborted : .aborted ∉ (ofSizing .crowding crowdingSizing).answers crowdingCalls := by
    decide +kernel
  refine ⟨Scheme.crowding_isLawful, hvalid, haborted, ?_⟩
  exact (answers_eq Scheme.crowding_isLawful hvalid crowdingCalls haborted).1.trans
    (by decide +kernel)

/-! ## The slots -/

/-- What is true of the slots of a table between calls. -/
structure Invariant (scheme : Scheme κ ν) (t : Table κ ν) (s : Slots Block) : Prop where
  slots : t.slots? = some s
  pos : 1 ≤ s.capacity
  length : t.length = .ok s.blocks.length
  length_le : s.blocks.length ≤ s.capacity
  /-- The blocks of two slots hold different keys. -/
  distinct : ∀ i j b c k k', i ≠ j → s.block? i = some b → s.block? j = some c →
    scheme.decodeKey b = .ok k → scheme.decodeKey c = .ok k' → (k == k') = false
  /-- The walk from the home of a key to its slot meets no empty slot. -/
  reachable : ∀ i b, s.block? i = some b → ∃ k n, scheme.decodeKey b = .ok k ∧
    n < s.capacity ∧ (scheme.home k s.capacity + n) % s.capacity = i ∧
      ∀ m ≤ n, s.block? ((scheme.home k s.capacity + m) % s.capacity) ≠ none

/-- Every run from valid settings and with lawful codecs keeps the invariant. -/
theorem invariant_after (hlawful : scheme.IsLawful) {sizing : Sizing}
    (hvalid : sizing.validate = .ok ()) (calls : List (Call κ ν)) :
    ∃ s, Invariant scheme ((ofSizing scheme sizing).after calls) s := by
  obtain ⟨g, hshows, hkeeps⟩ := (stores_ofSizing scheme hvalid).after hlawful.isFaithful calls
    ((shows_ofSizing scheme hvalid).untorn hlawful calls)
  have hentry : ∀ {i b}, (g.map Scheme.Entry.block).block? i = some b →
      ∃ entry, g.block? i = some entry ∧ entry.block = b := by
    intro i b hb
    rw [block?_map] at hb
    exact Option.map_eq_some_iff.mp hb
  refine ⟨g.map Scheme.Entry.block, hshows.slots, ?_, ?_, length_blocks_le _, ?_, ?_⟩
  · rw [capacity_map]
    exact hshows.pos
  · rw [blocks_map, List.length_map]
    exact hshows.length_eq
  · intro i j b c k k' hij hb hc hk hk'
    obtain ⟨entry, hi, rfl⟩ := hentry hb
    obtain ⟨entry', hj, rfl⟩ := hentry hc
    rw [Scheme.Entry.decodeKey_eq hlawful] at hk hk'
    cases hk
    cases hk'
    have hpairwise := List.pairwise_map.mp (Dict.pairwise_of_perm hkeeps.entries)
    cases Nat.lt_or_gt_of_ne hij with
    | inl hlt => exact pairwise_blocks hpairwise hlt hi hj
    | inr hgt =>
        rw [BEq.comm]
        exact pairwise_blocks hpairwise hgt hj hi
  · intro i b hb
    obtain ⟨entry, hi, rfl⟩ := hentry hb
    have hhome := scheme.home_lt entry.key hshows.pos
    have hslot := lt_of_block? hi
    have hahead := ahead_lt hhome hslot
    rw [capacity_map]
    refine ⟨entry.key, _, Scheme.Entry.decodeKey_eq hlawful entry, hahead,
      add_ahead_mod hhome hslot, fun m hm => ?_⟩
    rw [block?_map, ne_eq, Option.map_eq_none_iff]
    refine hkeeps.homed i entry hi _ (Nat.mod_lt _ hshows.pos) ?_
    rw [ahead_add_mod hhome (by omega)]
    exact hm

theorem invariant_after_crowding :
    Scheme.crowding.IsLawful ∧ crowdingSizing.validate = .ok () ∧
      ∃ s, Invariant .crowding ((ofSizing .crowding crowdingSizing).after crowdingCalls) s := by
  have hvalid : crowdingSizing.validate = .ok () := by decide +kernel
  exact ⟨Scheme.crowding_isLawful, hvalid,
    invariant_after Scheme.crowding_isLawful hvalid crowdingCalls⟩

end Table

end BlockTable
