import BlockTable.Proofs.Table.Dict
import BlockTable.Proofs.Table.Entries

/-!
# Tables as finite maps

With faithful codecs a table stores a finite map (`Stores`): its entries are those of the map, and
each can be found from the home of its key.  A call that is answered gets the answer of the map and
leaves a table that stores the map after the call.  A call that fails leaves the map as it was,
unless it is a removal that tears (`Stores.call`).

A block that cannot be read does not break this.  It still has the slot that its key was given, so
a search for that key arrives at it and fails there.
-/

namespace BlockTable

open Slots

variable {κ ν : Type} [BEq κ] {scheme : Scheme κ ν} {t : Table κ ν} {g g' : Slots scheme.Entry}
  {d : Dict κ ν} {k : κ} {v : ν}

/-- The entries are those of `d`, and each can be found from the home of its key. -/
structure Keeps (g : Slots scheme.Entry) (d : Dict κ ν) : Prop where
  homed : g.Homed fun entry => scheme.home entry.key g.capacity
  entries : (g.blocks.map Scheme.Entry.pair).Perm d.entries

theorem keeps_empty (n : Nat) : Keeps (empty n : Slots scheme.Entry) Dict.empty := by
  refine ⟨homed_empty _ n, ?_⟩
  rw [blocks_empty]
  exact .nil

namespace Keeps

theorem length_eq (h : Keeps g d) : g.blocks.length = d.size := by
  rw [Dict.size, ← h.entries.length_eq, List.length_map]

theorem adjusted (h : Keeps g d)
    (hadjusted : Adjusted (fun n entry => scheme.home entry.key n) g g') : Keeps g' d :=
  ⟨hadjusted.homed h.homed, (hadjusted.blocks.map _).trans h.entries⟩

/-- The entry in a slot, and all others. -/
theorem entries_of_block? (h : Keeps g d) {slot : Nat} {entry : scheme.Entry}
    (hblock : g.block? slot = some entry) :
    d.entries.Perm (entry.pair :: (g.set slot none).blocks.map Scheme.Entry.pair) :=
  h.entries.symm.trans ((blocks_of_block? hblock).map _)

/-! ## Searching -/

/-- A search that finds nothing has not stepped over the key. -/
theorem absent (h : Keeps g d) (hfaithful : scheme.IsFaithful) [EquivBEq κ] {last : Search}
    (hsearch : SearchEnd g (scheme.holds k ∘ Scheme.Entry.block) (scheme.home k g.capacity)
      (.ok last))
    (hmissing : ∀ slot, last ≠ .found slot) : ∀ entry ∈ d.entries, (k == entry.1) = false := by
  intro p hp
  obtain ⟨entry, hentry, rfl⟩ := List.mem_map.mp (h.entries.mem_iff.mpr hp)
  obtain ⟨slot, hblock⟩ := mem_blocks.mp hentry
  show (k == entry.key) = false
  cases heq : k == entry.key with
  | false => rfl
  | true =>
      -- then the walk from the home of `k` leads to this entry
      have hno := hsearch.not_sought hmissing h.homed hblock
        (hfaithful.home_eq (BEq.symm heq) g.capacity)
      have hholds := Scheme.Entry.holds_eq hfaithful.key hno
      rw [BEq.comm, heq] at hholds
      cases hholds

theorem find?_of_holds (h : Keeps g d) (hfaithful : scheme.IsFaithful) [EquivBEq κ] {slot : Nat}
    {entry : scheme.Entry} (hblock : g.block? slot = some entry)
    (hholds : scheme.holds k entry.block = .ok true) : d.find? k = some entry.value := by
  have hkey := Scheme.Entry.holds_eq hfaithful.key hholds
  exact Dict.find?_of_perm (h.entries_of_block? hblock) (BEq.symm hkey.symm)

/-! ## Changes -/

theorem put (h : Keeps g d) (hfaithful : scheme.IsFaithful) [EquivBEq κ]
    {answer : Outcome (Option ν)} (hchange : PutChange scheme g k v answer g') :
    (∀ v?, answer = .done v? → v? = d.find? k) ∧
      Keeps g' (d.advance (.put k v) (answer.map .value)) := by
  cases hchange with
  | failed _ => exact ⟨fun _ hdone => (by cases hdone), h⟩
  | aborted _ => exact ⟨fun _ hdone => (by cases hdone), h⟩
  | @replaced slot entry new old hblock hholds hread hpair =>
      have hkey : (k == entry.key) = true :=
        BEq.symm (Scheme.Entry.holds_eq hfaithful.key hholds).symm
      have hslot := lt_of_block? hblock
      have hnew : new.key = k := congrArg Prod.fst hpair
      refine ⟨fun v? hdone => ?_, ?_, ?_⟩
      · cases hdone
        rw [h.find?_of_holds hfaithful hblock hholds, Scheme.Entry.value_eq hfaithful hread]
      · rw [capacity_set]
        refine h.homed.set_some hslot fun j hj hlt => h.homed slot entry hblock j hj ?_
        have hhome := hfaithful.home_eq hkey g.capacity
        rw [hnew, hhome] at hlt
        exact Nat.le_of_lt hlt
      · calc (g.set slot (some new)).blocks.map Scheme.Entry.pair
            _ |>.Perm (new.pair :: (g.set slot none).blocks.map Scheme.Entry.pair) :=
              (blocks_set (some new) hslot).map _
            _ |>.Perm (new.pair :: (d.erase k).entries) :=
              ((Dict.erase_perm (h.entries_of_block? hblock) hkey).symm).cons _
            _ |>.Perm (d.put k v).entries := .of_eq (by rw [hpair, Dict.entries_put])
  | @inserted slot new hsearch hpair =>
      have habsent := h.absent hfaithful hsearch fun _ hfound => by cases hfound
      have hnew : new.key = k := congrArg Prod.fst hpair
      cases hsearch with
      | vacant hslot hnone hpassed =>
          refine ⟨fun v? hdone => ?_, ?_, ?_⟩
          · cases hdone
            exact (Dict.find?_eq_none habsent).symm
          · rw [capacity_set]
            refine h.homed.set_some hslot fun j hj hlt hempty => ?_
            rw [hnew] at hlt
            obtain ⟨entry, hentry, -⟩ := hpassed j hj hlt
            rw [hempty] at hentry
            cases hentry
          · calc (g.set slot (some new)).blocks.map Scheme.Entry.pair
                _ |>.Perm (new.pair :: g.blocks.map Scheme.Entry.pair) :=
                  (blocks_set_vacant new hslot hnone).map _
                _ |>.Perm (new.pair :: d.entries) := h.entries.cons _
                _ |>.Perm (d.put k v).entries :=
                  .of_eq (by rw [Dict.entries_put, Dict.erase_eq_self habsent, hpair])

theorem remove (h : Keeps g d) (hfaithful : scheme.IsFaithful) [EquivBEq κ] (hpos : 0 < g.capacity)
    {torn : Bool} {answer : Except TableError (Option ν)}
    (hchange : RemoveChange scheme g k torn answer g') :
    (∀ v?, answer = .ok v? → v? = d.find? k) ∧
      (torn = false → Keeps g' (d.advance (.remove k) ((Outcome.ofExcept answer).map .value))) := by
  cases hchange with
  | failed _ => exact ⟨fun _ hdone => (by cases hdone), fun _ => h⟩
  | torn _ => exact ⟨fun _ hdone => (by cases hdone), fun htorn => (by cases htorn)⟩
  | missed hsearch hmissing =>
      have habsent := h.absent hfaithful hsearch hmissing
      refine ⟨fun v? hdone => ?_, fun _ => ?_⟩
      · cases hdone
        exact (Dict.find?_eq_none habsent).symm
      · show Keeps g (d.erase k)
        rw [Dict.erase_eq_self habsent]
        exact h
  | @removed slot entry old hblock hholds hread hclosing =>
      have hkey : (k == entry.key) = true :=
        BEq.symm (Scheme.Entry.holds_eq hfaithful.key hholds).symm
      have hslot := lt_of_block? hblock
      obtain ⟨hcap, hblocks⟩ := closeGap_blocks
        (scheme.blockHome g.capacity ∘ Scheme.Entry.block) hslot
      refine ⟨fun v? hdone => ?_, fun _ => ⟨?_, ?_⟩⟩
      · cases hdone
        rw [h.find?_of_holds hfaithful hblock hholds, Scheme.Entry.value_eq hfaithful hread]
      · rw [hcap]
        exact closeGap_homed (hfaithful.homes g.capacity hpos) h.homed hslot hclosing
      · exact (hblocks.map _).trans
          (Dict.erase_perm (h.entries_of_block? hblock) hkey).symm

end Keeps

/-! ## Looking up -/

/-- What a look-up of a key may answer, by the entries alone. -/
inductive Finding (g : Slots scheme.Entry) (k : κ) : Except TableError (Option Block) → Prop where
  | unread {entry : scheme.Entry} {e : TableError} (mem : entry ∈ g.blocks)
      (unread : scheme.decodeKey entry.block = .error e) : Finding g k (.error e)
  | absent (absent : ∀ entry ∈ g.blocks, (k == entry.key) = false) : Finding g k (.ok none)
  | present {entry : scheme.Entry} (mem : entry ∈ g.blocks) (key : (k == entry.key) = true) :
      Finding g k (.ok (some entry.block))

theorem Shows.finding [EquivBEq κ] (h : Shows scheme t g) (hkeeps : Keeps g d)
    (hfaithful : scheme.IsFaithful) (k : κ) : Finding g k (t.find? k) := by
  have hend := Table.find?_findEnd h.slots k
  have hlast := h.searchEnd k
  generalize t.find? k = result at hend
  cases hend with
  | unsearched hsearch =>
      rw [hsearch] at hlast
      cases hlast with
      | failed hblock hunread _ =>
          exact .unread (mem_blocks.mpr ⟨_, hblock⟩) (Scheme.decodeKey_of_holds hunread)
  | missed hsearch hmissing =>
      rw [hsearch] at hlast
      refine .absent fun entry hentry => hkeeps.absent hfaithful hlast hmissing entry.pair ?_
      exact hkeeps.entries.mem_iff.mp (List.mem_map_of_mem hentry)
  | found hsearch =>
      obtain ⟨entry, hblock, hholds⟩ := h.search_found hsearch
      rw [block?_map, hblock]
      have hkey := Scheme.Entry.holds_eq hfaithful.key hholds
      exact .present (mem_blocks.mpr ⟨_, hblock⟩) (BEq.symm hkey.symm)

/-! ## Calls -/

/-- The table is open and stores the entries of `d`. -/
def Stores (scheme : Scheme κ ν) (t : Table κ ν) (d : Dict κ ν) : Prop :=
  ∃ g : Slots scheme.Entry, Shows scheme t g ∧ Keeps g d

theorem stores_ofSizing (scheme : Scheme κ ν) {sizing : Sizing} (h : sizing.validate = .ok ()) :
    Stores scheme (.ofSizing scheme sizing) Dict.empty :=
  ⟨_, shows_ofSizing scheme h, keeps_empty _⟩

/-- The ends of a look-up of a key in a table that stores `d`. -/
inductive Lookup (scheme : Scheme κ ν) (d : Dict κ ν) (k : κ) :
    Except TableError (Option Block) → Prop where
  | failed {e : TableError} (fault : scheme.Fault e) : Lookup scheme d k (.error e)
  | missed (absent : d.find? k = none) : Lookup scheme d k (.ok none)
  | found {entry : scheme.Entry} (present : d.find? k = some entry.value) :
      Lookup scheme d k (.ok (some entry.block))

variable [EquivBEq κ]

namespace Stores

omit [EquivBEq κ] in
theorem length_eq (h : Stores scheme t d) : t.length = .ok d.size := by
  obtain ⟨g, hshows, hkeeps⟩ := h
  rw [hshows.length_eq, hkeeps.length_eq]

omit [EquivBEq κ] in
theorem isClosed_eq (h : Stores scheme t d) : t.isClosed = false := by
  obtain ⟨g, hshows, -⟩ := h
  rw [Table.isClosed, hshows.slots]
  rfl

theorem lookup (h : Stores scheme t d) (hfaithful : scheme.IsFaithful) (k : κ) :
    Lookup scheme d k (t.find? k) := by
  obtain ⟨g, hshows, hkeeps⟩ := h
  have hfinding := hshows.finding hkeeps hfaithful k
  generalize t.find? k = result at hfinding
  cases hfinding with
  | unread _ hunread => exact .failed (.key hunread)
  | absent habsent =>
      refine .missed (Dict.find?_eq_none fun p hp => ?_)
      obtain ⟨entry, hentry, rfl⟩ := List.mem_map.mp (hkeeps.entries.mem_iff.mpr hp)
      exact habsent entry hentry
  | present hmem hkey =>
      exact .found (Dict.find?_of_mem (hkeeps.entries.mem_iff.mp (List.mem_map_of_mem hmem)) hkey)

theorem get (h : Stores scheme t d) (hfaithful : scheme.IsFaithful) {v? : Option ν}
    (hget : t.get k = .ok v?) : v? = d.find? k := by
  have hend := h.lookup hfaithful k
  obtain ⟨g, hshows, -⟩ := h
  rw [Table.get] at hget
  generalize t.find? k = result at hend hget
  cases hend with
  | failed => cases hget
  | missed habsent =>
      cases hget
      exact habsent.symm
  | found hpresent =>
      simp only [hshows.scheme_eq] at hget
      split at hget
      next => cases hget
      next hread =>
        cases hget
        rw [hpresent, Scheme.Entry.value_eq hfaithful hread]

theorem contains (h : Stores scheme t d) (hfaithful : scheme.IsFaithful) {answer : Bool}
    (hcontains : t.contains k = .ok answer) : answer = (d.find? k).isSome := by
  have hend := h.lookup hfaithful k
  rw [Table.contains] at hcontains
  generalize t.find? k = result at hend hcontains
  cases hend with
  | failed => cases hcontains
  | missed habsent =>
      cases hcontains
      rw [habsent]
      rfl
  | found hpresent =>
      cases hcontains
      rw [hpresent]
      rfl

theorem put (h : Stores scheme t d) (hfaithful : scheme.IsFaithful) (k : κ) (v : ν) :
    (∀ v?, (t.put k v).1 = .done v? → v? = d.find? k) ∧
      Stores scheme (t.put k v).2 (d.advance (.put k v) ((t.put k v).1.map .value)) := by
  obtain ⟨g, hshows, hkeeps⟩ := h
  obtain ⟨g₁, g', hadjusted, hshows', hchange⟩ := hshows.put hfaithful.homes k v
  obtain ⟨hanswer, hkeeps'⟩ := (hkeeps.adjusted hadjusted).put hfaithful hchange
  exact ⟨hanswer, g', hshows', hkeeps'⟩

theorem remove (h : Stores scheme t d) (hfaithful : scheme.IsFaithful) (k : κ) :
    (∀ v?, (t.remove k).1 = .ok v? → v? = d.find? k) ∧
      (t.tears k = false → Stores scheme (t.remove k).2
        (d.advance (.remove k) ((Outcome.ofExcept (t.remove k).1).map .value))) := by
  obtain ⟨g, hshows, hkeeps⟩ := h
  obtain ⟨g₁, g', hadjusted, hpos, hshows', hchange⟩ := hshows.remove hfaithful.homes k
  obtain ⟨hanswer, hkeeps'⟩ := (hkeeps.adjusted hadjusted).remove hfaithful hpos hchange
  exact ⟨hanswer, fun htorn => ⟨g', hshows', hkeeps' htorn⟩⟩

omit [EquivBEq κ] in
theorem clear (h : Stores scheme t d) :
    t.clear.1 = .ok () ∧ Stores scheme t.clear.2 Dict.empty := by
  obtain ⟨g, hshows, -⟩ := h
  exact ⟨hshows.clear.1, _, hshows.clear.2, keeps_empty _⟩

omit [EquivBEq κ] in
/-- A call that only asks leaves table and map as they are. -/
theorem asked (h : Stores scheme t d) {c : Call κ ν} (ht : (t.call c).2 = t)
    (hd : (d.call c).2 = d) : Stores scheme (t.call c).2 (d.advance c (t.call c).1) := by
  rw [ht, Dict.advance_of_eq hd]
  exact h

/-- A call that is answered answers for the map, and the table stores the map after the call unless
the call tears. -/
theorem call (h : Stores scheme t d) (hfaithful : scheme.IsFaithful) (c : Call κ ν) :
    (∀ a, (t.call c).1 = .done a → a = (d.call c).1) ∧
      (t.isTorn c = false → Stores scheme (t.call c).2 (d.advance c (t.call c).1)) := by
  cases c with
  | put k v =>
      obtain ⟨hanswer, hstores⟩ := h.put hfaithful k v
      refine ⟨fun a hdone => ?_, fun _ => hstores⟩
      obtain ⟨v?, hv, rfl⟩ := Outcome.map_done hdone
      exact congrArg Answer.value (hanswer v? hv)
  | remove k =>
      obtain ⟨hanswer, hstores⟩ := h.remove hfaithful k
      refine ⟨fun a hdone => ?_, hstores⟩
      obtain ⟨v?, hv, rfl⟩ := Outcome.map_done hdone
      exact congrArg Answer.value (hanswer v? (Outcome.ofExcept_done hv))
  | get k =>
      refine ⟨fun a hdone => ?_, fun _ => h.asked rfl rfl⟩
      obtain ⟨v?, hv, rfl⟩ := Outcome.map_done hdone
      exact congrArg Answer.value (h.get hfaithful (Outcome.ofExcept_done hv))
  | contains k =>
      refine ⟨fun a hdone => ?_, fun _ => h.asked rfl rfl⟩
      obtain ⟨b, hb, rfl⟩ := Outcome.map_done hdone
      exact congrArg Answer.truth (h.contains hfaithful (Outcome.ofExcept_done hb))
  | length =>
      refine ⟨fun a hdone => ?_, fun _ => h.asked rfl rfl⟩
      rw [Table.call, h.length_eq] at hdone
      cases hdone
      rfl
  | isEmpty =>
      refine ⟨fun a hdone => ?_, fun _ => h.asked rfl rfl⟩
      rw [Table.call, Table.isEmpty, h.length_eq] at hdone
      cases hdone
      rfl
  | clear =>
      obtain ⟨hok, hstores⟩ := h.clear
      rw [Table.call, hok]
      refine ⟨fun a hdone => ?_, fun _ => hstores⟩
      cases hdone
      rfl

/-- The induction is on the run, and the map follows the calls that are answered. -/
theorem after (h : Stores scheme t d) (hfaithful : scheme.IsFaithful) (calls : List (Call κ ν))
    (huntorn : t.untorn calls = true) :
    Stores scheme (t.after calls) (d.replay calls (t.answers calls)) := by
  induction calls generalizing t d with
  | nil => exact h
  | cons c cs ih =>
      simp only [Table.untorn, Bool.and_eq_true, Bool.not_eq_true'] at huntorn
      exact ih ((h.call hfaithful c).2 huntorn.1) huntorn.2

end Stores

/-! ## Unreadable entries -/

namespace Table

/-- A run with faithful codecs, in which no removal tears, answers for the map that the answered
calls alone lead to.  So does every further call that is answered.  A key of that map is never
taken for absent. -/
theorem answers_of_faithful (hfaithful : scheme.IsFaithful) {sizing : Sizing}
    (hvalid : sizing.validate = .ok ()) (calls : List (Call κ ν))
    (huntorn : (ofSizing scheme sizing).untorn calls = true) :
    let t := (ofSizing scheme sizing).after calls
    let d := Dict.empty.replay calls ((ofSizing scheme sizing).answers calls)
    t.length = .ok d.size ∧ (∀ c a, (t.call c).1 = .done a → a = (d.call c).1) ∧
      ∀ k, (d.find? k).isSome = true →
        t.get k ≠ .ok none ∧ t.contains k ≠ .ok false ∧
          ∀ v, (t.put k v).1 ≠ .done none ∧ (t.put k v).2.length = t.length := by
  intro t d
  have h : Stores scheme t d := (stores_ofSizing scheme hvalid).after hfaithful calls huntorn
  refine ⟨h.length_eq, fun c a hdone => (h.call hfaithful c).1 a hdone, fun k hk => ?_⟩
  obtain ⟨old, hold⟩ := Option.isSome_iff_exists.mp hk
  refine ⟨fun hget => ?_, fun hcontains => ?_, fun v => ⟨fun hput => ?_, ?_⟩⟩
  · have := h.get hfaithful hget
    rw [hold] at this
    cases this
  · have := h.contains hfaithful hcontains
    rw [hk] at this
    cases this
  · have := (h.put hfaithful k v).1 none hput
    rw [hold] at this
    cases this
  · rw [(h.put hfaithful k v).2.length_eq, h.length_eq]
    cases (t.put k v).1 with
    | done v? => exact congrArg Except.ok (Dict.size_put hold v)
    | failed e => rfl
    | aborted => rfl

/-- Eight slots, which are never fewer. -/
def failingSizing : Sizing := ⟨0x3fe0000000000000, 8, 8⟩

/-- A run on two keys of which one cannot be read once it is stored. -/
def failingCalls : List (Call Bool Bool) :=
  [.put false true, .put true true, .get true, .put false false, .put true true, .remove true,
    .get false]

/-- Both keys are stored, and the one that cannot be read is not taken for absent. -/
theorem answers_of_faithful_failing :
    Scheme.failing.IsFaithful ∧ failingSizing.validate = .ok () ∧
      (ofSizing .failing failingSizing).untorn failingCalls = true ∧
      ((ofSizing .failing failingSizing).after failingCalls).length = .ok 2 ∧
      ((ofSizing .failing failingSizing).after failingCalls).get true ≠ .ok none := by
  have hvalid : failingSizing.validate = .ok () := by decide +kernel
  have huntorn : (ofSizing .failing failingSizing).untorn failingCalls = true := by decide +kernel
  have h := answers_of_faithful Scheme.failing_isFaithful hvalid failingCalls huntorn
  refine ⟨Scheme.failing_isFaithful, hvalid, huntorn, ?_, ?_⟩
  · exact h.1.trans (by decide +kernel)
  · exact (h.2.2 true (by decide +kernel)).1

end Table

end BlockTable
