import BlockTable.Proofs.Table.Acts
import BlockTable.Proofs.Table.Agreement
import BlockTable.Proofs.Table.Lawful

/-!
# The layout of a table

In which slot an entry is depends on the entries that came before it.  Which slots are occupied does
not.  With lawful codecs a table keeps every entry reachable from the home of its key, and the homes
follow from the keys, the hash function and the number of slots.  So two tables that agree in these
three have the same occupied slots (`Stores.sameLayout`), whatever was put, replaced, removed,
cleared and resized on the way.  A search for a key that neither of them has takes the same way in
both.

A key that is put and removed again leaves the keys as they were.  So it leaves no trace in the
layout, as long as the number of slots is the same in the end (`Stores.put_remove`).
-/

namespace BlockTable

open Slots

/-! ## Maps with the same keys -/

namespace Dict

variable {κ ν ν' : Type} [BEq κ]

/-- The map with nothing stored under its keys. -/
def bare (d : Dict κ ν) : Dict κ Unit where
  entries := d.entries.map fun entry => (entry.1, ())
  distinct := List.pairwise_map.mpr d.distinct

theorem find?_bare (d : Dict κ ν) (k : κ) : d.bare.find? k = (d.find? k).map fun _ => () := by
  simp only [find?, bare, List.find?_map, Option.map_map]
  rfl

variable [EquivBEq κ]

theorem absent_of_find? {d : Dict κ ν} {k : κ} (h : d.find? k = none) :
    ∀ entry ∈ d.entries, (k == entry.1) = false := by
  intro entry hentry
  cases hkey : k == entry.1 with
  | false => rfl
  | true =>
      rw [find?_of_mem hentry hkey] at h
      cases h

/-- Equal keys can be put in pairs, so what is the same for equal keys is the same for the keys of
both maps, up to their order. -/
theorem map_key_perm {γ : Type} {f : κ → γ} (hf : ∀ {k k' : κ}, (k == k') = true → f k = f k')
    {a : Dict κ ν} {b : Dict κ ν'} (hkeys : ∀ k, (a.find? k).isSome = (b.find? k).isSome) :
    (a.entries.map fun entry => f entry.1).Perm (b.entries.map fun entry => f entry.1) := by
  have hagrees : Agrees a.bare b.bare := by
    intro k
    have hk := hkeys k
    rw [find?_bare, find?_bare]
    cases ha : a.find? k <;> cases hb : b.find? k <;> simp_all
  obtain ⟨hsize, hholds⟩ := agrees_iff.mp hagrees
  obtain ⟨pairs, hfst, hsnd, halike⟩ := exists_pairs_of_size_eq hsize hholds
  have hpairs : pairs.map (fun pair => f pair.1.1) = pairs.map fun pair => f pair.2.1 :=
    List.map_congr_left fun pair hpair => hf (halike pair hpair).key
  calc a.entries.map (fun entry => f entry.1)
    _ = a.bare.entries.map (fun entry => f entry.1) := by simp [bare]
    _ = pairs.map (fun pair => f pair.1.1) := by rw [← hfst, List.map_map]; rfl
    _ = (pairs.map Prod.snd).map (fun entry => f entry.1) := by rw [hpairs, List.map_map]; rfl
    _ |>.Perm (b.bare.entries.map fun entry => f entry.1) := (hsnd.map _).symm
    _ = b.entries.map (fun entry => f entry.1) := by simp [bare]

end Dict

/-! ## Tables with the same keys -/

variable {κ ν ν' : Type} [BEq κ]

/-- The same slots are occupied, and a search for a key that neither table has ends in the same
way. -/
structure SameLayout (t : Table κ ν) (t' : Table κ ν') : Prop where
  occupied : t.occupied = t'.occupied
  missed : ∀ k s s', t.slots? = some s → t'.slots? = some s' → t.contains k = .ok false →
    t'.contains k = .ok false → t.search s k = t'.search s' k

variable [EquivBEq κ] {scheme : Scheme κ ν} {scheme' : Scheme κ ν'} {t : Table κ ν}
  {t' : Table κ ν'} {d : Dict κ ν} {d' : Dict κ ν'} {g : Slots scheme.Entry} {k : κ}

theorem Stores.contains_eq (h : Stores scheme t d) (hlawful : scheme.IsLawful) (k : κ) :
    t.contains k = .ok (d.find? k).isSome := by
  cases hcontains : t.contains k with
  | ok answer => rw [h.contains hlawful.isFaithful hcontains]
  | error e =>
      rcases h with ⟨g, hshows, -⟩
      have hfind := hshows.find?_ne_error hlawful k
      rw [Table.contains] at hcontains
      split at hcontains
      next herror => exact absurd herror (hfind _)
      next => cases hcontains

/-- A key that the table does not have is not the key of any block. -/
theorem Stores.holds_of_absent (h : Stores scheme t d) (hkeeps : Keeps g d)
    (hlawful : scheme.IsLawful) (habsent : t.contains k = .ok false) :
    ∀ b ∈ (g.map Scheme.Entry.block).blocks, scheme.holds k b = .ok false := by
  intro b hb
  rw [blocks_map] at hb
  rcases List.mem_map.mp hb with ⟨entry, hentry, rfl⟩
  rw [h.contains_eq hlawful, Except.ok.injEq, Option.isSome_eq_false_iff, Option.isNone_iff_eq_none]
    at habsent
  have hmem := hkeeps.entries.mem_iff.mp (List.mem_map_of_mem hentry)
  have hkey : (k == entry.key) = false := Dict.absent_of_find? habsent _ hmem
  rw [Scheme.holds, entry.decodeKey_eq hlawful, ← hkey, BEq.comm]

/-- With one hash function, one number of slots and as many keys at each home, the layout is the
same. -/
theorem Stores.sameLayout (h : Stores scheme t d) (h' : Stores scheme' t' d')
    (hlawful : scheme.IsLawful) (hlawful' : scheme'.IsLawful) (hhash : scheme.hash = scheme'.hash)
    (hcap : t.capacity = t'.capacity)
    (hhomes : ∀ n, (d.entries.map fun entry => scheme.home entry.1 n).Perm
      (d'.entries.map fun entry => scheme'.home entry.1 n)) : SameLayout t t' := by
  obtain ⟨g, hshows, hkeeps⟩ := id h
  obtain ⟨g', hshows', hkeeps'⟩ := id h'
  rw [hshows.capacity_eq, hshows'.capacity_eq] at hcap
  have hperm : (g.blocks.map fun entry => scheme.home entry.key g.capacity).Perm
      (g'.blocks.map fun entry => scheme'.home entry.key g'.capacity) := by
    have hleft := hkeeps.entries.map fun entry => scheme.home entry.1 g.capacity
    have hright := hkeeps'.entries.map fun entry => scheme'.home entry.1 g'.capacity
    rw [List.map_map] at hleft hright
    rw [← hcap] at hright ⊢
    exact hleft.trans ((hhomes _).trans hright.symm)
  have hvacant := hkeeps.homed.block?_eq_none_iff hkeeps'.homed hcap
    (fun entry => scheme.home_lt entry.key hshows.pos)
    (fun entry => scheme'.home_lt entry.key hshows'.pos) hperm
  have hcap' : (g.map Scheme.Entry.block).capacity = (g'.map Scheme.Entry.block).capacity := by
    simp [hcap]
  have hvacant' : ∀ i, (g.map Scheme.Entry.block).block? i = none ↔
      (g'.map Scheme.Entry.block).block? i = none := by
    simp [hvacant]
  refine ⟨?_, fun k s s' hs hs' habsent habsent' => ?_⟩
  · rw [Table.occupied_of_some hshows.slots, Table.occupied_of_some hshows'.slots]
    exact occupied_congr hcap' hvacant'
  · rw [hshows.slots] at hs
    rw [hshows'.slots] at hs'
    cases hs
    cases hs'
    have hhome : scheme.home k (g'.map Scheme.Entry.block).capacity =
        scheme'.home k (g'.map Scheme.Entry.block).capacity := by
      rw [Scheme.home, Scheme.home, hhash]
    rw [Table.search, Table.search, hshows.scheme_eq, hshows'.scheme_eq, hcap', hhome]
    exact search_congr hcap' hvacant' (h.holds_of_absent hkeeps hlawful habsent)
      (h'.holds_of_absent hkeeps' hlawful' habsent') _

/-- A key that is put and removed again leaves the entries as they were. -/
theorem Stores.put_remove (h : Stores scheme t d) (hlawful : scheme.IsLawful)
    (habsent : t.contains k = .ok false) (v : ν) :
    ∃ d', Stores scheme ((t.put k v).2.remove k).2 d' ∧ d'.entries.Perm d.entries := by
  rw [h.contains_eq hlawful, Except.ok.injEq, Option.isSome_eq_false_iff, Option.isNone_iff_eq_none]
    at habsent
  have hkept : d.erase k = d := Dict.erase_eq_self (Dict.absent_of_find? habsent)
  have hremove : ∀ {t₁ : Table κ ν} {d₁ : Dict κ ν}, Stores scheme t₁ d₁ →
      Stores scheme (t₁.remove k).2 (d₁.erase k) := by
    intro t₁ d₁ h₁
    refine (h₁.call_of_lawful hlawful (c := .remove k) ?_).2
    rw [Table.call]
    cases (t₁.remove k).1 <;> simp [Outcome.ofExcept, Outcome.map]
  have hput := (h.put hlawful.isFaithful k v).2
  cases hanswer : (t.put k v).1 with
  | done v? =>
      rw [hanswer] at hput
      refine ⟨_, hremove hput, ?_⟩
      have hperm : (d.put k v).entries.Perm ((k, v) :: (d.erase k).entries) := .refl _
      rw [hkept] at hperm
      exact Dict.erase_perm hperm BEq.rfl
  | failed e | aborted =>
      rw [hanswer] at hput
      exact ⟨_, hremove hput, .of_eq (congrArg _ hkept)⟩

theorem stores_after (hlawful : scheme.IsLawful) {sizing : Sizing}
    (hvalid : sizing.validate = .ok ()) (calls : List (Call κ ν)) :
    ∃ d, Stores scheme ((Table.ofSizing scheme sizing).after calls) d :=
  ⟨_, (stores_ofSizing scheme hvalid).after hlawful.isFaithful calls
    ((shows_ofSizing scheme hvalid).untorn hlawful calls)⟩

namespace Table

/-- Two tables that runs lead to, from valid settings and with lawful codecs and one hash function,
have the same layout if they have the same number of slots and the same keys.  So has a table before
and after an absent key is put and removed, if neither changes the number of slots. -/
theorem layout_eq_of_keys (hlawful : scheme.IsLawful) (hlawful' : scheme'.IsLawful)
    (hhash : scheme.hash = scheme'.hash) {sizing sizing' : Sizing}
    (hvalid : sizing.validate = .ok ()) (hvalid' : sizing'.validate = .ok ())
    (calls : List (Call κ ν)) (calls' : List (Call κ ν')) :
    let t := (ofSizing scheme sizing).after calls
    let t' := (ofSizing scheme' sizing').after calls'
    (t.capacity = t'.capacity → (∀ k, t.contains k = t'.contains k) → SameLayout t t') ∧
    ∀ k v, t.contains k = .ok false → (t.put k v).2.capacity = t.capacity →
      ((t.put k v).2.remove k).2.capacity = (t.put k v).2.capacity →
        SameLayout t ((t.put k v).2.remove k).2 := by
  intro t t'
  obtain ⟨d, h⟩ : ∃ d, Stores scheme t d := stores_after hlawful hvalid calls
  obtain ⟨d', h'⟩ : ∃ d, Stores scheme' t' d := stores_after hlawful' hvalid' calls'
  refine ⟨fun hcap hkeys => ?_, fun k v habsent hadded hremoved => ?_⟩
  · have hsame : ∀ k, (d.find? k).isSome = (d'.find? k).isSome := by
      intro k
      have hk := hkeys k
      rwa [h.contains_eq hlawful, h'.contains_eq hlawful', Except.ok.injEq] at hk
    refine h.sameLayout h' hlawful hlawful' hhash hcap fun n => ?_
    rw [show scheme'.home = scheme.home by funext k n; rw [Scheme.home, Scheme.home, hhash]]
    exact Dict.map_key_perm (fun hk => hlawful.isFaithful.home_eq hk n) hsame
  · obtain ⟨d₁, h₁, hperm⟩ := h.put_remove hlawful habsent v
    exact h.sameLayout h₁ hlawful hlawful rfl (hremoved.trans hadded).symm fun n =>
      (hperm.map _).symm

/-- Three keys whose first home is the last slot, and one that gives way to them. -/
def turningCalls : List (Call (BitVec 8) Bool) :=
  [.put 7 true, .put 15 true, .put 23 true, .put 0 true, .remove 15]

/-- The keys that are left, in the opposite order and over two resizes. -/
def turningBackCalls : List (Call (BitVec 8) Bool) :=
  [.put 0 true, .put 23 true, .put 7 true, .remove 9]

/-- The entries are in different slots, but the slots are the same. -/
theorem layout_eq_of_keys_turning :
    let t := (ofSizing .spreading ⟨0x3fe8000000000000, 8, 8⟩).after turningCalls
    let t' := (ofSizing .spreading ⟨0x3fe0000000000000, 2, 1⟩).after turningBackCalls
    Scheme.spreading.IsLawful ∧ t.capacity = 8 ∧ t'.capacity = 8 ∧
      (∀ k, t.contains k = t'.contains k) ∧ t.blocks ≠ t'.blocks ∧ t.occupied = [0, 1, 7] ∧
      SameLayout t t' ∧ SameLayout t ((t.put 31 true).2.remove 31).2 := by
  intro t t'
  have hcap : t.capacity = 8 := by decide +kernel
  have hcap' : t'.capacity = 8 := by decide +kernel
  have hkeys : ∀ k, t.contains k = t'.contains k := by decide +kernel
  have hvalid : Sizing.validate ⟨0x3fe8000000000000, 8, 8⟩ = .ok () := by decide +kernel
  have hvalid' : Sizing.validate ⟨0x3fe0000000000000, 2, 1⟩ = .ok () := by decide +kernel
  have h := layout_eq_of_keys Scheme.spreading_isLawful Scheme.spreading_isLawful rfl hvalid hvalid'
    turningCalls turningBackCalls
  refine ⟨Scheme.spreading_isLawful, hcap, hcap', hkeys, by decide +kernel, by decide +kernel,
    h.1 (hcap.trans hcap'.symm) hkeys, ?_⟩
  exact h.2 31 true (by decide +kernel) (by decide +kernel) (by decide +kernel)

end Table

end BlockTable
