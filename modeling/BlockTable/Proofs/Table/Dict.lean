import BlockTable.Proofs.Table.Calls

/-!
# Finite maps

What a table stands for: entries with pairwise different keys, in no particular order, and the
calls on them.  A `put` takes the key with the value, so it is the key stored last that an entry
shows.

The entries are a list, and what is said of them is said up to `List.Perm`.  The lemmas say how
the entry of a key is found (`find?_of_perm`) and taken out (`erase_perm`) in any order of the
list.
-/

namespace BlockTable

/-- Entries with pairwise different keys. -/
structure Dict (κ ν : Type) [BEq κ] where
  entries : List (κ × ν)
  distinct : entries.Pairwise fun a b => (a.1 == b.1) = false

namespace Dict

variable {κ ν : Type} [BEq κ]

def empty : Dict κ ν := ⟨[], .nil⟩

def size (d : Dict κ ν) : Nat := d.entries.length

/-- The value of a key. -/
def find? (d : Dict κ ν) (k : κ) : Option ν := (d.entries.find? (k == ·.1)).map Prod.snd

/-- Everything but the entry of a key. -/
def erase (d : Dict κ ν) (k : κ) : Dict κ ν where
  entries := d.entries.filter fun entry => !(k == entry.1)
  distinct := d.distinct.filter _

/-- The entry of a key taken out, if there is one, and a new one added. -/
def put (d : Dict κ ν) (k : κ) (v : ν) : Dict κ ν where
  entries := (k, v) :: (d.erase k).entries
  distinct := by
    refine List.pairwise_cons.mpr ⟨fun entry h => ?_, (d.erase k).distinct⟩
    simpa using (List.mem_filter.mp h).2

theorem entries_put (d : Dict κ ν) (k : κ) (v : ν) :
    (d.put k v).entries = (k, v) :: (d.erase k).entries := rfl

/-! ## Calls -/

/-- The answer of a call and the map after it. -/
def call (d : Dict κ ν) : Call κ ν → Answer ν × Dict κ ν
  | .put k v => (.value (d.find? k), d.put k v)
  | .get k => (.value (d.find? k), d)
  | .contains k => (.truth (d.find? k).isSome, d)
  | .remove k => (.value (d.find? k), d.erase k)
  | .length => (.count d.size, d)
  | .isEmpty => (.truth (d.size == 0), d)
  | .clear => (.nothing, empty)

/-- The map after a run. -/
def after (d : Dict κ ν) : List (Call κ ν) → Dict κ ν
  | [] => d
  | c :: cs => (d.call c).2.after cs

/-- The answers of a run. -/
def answers (d : Dict κ ν) : List (Call κ ν) → List (Answer ν)
  | [] => []
  | c :: cs => (d.call c).1 :: (d.call c).2.answers cs

/-- The map after a call that counts only if it was answered. -/
def advance (d : Dict κ ν) (c : Call κ ν) : Outcome (Answer ν) → Dict κ ν
  | .done _ => (d.call c).2
  | .failed _ | .aborted => d

/-- The map after the calls of a run that were answered. -/
def replay (d : Dict κ ν) : List (Call κ ν) → List (Outcome (Answer ν)) → Dict κ ν
  | c :: cs, answer :: rest => (d.advance c answer).replay cs rest
  | _, _ => d

theorem advance_of_eq {d : Dict κ ν} {c : Call κ ν} (h : (d.call c).2 = d)
    (answer : Outcome (Answer ν)) : d.advance c answer = d := by
  cases answer with
  | done a => exact h
  | failed e => rfl
  | aborted => rfl

/-! ## The entry of a key -/

variable {d : Dict κ ν} {k k' : κ} {v : ν} {rest : List (κ × ν)}

theorem exists_mem_of_find? (h : d.find? k = some v) :
    ∃ k', (k == k') = true ∧ (k', v) ∈ d.entries := by
  obtain ⟨⟨k', v'⟩, hentry, rfl⟩ := Option.map_eq_some_iff.mp h
  have hkey := List.find?_some hentry
  exact ⟨k', hkey, List.mem_of_find?_eq_some hentry⟩

/-- The entry that a key is found in, and all others. -/
theorem exists_perm_of_find? (h : d.find? k = some v) :
    ∃ k' rest, (k == k') = true ∧ d.entries.Perm ((k', v) :: rest) := by
  obtain ⟨k', hkey, hentry⟩ := exists_mem_of_find? h
  obtain ⟨before, behind, hsplit⟩ := List.append_of_mem hentry
  exact ⟨k', before ++ behind, hkey, hsplit ▸ List.perm_middle⟩

theorem find?_eq_none (h : ∀ entry ∈ d.entries, (k == entry.1) = false) : d.find? k = none := by
  rw [find?, Option.map_eq_none_iff, List.find?_eq_none]
  intro entry hentry
  simp [h entry hentry]

theorem erase_eq_self (h : ∀ entry ∈ d.entries, (k == entry.1) = false) : d.erase k = d := by
  have hentries : (d.erase k).entries = d.entries := by
    refine List.filter_eq_self.mpr fun entry hentry => ?_
    rw [h entry hentry]
    rfl
  cases d with
  | mk entries distinct =>
      simp only [erase, mk.injEq]
      exact hentries

variable [EquivBEq κ]

/-- In any order of the entries, the keys of two of them differ. -/
theorem pairwise_of_perm {entries : List (κ × ν)} (h : entries.Perm d.entries) :
    entries.Pairwise fun a b => (a.1 == b.1) = false := by
  refine (h.pairwise_iff fun {a b} hab => ?_).mpr d.distinct
  rw [BEq.comm]
  exact hab

/-- Another entry has another key. -/
theorem beq_eq_false_of_perm (h : d.entries.Perm ((k', v) :: rest)) (hk : (k == k') = true) :
    ∀ entry ∈ rest, (k == entry.1) = false := by
  intro entry hentry
  have hne := (List.pairwise_cons.mp (pairwise_of_perm h.symm)).1 entry hentry
  rw [BEq.congr_left hk]
  exact hne

theorem find?_of_perm (h : d.entries.Perm ((k', v) :: rest)) (hk : (k == k') = true) :
    d.find? k = some v := by
  have hrest := beq_eq_false_of_perm h hk
  rw [find?]
  cases hfound : d.entries.find? (k == ·.1) with
  | none =>
      have := List.find?_eq_none.mp hfound (k', v) (h.mem_iff.mpr (List.mem_cons_self ..))
      exact absurd hk this
  | some entry =>
      have hentry := List.find?_some hfound
      cases List.mem_cons.mp (h.mem_iff.mp (List.mem_of_find?_eq_some hfound)) with
      | inl heq => rw [heq]; rfl
      | inr hmem =>
          rw [hrest entry hmem] at hentry
          cases hentry

theorem erase_perm (h : d.entries.Perm ((k', v) :: rest)) (hk : (k == k') = true) :
    (d.erase k).entries.Perm rest := by
  have hrest := beq_eq_false_of_perm h hk
  refine (h.filter _).trans ?_
  rw [List.filter_cons, hk, if_neg (by decide)]
  refine .of_eq (List.filter_eq_self.mpr fun entry hentry => ?_)
  rw [hrest entry hentry]
  rfl

theorem find?_of_mem (h : (k', v) ∈ d.entries) (hk : (k == k') = true) : d.find? k = some v := by
  obtain ⟨before, behind, hsplit⟩ := List.append_of_mem h
  have hperm : d.entries.Perm ((k', v) :: (before ++ behind)) := hsplit ▸ List.perm_middle
  exact find?_of_perm hperm hk

theorem find?_congr (d : Dict κ ν) (h : (k == k') = true) : d.find? k = d.find? k' := by
  have hsame : (fun entry : κ × ν => k == entry.1) = (k' == ·.1) :=
    funext fun entry => BEq.congr_left h
  rw [find?, hsame, find?]

/-- Taking out the entry of a key leaves those of other keys. -/
theorem find?_erase_of_ne (h : (k == k') = false) : (d.erase k).find? k' = d.find? k' := by
  have hsame : (fun entry : κ × ν => decide ((!(k == entry.1)) = true ∧ (k' == entry.1) = true)) =
      (k' == ·.1) := by
    funext entry
    cases hentry : k' == entry.1 with
    | false => simp
    | true => simp [← BEq.congr_right hentry, h]
  rw [find?, erase, List.find?_filter, hsame, find?]

/-- Storing under a key that is present adds no entry. -/
theorem size_put (h : d.find? k = some v) (v' : ν) : (d.put k v').size = d.size := by
  obtain ⟨k', rest, hkey, hperm⟩ := exists_perm_of_find? h
  have hrest := (erase_perm hperm hkey).length_eq
  rw [size, size, entries_put, List.length_cons, hrest, hperm.length_eq, List.length_cons]

end Dict

end BlockTable
