import BlockTable.Proofs.Table.Dict

/-!
# Maps that agree

Two finite maps *agree* when they have the same keys with equal values.  To compare them entry by
entry it is enough to look one way.  If the entries of one map are all held by another one, they can
be put in pairs with entries of it (`exists_pairs`), for no two of them have the same key.  If the
other map is not larger, nothing of it is left over, and the maps agree (`agrees_iff`).

The pairs also carry over whatever is the same for equal entries, such as a sum of hashes
(`foldl_add_eq`).
-/

namespace BlockTable

/-- Optional values are compared as the values are. -/
instance equivBEqOption {α : Type} [BEq α] [EquivBEq α] : EquivBEq (Option α) where
  symm {a b} h := by
    cases a with
    | none =>
        cases b with
        | none => rfl
        | some y => cases h
    | some x =>
        cases b with
        | none => cases h
        | some y =>
            rw [Option.some_beq_some] at h ⊢
            exact BEq.symm h
  trans {a b c} h h' := by
    cases b with
    | none =>
        cases a with
        | none => exact h'
        | some x => cases h
    | some y =>
        cases a with
        | none => cases h
        | some x =>
            cases c with
            | none => cases h'
            | some z =>
                rw [Option.some_beq_some] at h h' ⊢
                exact BEq.trans h h'

namespace Dict

variable {κ ν : Type} [BEq κ] [BEq ν] {a b c : Dict κ ν}

/-- The map has an entry with an equal key and an equal value. -/
def Holds (d : Dict κ ν) (entry : κ × ν) : Prop :=
  ∃ v, d.find? entry.1 = some v ∧ (v == entry.2) = true

/-- The same keys, with equal values. -/
def Agrees (a b : Dict κ ν) : Prop := ∀ k, (a.find? k == b.find? k) = true

/-- An entry and one with an equal key and an equal value. -/
structure Alike (entry other : κ × ν) : Prop where
  key : (entry.1 == other.1) = true
  value : (other.2 == entry.2) = true

/-! ## Pairs of entries -/

variable [EquivBEq κ]

/-- Entries with pairwise different keys that a map holds can be put in pairs with entries of the
map.  The induction is on these entries, and each takes its partner out of the map. -/
theorem exists_pairs (entries : List (κ × ν))
    (hdistinct : entries.Pairwise fun x y => (x.1 == y.1) = false) (b : Dict κ ν)
    (hholds : ∀ entry ∈ entries, b.Holds entry) :
    ∃ (pairs : List ((κ × ν) × (κ × ν))) (rest : List (κ × ν)), pairs.map Prod.fst = entries ∧
      b.entries.Perm (pairs.map Prod.snd ++ rest) ∧ ∀ pair ∈ pairs, Alike pair.1 pair.2 := by
  induction entries generalizing b with
  | nil => exact ⟨[], b.entries, rfl, .refl _, fun _ hmem => by cases hmem⟩
  | cons entry entries ih =>
      obtain ⟨hother, hdistinct⟩ := List.pairwise_cons.mp hdistinct
      obtain ⟨v, hfind, hvalue⟩ := hholds entry (List.mem_cons_self ..)
      obtain ⟨k, others, hkey, hperm⟩ := exists_perm_of_find? hfind
      have hleft : ∀ x ∈ entries, (b.erase entry.1).Holds x := by
        intro x hx
        obtain ⟨w, hw, hwvalue⟩ := hholds x (List.mem_cons_of_mem _ hx)
        exact ⟨w, (find?_erase_of_ne (hother x hx)).trans hw, hwvalue⟩
      obtain ⟨pairs, rest, hfst, hsnd, halike⟩ := ih hdistinct (b.erase entry.1) hleft
      refine ⟨(entry, (k, v)) :: pairs, rest, ?_, ?_, ?_⟩
      · rw [List.map_cons, hfst]
      · exact hperm.trans (((erase_perm hperm hkey).symm.trans hsnd).cons _)
      · exact List.forall_mem_cons.mpr ⟨⟨hkey, hvalue⟩, halike⟩

/-- A map is not smaller than one whose entries it holds. -/
theorem size_le_of_holds (h : ∀ entry ∈ a.entries, b.Holds entry) : a.size ≤ b.size := by
  obtain ⟨pairs, rest, hfst, hsnd, -⟩ := exists_pairs a.entries a.distinct b h
  rw [size, size, ← hfst, hsnd.length_eq, List.length_append, List.length_map, List.length_map]
  exact Nat.le_add_right _ _

/-- When it is not larger either, nothing is left over. -/
theorem exists_pairs_of_size_eq (hsize : a.size = b.size)
    (h : ∀ entry ∈ a.entries, b.Holds entry) :
    ∃ pairs : List ((κ × ν) × (κ × ν)), pairs.map Prod.fst = a.entries ∧
      b.entries.Perm (pairs.map Prod.snd) ∧ ∀ pair ∈ pairs, Alike pair.1 pair.2 := by
  obtain ⟨pairs, rest, hfst, hsnd, halike⟩ := exists_pairs a.entries a.distinct b h
  have hrest : rest = [] := by
    have hlen := hsnd.length_eq
    rw [size, size, ← hfst, List.length_map] at hsize
    rw [List.length_append, List.length_map, ← hsize] at hlen
    exact List.eq_nil_of_length_eq_zero (by omega)
  rw [hrest, List.append_nil] at hsnd
  exact ⟨pairs, hfst, hsnd, halike⟩

/-- A sum over entries does not depend on their order. -/
theorem foldl_add_perm {α : Type} (f : α → UInt64) {l l' : List α} (h : l.Perm l') :
    l.foldl (fun sum x => sum + f x) 0 = l'.foldl (fun sum x => sum + f x) 0 := by
  refine h.foldl_eq' (fun x _ y _ sum => ?_) 0
  rw [UInt64.add_assoc, UInt64.add_comm (f x), UInt64.add_assoc]

/-- Equal entries count the same in a sum. -/
theorem foldl_add_eq (f : κ × ν → UInt64) (hf : ∀ {x y}, Alike x y → f x = f y)
    (hsize : a.size = b.size) (h : ∀ entry ∈ a.entries, b.Holds entry) :
    a.entries.foldl (fun sum x => sum + f x) 0 = b.entries.foldl (fun sum x => sum + f x) 0 := by
  obtain ⟨pairs, hfst, hsnd, halike⟩ := exists_pairs_of_size_eq hsize h
  have hmap : pairs.map (fun pair => f pair.1) = pairs.map fun pair => f pair.2 :=
    List.map_congr_left fun pair hpair => hf (halike pair hpair)
  calc a.entries.foldl (fun sum x => sum + f x) 0
    _ = (pairs.map fun pair => f pair.1).foldl (· + ·) 0 := by
      rw [← hfst, List.foldl_map, List.foldl_map]
    _ = (pairs.map fun pair => f pair.2).foldl (· + ·) 0 := by rw [hmap]
    _ = (pairs.map Prod.snd).foldl (fun sum x => sum + f x) 0 := by
      rw [List.foldl_map, List.foldl_map]
    _ = b.entries.foldl (fun sum x => sum + f x) 0 := foldl_add_perm f hsnd.symm

/-! ## Agreement -/

variable [EquivBEq ν]

/-- Every entry that is held has a partner, so the other map holds these in turn. -/
theorem holds_of_size_eq (hsize : a.size = b.size) (h : ∀ entry ∈ a.entries, b.Holds entry) :
    ∀ entry ∈ b.entries, a.Holds entry := by
  intro entry hentry
  obtain ⟨pairs, hfst, hsnd, halike⟩ := exists_pairs_of_size_eq hsize h
  obtain ⟨pair, hpair, rfl⟩ := List.mem_map.mp (hsnd.mem_iff.mp hentry)
  have hmem : pair.1 ∈ a.entries := hfst ▸ List.mem_map_of_mem hpair
  have hpairs := halike pair hpair
  exact ⟨pair.1.2, find?_of_mem hmem (BEq.symm hpairs.key), BEq.symm hpairs.value⟩

namespace Agrees

omit [EquivBEq κ] in
theorem refl (a : Dict κ ν) : Agrees a a := fun _ => BEq.rfl

omit [EquivBEq κ] in
theorem symm (h : Agrees a b) : Agrees b a := fun k => BEq.symm (h k)

omit [EquivBEq κ] in
theorem trans (h : Agrees a b) (h' : Agrees b c) : Agrees a c := fun k => BEq.trans (h k) (h' k)

theorem holds (h : Agrees a b) : ∀ entry ∈ a.entries, b.Holds entry := by
  intro entry hentry
  have hk := h entry.1
  rw [find?_of_mem hentry BEq.rfl] at hk
  cases hb : b.find? entry.1 with
  | none => rw [hb] at hk; cases hk
  | some v =>
      rw [hb, Option.some_beq_some] at hk
      exact ⟨v, hb, BEq.symm hk⟩

end Agrees

/-- Maps of one size agree as soon as one of them holds the entries of the other. -/
theorem agrees_iff : Agrees a b ↔ a.size = b.size ∧ ∀ entry ∈ a.entries, b.Holds entry := by
  constructor
  · intro h
    exact ⟨Nat.le_antisymm (size_le_of_holds h.holds) (size_le_of_holds h.symm.holds), h.holds⟩
  · rintro ⟨hsize, h⟩ k
    cases ha : a.find? k with
    | some v =>
        obtain ⟨k', hkey, hmem⟩ := exists_mem_of_find? ha
        obtain ⟨w, hw, hvalue⟩ := h _ hmem
        rw [find?_congr b hkey, hw, Option.some_beq_some]
        exact BEq.symm hvalue
    | none =>
        cases hb : b.find? k with
        | none => rfl
        | some w =>
            obtain ⟨k', hkey, hmem⟩ := exists_mem_of_find? hb
            obtain ⟨v, hv, -⟩ := holds_of_size_eq hsize h _ hmem
            rw [find?_congr a hkey, hv] at ha
            cases ha

/-! ## Contents of tables -/

/-- Maps that agree, or no map on either side. -/
def SameContents : Option (Dict κ ν) → Option (Dict κ ν) → Prop
  | some a, some b => Agrees a b
  | none, none => True
  | some _, none | none, some _ => False

namespace SameContents

variable {a? b? c? : Option (Dict κ ν)}

omit [EquivBEq κ]

theorem refl : (a? : Option (Dict κ ν)) → SameContents a? a?
  | some a => Agrees.refl a
  | none => trivial

theorem symm (h : SameContents a? b?) : SameContents b? a? :=
  match a?, b?, h with
  | some _, some _, h => Agrees.symm h
  | none, none, _ => trivial

theorem trans (h : SameContents a? b?) (h' : SameContents b? c?) : SameContents a? c? :=
  match a?, b?, c?, h, h' with
  | some _, some _, some _, h, h' => Agrees.trans h h'
  | none, none, none, _, _ => trivial

end SameContents

end Dict

end BlockTable
