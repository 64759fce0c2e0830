import BlockTable.Proofs.Settling
import BlockTable.Proofs.Table.Conservation
import BlockTable.Proofs.Table.Resizing

/-!
# Calls that keep the size

A table looks at its load whenever an entry is stored or removed, also if the call then changes
nothing.  So a table that keeps its entries can still be resized, again and again.  Each of the
calls of a `Steady` sequence changes the number of slots to the one that the load asks for, and
that settles (`Sizing.exists_phases`).

Removing keys that the table does not have is such a sequence.  A resize only moves the blocks, so
the keys stay absent (`Shows.afterFirst_removals`).
-/

namespace BlockTable

open Slots

variable {κ ν : Type} {scheme : Scheme κ ν} {t t' : Table κ ν} {g : Slots scheme.Entry}
  {k : κ}

/-- The call begins with a look at the load. -/
def Call.adjusts : Call κ ν → Bool
  | .put _ _ | .remove _ => true
  | .get _ | .contains _ | .length | .isEmpty | .clear => false

namespace Table

/-- The key of every block can be read. -/
def Readable (t : Table κ ν) : Prop := ∀ b ∈ t.blocks, ∃ k, t.scheme.decodeKey b = .ok k

variable [BEq κ]

/-- No block holds the key, and the key of every block can be read. -/
def Lacks (t : Table κ ν) (k : κ) : Prop := ∀ b ∈ t.blocks, t.scheme.holds k b = .ok false

/-- The table after the first `i` calls of a sequence. -/
def afterFirst (t : Table κ ν) (calls : Nat → Call κ ν) (i : Nat) : Table κ ν :=
  t.after ((List.range i).map calls)

theorem after_concat (t : Table κ ν) (calls : List (Call κ ν)) (c : Call κ ν) :
    t.after (calls ++ [c]) = ((t.after calls).call c).2 := by
  induction calls generalizing t with
  | nil => rfl
  | cons first rest ih => exact ih (t.call first).2

theorem afterFirst_succ (t : Table κ ν) (calls : Nat → Call κ ν) (i : Nat) :
    t.afterFirst calls (i + 1) = ((t.afterFirst calls i).call (calls i)).2 := by
  rw [afterFirst, List.range_succ, List.map_append]
  exact t.after_concat _ _

/-- The calls look at the load and keep the size, and the keys can be read all the time. -/
structure Steady (t : Table κ ν) (calls : Nat → Call κ ν) : Prop where
  adjusts : ∀ i, (calls i).adjusts = true
  size : ∀ i, (t.afterFirst calls i).size = t.size
  readable : ∀ i, (t.afterFirst calls i).Readable

theorem Lacks.readable (h : t.Lacks k) : t.Readable := by
  intro b hb
  have hholds := h b hb
  rw [Scheme.holds] at hholds
  split at hholds
  next => cases hholds
  next stored hstored => exact ⟨stored, hstored⟩

/-- The same blocks in other slots hold the same keys. -/
theorem Lacks.of_perm (h : t.Lacks k) (hscheme : t'.scheme = t.scheme)
    (hperm : t'.blocks.Perm t.blocks) : t'.Lacks k := by
  intro b hb
  rw [hscheme]
  exact h b (hperm.mem_iff.mp hb)

theorem Lacks.exists_search {s : Slots Block} (h : t.Lacks k) (hs : t.slots? = some s) :
    ∃ last, t.search s k = .ok last ∧ ∀ slot, last ≠ .found slot := by
  have habsent : ∀ b ∈ s.blocks, t.scheme.holds k b = .ok false := by
    rw [← blocks_of_some hs]
    exact h
  rw [search, Slots.search, searchFrom_of_absent habsent]
  cases s.vacantFrom s.capacity (t.scheme.home k s.capacity) with
  | none => exact ⟨.full, rfl, fun slot h => by cases h⟩
  | some i => exact ⟨.vacant i, rfl, fun slot h => by cases h⟩

end Table

namespace Shows

/-! ## Single calls -/

/-- If every key can be read, a resize goes through. -/
theorem adjust_of_readable (h : Shows scheme t g) (hreads : t.Readable) :
    t.adjust.1 = .ok () ∧ t.adjust.2.capacity = t.wanted t.capacity := by
  rw [Table.capacity_of_some h.slots]
  have hend := h.resizeEnd h.slots
  generalize t.adjust = result at hend
  cases hend with
  | kept hfits => exact ⟨rfl, (Table.capacity_of_some h.slots).trans hfits.symm⟩
  | failed _ hb hunread =>
      rw [← Table.blocks_of_some h.slots] at hb
      obtain ⟨k, hk⟩ := hreads _ hb
      rw [hk] at hunread
      cases hunread
  | resized _ hresized =>
      rw [hresized.table]
      exact ⟨rfl, hresized.capacity⟩

variable [BEq κ]

/-- Behind the resize a call keeps the number of slots. -/
theorem capacity_call (h : Shows scheme t g) {c : Call κ ν} (hc : c.adjusts = true) :
    (t.call c).2.capacity = t.adjust.2.capacity := by
  cases c with
  | get | contains | length | isEmpty | clear => cases hc
  | put k v =>
      obtain ⟨e, hadjust⟩ | ⟨t', g', hadjust, h', -⟩ := h.adjust_cases
      · rw [Table.call, Table.put_of_adjust_error hadjust, hadjust]
      · rw [hadjust]
        exact ((Table.put_putEnd hadjust h'.slots k v).slots h'.slots).1
  | remove k =>
      obtain ⟨e, hadjust⟩ | ⟨t', g', hadjust, h', -⟩ := h.adjust_cases
      · rw [Table.call, Table.remove_of_adjust_error hadjust, hadjust]
      · have hend := (Table.remove_removeEnd hadjust h'.slots k).takeEnd h'.slots h'.slots_pos
        rw [Table.call, hadjust]
        generalize t.remove k = result at hend
        generalize t'.readable? k = taken at hend
        cases hend with
        | kept => rfl
        | took hblock =>
            rw [Table.capacity_of_some h'.slots]
            exact (closeGap_blocks _ (lt_of_block? hblock)).1

/-- A key that is not there is not removed, but the table is resized. -/
theorem remove_of_lacks (h : Shows scheme t g) (hlacks : t.Lacks k) :
    (t.remove k).1 = .ok none ∧ (t.remove k).2.blocks.Perm t.blocks := by
  obtain ⟨hok, -⟩ := h.adjust_of_readable hlacks.readable
  obtain ⟨e, hadjust⟩ | ⟨t', g', hadjust, h', hperm, -⟩ := h.adjust_cases
  · rw [hadjust] at hok
    cases hok
  · have hlacks' : t'.Lacks k := hlacks.of_perm (h'.scheme_eq.trans h.scheme_eq.symm) hperm
    obtain ⟨last, hsearch, hmissing⟩ := hlacks'.exists_search h'.slots
    have hend := Table.remove_removeEnd hadjust h'.slots k
    generalize t.remove k = result at hend
    generalize t.tears k = torn at hend
    cases hend with
    | missed => exact ⟨rfl, hperm⟩
    | unsearched herror =>
        rw [hsearch] at herror
        cases herror
    | unread hfound | removed hfound | torn hfound =>
        rw [hsearch] at hfound
        cases hfound
        exact absurd rfl (hmissing _)

/-! ## Sequences -/

/-- Every part of a sequence leaves a table of entries. -/
theorem afterFirst (h : Shows scheme t g) (calls : Nat → Call κ ν) (i : Nat) :
    ∃ g', Shows scheme (t.afterFirst calls i) g' :=
  Table.after_preserves (P := fun t => ∃ g, Shows scheme t g) (fun _ c ⟨_, h⟩ => h.call c) _ t
    ⟨g, h⟩

/-- The next number of slots is the one that the load asks for. -/
theorem capacity_afterFirst_succ (h : Shows scheme t g) {calls : Nat → Call κ ν}
    (hsteady : t.Steady calls) (i : Nat) :
    (t.afterFirst calls (i + 1)).capacity =
      Sizing.nextCapacity t.loadFactor t.minCapacity t.size (t.afterFirst calls i).capacity := by
  obtain ⟨g', h'⟩ := h.afterFirst calls i
  obtain ⟨hload, hmin⟩ : (t.afterFirst calls i).loadFactor = t.loadFactor ∧
    (t.afterFirst calls i).minCapacity = t.minCapacity := t.after_settings _
  rw [Table.afterFirst_succ, h'.capacity_call (hsteady.adjusts i),
    (h'.adjust_of_readable (hsteady.readable i)).2, Table.wanted, hload, hmin, hsteady.size]

/-- Removing keys that are not there moves the blocks at most. -/
theorem afterFirst_removals (h : Shows scheme t g) {ks : Nat → κ} (hlacks : ∀ i, t.Lacks (ks i))
    (i : Nat) : (t.afterFirst (fun i => .remove (ks i)) i).blocks.Perm t.blocks ∧
      (t.afterFirst (fun i => .remove (ks i)) i).Lacks (ks i) := by
  induction i with
  | zero => exact ⟨.refl _, hlacks 0⟩
  | succ i ih =>
      obtain ⟨g₁, h₁⟩ := h.afterFirst (fun i => .remove (ks i)) i
      obtain ⟨g₂, h₂⟩ := h.afterFirst (fun i => .remove (ks i)) (i + 1)
      have hperm := (h₁.remove_of_lacks ih.2).2.trans ih.1
      rw [Table.afterFirst_succ] at h₂ ⊢
      exact ⟨hperm, (hlacks (i + 1)).of_perm (h₂.scheme_eq.trans h.scheme_eq.symm) hperm⟩

end Shows

namespace Table

variable [BEq κ]

/-- On every table that a run leads to, from valid settings: removing keys that it does not have
keeps its size and looks at its load each time.  Under all calls that do so, while every key can be
read, the number of slots is halved finitely often, then doubled finitely often, and then it stays.
The load is then within its bounds, or there are too few slots to be halved. -/
theorem capacity_settles (scheme : Scheme κ ν) {sizing : Sizing} (hvalid : sizing.validate = .ok ())
    (calls : List (Call κ ν)) :
    let t := (ofSizing scheme sizing).after calls
    (∀ ks : Nat → κ, (∀ i, t.Lacks (ks i)) → t.Steady (fun i => .remove (ks i)) ∧
      ∀ i, ((t.afterFirst (fun i => .remove (ks i)) i).remove (ks i)).1 = .ok none) ∧
    ∀ ops, t.Steady ops → (∀ i, 0 < (t.afterFirst ops i).capacity) ∧
      ∃ halvings doublings,
        Phases (fun i => (t.afterFirst ops i).capacity) halvings doublings ∧
        let last := (t.afterFirst ops (halvings + doublings)).capacity
        Sizing.isCrowded sizing.loadFactor t.size last = false ∧
        (Sizing.isSparse sizing.loadFactor t.size last = true → last / 2 ≤ sizing.minCapacity) := by
  intro t
  obtain ⟨g, h⟩ : ∃ g, Shows scheme t g := shows_after scheme hvalid calls
  obtain ⟨hpos, hlf, -, -⟩ := Sizing.validate_ok hvalid
  obtain ⟨hload, hmin⟩ : t.loadFactor = sizing.loadFactor ∧ t.minCapacity = sizing.minCapacity :=
    after_settings _ calls
  refine ⟨fun ks hlacks => ?_, fun ops hsteady => ?_⟩
  · have hremovals := h.afterFirst_removals hlacks
    have hshows := h.afterFirst fun i => .remove (ks i)
    refine ⟨⟨fun _ => rfl, fun i => ?_, fun i => (hremovals i).2.readable⟩, fun i => ?_⟩
    · obtain ⟨g', h'⟩ := hshows i
      rw [h'.size_eq, h.size_eq, (hremovals i).1.length_eq]
    · obtain ⟨g', h'⟩ := hshows i
      exact (h'.remove_of_lacks (hremovals i).2).1
  · have hcapacity : ∀ i, 0 < (t.afterFirst ops i).capacity := by
      intro i
      obtain ⟨g', h'⟩ := h.afterFirst ops i
      rw [h'.capacity_eq]
      exact h'.pos
    have hnext : ∀ i, (t.afterFirst ops (i + 1)).capacity = Sizing.nextCapacity sizing.loadFactor
        sizing.minCapacity t.size (t.afterFirst ops i).capacity := by
      intro i
      rw [h.capacity_afterFirst_succ hsteady, hload, hmin]
    obtain ⟨halvings, doublings, hphases⟩ := Sizing.exists_phases
      (c := fun i => (t.afterFirst ops i).capacity) hpos hlf hnext (hcapacity 0)
    refine ⟨hcapacity, halvings, doublings, hphases, ?_⟩
    have hkept := hphases.kept _ (Nat.le_refl _)
    exact (Sizing.nextCapacity_eq_self_iff (hcapacity _)).mp ((hnext _).symm.trans hkept)

/-- Five slots with two entries are halved, which makes them crowded, so they are doubled. -/
theorem capacity_settles_odd :
    let t := (ofSizing .crowding tightSizing).after [.put 1 true, .put 2 true]
    let capacityAfter := fun i => (t.afterFirst (fun _ => .remove 3) i).capacity
    capacityAfter 0 = 5 ∧ capacityAfter 1 = 2 ∧ ∀ i, 2 ≤ i → capacityAfter i = 4 := by
  intro t capacityAfter
  have hvalid : tightSizing.validate = .ok () := by decide +kernel
  have hlacks : t.Lacks 3 := by
    show ∀ b ∈ t.blocks, t.scheme.holds 3 b = .ok false
    decide +kernel
  have hfour : capacityAfter 2 = 4 := by decide +kernel
  have hkept : capacityAfter 3 = capacityAfter 2 := by decide +kernel
  obtain ⟨hremovals, hsettles⟩ := capacity_settles .crowding hvalid [.put 1 true, .put 2 true]
  obtain ⟨hsteady, -⟩ := hremovals (fun _ => 3) fun _ => hlacks
  obtain ⟨hpos, halvings, doublings, hphases, -⟩ := hsettles _ hsteady
  refine ⟨by decide +kernel, by decide +kernel, fun i hi => ?_⟩
  exact (hphases.eq_of_le (hphases.le_of_kept (hpos 2) hkept) hi).trans hfour

end Table

end BlockTable
