import BlockTable.Map
import BlockTable.Proofs.Table.Agreement
import BlockTable.Proofs.Table.Histories

/-!
# Equality of tables

A comparison of two open tables looks each entry of the one up in the other.  With lawful codecs it
finds what the finite maps say (`Stores.beq_iff`), so two tables are equal exactly when they stand
for maps that agree, or when both are closed (`StandsFor.beq_iff`).  Equality of tables is therefore
an equivalence, and it sees nothing of the order of the slots, of their number, or of the hash
functions.

A map compares its entries by a walk of its own, which comes to the same answer
(`BlockMap.beq_eq`).
-/

namespace BlockTable

variable {κ ν : Type} [BEq κ] [BEq ν] {scheme scheme' : Scheme κ ν} {t t' : Table κ ν}
  {d d' : Dict κ ν}

/-! ## Maps and their tables -/

theorem BlockMap.holdsAll_eq (m : BlockMap κ ν) (answers : List (Except TableError (κ × ν))) :
    m.holdsAll answers = m.table.holdsAll answers := by
  induction answers with
  | nil => rfl
  | cons answer rest ih =>
      cases answer with
      | error e => rfl
      | ok entry =>
          rw [holdsAll, Table.holdsAll, ih]
          rfl

/-- A map compares its entries as its table does. -/
theorem BlockMap.beq_eq (m n : BlockMap κ ν) (areOne : Bool) :
    m.beq areOne n = (areOne || m.table.beq n.table) := by
  rw [beq, Table.beq, sameEntries, Table.sameEntries]
  simp only [holdsAll_eq]
  rfl

/-- Only tables that are both open or both closed are equal. -/
theorem Table.isClosed_eq_of_beq (h : t.beq t' = true) : t.isClosed = t'.isClosed := by
  rw [beq] at h
  cases ht : t.isClosed <;> cases ht' : t'.isClosed <;> simp [ht, ht'] at h ⊢

/-! ## Comparing entries -/

variable [EquivBEq κ]

theorem Stores.holdsAll_iff (h : Stores scheme t d) (hlawful : scheme.IsLawful)
    (entries : List (κ × ν)) :
    t.holdsAll (entries.map .ok) = .ok true ↔ ∀ entry ∈ entries, d.Holds entry := by
  induction entries with
  | nil => exact iff_of_true rfl fun _ hmem => by cases hmem
  | cons entry rest ih =>
      rw [List.map_cons, Table.holdsAll, h.get_eq hlawful, List.forall_mem_cons, ← ih, Dict.Holds]
      cases d.find? entry.1 with
      | none => simp
      | some v =>
          cases hvalue : v == entry.2 <;> simp [hvalue]

/-- Two open tables are equal exactly when their maps have one size and the second one holds the
entries of the first. -/
theorem Stores.beq_iff (h : Stores scheme t d) (hlawful : scheme.IsLawful)
    (h' : Stores scheme' t' d') (hlawful' : scheme'.IsLawful) :
    t.beq t' = true ↔ d.size = d'.size ∧ ∀ entry ∈ d.entries, d'.Holds entry := by
  obtain ⟨entries, hentries, hperm⟩ := h.entries_eq hlawful
  have hsame : t.sameEntries t' =
      if d.size = d'.size then t'.holdsAll (entries.map .ok) else .ok false := by
    rw [Table.sameEntries, h.length_eq, h'.length_eq, hentries]
  have hholds : t'.holdsAll (entries.map .ok) = .ok true ↔
      ∀ entry ∈ d.entries, d'.Holds entry := by
    rw [h'.holdsAll_iff hlawful']
    exact forall_congr' fun entry => imp_congr_left hperm.mem_iff
  rw [Table.beq, h.isClosed_eq, h'.isClosed_eq, hsame, ← hholds]
  by_cases hsize : d.size = d'.size
  · rw [if_pos hsize]
    cases t'.holdsAll (entries.map .ok) with
    | ok same => simp [hsize]
    | error e => simp
  · rw [if_neg hsize]
    simp [hsize]

/-! ## Histories -/

variable [EquivBEq ν]

/-- Two tables are equal exactly when they stand for the same. -/
theorem StandsFor.beq_iff {d? d'? : Option (Dict κ ν)} (h : StandsFor scheme t d?)
    (hlawful : scheme.IsLawful) (h' : StandsFor scheme' t' d'?) (hlawful' : scheme'.IsLawful) :
    t.beq t' = true ↔ Dict.SameContents d? d'? := by
  have hclosed := h.isClosed_eq
  have hclosed' := h'.isClosed_eq
  cases d? with
  | none => cases d'? <;> simp [Table.beq, hclosed, hclosed', Dict.SameContents]
  | some d =>
      cases d'? with
      | none => simp [Table.beq, hclosed, hclosed', Dict.SameContents]
      | some d' => exact (Stores.beq_iff h hlawful h' hlawful').trans Dict.agrees_iff.symm

namespace History

variable (a b : History κ ν)

theorem beq_iff : a.table.beq b.table = true ↔ Dict.SameContents a.contents b.contents :=
  a.standsFor.beq_iff a.lawful b.standsFor b.lawful

theorem beq_congr {a a' b b' : History κ ν} (ha : Dict.SameContents a.contents a'.contents)
    (hb : Dict.SameContents b.contents b'.contents) :
    a.table.beq b.table = a'.table.beq b'.table := by
  rw [Bool.eq_iff_iff, beq_iff, beq_iff]
  exact ⟨fun h => (ha.symm.trans h).trans hb, fun h => (ha.trans h).trans hb.symm⟩

/-- Equality of tables is equality of contents: two open tables are equal exactly when their maps
have the same keys with equal values, an open table and a closed one never, and two closed ones
always.  So it is an equivalence, and only the contents count.  A map compares as its table
does, and equals itself. -/
theorem beq_iff_sameContents :
    a.table.isClosed = a.contents.isNone ∧
    (a.table.beq b.table = true ↔ Dict.SameContents a.contents b.contents) ∧
    a.table.beq a.table = true ∧ a.table.beq b.table = b.table.beq a.table ∧
    (∀ c : History κ ν, a.table.beq b.table = true → b.table.beq c.table = true →
      a.table.beq c.table = true) ∧
    (∀ a' b' : History κ ν, Dict.SameContents a.contents a'.contents →
      Dict.SameContents b.contents b'.contents →
        a.table.beq b.table = a'.table.beq b'.table) ∧
    (∀ m n : BlockMap κ ν, m.beq false n = m.table.beq n.table) ∧
    ∀ areOne, BlockMap.beq areOne ⟨a.table⟩ ⟨a.table⟩ = true := by
  have hrefl : a.table.beq a.table = true := (beq_iff a a).mpr (.refl _)
  refine ⟨a.standsFor.isClosed_eq, beq_iff a b, hrefl, ?_, fun c hab hbc => ?_,
    fun a' b' ha hb => beq_congr ha hb, fun m n => m.beq_eq n false, fun areOne => ?_⟩
  · rw [Bool.eq_iff_iff, beq_iff, beq_iff]
    exact ⟨.symm, .symm⟩
  · rw [beq_iff] at hab hbc ⊢
    exact hab.trans hbc
  · rw [BlockMap.beq_eq, hrefl, Bool.or_true]

/-- Tables of different capacities and hash functions that came about in different ways. -/
theorem beq_iff_sameContents_spread :
    crowded.table.capacity ≠ spread.table.capacity ∧ crowded.table.beq spread.table = true ∧
      Dict.SameContents crowded.contents spread.contents := by
  have hbeq : crowded.table.beq spread.table = true := by decide +kernel
  exact ⟨by decide +kernel, hbeq, (beq_iff_sameContents crowded spread).2.1.mp hbeq⟩

end History

end BlockTable
