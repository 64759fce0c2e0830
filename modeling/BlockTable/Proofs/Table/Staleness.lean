import BlockTable.Proofs.Table.Listing
import BlockTable.Proofs.Table.Acts
import BlockTable.Proofs.Codec.Malformed

/-!
# Stale iterators

A table refuses an iterator when it is closed or when its version is another one (`staleness?`), and
it refuses every step of it in the same way.  A step that is not refused answers the next block or
that there is none left (`Passed.next`).  It never carries one of the two refusals, provided that
the codecs keep these errors to the table (`Codec.NeverStale`).
-/

namespace BlockTable

variable {κ ν : Type}

/-! ## Codecs that leave staleness to the table -/

/-- An error by which a table refuses to go on with an iterator. -/
def TableError.IsStale (e : TableError) : Prop := e = .modified ∨ e = .closed

/-- Malformed bytes do not make an iterator stale. -/
theorem TableError.IsMalformed.not_stale {e : TableError} (h : e.IsMalformed) : ¬ e.IsStale := by
  obtain ⟨_, _, rfl⟩ | ⟨_, rfl⟩ := h
  · rintro (h | h) <;> cases h
  · rintro (h | h) <;> cases h

/-- Reading never fails with an error by which a table refuses an iterator. -/
def Codec.NeverStale {α : Type} (codec : Codec α) : Prop :=
  ∀ r e, (codec.read r).1 = .error e → ¬ e.IsStale

theorem Codec.OnlyMalformed.neverStale {α : Type} {codec : Codec α} (h : codec.OnlyMalformed) :
    codec.NeverStale :=
  fun r e hread => (h r e hread).not_stale

theorem Codec.native_neverStale (width : Nat) : (native width).NeverStale :=
  (native_onlyMalformed width).neverStale

theorem Codec.bool_neverStale : bool.NeverStale := bool_onlyMalformed.neverStale

/-- The fields of an entry add only errors of malformed bytes to those of its codecs. -/
theorem Scheme.decode_not_stale {scheme : Scheme κ ν} (hkey : scheme.key.NeverStale)
    (hvalue : scheme.value.NeverStale) {b : Block} {e : TableError}
    (h : scheme.decode b = .error e) : ¬ e.IsStale := by
  rcases decode_error h with hmalformed | ⟨body, hread⟩ | ⟨body, hread⟩
  · exact hmalformed.not_stale
  · exact hkey body e hread
  · exact hvalue body e hread

/-! ## Single steps -/

namespace Table

variable {t : Table κ ν} {it : Iterator}

/-- The error by which a table refuses every step of an iterator. -/
def staleness? (t : Table κ ν) (it : Iterator) : Option TableError :=
  match t.slots? with
  | none => some .closed
  | some _ => if it.version ≠ t.version then some .modified else none

/-- Only a table that does not refuse the iterator looks for entries left. -/
theorem hasMore_eq (t : Table κ ν) (it : Iterator) :
    t.hasMore it = match t.staleness? it with
      | some e => .error e
      | none => .ok (it.passed < t.size) := by
  rw [hasMore, staleness?, slots]
  cases t.slots? with
  | none => rfl
  | some s =>
      simp only
      split
      next => rfl
      next => rfl

/-- A refused step leaves the iterator as it is, so the next one is refused too. -/
theorem next_of_stale {e : TableError} (h : t.staleness? it = some e) :
    t.next it = (.error e, it) := by
  rw [next, hasMore_eq, h]

/-- A step that is not refused fails behind the last block, or at an entry that does not decode. -/
theorem next_error (hdecode : ∀ b e, t.scheme.decode b = .error e → ¬ e.IsStale)
    (h : t.staleness? it = none) {e : TableError} (hnext : (t.next it).1 = .error e) :
    ¬ e.IsStale := by
  have hexhausted : ¬ TableError.exhausted.IsStale := by rintro (h | h) <;> cases h
  rw [next, hasMore_eq, h] at hnext
  split at hnext
  next heq => cases heq
  next =>
    cases hnext
    exact hexhausted
  next hslots =>
    rw [staleness?] at h
    rw [slots] at hslots
    cases hopen : t.slots? with
    | none =>
        rw [hopen] at h
        cases h
    | some s =>
        rw [hopen] at hslots
        cases hslots
  next =>
    split at hnext
    next =>
      cases hnext
      exact hexhausted
    next => exact hdecode _ _ hnext

theorem next_version (t : Table κ ν) (it : Iterator) : (t.next it).2.version = it.version := by
  rw [next]
  split
  next => rfl
  next => rfl
  next => rfl
  next => split <;> rfl

/-- The iterator has passed the first blocks and answered each.  Behind the last block it has
answered nothing but that there is none left. -/
structure Passed (t : Table κ ν) (s : Slots Block) (it : Iterator)
    (answers : List (Except TableError (κ × ν))) : Prop where
  slots : t.slots? = some s
  ahead : s.blocksFrom it.nextSlot = s.blocks.drop it.passed
  answered : ∃ ends, answers = (s.blocks.take it.passed).map t.scheme.decode ++
    List.replicate ends (.error .exhausted) ∧ (ends = 0 ∨ s.blocks.length ≤ it.passed)

/-- A step passes one more block, as long as one is left. -/
theorem Passed.next {s : Slots Block} {answers : List (Except TableError (κ × ν))}
    (h : t.Passed s it answers) (hversion : it.version = t.version)
    (hsize : t.size = s.blocks.length) :
    t.Passed s (t.next it).2 (answers ++ [(t.next it).1]) := by
  obtain ⟨hslots, hahead, ends, hanswers, hends⟩ := h
  by_cases hleft : it.passed < s.blocks.length
  · rw [List.drop_eq_getElem_cons hleft] at hahead
    obtain ⟨slot, hrest, hnext⟩ := next_of_blocksFrom hslots hversion (hsize ▸ hleft) hahead
    rw [hnext]
    obtain rfl : ends = 0 := by omega
    refine ⟨hslots, hrest.symm, 0, ?_, .inl rfl⟩
    rw [hanswers, List.replicate_zero, List.append_nil, List.append_nil,
      List.take_succ_eq_append_getElem hleft, List.map_append]
    rfl
  · rw [next_of_passed hslots hversion (hsize ▸ hleft)]
    refine ⟨hslots, hahead, ends + 1, ?_, .inr (Nat.le_of_not_lt hleft)⟩
    rw [hanswers, List.append_assoc, ← List.replicate_succ']

/-- The answers are those of the first blocks, in the order of their slots, and behind the last
block nothing but that there is none left. -/
def Lists (t : Table κ ν) (answers : List (Except TableError (κ × ν))) : Prop :=
  ∃ passed ends, answers = (t.blocks.take passed).map t.scheme.decode ++
    List.replicate ends (.error .exhausted) ∧ (ends = 0 ∨ t.blocks.length ≤ passed)

theorem Passed.lists {s : Slots Block} {answers : List (Except TableError (κ × ν))}
    (h : t.Passed s it answers) : t.Lists answers := by
  rw [Lists, blocks_of_some h.slots]
  exact ⟨it.passed, h.answered⟩

end Table

end BlockTable
