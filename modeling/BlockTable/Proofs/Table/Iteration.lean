import BlockTable.Proofs.Table.Acts
import BlockTable.Proofs.Table.Staleness

/-!
# Full iterations

An iterator of a table that is left alone answers once for each occupied slot, in ascending order,
and behind the last one nothing but that it is at its end.  It counts what it has passed and
compares the count with the size of the table, while it moves on from block to block.  So the two
have to be in step: after `k` steps it has passed `k` blocks, as long as there are so many, and has
the others ahead (`Behind`).

Whether a block decodes makes no difference to the steps.  The error by which an iterator says that
it is at its end must come from no codec, though (`Codec.NeverExhausted`).
-/

namespace BlockTable

/-! ## Codecs that leave the end to the table -/

/-- Reading never fails with the error by which an iterator says that it is at its end. -/
def Codec.NeverExhausted {α : Type} (codec : Codec α) : Prop :=
  ∀ r, (codec.read r).1 ≠ .error .exhausted

theorem TableError.IsMalformed.ne_exhausted {e : TableError} (h : e.IsMalformed) :
    e ≠ .exhausted := by
  rintro rfl
  rcases h with ⟨_, _, h⟩ | ⟨_, h⟩
  · cases h
  · cases h

theorem Codec.OnlyMalformed.neverExhausted {α : Type} {codec : Codec α} (h : codec.OnlyMalformed) :
    codec.NeverExhausted :=
  fun r hread => (h r _ hread).ne_exhausted rfl

variable {κ ν : Type}

theorem Scheme.decode_ne_exhausted {scheme : Scheme κ ν} (hkey : scheme.key.NeverExhausted)
    (hvalue : scheme.value.NeverExhausted) (b : Block) : scheme.decode b ≠ .error .exhausted := by
  intro h
  rcases decode_error h with hmalformed | ⟨body, hread⟩ | ⟨body, hread⟩
  · exact hmalformed.ne_exhausted rfl
  · exact hkey body hread
  · exact hvalue body hread

namespace Table

variable {t : Table κ ν} {s : Slots Block} {k : Nat} {it : Iterator}

/-! ## Steps -/

/-- Both kinds of step move the iterator in the same way. -/
theorem next?_iterator (t : Table κ ν) (it : Iterator) : (t.next? it).2 = (t.next it).2 := by
  rw [next?]
  split
  next h => rw [h]
  next h => rw [h]

theorem next?_of_next (h : (t.next it).1 ≠ .error .exhausted) :
    (t.next? it).1 = some (t.next it).1 := by
  rw [next?]
  split
  next hnext =>
    rw [hnext] at h
    exact absurd rfl h
  next hnext => rw [hnext]

/-- The iterator after a number of steps. -/
def iteratorAfter (t : Table κ ν) (it : Iterator) : Nat → Iterator
  | 0 => it
  | steps + 1 => (t.next (t.iteratorAfter it steps)).2

/-- The iterator has made `k` steps: it has passed the first `k` blocks, or all there are. -/
structure Behind (t : Table κ ν) (s : Slots Block) (k : Nat) (it : Iterator) : Prop where
  version : it.version = t.version
  passed : it.passed = min k s.blocks.length
  ahead : s.blocksFrom it.nextSlot = s.blocks.drop k

namespace Behind

theorem length_ahead (h : t.Behind s k it) :
    (s.blocksFrom it.nextSlot).length = s.blocks.length - k := by
  rw [h.ahead, List.length_drop]

theorem next_of_lt (h : t.Behind s k it) (hs : t.slots? = some s) (hsize : t.size = s.blocks.length)
    (hk : k < s.blocks.length) :
    (t.next it).1 = t.scheme.decode s.blocks[k] ∧ t.Behind s (k + 1) (t.next it).2 := by
  have hpassed := h.passed
  have hahead := h.ahead
  rw [List.drop_eq_getElem_cons hk] at hahead
  obtain ⟨slot, hrest, hnext⟩ := next_of_blocksFrom hs h.version (by omega) hahead
  rw [hnext]
  refine ⟨rfl, h.version, ?_, hrest.symm⟩
  show it.passed + 1 = _
  omega

theorem next_of_le (h : t.Behind s k it) (hs : t.slots? = some s) (hsize : t.size = s.blocks.length)
    (hk : s.blocks.length ≤ k) :
    t.next it = (.error .exhausted, it) ∧ t.Behind s (k + 1) it := by
  have hpassed := h.passed
  refine ⟨next_of_passed hs h.version (by omega), h.version, by omega, ?_⟩
  rw [h.ahead, List.drop_eq_nil_of_le hk, List.drop_eq_nil_of_le (by omega)]

theorem next (h : t.Behind s k it) (hs : t.slots? = some s) (hsize : t.size = s.blocks.length) :
    t.Behind s (k + 1) (t.next it).2 := by
  rcases Nat.lt_or_ge k s.blocks.length with hk | hk
  · exact (h.next_of_lt hs hsize hk).2
  · obtain ⟨hnext, h'⟩ := h.next_of_le hs hsize hk
    rw [hnext]
    exact h'

/-- The induction is on the steps. -/
theorem iteratorAfter (h : t.Behind s 0 it) (hs : t.slots? = some s)
    (hsize : t.size = s.blocks.length) (k : Nat) : t.Behind s k (t.iteratorAfter it k) := by
  induction k with
  | zero => exact h
  | succ k ih => exact ih.next hs hsize

end Behind

/-! ## Whole iterations -/

/-- What a table answers to an iterator that has made `k` steps. -/
structure AnswersAt (t : Table κ ν) (k : Nat) (it : Iterator) : Prop where
  /-- It has more exactly if fewer steps were made than slots are occupied. -/
  hasMore : t.hasMore it = .ok (decide (k < t.occupied.length))
  /-- The bound on what is left is the number of slots that the steps have not come to. -/
  left : t.entriesLeft it = t.occupied.length - k
  /-- It is the number of answers that are still to come. -/
  toCome : ∀ steps, t.entriesLeft it < steps → (t.drain steps it).length = t.entriesLeft it
  /-- The next answer is what the block in the next occupied slot decodes to. -/
  answer : ∀ slot, t.occupied[k]? = some slot → ∃ b, t.block? slot = some b ∧
    (t.next it).1 = t.scheme.decode b ∧ (t.next? it).1 = some (t.scheme.decode b)
  /-- Behind the last occupied slot it is at its end, and stays there. -/
  ended : t.occupied.length ≤ k →
    t.next it = (.error .exhausted, it) ∧ t.next? it = (none, it)

theorem Behind.answersAt (h : t.Behind s k it) (hs : t.slots? = some s)
    (hsize : t.size = s.blocks.length)
    (hdecode : ∀ b, t.scheme.decode b ≠ .error .exhausted) : t.AnswersAt k it := by
  have hoccupied : t.occupied = s.occupied := occupied_of_some hs
  have hlen : t.occupied.length = s.blocks.length := by rw [hoccupied, s.length_occupied]
  have hleft : t.entriesLeft it = t.occupied.length - k := by
    have hpassed := h.passed
    rw [entriesLeft]
    omega
  refine ⟨?_, hleft, fun steps hsteps => ?_, fun slot hslot => ?_, fun hk => ?_⟩
  · have hfresh : t.staleness? it = none := by
      rw [staleness?, hs]
      simp [h.version]
    rw [hasMore_eq, hfresh, h.passed, hsize, hlen]
    simp
  · have hahead := h.length_ahead
    have hpassed := h.passed
    rw [drain_eq hs (fun b _ => hdecode b) steps it h.version (by omega) (by omega),
      List.length_map]
    omega
  · rw [hoccupied] at hslot
    obtain ⟨b, hb, hblock⟩ := Slots.block?_of_occupied hslot
    obtain ⟨hk, rfl⟩ := List.getElem?_eq_some_iff.mp hblock
    have hnext := (h.next_of_lt hs hsize hk).1
    refine ⟨_, (block?_of_some hs slot).trans hb, hnext, ?_⟩
    rw [next?_of_next (by rw [hnext]; exact hdecode _), hnext]
  · have hnext := (h.next_of_le hs hsize (hlen ▸ hk)).1
    exact ⟨hnext, by rw [next?, hnext]⟩

variable [BEq κ]

/-- On every table that a run leads to, from valid settings and with any codecs that leave the end
to the table: an iterator of its own answers as many times as there are entries, for the `k`-th
occupied slot at the `k`-th step, whatever the other blocks decode to.  After that it is at its
end. -/
theorem iteration_complete (scheme : Scheme κ ν) (hkey : scheme.key.NeverExhausted)
    (hvalue : scheme.value.NeverExhausted) {sizing : Sizing} (hvalid : sizing.validate = .ok ())
    (calls : List (Call κ ν)) :
    let t := (ofSizing scheme sizing).after calls
    ∃ it, t.iterator = .ok it ∧ t.length = .ok t.occupied.length ∧
      ∀ k, t.AnswersAt k (t.iteratorAfter it k) ∧
        (t.next? (t.iteratorAfter it k)).2 = t.iteratorAfter it (k + 1) := by
  intro t
  obtain ⟨g, h⟩ : ∃ g, Shows scheme t g := shows_after scheme hvalid calls
  have hsize : t.size = (g.map Scheme.Entry.block).blocks.length := by
    rw [h.size_eq, blocks_of_some h.slots]
  have hbegin : t.Behind (g.map Scheme.Entry.block) 0 ⟨0, 0, t.version⟩ :=
    ⟨rfl, (Nat.zero_min _).symm, Slots.blocksFrom_zero _⟩
  refine ⟨⟨0, 0, t.version⟩, ?_, ?_, fun k => ⟨?_, next?_iterator t _⟩⟩
  · rw [iterator, slots_of_some h.slots]
  · rw [length, slots_of_some h.slots, occupied_of_some h.slots, Slots.length_occupied, hsize]
  · refine (hbegin.iteratorAfter h.slots hsize k).answersAt h.slots hsize fun b => ?_
    rw [h.scheme_eq]
    exact Scheme.decode_ne_exhausted hkey hvalue b

/-- The second of three blocks does not decode.  Its step answers that, and the third is none the
worse. -/
theorem iteration_complete_garbled :
    let t := (ofSizing .garbling ⟨0x3fe0000000000000, 8, 8⟩).after
      [.put 1 true, .put 2 false, .put 3 true]
    ∃ it, t.iterator = .ok it ∧ t.occupied = [1, 2, 3] ∧ (t.next it).1 = .ok (1, true) ∧
      (t.next (t.iteratorAfter it 1)).1 = .error (.undecodable (.truthValue 7)) ∧
      (t.next (t.iteratorAfter it 2)).1 = .ok (3, true) ∧
      ∀ k, 3 ≤ k → (t.next? (t.iteratorAfter it k)).1 = none := by
  intro t
  have hkey : Scheme.garbling.key.NeverExhausted :=
    (Codec.native_onlyMalformed 1).neverExhausted
  have hvalue : Scheme.garbling.value.NeverExhausted := Codec.bool_onlyMalformed.neverExhausted
  have hvalid : Sizing.validate ⟨0x3fe0000000000000, 8, 8⟩ = .ok () := by decide +kernel
  have hoccupied : t.occupied = [1, 2, 3] := by decide +kernel
  obtain ⟨it, hit, -, hall⟩ := iteration_complete .garbling hkey hvalue hvalid
    [.put 1 true, .put 2 false, .put 3 true]
  have hanswer : ∀ k slot, t.occupied[k]? = some slot →
      some (t.next (t.iteratorAfter it k)).1 = (t.block? slot).map t.scheme.decode := by
    intro k slot hslot
    obtain ⟨b, hb, hnext, -⟩ := (hall k).1.answer slot hslot
    rw [hnext, hb]
    rfl
  refine ⟨it, hit, hoccupied, Option.some_inj.mp ?_, Option.some_inj.mp ?_, Option.some_inj.mp ?_,
    fun k hk => ?_⟩
  · exact (hanswer 0 1 (by rw [hoccupied]; rfl)).trans (by decide +kernel)
  · exact (hanswer 1 2 (by rw [hoccupied]; rfl)).trans (by decide +kernel)
  · exact (hanswer 2 3 (by rw [hoccupied]; rfl)).trans (by decide +kernel)
  · have hended := ((hall k).1.ended (by rw [hoccupied]; exact hk)).2
    rw [hended]

end Table

end BlockTable
