import BlockTable.Proofs.Slots.Cells
import BlockTable.Table.Iterator

/-!
# Listing the entries

An iterator of its own passes every block of a table, in the order of their slots, and answers what
each decodes to (`drain_eq`).  It needs the table to count its blocks rightly, and it needs that
none of them decodes to the error by which an iterator says that it is at its end.

`blocksFrom` is what an iterator has still ahead of it.
-/

namespace BlockTable

namespace Slots

variable {β : Type}

/-- The blocks in the slots from `slot` on, in the order of their slots. -/
def blocksFrom (s : Slots β) (slot : Nat) : List β := (s.cells.toList.drop slot).filterMap id

theorem blocksFrom_zero (s : Slots β) : s.blocksFrom 0 = s.blocks := rfl

theorem blocksFrom_succ (s : Slots β) (slot : Nat) :
    s.blocksFrom slot = (s.block? slot).toList ++ s.blocksFrom (slot + 1) := by
  rw [blocksFrom, blocksFrom]
  by_cases h : slot < s.cells.size
  · rw [block?_eq_getElem h, List.drop_eq_getElem_cons (by simpa using h), Array.getElem_toList]
    cases s.cells[slot] <;> rfl
  · rw [block?, Array.getElem?_eq_none (by omega), List.drop_eq_nil_of_le (by simp; omega),
      List.drop_eq_nil_of_le (by simp; omega)]
    rfl

theorem mem_blocks_of_blocksFrom {s : Slots β} {slot : Nat} {b : β} (h : b ∈ s.blocksFrom slot) :
    b ∈ s.blocks := by
  obtain ⟨c, hc, hb⟩ := List.mem_filterMap.mp h
  exact List.mem_filterMap.mpr ⟨c, List.mem_of_mem_drop hc, hb⟩

/-- The walk passes empty slots only. -/
theorem blocksFrom_eq (s : Slots β) (steps slot : Nat) (h : s.capacity ≤ steps + slot) :
    s.blocksFrom slot =
      match s.blockFrom steps slot with
      | none => []
      | some (i, b) => b :: s.blocksFrom (i + 1) := by
  induction steps generalizing slot with
  | zero =>
      have hlen : s.cells.toList.length ≤ slot := by simpa [capacity] using h
      rw [blocksFrom, List.drop_eq_nil_of_le hlen]
      rfl
  | succ steps ih =>
      rw [blockFrom, blocksFrom_succ]
      cases s.block? slot with
      | none => exact ih (slot + 1) (by omega)
      | some b => rfl

theorem blocksFrom_nextBlock (s : Slots β) (slot : Nat) :
    s.blocksFrom slot =
      match s.nextBlock slot with
      | none => []
      | some (i, b) => b :: s.blocksFrom (i + 1) :=
  blocksFrom_eq s _ slot (by omega)

end Slots

namespace Table

variable {κ ν : Type} {t : Table κ ν} {s : Slots Block}

/-- A step to the next block, while blocks are ahead. -/
theorem next_of_blocksFrom {b : Block} {rest : List Block} {it : Iterator}
    (hs : t.slots? = some s) (hversion : it.version = t.version) (hleft : it.passed < t.size)
    (hahead : s.blocksFrom it.nextSlot = b :: rest) :
    ∃ slot, rest = s.blocksFrom (slot + 1) ∧
      t.next it =
        (t.scheme.decode b, { it with nextSlot := slot + 1, passed := it.passed + 1 }) := by
  have hblock := s.blocksFrom_nextBlock it.nextSlot
  rw [hahead] at hblock
  cases hnext : s.nextBlock it.nextSlot with
  | none =>
      rw [hnext] at hblock
      cases hblock
  | some found =>
      obtain ⟨slot, b'⟩ := found
      rw [hnext] at hblock
      cases hblock
      refine ⟨slot, rfl, ?_⟩
      rw [next, hasMore, slots, hs]
      simp only [hversion, ne_eq, not_true_eq_false, if_false, hleft, decide_true, hnext]

/-- A step behind the last entry. -/
theorem next_of_passed {it : Iterator} (hs : t.slots? = some s) (hversion : it.version = t.version)
    (hleft : ¬ it.passed < t.size) : t.next it = (.error .exhausted, it) := by
  rw [next, hasMore, slots, hs]
  simp only [hversion, ne_eq, not_true_eq_false, if_false, hleft, decide_false]

/-- The induction is on the steps, and the entries passed and those ahead are all there are. -/
theorem drain_eq (hs : t.slots? = some s)
    (hdecode : ∀ b ∈ s.blocks, t.scheme.decode b ≠ .error .exhausted) (steps : Nat)
    (it : Iterator) (hversion : it.version = t.version)
    (hcount : it.passed + (s.blocksFrom it.nextSlot).length = t.size)
    (hsteps : (s.blocksFrom it.nextSlot).length < steps) :
    t.drain steps it = (s.blocksFrom it.nextSlot).map t.scheme.decode := by
  induction steps generalizing it with
  | zero => exact absurd hsteps (Nat.not_lt_zero _)
  | succ steps ih =>
      rw [drain, next?]
      cases hahead : s.blocksFrom it.nextSlot with
      | nil =>
          rw [hahead, List.length_nil] at hcount
          rw [next_of_passed hs hversion (by omega)]
          rfl
      | cons b rest =>
          rw [hahead, List.length_cons] at hcount hsteps
          obtain ⟨slot, hrest, hnext⟩ := next_of_blocksFrom hs hversion (by omega) hahead
          have hb : b ∈ s.blocks :=
            Slots.mem_blocks_of_blocksFrom (hahead ▸ List.mem_cons_self ..)
          have hdrain := ih { it with nextSlot := slot + 1, passed := it.passed + 1 } hversion
            (by simp only [← hrest]; omega) (by simp only [← hrest]; omega)
          rw [hnext, hrest, List.map_cons, ← hdrain]
          cases hanswer : t.scheme.decode b with
          | ok entry => rfl
          | error e =>
              cases e with
              | exhausted => exact absurd hanswer (hdecode b hb)
              | argument | missing | closed | modified | outOfRange | undecodable => rfl

end Table

end BlockTable
