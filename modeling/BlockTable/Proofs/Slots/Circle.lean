import BlockTable.Proofs.Slots.Cells

/-!
# Distances on the circle of slots

`ahead n i j` is the number of steps from slot `i` to slot `j` in a circle of `n` slots.  The
walk from `i` up to `j` passes the slots at a smaller distance from `i`, so "on the walk" is a
comparison of two numbers.  `next` raises the distance by one until it is back at its start
(`ahead_next`), and the range test of `closeGap` compares two distances from the gap
(`isBehind_iff`).
-/

namespace BlockTable

/-- The number of steps from one slot to another in a circle of `n` slots. -/
def ahead (n i j : Nat) : Nat := if i ≤ j then j - i else n - i + j

theorem ahead_lt {n i j : Nat} (hi : i < n) (hj : j < n) : ahead n i j < n := by
  unfold ahead
  split <;> omega

@[simp] theorem ahead_self (n i : Nat) : ahead n i i = 0 := by
  simp [ahead]

theorem ahead_inj {n i j k : Nat} (hj : j < n) (hk : k < n)
    (h : ahead n i j = ahead n i k) : j = k := by
  unfold ahead at h
  split at h <;> split at h <;> omega

/-- A walk of that many steps arrives. -/
theorem add_ahead_mod {n i j : Nat} (hi : i < n) (hj : j < n) : (i + ahead n i j) % n = j := by
  unfold ahead
  split
  next hle => rw [Nat.add_sub_cancel' hle, Nat.mod_eq_of_lt hj]
  next hgt =>
    have hround : i + (n - i + j) = j + n := by omega
    rw [hround, Nat.add_mod_right, Nat.mod_eq_of_lt hj]

/-- The slot that a walk of `m` steps arrives at. -/
theorem ahead_add_mod {n i m : Nat} (hi : i < n) (hm : m < n) : ahead n i ((i + m) % n) = m := by
  have hlt : (i + m) % n < n := Nat.mod_lt _ (by omega)
  unfold ahead
  by_cases hround : i + m < n
  · rw [Nat.mod_eq_of_lt hround, if_pos (by omega)]
    omega
  · have hmod : (i + m) % n = i + m - n := by
      rw [Nat.mod_eq_sub_mod (by omega), Nat.mod_eq_of_lt (by omega)]
    rw [hmod, if_neg (by omega)]
    omega

/-- Seen from a slot `h` outside the stretch that begins behind `g` and ends with `k`, the slot `g`
comes before `k`. -/
theorem ahead_lt_of_not_behind {n g h k : Nat} (hg : g < n) (hh : h < n)
    (hgk : g ≠ k) (hout : ¬ (0 < ahead n g h ∧ ahead n g h ≤ ahead n g k)) :
    ahead n h g < ahead n h k := by
  unfold ahead at hout ⊢
  grind

/-- Seen from a slot inside that stretch, the slot `g` comes behind `k`. -/
theorem ahead_lt_of_behind {n g h k : Nat} (hg : g < n) (hh : h < n) (hk : k < n)
    (hpos : 0 < ahead n g h) (hle : ahead n g h ≤ ahead n g k) : ahead n h k < ahead n h g := by
  unfold ahead at hpos hle ⊢
  grind

/-- A walk from `h` over `g` to `k` meets the slots between `g` and `k`. -/
theorem ahead_le_of_between {n g h j k : Nat} (hg : g < n) (hh : h < n) (hj : j < n) (hk : k < n)
    (hgk : ahead n h g ≤ ahead n h k) (hjk : ahead n g j ≤ ahead n g k) :
    ahead n h j ≤ ahead n h k := by
  unfold ahead at hgk hjk ⊢
  grind

namespace Slots

variable {β : Type}

theorem next_eq {s : Slots β} {slot : Nat} (h : slot < s.capacity) :
    s.next slot = if slot + 1 = s.capacity then 0 else slot + 1 := by
  unfold next
  split
  next hlast => rw [hlast, Nat.mod_self]
  next hinner => exact Nat.mod_eq_of_lt (by omega)

theorem next_lt {s : Slots β} {slot : Nat} (h : slot < s.capacity) :
    s.next slot < s.capacity :=
  Nat.mod_lt _ (by omega)

theorem ahead_next {s : Slots β} {i slot : Nat} (hi : i < s.capacity) (h : slot < s.capacity) :
    ahead s.capacity i (s.next slot) =
      if ahead s.capacity i slot + 1 = s.capacity then 0 else ahead s.capacity i slot + 1 := by
  rw [next_eq h]
  unfold ahead
  grind

/-- The walk that begins behind the gap and ends with `last`. -/
theorem isBehind_iff {n gap last slot : Nat} (hg : gap < n) (hl : last < n) (hs : slot < n) :
    isBehind gap last slot = true ↔
      0 < ahead n gap slot ∧ ahead n gap slot ≤ ahead n gap last := by
  unfold isBehind ahead
  split
  next hle =>
    simp only [Bool.and_eq_true, decide_eq_true_eq]
    split <;> omega
  next hlt =>
    simp only [Bool.or_eq_true, decide_eq_true_eq]
    split <;> omega

end Slots

end BlockTable
