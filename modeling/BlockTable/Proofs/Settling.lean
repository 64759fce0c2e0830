import BlockTable.Proofs.Growth

/-!
# Settling

Where `nextCapacity` leads if it is asked again and again while the number of entries stays.

An odd number of slots is halved downwards, so a halving can make an array crowded and be answered
by a doubling.  But a doubling is never answered by a halving: with twice the slots the load of a
crowded array is still half the load factor at least (`not_isSparse_double`).  So the number of
slots falls for a while, rises for a while and then stays (`Phases`).

It cannot fall for ever, being a number.  It cannot rise for ever either, since no load factor is
less than the smallest positive number of the format, and the load comes down to that in the end
(`not_isCrowded_of_scale`).
-/

namespace BlockTable

namespace FloatFormat

variable (F : FloatFormat) {m num den : Nat}

/-- A number is below a rounded quotient only if it is below the quotient. -/
theorem units_mul_lt (hm : m ≤ F.infinity) (hd : 0 < den) (h : m < F.ofRatio num den) :
    F.units m * den < num * F.scale := by
  refine Nat.lt_of_not_le fun hle => ?_
  have hround := F.ofRatio_mono hd F.scale_pos hle
  rw [F.ofRatio_units hm] at hround
  omega

/-- A rounded quotient is below half of a number only if twice the quotient is below the number. -/
theorem mul_lt_units (hd : 0 < den) (h : F.ofRatio num den < F.half m) :
    num * (2 * F.scale) < F.units m * den := by
  refine Nat.lt_of_not_le fun hle => ?_
  exact Nat.not_lt.mpr (F.ofRatio_mono (Nat.mul_pos (by decide) F.scale_pos) hd hle) h

end FloatFormat

/-! ## Phases -/

/-- A number that is halved for a while, then doubled for a while, and then stays. -/
structure Phases (c : Nat → Nat) (halvings doublings : Nat) : Prop where
  halved : ∀ i < halvings, c (i + 1) = c i / 2
  doubled : ∀ i, halvings ≤ i → i < halvings + doublings → c (i + 1) = c i * 2
  kept : ∀ i, halvings + doublings ≤ i → c (i + 1) = c i

namespace Phases

variable {c : Nat → Nat} {halvings doublings : Nat}

theorem of_halving (hfirst : c 1 = c 0 / 2)
    (h : Phases (fun i => c (i + 1)) halvings doublings) : Phases c (halvings + 1) doublings := by
  refine ⟨fun i hi => ?_, fun i hle hlt => ?_, fun i hle => ?_⟩
  · cases i with
    | zero => exact hfirst
    | succ i => exact h.halved i (by omega)
  · cases i with
    | zero => omega
    | succ i => exact h.doubled i (by omega) (by omega)
  · cases i with
    | zero => omega
    | succ i => exact h.kept i (by omega)

theorem of_doubling (hfirst : c 1 = c 0 * 2) (h : Phases (fun i => c (i + 1)) 0 doublings) :
    Phases c 0 (doublings + 1) := by
  refine ⟨fun i hi => absurd hi (Nat.not_lt_zero i), fun i _ hlt => ?_, fun i hle => ?_⟩
  · cases i with
    | zero => exact hfirst
    | succ i => exact h.doubled i (Nat.zero_le i) (by omega)
  · cases i with
    | zero => omega
    | succ i => exact h.kept i (by omega)

theorem of_kept (h : ∀ i, c (i + 1) = c i) : Phases c 0 0 :=
  ⟨fun i hi => absurd hi (Nat.not_lt_zero i), fun i _ hi => absurd hi (Nat.not_lt_zero i),
    fun i _ => h i⟩

/-- Behind the last change the number is always the same. -/
theorem eq_of_le (h : Phases c halvings doublings) {i j : Nat} (hi : halvings + doublings ≤ i)
    (hj : i ≤ j) : c j = c i := by
  obtain ⟨n, rfl⟩ := Nat.exists_eq_add_of_le hj
  induction n with
  | zero => rfl
  | succ n ih => exact (h.kept (i + n) (by omega)).trans (ih (Nat.le_add_right i n))

/-- A positive number that stays once has had its last change. -/
theorem le_of_kept (h : Phases c halvings doublings) {i : Nat} (hpos : 0 < c i)
    (hkept : c (i + 1) = c i) : halvings + doublings ≤ i := by
  refine Nat.le_of_not_lt fun hlt => ?_
  rcases Nat.lt_or_ge i halvings with hi | hi
  · have := h.halved i hi
    omega
  · have := h.doubled i hi hlt
    omega

end Phases

namespace Sizing

open FloatFormat (double)

variable {loadFactor : UInt64} {minCapacity size capacity : Nat}

/-! ## What follows a change -/

/-- A crowded array with twice the slots is not sparse. -/
theorem not_isSparse_double (hlf : loadFactor.toNat < one) (hc : 0 < capacity)
    (h : isCrowded loadFactor size capacity = true) :
    isSparse loadFactor size (capacity * 2) = false := by
  have hone := one_le_infinity
  have hcrowded : double.units loadFactor.toNat * capacity < size * double.scale :=
    double.units_mul_lt (by omega) hc ((isCrowded_iff hlf).mp h)
  cases hsparse : isSparse loadFactor size (capacity * 2) with
  | false => rfl
  | true =>
      have hless := double.mul_lt_units (by omega) (isSparse_iff.mp hsparse)
      rw [Nat.mul_left_comm, ← Nat.mul_assoc (double.units _)] at hless
      omega

theorem units_one : double.units 1 = 1 := by decide +kernel

/-- With that many slots the load is the smallest positive number at most. -/
theorem not_isCrowded_of_scale (hpos : 0 < loadFactor.toNat) (hlf : loadFactor.toNat < one)
    (hc : 0 < capacity) (h : size * double.scale ≤ capacity) :
    isCrowded loadFactor size capacity = false := by
  have hone := one_le_infinity
  have hload : load size capacity ≤ 1 := by
    calc load size capacity ≤ double.ofRatio (double.units 1) double.scale :=
          double.ofRatio_mono hc double.scale_pos (by rwa [units_one, Nat.one_mul])
      _ = 1 := double.ofRatio_units (by omega)
  cases hcrowded : isCrowded loadFactor size capacity with
  | false => rfl
  | true =>
      have hless := (isCrowded_iff hlf).mp hcrowded
      omega

/-- The number of slots is kept if the load is within its bounds, or if half of the slots would be
too few. -/
theorem nextCapacity_eq_self_iff (hc : 0 < capacity) :
    nextCapacity loadFactor minCapacity size capacity = capacity ↔
      isCrowded loadFactor size capacity = false ∧
        (isSparse loadFactor size capacity = true → capacity / 2 ≤ minCapacity) := by
  rw [nextCapacity]
  cases isCrowded loadFactor size capacity with
  | true =>
      simp only [if_true, Bool.true_eq_false, false_and, iff_false]
      omega
  | false =>
      simp only [Bool.false_eq_true, if_false, true_and]
      cases isSparse loadFactor size capacity with
      | false => simp
      | true =>
          simp only [Bool.true_and, decide_eq_true_eq, forall_const]
          split
          next hlt => omega
          next hle => omega

/-! ## Asking again and again -/

/-- The next change is not a halving. -/
def Rising (loadFactor : UInt64) (minCapacity size capacity : Nat) : Prop :=
  isCrowded loadFactor size capacity = true ∨
    nextCapacity loadFactor minCapacity size capacity = capacity

/-- Behind a doubling the next change is another one. -/
theorem rising_double (hlf : loadFactor.toNat < one) (hc : 0 < capacity)
    (h : isCrowded loadFactor size capacity = true) :
    Rising loadFactor minCapacity size (capacity * 2) := by
  have hsparse := not_isSparse_double hlf hc h
  cases hcrowded : isCrowded loadFactor size (capacity * 2) with
  | true => exact .inl hcrowded
  | false =>
      refine .inr ((nextCapacity_eq_self_iff (by omega)).mpr ⟨hcrowded, fun h => ?_⟩)
      rw [hsparse] at h
      cases h

section asking

variable {c : Nat → Nat}

/-- The induction is on how much is missing to the number of slots at which no array is crowded. -/
theorem exists_doublings (hpos : 0 < loadFactor.toNat) (hlf : loadFactor.toNat < one)
    (hnext : ∀ i, c (i + 1) = nextCapacity loadFactor minCapacity size (c i)) (hc : 0 < c 0)
    (h : Rising loadFactor minCapacity size (c 0)) : ∃ doublings, Phases c 0 doublings := by
  induction hmissing : size * double.scale - c 0 using Nat.strongRecOn generalizing c with
  | ind missing ih =>
      cases hcrowded : isCrowded loadFactor size (c 0) with
      | true =>
          have hdouble : c 1 = c 0 * 2 := by rw [hnext 0, nextCapacity, hcrowded, if_pos rfl]
          have hless : c 0 < size * double.scale := by
            refine Nat.lt_of_not_le fun hle => ?_
            rw [not_isCrowded_of_scale hpos hlf hc hle] at hcrowded
            cases hcrowded
          have hrising : Rising loadFactor minCapacity size (c 1) := by
            rw [hdouble]
            exact rising_double hlf hc hcrowded
          have hc' : 0 < c 1 := by omega
          obtain ⟨doublings, hphases⟩ := ih (size * double.scale - c 1) (by omega)
            (c := fun i => c (i + 1)) (fun i => hnext (i + 1)) hc' hrising rfl
          exact ⟨doublings + 1, hphases.of_doubling hdouble⟩
      | false =>
          obtain hcrowded' | hkept := h
          · rw [hcrowded] at hcrowded'
            cases hcrowded'
          have hall : ∀ i, c i = c 0 := by
            intro i
            induction i with
            | zero => rfl
            | succ i ih => rw [hnext i, ih, hkept]
          exact ⟨0, .of_kept fun i => (hall (i + 1)).trans (hall i).symm⟩

/-- The number of slots is halved a number of times, then doubled a number of times, and then stays.
The induction is on the number at first. -/
theorem exists_phases (hpos : 0 < loadFactor.toNat) (hlf : loadFactor.toNat < one)
    (hnext : ∀ i, c (i + 1) = nextCapacity loadFactor minCapacity size (c i)) (hc : 0 < c 0) :
    ∃ halvings doublings, Phases c halvings doublings := by
  induction hfirst : c 0 using Nat.strongRecOn generalizing c with
  | ind first ih =>
      obtain ⟨hcrowded, -⟩ | ⟨-, hmin, hhalf⟩ | ⟨-, hkept⟩ :=
        nextCapacity_cases loadFactor minCapacity size (c 0)
      · exact ⟨0, exists_doublings hpos hlf hnext hc (.inl hcrowded)⟩
      · have hhalved : c 1 = c 0 / 2 := (hnext 0).trans hhalf
        have hc' : 0 < c 1 := by omega
        obtain ⟨halvings, doublings, hphases⟩ := ih (c 1) (by omega) (c := fun i => c (i + 1))
          (fun i => hnext (i + 1)) hc' rfl
        exact ⟨halvings + 1, doublings, hphases.of_halving hhalved⟩
      · exact ⟨0, exists_doublings hpos hlf hnext hc (.inr hkept)⟩

end asking

end Sizing

end BlockTable
