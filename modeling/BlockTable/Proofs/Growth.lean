import BlockTable.Proofs.Numeric.Rounding
import BlockTable.Sizing

/-!
# Growing and shrinking

What the two tests of `nextCapacity` say of the number of entries, for a load factor below one.

An array that is not crowded has fewer entries than slots, and a sparse one has fewer than half as
many.  Both tests compare rounded numbers, but rounding keeps the order and keeps one and a half,
so nothing is lost by it.

It follows that the next capacity holds all entries (`size_le_nextCapacity`).  It holds them
exactly, with no slot to spare, in one case only: `2 * n + 1` slots with `n` entries that are
halved (`nextCapacity_eq_size_iff`).
-/

namespace BlockTable

namespace FloatFormat

variable (F : FloatFormat)

theorem infinity_lt_signBit : F.infinity < F.signBit := by
  have hexp : 0 < 2 ^ F.exponentBits := Nat.two_pow_pos _
  rw [infinity, signBit, Nat.shiftLeft_add, Nat.shiftLeft_eq _ F.fractionBits, leadingOne,
    Nat.one_shiftLeft, Nat.one_shiftLeft]
  exact Nat.mul_lt_mul_of_pos_right (by omega) (Nat.two_pow_pos _)

theorem place?_of_le {m : Nat} (h : m ≤ F.infinity) : F.place? m = some (m : Int) := by
  have hlt := Nat.lt_of_le_of_lt h F.infinity_lt_signBit
  have hmag : F.magnitude m = m := Nat.mod_eq_of_lt hlt
  have hnan : F.isNaN m = false := by simp [isNaN, hmag, h]
  have hneg : F.isNegative m = false := by simp [isNegative, hlt]
  simp [place?, hnan, hneg, hmag]

/-- Magnitudes are ordered as their values are. -/
theorem less_iff {a b : Nat} (ha : a ≤ F.infinity) (hb : b ≤ F.infinity) :
    F.less a b = true ↔ a < b := by
  simp [less, F.place?_of_le ha, F.place?_of_le hb]

/-- A number that is more than zero and less than a positive one is such a magnitude. -/
theorem lt_of_less {bits bound : Nat} (hb : bound ≤ F.infinity) (hpos : F.less 0 bits = true)
    (hlt : F.less bits bound = true) : 0 < bits ∧ bits < bound := by
  have hzero := F.place?_of_le (Nat.zero_le F.infinity)
  have hbound := F.place?_of_le hb
  cases hnan : F.isNaN bits with
  | true =>
      rw [less, hzero, place?, hnan] at hpos
      cases hpos
  | false =>
      cases hneg : F.isNegative bits with
      | true =>
          rw [less, hzero, place?, hnan, hneg] at hpos
          simp only [Bool.false_eq_true, if_false, if_true, decide_eq_true_eq] at hpos
          omega
      | false =>
          have hmag : F.magnitude bits = bits := by
            apply Nat.mod_eq_of_lt
            simpa [isNegative] using hneg
          have hle : bits ≤ F.infinity := by
            simpa [isNaN, hmag] using hnan
          exact ⟨(F.less_iff (Nat.zero_le _) hle).mp hpos, (F.less_iff hle hb).mp hlt⟩

/-- A smaller number has fewer units. -/
theorem units_mono {m n : Nat} (h : m ≤ n) (hn : n ≤ F.infinity) : F.units m ≤ F.units n := by
  refine Nat.le_of_not_lt fun hlt => ?_
  have hle := F.ofRatio_mono F.scale_pos F.scale_pos
    (Nat.mul_le_mul_right F.scale (Nat.le_of_lt hlt))
  rw [F.ofRatio_units hn, F.ofRatio_units (Nat.le_trans h hn)] at hle
  have heq : m = n := by omega
  rw [heq] at hlt
  exact Nat.lt_irrefl _ hlt

theorem half_mono {m n : Nat} (h : m ≤ n) (hn : n ≤ F.infinity) : F.half m ≤ F.half n :=
  F.ofRatio_mono (Nat.mul_pos (by decide) F.scale_pos) (Nat.mul_pos (by decide) F.scale_pos)
    (Nat.mul_le_mul_right _ (F.units_mono h hn))

/-- Half of a number is not more than the number. -/
theorem half_le {m : Nat} (h : m ≤ F.infinity) : F.half m ≤ m := by
  calc F.half m ≤ F.ofRatio (F.units m) F.scale :=
        F.ofRatio_mono (Nat.mul_pos (by decide) F.scale_pos) F.scale_pos
          (Nat.mul_le_mul_left _ (by omega))
    _ = m := F.ofRatio_units h

end FloatFormat

namespace Sizing

open FloatFormat (double)

/-! ## Valid settings -/

theorem one_eq : double.ofRatio 1 1 = one := by decide +kernel

theorem one_le_infinity : one ≤ double.infinity := by decide +kernel

/-- What valid settings promise. -/
theorem validate_ok {s : Sizing} (h : s.validate = .ok ()) :
    0 < s.loadFactor.toNat ∧ s.loadFactor.toNat < one ∧ 1 ≤ s.initialCapacity ∧
      1 ≤ s.minCapacity := by
  unfold validate at h
  split at h
  next => cases h
  next hload =>
    split at h
    next => cases h
    next hinit =>
      split at h
      next => cases h
      next hmin =>
        simp only [hasLoadFactor, Bool.not_eq_true, Bool.not_eq_false', Bool.and_eq_true] at hload
        obtain ⟨hpos, hlt⟩ := double.lt_of_less one_le_infinity hload.1 hload.2
        exact ⟨hpos, hlt, by omega, by omega⟩

/-! ## The two tests -/

section tests

variable {loadFactor : UInt64} {minCapacity size capacity : Nat}

theorem isCrowded_iff (hlf : loadFactor.toNat < one) :
    isCrowded loadFactor size capacity = true ↔ loadFactor.toNat < load size capacity :=
  double.less_iff (by have := one_le_infinity; omega) (double.ofRatio_le_infinity ..)

theorem isSparse_iff :
    isSparse loadFactor size capacity = true ↔
      load size capacity < double.half loadFactor.toNat :=
  double.less_iff (double.ofRatio_le_infinity ..) (double.ofRatio_le_infinity ..)

/-- An array without an empty slot is crowded. -/
theorem size_lt_of_not_isCrowded (hlf : loadFactor.toNat < one) (hc : 0 < capacity)
    (h : isCrowded loadFactor size capacity = false) : size < capacity := by
  refine Nat.lt_of_not_le fun hle => ?_
  have hone : one ≤ load size capacity := by
    rw [← one_eq]
    exact double.ofRatio_mono Nat.one_pos hc (by omega)
  have hcrowded : isCrowded loadFactor size capacity = true :=
    (isCrowded_iff hlf).mpr (by omega)
  rw [hcrowded] at h
  cases h

/-- A load factor below one is less than one in units. -/
theorem units_lt_scale (hlf : loadFactor.toNat < one) :
    double.units loadFactor.toNat < double.scale := by
  refine Nat.lt_of_not_le fun hle => ?_
  have hone : one ≤ double.ofRatio (double.units loadFactor.toNat) double.scale := by
    rw [← one_eq]
    exact double.ofRatio_mono Nat.one_pos double.scale_pos (by omega)
  rw [double.ofRatio_units (by have := one_le_infinity; omega)] at hone
  omega

/-- A sparse array is less than half full. -/
theorem two_mul_lt_of_isSparse (hlf : loadFactor.toNat < one) (hc : 0 < capacity)
    (h : isSparse loadFactor size capacity = true) : 2 * size < capacity := by
  refine Nat.lt_of_not_le fun hle => ?_
  have hload : double.ofRatio 1 2 ≤ load size capacity :=
    double.ofRatio_mono (by decide) hc (by omega)
  have hunits := units_lt_scale hlf
  have hhalf : double.half loadFactor.toNat ≤ double.ofRatio 1 2 :=
    double.ofRatio_mono (Nat.mul_pos (by decide) double.scale_pos) (by decide) (by omega)
  have hsparse := isSparse_iff.mp h
  omega

/-- A sparse array is not crowded. -/
theorem not_isCrowded_of_isSparse (hlf : loadFactor.toNat < one)
    (h : isSparse loadFactor size capacity = true) :
    isCrowded loadFactor size capacity = false := by
  have hhalf := double.half_le (m := loadFactor.toNat) (by have := one_le_infinity; omega)
  have hsparse := isSparse_iff.mp h
  cases hcrowded : isCrowded loadFactor size capacity with
  | false => rfl
  | true =>
      have := (isCrowded_iff hlf).mp hcrowded
      omega

/-- The bits of the number nearest to four fifths. -/
def fourFifths : UInt64 := 0x3fe999999999999a

theorem half_fourFifths : double.half fourFifths.toNat = double.ofRatio 2 5 := by decide +kernel

/-- Up to a load factor of four fifths, two entries in five slots are not sparse. -/
theorem not_isSparse_of_le_fourFifths (hlf : loadFactor.toNat ≤ fourFifths.toNat)
    (hc : 0 < capacity) (h : 2 * capacity ≤ 5 * size) :
    isSparse loadFactor size capacity = false := by
  have hload : double.ofRatio 2 5 ≤ load size capacity :=
    double.ofRatio_mono (by decide) hc (by omega)
  have hhalf : double.half loadFactor.toNat ≤ double.ofRatio 2 5 := by
    rw [← half_fourFifths]
    exact double.half_mono hlf (by decide +kernel)
  cases hsparse : isSparse loadFactor size capacity with
  | false => rfl
  | true =>
      have := isSparse_iff.mp hsparse
      omega

/-! ## The next capacity -/

/-- The number of slots is doubled, halved or kept. -/
theorem nextCapacity_cases (loadFactor : UInt64) (minCapacity size capacity : Nat) :
    (isCrowded loadFactor size capacity = true ∧
      nextCapacity loadFactor minCapacity size capacity = capacity * 2) ∨
    (isSparse loadFactor size capacity = true ∧ minCapacity < capacity / 2 ∧
      nextCapacity loadFactor minCapacity size capacity = capacity / 2) ∨
    (isCrowded loadFactor size capacity = false ∧
      nextCapacity loadFactor minCapacity size capacity = capacity) := by
  unfold nextCapacity
  cases isCrowded loadFactor size capacity with
  | true => exact Or.inl ⟨rfl, rfl⟩
  | false =>
      right
      simp only [Bool.false_eq_true, if_false]
      split
      next h =>
        simp only [Bool.and_eq_true, decide_eq_true_eq] at h
        exact Or.inl ⟨h.1, h.2, rfl⟩
      next => exact Or.inr ⟨trivial, rfl⟩

/-- At a load factor of 0.5, two entries are too many for two slots and one is not, and five slots
are halved downwards. -/
example :
    nextCapacity 0x3fe0000000000000 1 2 2 = 4 ∧ nextCapacity 0x3fe0000000000000 1 1 2 = 2 ∧
      nextCapacity 0x3fe0000000000000 1 1 5 = 2 := by
  decide +kernel

theorem nextCapacity_pos (hc : 0 < capacity) :
    0 < nextCapacity loadFactor minCapacity size capacity := by
  rcases nextCapacity_cases loadFactor minCapacity size capacity with h | h | h <;> omega

/-- The next capacity has room for all entries. -/
theorem size_le_nextCapacity (hlf : loadFactor.toNat < one) (hc : 0 < capacity)
    (hs : size ≤ capacity) : size ≤ nextCapacity loadFactor minCapacity size capacity := by
  rcases nextCapacity_cases loadFactor minCapacity size capacity with h | ⟨h, -, hnext⟩ | h
  · omega
  · have := two_mul_lt_of_isSparse hlf hc h
    omega
  · omega

/-- It has room for nothing else only when an odd number of slots is halved. -/
theorem nextCapacity_eq_size_iff (hlf : loadFactor.toNat < one) (hc : 0 < capacity)
    (hs : size ≤ capacity) :
    nextCapacity loadFactor minCapacity size capacity = size ↔
      capacity = 2 * size + 1 ∧ minCapacity < size ∧
        isSparse loadFactor size capacity = true := by
  constructor
  · intro heq
    rcases nextCapacity_cases loadFactor minCapacity size capacity with
      ⟨-, h⟩ | ⟨hsparse, hmin, h⟩ | ⟨hcrowded, h⟩
    · omega
    · have := two_mul_lt_of_isSparse hlf hc hsparse
      exact ⟨by omega, by omega, hsparse⟩
    · have := size_lt_of_not_isCrowded hlf hc hcrowded
      omega
  · rintro ⟨hodd, hmin, hsparse⟩
    have hhalf : capacity / 2 = size := by omega
    unfold nextCapacity
    rw [not_isCrowded_of_isSparse hlf hsparse, hsparse, hhalf]
    simp [hmin]

end tests

end Sizing

end BlockTable
