import BlockTable.Numeric.FloatFormat

/-!
# Rounding quotients

Two laws of `ofRatio` are enough to compare rounded quotients with numbers of the format: it keeps
the order of quotients (`ofRatio_mono`), and a number of the format is its own rounding
(`ofRatio_units`).  So a quotient is rounded to at most a number exactly when it could not be
rounded to more, and no error has to be bounded.

A quotient is rounded to a whole number of units at a power of two that depends on its size
(`ratioShift`).  Between two quotients with one shift the order is that of `roundEven`.  Between
two with different shifts the power of two itself lies between the results.
-/

namespace BlockTable.FloatFormat

/-! ## Rounding to a whole number -/

theorem roundEven_of_lt {num den : Nat} (h : 2 * (num % den) < den) :
    roundEven num den = num / den := by
  simp only [roundEven, if_pos h]

theorem roundEven_of_eq {num den : Nat} (h : 2 * (num % den) = den) :
    roundEven num den = num / den + num / den % 2 := by
  simp only [roundEven, h, Nat.lt_irrefl, if_false]

example : roundEven 3 2 = 2 ∧ roundEven 5 2 = 2 := by decide

theorem roundEven_of_gt {num den : Nat} (h : den < 2 * (num % den)) :
    roundEven num den = num / den + 1 := by
  simp only [roundEven, if_neg (Nat.lt_asymm h), if_pos h]

theorem roundEven_le (num den : Nat) : roundEven num den ≤ num / den + 1 := by
  rcases Nat.lt_trichotomy (2 * (num % den)) den with h | h | h
  · rw [roundEven_of_lt h]
    omega
  · rw [roundEven_of_eq h]
    omega
  · exact Nat.le_of_eq (roundEven_of_gt h)

theorem le_roundEven (num den : Nat) : num / den ≤ roundEven num den := by
  rcases Nat.lt_trichotomy (2 * (num % den)) den with h | h | h
  · exact Nat.le_of_eq (roundEven_of_lt h).symm
  · rw [roundEven_of_eq h]
    omega
  · rw [roundEven_of_gt h]
    omega

/-- A whole number stays as it is. -/
theorem roundEven_mul (k : Nat) {den : Nat} (hd : 0 < den) : roundEven (k * den) den = k := by
  rw [roundEven_of_lt (by rw [Nat.mul_mod_left]; exact hd), Nat.mul_div_cancel k hd]

section quotients

variable {n d n' d' : Nat}

theorem div_mono (hd : 0 < d) (hd' : 0 < d') (h : n * d' ≤ n' * d) : n / d ≤ n' / d' := by
  rw [Nat.le_div_iff_mul_le hd']
  refine Nat.le_of_mul_le_mul_right ?_ hd
  calc n / d * d' * d = n / d * d * d' := Nat.mul_right_comm ..
    _ ≤ n * d' := Nat.mul_le_mul_right d' (Nat.div_mul_le_self n d)
    _ ≤ n' * d := h

/-- Between the same whole numbers, the rests are in the order of the quotients. -/
theorem mod_mono (heq : n / d = n' / d') (h : n * d' ≤ n' * d) : n % d * d' ≤ n' % d' * d := by
  have hn := Nat.div_add_mod n d
  have hn' := Nat.div_add_mod n' d'
  rw [← hn, ← hn', heq, Nat.add_mul, Nat.add_mul,
    show d * (n' / d') * d' = d' * (n' / d') * d by ac_rfl] at h
  exact Nat.le_of_add_le_add_left h

/-- A rest of a half or more is met by a rest of a half or more. -/
theorem half_le_mod (hd : 0 < d) (hrest : n % d * d' ≤ n' % d' * d) (h : d ≤ 2 * (n % d)) :
    d' ≤ 2 * (n' % d') := by
  refine Nat.le_of_mul_le_mul_right ?_ hd
  calc d' * d = d * d' := Nat.mul_comm ..
    _ ≤ 2 * (n % d) * d' := Nat.mul_le_mul_right d' h
    _ = 2 * (n % d * d') := Nat.mul_assoc ..
    _ ≤ 2 * (n' % d' * d) := Nat.mul_le_mul_left 2 hrest
    _ = 2 * (n' % d') * d := (Nat.mul_assoc ..).symm

theorem half_lt_mod (hd' : 0 < d') (hrest : n % d * d' ≤ n' % d' * d) (h : d < 2 * (n % d)) :
    d' < 2 * (n' % d') := by
  refine Nat.lt_of_mul_lt_mul_right (a := d) ?_
  calc d' * d = d * d' := Nat.mul_comm ..
    _ < 2 * (n % d) * d' := Nat.mul_lt_mul_of_pos_right h hd'
    _ = 2 * (n % d * d') := Nat.mul_assoc ..
    _ ≤ 2 * (n' % d' * d) := Nat.mul_le_mul_left 2 hrest
    _ = 2 * (n' % d') * d := (Nat.mul_assoc ..).symm

/-- Rounding keeps the order of quotients.  Where the two lie between the same whole numbers, the
one with the larger rest is not rounded down alone. -/
theorem roundEven_mono (hd : 0 < d) (hd' : 0 < d') (h : n * d' ≤ n' * d) :
    roundEven n d ≤ roundEven n' d' := by
  rcases Nat.lt_or_eq_of_le (div_mono hd hd' h) with hlt | heq
  · calc roundEven n d ≤ n / d + 1 := roundEven_le n d
      _ ≤ n' / d' := hlt
      _ ≤ roundEven n' d' := le_roundEven n' d'
  · have hrest := mod_mono heq h
    rcases Nat.lt_trichotomy (2 * (n % d)) d with hless | hequal | hgreater
    · rw [roundEven_of_lt hless, heq]
      exact le_roundEven n' d'
    · rw [roundEven_of_eq hequal, heq]
      rcases Nat.lt_or_eq_of_le (half_le_mod hd hrest (Nat.le_of_eq hequal.symm)) with hgt | heq'
      · rw [roundEven_of_gt hgt]
        omega
      · exact Nat.le_of_eq (roundEven_of_eq heq'.symm).symm
    · rw [roundEven_of_gt hgreater, heq]
      exact Nat.le_of_eq (roundEven_of_gt (half_lt_mod hd' hrest hgreater)).symm

end quotients

/-! ## Rounding to the format -/

variable (F : FloatFormat)

theorem leadingOne_pos : 0 < F.leadingOne := by
  rw [leadingOne, Nat.one_shiftLeft]
  exact Nat.two_pow_pos _

theorem scale_pos : 0 < F.scale := by
  rw [scale, Nat.one_shiftLeft]
  exact Nat.two_pow_pos _

theorem shifted_pos {den : Nat} (hd : 0 < den) (n : Nat) : 0 < den <<< n := by
  rw [Nat.shiftLeft_eq]
  exact Nat.mul_pos hd (Nat.two_pow_pos n)

theorem log2_mono {m n : Nat} (h : m ≤ n) : m.log2 ≤ n.log2 := by
  by_cases hm : m = 0
  · rw [hm, Nat.log2_zero]
    exact Nat.zero_le _
  · exact (Nat.le_log2 (by omega)).mpr (Nat.le_trans (Nat.log2_self_le hm) h)

/-- The power of two in which the rounding of a quotient counts. -/
def ratioShift (num den : Nat) : Nat := (num * F.scale / den).log2 - F.fractionBits

theorem ofRatio_eq (num den : Nat) :
    F.ofRatio num den = min F.infinity (F.ratioShift num den * F.leadingOne +
      roundEven (num * F.scale) (den <<< F.ratioShift num den)) := rfl

theorem ofRatio_le_infinity (num den : Nat) : F.ofRatio num den ≤ F.infinity :=
  Nat.min_le_left ..

/-- A rounded significand is at most twice the leading one. -/
theorem roundEven_ratioShift_le (num : Nat) {den : Nat} (hd : 0 < den) :
    roundEven (num * F.scale) (den <<< F.ratioShift num den) ≤ 2 * F.leadingOne := by
  have hlt : num * F.scale / den < 1 <<< (F.ratioShift num den + (F.fractionBits + 1)) := by
    rw [Nat.one_shiftLeft]
    exact Nat.lt_of_lt_of_le Nat.lt_log2_self
      (Nat.pow_le_pow_right (by decide) (by unfold ratioShift; omega))
  rw [Nat.div_lt_iff_lt_mul hd, Nat.one_shiftLeft, Nat.pow_add, Nat.pow_succ] at hlt
  have hle : num * F.scale * 1 ≤ 2 * F.leadingOne * (den <<< F.ratioShift num den) := by
    rw [Nat.mul_one, leadingOne, Nat.one_shiftLeft, Nat.shiftLeft_eq]
    refine Nat.le_of_lt (Nat.lt_of_lt_of_eq hlt ?_)
    ac_rfl
  have h := roundEven_mono (shifted_pos hd (F.ratioShift num den)) Nat.one_pos hle
  have hone := roundEven_mul (2 * F.leadingOne) Nat.one_pos
  rw [Nat.mul_one] at hone
  rwa [hone] at h

/-- A significand that is shifted is at least the leading one. -/
theorem leadingOne_le_roundEven {num den : Nat} (hd : 0 < den)
    (hshift : 0 < F.ratioShift num den) :
    F.leadingOne ≤ roundEven (num * F.scale) (den <<< F.ratioShift num den) := by
  have hne : num * F.scale / den ≠ 0 := by
    intro hzero
    unfold ratioShift at hshift
    rw [hzero, Nat.log2_zero] at hshift
    omega
  have hle : 1 <<< (F.ratioShift num den + F.fractionBits) ≤ num * F.scale / den := by
    have hexp : F.ratioShift num den + F.fractionBits = (num * F.scale / den).log2 := by
      unfold ratioShift at hshift ⊢
      omega
    rw [hexp, Nat.one_shiftLeft]
    exact Nat.log2_self_le hne
  rw [Nat.le_div_iff_mul_le hd, Nat.one_shiftLeft, Nat.pow_add] at hle
  have hle' : F.leadingOne * (den <<< F.ratioShift num den) ≤ num * F.scale * 1 := by
    rw [Nat.mul_one]
    refine Nat.le_trans (Nat.le_of_eq ?_) hle
    rw [leadingOne, Nat.one_shiftLeft, Nat.shiftLeft_eq]
    ac_rfl
  have h := roundEven_mono Nat.one_pos (shifted_pos hd (F.ratioShift num den)) hle'
  have hone := roundEven_mul F.leadingOne Nat.one_pos
  rw [Nat.mul_one] at hone
  rwa [hone] at h

/-- Rounding to the format keeps the order of quotients. -/
theorem ofRatio_mono {num den num' den' : Nat} (hd : 0 < den) (hd' : 0 < den')
    (h : num * den' ≤ num' * den) : F.ofRatio num den ≤ F.ofRatio num' den' := by
  have hscaled : num * F.scale * den' ≤ num' * F.scale * den := by
    calc num * F.scale * den' = num * den' * F.scale := Nat.mul_right_comm ..
      _ ≤ num' * den * F.scale := Nat.mul_le_mul_right _ h
      _ = num' * F.scale * den := Nat.mul_right_comm ..
  have hshift : F.ratioShift num den ≤ F.ratioShift num' den' :=
    Nat.sub_le_sub_right (log2_mono (div_mono hd hd' hscaled)) _
  rw [ofRatio_eq, ofRatio_eq]
  suffices hle : F.ratioShift num den * F.leadingOne +
      roundEven (num * F.scale) (den <<< F.ratioShift num den) ≤
        F.ratioShift num' den' * F.leadingOne +
          roundEven (num' * F.scale) (den' <<< F.ratioShift num' den') by omega
  rcases Nat.lt_or_eq_of_le hshift with hlt | heq
  · have hupper := F.roundEven_ratioShift_le num hd
    have hlower := F.leadingOne_le_roundEven hd' (Nat.lt_of_le_of_lt (Nat.zero_le _) hlt)
    have hstep := Nat.mul_le_mul_right F.leadingOne (Nat.succ_le_of_lt hlt)
    rw [Nat.succ_mul] at hstep
    omega
  · rw [heq]
    refine Nat.add_le_add_left (roundEven_mono (shifted_pos hd _) (shifted_pos hd' _) ?_) _
    rw [Nat.shiftLeft_eq, Nat.shiftLeft_eq, ← Nat.mul_assoc, ← Nat.mul_assoc]
    exact Nat.mul_le_mul_right _ hscaled

/-! ## Numbers of the format -/

theorem significand_lt (m : Nat) : F.significand m < 2 * F.leadingOne := by
  have hmod := Nat.mod_lt m F.leadingOne_pos
  have hdiv := Nat.div_add_mod m F.leadingOne
  unfold significand shift
  cases he : m / F.leadingOne with
  | zero =>
      rw [he] at hdiv
      simp only [Nat.mul_zero, Nat.zero_sub, Nat.zero_mul] at hdiv ⊢
      omega
  | succ e =>
      rw [he, Nat.mul_comm, Nat.succ_mul] at hdiv
      rw [Nat.add_sub_cancel]
      omega

theorem shift_mul_le (m : Nat) : F.shift m * F.leadingOne ≤ m := by
  calc F.shift m * F.leadingOne ≤ m / F.leadingOne * F.leadingOne :=
        Nat.mul_le_mul_right _ (Nat.sub_le ..)
    _ ≤ m := Nat.div_mul_le_self ..

theorem leadingOne_le_significand {m : Nat} (h : 0 < F.shift m) :
    F.leadingOne ≤ F.significand m := by
  have hle := Nat.div_mul_le_self m F.leadingOne
  unfold significand shift at *
  cases he : m / F.leadingOne with
  | zero =>
      rw [he] at h
      exact absurd h (by decide)
  | succ e =>
      rw [he, Nat.succ_mul] at hle
      rw [Nat.add_sub_cancel]
      omega

/-- The logarithm of a number tells its shift. -/
theorem log2_units (m : Nat) : (F.units m).log2 - F.fractionBits = F.shift m := by
  have hsig := F.significand_lt m
  rw [leadingOne, Nat.one_shiftLeft] at hsig
  by_cases hshift : F.shift m = 0
  · rw [units, hshift, Nat.shiftLeft_zero]
    by_cases hzero : F.significand m = 0
    · rw [hzero, Nat.log2_zero, Nat.zero_sub]
    · have : (F.significand m).log2 < F.fractionBits + 1 :=
        (Nat.log2_lt hzero).mpr (by rw [Nat.pow_succ]; omega)
      omega
  · have hlead := F.leadingOne_le_significand (Nat.pos_of_ne_zero hshift)
    have hpos := Nat.lt_of_lt_of_le F.leadingOne_pos hlead
    have hne : F.units m ≠ 0 := Nat.ne_of_gt (shifted_pos hpos _)
    rw [leadingOne, Nat.one_shiftLeft] at hlead
    have hlog : (F.units m).log2 = F.fractionBits + F.shift m := by
      rw [Nat.log2_eq_iff hne, units, Nat.shiftLeft_eq]
      constructor
      · rw [Nat.pow_add]
        exact Nat.mul_le_mul_right _ hlead
      · rw [Nat.add_right_comm, Nat.pow_add, Nat.pow_succ, Nat.mul_comm (2 ^ _) 2]
        exact Nat.mul_lt_mul_of_pos_right hsig (Nat.two_pow_pos _)
    omega

/-- A number of the format is its own rounding. -/
theorem ofRatio_units {m : Nat} (h : m ≤ F.infinity) : F.ofRatio (F.units m) F.scale = m := by
  have hshift : F.ratioShift (F.units m) F.scale = F.shift m := by
    rw [ratioShift, Nat.mul_div_cancel _ F.scale_pos, log2_units]
  have hround : roundEven (F.units m * F.scale) (F.scale <<< F.shift m) = F.significand m := by
    rw [units, Nat.shiftLeft_eq, Nat.mul_assoc, Nat.mul_comm (2 ^ F.shift m), ← Nat.shiftLeft_eq]
    exact roundEven_mul _ (shifted_pos F.scale_pos _)
  have hle := F.shift_mul_le m
  rw [ofRatio_eq, hshift, hround, significand]
  omega

end BlockTable.FloatFormat
