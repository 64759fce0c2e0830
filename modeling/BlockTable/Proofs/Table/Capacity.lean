import BlockTable.Proofs.Table.Steady
import Mathlib.Algebra.Order.Field.Basic
import Mathlib.Algebra.Order.Field.Rat
import Mathlib.Data.List.Induction
import Mathlib.Tactic.Linarith

/-!
# Bounds of the capacity

How few and how many slots a table can have, from its settings and from its *peak*, the largest
number of entries that it has had so far.

An array is halved only to more than the minimum, so the number of slots falls below the initial
one only as far as that.  An array is doubled only if its load is above the load factor.  The load
is a rounded quotient, but a number of the format is below it only if it is below the quotient, so
twice as many slots are still fewer than twice the entries over the load factor
(`Sizing.double_lt_of_isCrowded`).  The entries may then go again and leave the slots behind.  That
is why the upper bound speaks of the peak and not of the size.

`Sizing.Bounded` holds both bounds.  One change of the number of slots keeps them
(`Sizing.Bounded.next`), so every call does (`Shows.bounded_call`), and so does every run.
-/

namespace BlockTable

open FloatFormat (double)

/-- The value of a finite magnitude. -/
def FloatFormat.value (F : FloatFormat) (magnitude : Nat) : ℚ := F.units magnitude / F.scale

namespace Sizing

/-- The bounds of a number of slots, when there have been `peak` entries at most. -/
structure Bounded (s : Sizing) (peak capacity : Nat) : Prop where
  /-- There are as many slots as at first, or more than the minimum. -/
  lower : min s.initialCapacity (s.minCapacity + 1) ≤ capacity
  /-- There are no more slots than at first, or fewer than twice the peak over the load factor. -/
  upper : capacity ≤ s.initialCapacity ∨
    (capacity : ℚ) < 2 * peak / double.value s.loadFactor.toNat

section loads

variable {loadFactor : UInt64} {size capacity : Nat}

theorem value_pos (hpos : 0 < loadFactor.toNat) (hlf : loadFactor.toNat < one) :
    0 < double.value loadFactor.toNat := by
  have hone := one_le_infinity
  have hunits : 1 ≤ double.units loadFactor.toNat := by
    calc 1 = double.units 1 := units_one.symm
      _ ≤ double.units loadFactor.toNat := double.units_mono hpos (by omega)
  exact div_pos (Nat.cast_pos.mpr hunits) (Nat.cast_pos.mpr double.scale_pos)

example : double.value 0x3fe0000000000000 = 1 / 2 := by decide +kernel

/-- Twice as many slots as those of a crowded array are fewer than twice the entries over the load
factor. -/
theorem double_lt_of_isCrowded (hpos : 0 < loadFactor.toNat) (hlf : loadFactor.toNat < one)
    (hc : 0 < capacity) (h : isCrowded loadFactor size capacity = true) :
    ((capacity * 2 : Nat) : ℚ) < 2 * size / double.value loadFactor.toNat := by
  have hone := one_le_infinity
  have hless : double.units loadFactor.toNat * capacity < size * double.scale :=
    double.units_mul_lt (by omega) hc ((isCrowded_iff hlf).mp h)
  have hscale : (0 : ℚ) < double.scale := Nat.cast_pos.mpr double.scale_pos
  have hvalue : double.value loadFactor.toNat * capacity < size := by
    rw [FloatFormat.value, div_mul_eq_mul_div, div_lt_iff₀ hscale]
    exact_mod_cast hless
  rw [lt_div_iff₀ (value_pos hpos hlf)]
  push_cast
  linarith

/-- An array that loses slots keeps more than the minimum. -/
theorem lt_of_nextCapacity_lt {minCapacity : Nat}
    (h : nextCapacity loadFactor minCapacity size capacity < capacity) :
    minCapacity < nextCapacity loadFactor minCapacity size capacity := by
  obtain ⟨-, hnext⟩ | ⟨-, hmin, hnext⟩ | ⟨-, hnext⟩ :=
    nextCapacity_cases loadFactor minCapacity size capacity
  · omega
  · rwa [hnext]
  · omega

end loads

namespace Bounded

variable {s : Sizing} {peak peak' size capacity : Nat}

theorem mono (h : s.Bounded peak capacity) (hvalid : s.validate = .ok ()) (hle : peak ≤ peak') :
    s.Bounded peak' capacity := by
  obtain ⟨hpos, hlf, -, -⟩ := validate_ok hvalid
  refine ⟨h.lower, h.upper.imp_right fun hlt => hlt.trans_le ?_⟩
  have hcast : (peak : ℚ) ≤ peak' := Nat.cast_le.mpr hle
  exact div_le_div_of_nonneg_right (by linarith) (value_pos hpos hlf).le

theorem pos (h : s.Bounded peak capacity) (hvalid : s.validate = .ok ()) : 0 < capacity := by
  obtain ⟨-, -, hinit, -⟩ := validate_ok hvalid
  have hlower := h.lower
  omega

/-- Fewer slots keep the bounds if they are more than the minimum. -/
theorem of_le {capacity' : Nat} (h : s.Bounded peak capacity) (hmin : s.minCapacity < capacity')
    (hle : capacity' ≤ capacity) : s.Bounded peak capacity' := by
  refine ⟨by omega, h.upper.imp hle.trans fun hlt => lt_of_le_of_lt ?_ hlt⟩
  exact Nat.cast_le.mpr hle

/-- The next number of slots is within the bounds. -/
theorem next (h : s.Bounded peak capacity) (hvalid : s.validate = .ok ()) (hsize : size ≤ peak) :
    s.Bounded peak (nextCapacity s.loadFactor s.minCapacity size capacity) := by
  obtain ⟨hpos, hlf, -, -⟩ := validate_ok hvalid
  have hlower := h.lower
  obtain ⟨hcrowded, hnext⟩ | ⟨-, hmin, hnext⟩ | ⟨-, hnext⟩ :=
    nextCapacity_cases s.loadFactor s.minCapacity size capacity
  · rw [hnext]
    have hdoubled : s.Bounded size (capacity * 2) :=
      ⟨by omega, .inr (double_lt_of_isCrowded hpos hlf (h.pos hvalid) hcrowded)⟩
    exact hdoubled.mono hvalid hsize
  · rw [hnext]
    exact h.of_le hmin (Nat.div_le_self ..)
  · rwa [hnext]

end Bounded

end Sizing

/-! ## Calls -/

variable {κ ν : Type} {scheme : Scheme κ ν} {sizing : Sizing} {t : Table κ ν}
  {g : Slots scheme.Entry}

theorem Table.capacity_clear (t : Table κ ν) : t.clear.2.capacity = t.capacity := by
  cases hslots : t.slots? with
  | none => rw [clear, slots_of_none hslots]
  | some s =>
      rw [clear_of_some hslots, capacity_of_some hslots]
      exact Slots.capacity_empty s.capacity

namespace Shows

/-- A resize keeps the number of slots, or gives the one that the load asks for. -/
theorem capacity_adjust (h : Shows scheme t g) :
    t.adjust.2.capacity = t.capacity ∨ t.adjust.2.capacity = t.wanted t.capacity := by
  rw [Table.capacity_of_some h.slots]
  have hend := h.resizeEnd h.slots
  generalize t.adjust = result at hend
  cases hend with
  | kept | failed => exact .inl (Table.capacity_of_some h.slots)
  | resized _ hresized =>
      rw [hresized.table]
      exact .inr hresized.capacity

variable [BEq κ]

/-- So does every call. -/
theorem capacity_call_cases (h : Shows scheme t g) (c : Call κ ν) :
    (t.call c).2.capacity = t.capacity ∨ (t.call c).2.capacity = t.wanted t.capacity := by
  cases c with
  | put | remove =>
      rw [h.capacity_call rfl]
      exact h.capacity_adjust
  | clear => exact .inl t.capacity_clear
  | get | contains | length | isEmpty => exact .inl rfl

end Shows

/-! ## Runs -/

namespace Table

variable [BEq κ]

/-- The largest number of entries that the table has at any time of a run. -/
def peak (t : Table κ ν) : List (Call κ ν) → Nat
  | [] => t.size
  | c :: cs => max t.size ((t.call c).2.peak cs)

theorem size_after_le_peak (t : Table κ ν) (calls : List (Call κ ν)) :
    (t.after calls).size ≤ t.peak calls := by
  induction calls generalizing t with
  | nil => exact Nat.le_refl _
  | cons c cs ih => exact (ih (t.call c).2).trans (Nat.le_max_right ..)

theorem peak_le_concat (t : Table κ ν) (calls : List (Call κ ν)) (c : Call κ ν) :
    t.peak calls ≤ t.peak (calls ++ [c]) := by
  induction calls generalizing t with
  | nil => exact Nat.le_max_left ..
  | cons first rest ih => exact max_le_max_left t.size (ih (t.call first).2)

/-- The number of slots that the load asks for is within the bounds behind every run.  The next call
looks at the size, which is no more than the peak. -/
theorem bounded_wanted (scheme : Scheme κ ν) (hvalid : sizing.validate = .ok ())
    (calls : List (Call κ ν)) {capacity : Nat}
    (h : sizing.Bounded ((ofSizing scheme sizing).peak calls) capacity) :
    sizing.Bounded ((ofSizing scheme sizing).peak calls)
      (((ofSizing scheme sizing).after calls).wanted capacity) := by
  obtain ⟨hload, hmin⟩ := after_settings (ofSizing scheme sizing) calls
  rw [wanted, hload, hmin]
  exact h.next hvalid (size_after_le_peak _ calls)

/-- The induction is on the run, from its end. -/
theorem bounded_after (scheme : Scheme κ ν) (hvalid : sizing.validate = .ok ())
    (calls : List (Call κ ν)) :
    sizing.Bounded ((ofSizing scheme sizing).peak calls)
      ((ofSizing scheme sizing).after calls).capacity := by
  induction calls using List.reverseRecOn with
  | nil =>
      have hcap : (ofSizing scheme sizing).capacity = sizing.initialCapacity :=
        Slots.capacity_empty sizing.initialCapacity
      rw [after, hcap]
      exact ⟨Nat.min_le_left .., .inl (Nat.le_refl _)⟩
  | append_singleton calls c ih =>
      obtain ⟨g, h⟩ := shows_after scheme hvalid calls
      refine Sizing.Bounded.mono ?_ hvalid (peak_le_concat _ calls c)
      rw [after_concat]
      obtain hkept | hchanged := h.capacity_call_cases c
      · rwa [hkept]
      · rw [hchanged]
        exact bounded_wanted scheme hvalid calls ih

/-- On every table that a run leads to, from valid settings and with any codecs: the number of slots
is within the bounds, before and behind the resize of the next call, so no load is a quotient by
zero and no home is a remainder by zero.  A call that takes slots away leaves more than the minimum.
Clearing the table takes none away. -/
theorem capacity_bounded (scheme : Scheme κ ν) {sizing : Sizing} (hvalid : sizing.validate = .ok ())
    (calls : List (Call κ ν)) :
    let start := ofSizing scheme sizing
    let t := start.after calls
    sizing.Bounded (start.peak calls) t.capacity ∧
    sizing.Bounded (start.peak calls) t.adjust.2.capacity ∧
    0 < t.capacity ∧ 0 < t.wanted t.capacity ∧ 0 < t.adjust.2.capacity ∧
    (∀ c, (t.call c).2.capacity < t.capacity → sizing.minCapacity < (t.call c).2.capacity) ∧
    t.clear.2.capacity = t.capacity := by
  intro start t
  obtain ⟨g, h⟩ : ∃ g, Shows scheme t g := shows_after scheme hvalid calls
  have hbounded : sizing.Bounded (start.peak calls) t.capacity :=
    bounded_after scheme hvalid calls
  have hwanted : sizing.Bounded (start.peak calls) (t.wanted t.capacity) :=
    bounded_wanted scheme hvalid calls hbounded
  have hadjusted : sizing.Bounded (start.peak calls) t.adjust.2.capacity := by
    obtain hkept | hchanged := h.capacity_adjust
    · rwa [hkept]
    · rwa [hchanged]
  refine ⟨hbounded, hadjusted, hbounded.pos hvalid, hwanted.pos hvalid, hadjusted.pos hvalid,
    fun c hless => ?_, t.capacity_clear⟩
  obtain hkept | hchanged := h.capacity_call_cases c
  · omega
  · obtain ⟨-, hmin⟩ : t.loadFactor = sizing.loadFactor ∧ t.minCapacity = sizing.minCapacity :=
      after_settings start calls
    rw [hchanged] at hless ⊢
    rw [← hmin]
    exact Sizing.lt_of_nextCapacity_lt hless

/-- Eight slots are left behind by four entries, of which one is still there. -/
theorem capacity_bounded_peak :
    let sizing : Sizing := ⟨0x3fe0000000000000, 2, 1⟩
    let calls : List (Call (BitVec 8) Bool) :=
      [.put 1 true, .put 2 true, .put 3 true, .put 4 true, .remove 1, .remove 2, .remove 3]
    let t := (ofSizing .crowding sizing).after calls
    sizing.validate = .ok () ∧ t.size = 1 ∧ (ofSizing .crowding sizing).peak calls = 4 ∧
      t.capacity = 8 ∧ (8 : ℚ) < 2 * 4 / double.value 0x3fe0000000000000 := by
  intro sizing calls t
  have hvalid : sizing.validate = .ok () := by decide +kernel
  have hpeak : (ofSizing .crowding sizing).peak calls = 4 := by decide +kernel
  have hcap : t.capacity = 8 := by decide +kernel
  obtain ⟨⟨-, hupper⟩, -⟩ := capacity_bounded .crowding hvalid calls
  rw [hpeak, hcap] at hupper
  obtain hle | hlt := hupper
  · exact absurd hle (by decide)
  · exact ⟨hvalid, by decide +kernel, hpeak, hcap, by exact_mod_cast hlt⟩

end Table

end BlockTable
