import BlockTable.Proofs.Table.Conservation

/-!
# Versions

How far an act brings the version of a table.  `bumps` counts it without the modulus, and the
version follows this count (`Alive.act_version`).  An act that does not bump the version changes
nothing, unless it closes the table (`Alive.act_eq`).  So whatever changes a slot, a block or the
size also bumps the version: a resize, also when the `put` or the removal behind it finds nothing to
do or fails, a `put` that came past its resize, and every block that is taken out.
-/

namespace BlockTable

open Slots

variable {κ ν : Type} {scheme : Scheme κ ν} {t t' t'' : Table κ ν} {g : Slots scheme.Entry}

namespace Table

/-- The version of `t'` is that of `t` bumped `n` times, and without a bump the tables are one. -/
structure Bumped (t : Table κ ν) (n : Nat) (t' : Table κ ν) : Prop where
  version : t'.version = t.version + UInt64.ofNat n
  unchanged : n = 0 → t' = t

theorem Bumped.refl (t : Table κ ν) : t.Bumped 0 t := ⟨(UInt64.add_zero _).symm, fun _ => rfl⟩

theorem Bumped.trans {m n : Nat} (h : t.Bumped m t') (h' : t'.Bumped n t'') :
    t.Bumped (m + n) t'' := by
  refine ⟨?_, fun hzero => ?_⟩
  · rw [h'.version, h.version, UInt64.ofNat_add, UInt64.add_assoc]
  · obtain ⟨rfl, rfl⟩ : m = 0 ∧ n = 0 := by omega
    exact (h'.unchanged rfl).trans (h.unchanged rfl)

/-- How often a resize bumps the version: once if it changes the number of slots. -/
def resizes (t : Table κ ν) : Nat := if t.adjust.2.capacity = t.capacity then 0 else 1

theorem resizes_of_adjust_eq {answer : Except TableError Unit} (h : t.adjust = (answer, t)) :
    t.resizes = 0 := by
  rw [resizes, h, if_pos rfl]

variable [BEq κ]

/-- How often an act bumps the version. -/
def bumps (t : Table κ ν) : Act κ ν → Nat
  | .call (.put _ _) =>
      match t.adjust.1 with
      | .error _ => 0
      | .ok () => t.resizes + 1
  | .call (.remove k) => t.resizes + (t.taken? k).toList.length
  | .call .clear => t.blocks.length
  | _ => 0

theorem bumps_of_closed (h : t.slots? = none) (a : Act κ ν) : t.bumps a = 0 := by
  have hadjust := adjust_of_closed h
  cases a with
  | close => rfl
  | call c =>
      cases c with
      | put k v => rw [bumps, hadjust]
      | remove k =>
          rw [bumps, resizes_of_adjust_eq hadjust, taken?, hadjust]
          rfl
      | clear =>
          rw [bumps, blocks_of_none h]
          rfl
      | get | contains | length | isEmpty => rfl

/-- A `put` that came past its resize bumps the version once, however it ends. -/
theorem PutEnd.bumped {s : Slots Block} {k : κ} {v : ν} {result : Outcome (Option ν) × Table κ ν}
    (h : PutEnd t s k v result) : t.Bumped 1 result.2 := by
  cases h <;> exact ⟨rfl, fun h => by cases h⟩

/-- A removal bumps the version for the block that it takes out, also if it then fails. -/
theorem TakeEnd.bumped {s : Slots Block} {k : κ} {taken : Option Block}
    {result : Except TableError (Option ν) × Table κ ν} (h : TakeEnd t s k taken result) :
    t.Bumped taken.toList.length result.2 := by
  cases h with
  | kept => exact .refl t
  | took => exact ⟨rfl, fun h => by cases h⟩

end Table

namespace Shows

/-- A resize that goes through, with the bumps that it makes. -/
theorem adjust_bumped (h : Shows scheme t g) :
    (∃ e, t.adjust = (.error e, t)) ∨
      ∃ t' g', t.adjust = (.ok (), t') ∧ Shows scheme t' g' ∧ t.Bumped t.resizes t' := by
  obtain ⟨e, hadjust⟩ | ⟨t', g', hadjust, h', -, hresized⟩ := h.adjust_cases
  · exact .inl ⟨e, hadjust⟩
  · refine .inr ⟨t', g', hadjust, h', ?_⟩
    obtain rfl | ⟨hresized, hversion⟩ := hresized
    · rw [Table.resizes_of_adjust_eq hadjust]
      exact .refl _
    · rw [Table.resizes, hadjust, if_neg hresized]
      exact ⟨hversion, fun h => by cases h⟩

variable [BEq κ]

theorem put_bumped (h : Shows scheme t g) (k : κ) (v : ν) :
    t.Bumped (t.bumps (.call (.put k v))) (t.put k v).2 := by
  rw [Table.bumps]
  obtain ⟨e, hadjust⟩ | ⟨t', g', hadjust, h', hbumped⟩ := h.adjust_bumped
  · rw [Table.put_of_adjust_error hadjust, hadjust]
    exact .refl t
  · rw [hadjust]
    exact hbumped.trans (Table.put_putEnd hadjust h'.slots k v).bumped

theorem remove_bumped (h : Shows scheme t g) (k : κ) :
    t.Bumped (t.bumps (.call (.remove k))) (t.remove k).2 := by
  rw [Table.bumps, Table.taken?]
  obtain ⟨e, hadjust⟩ | ⟨t', g', hadjust, h', hbumped⟩ := h.adjust_bumped
  · rw [Table.remove_of_adjust_error hadjust, Table.resizes_of_adjust_eq hadjust, hadjust]
    exact .refl t
  · rw [hadjust]
    have hend := (Table.remove_removeEnd hadjust h'.slots k).takeEnd h'.slots h'.slots_pos
    exact hbumped.trans hend.bumped

omit [BEq κ] in
/-- Without a block there is nothing to clear. -/
theorem clear_bumped (h : Shows scheme t g) : t.Bumped t.blocks.length t.clear.2 := by
  rw [Table.clear_of_some h.slots, Table.blocks_of_some h.slots]
  refine ⟨rfl, fun hzero => ?_⟩
  have hempty := eq_empty (List.length_eq_zero_iff.mp hzero)
  have hsize : t.size = 0 := by rw [h.size_eq, Table.blocks_of_some h.slots, hzero]
  have hslots := h.slots
  rw [hzero, ← hempty]
  cases t
  cases hslots
  cases hsize
  exact congrArg _ (UInt64.add_zero _)

end Shows

variable [BEq κ]

theorem Alive.call_bumped (h : Alive scheme t) (c : Call κ ν) :
    t.Bumped (t.bumps (.call c)) (t.call c).2 := by
  cases h with
  | closed hslots =>
      have hact : (t.call c).2 = t := Table.act_of_closed hslots (.call c)
      rw [Table.bumps_of_closed hslots, hact]
      exact .refl t
  | opened hshows =>
      cases c with
      | put k v => exact hshows.put_bumped k v
      | remove k => exact hshows.remove_bumped k
      | clear => exact hshows.clear_bumped
      | get | contains | length | isEmpty => exact .refl t

/-- The version counts modulo `2 ^ 64`. -/
theorem Alive.act_version (h : Alive scheme t) (a : Act κ ν) :
    (t.act a).version = t.version + UInt64.ofNat (t.bumps a) := by
  cases a with
  | call c => exact (h.call_bumped c).version
  | close =>
      rw [Table.act, Table.close]
      cases t.slots with
      | error e => exact (UInt64.add_zero _).symm
      | ok s => exact (UInt64.add_zero _).symm

/-- An act that does not bump the version changes nothing, unless it closes the table. -/
theorem Alive.act_eq (h : Alive scheme t) {a : Act κ ν} (hbumps : t.bumps a = 0)
    (ha : a ≠ .close) : t.act a = t := by
  cases a with
  | call c => exact (h.call_bumped c).unchanged hbumps
  | close => exact absurd rfl ha

end BlockTable
