import BlockTable.Proofs.Table.Steps

/-!
# Runs of calls

A run is a list of calls on one table, each on the table that the one before left behind.  `call`
answers a single call in one type for all operations, `answers` collects the answers of a run and
`after` is the table at its end.  Closing the table is no call, so every run stays on an open
table.

A run goes on after a call that failed, and also after one that gave up.  `untorn` excludes only
the removals that take an entry out and fail after that.
-/

namespace BlockTable

/-- A call on an open table. -/
inductive Call (κ ν : Type) where
  | put (k : κ) (v : ν)
  | get (k : κ)
  | contains (k : κ)
  | remove (k : κ)
  | length
  | isEmpty
  | clear
  deriving DecidableEq, Repr

/-- What a call answers. -/
inductive Answer (ν : Type) where
  | value (v? : Option ν)
  | truth (b : Bool)
  | count (n : Nat)
  | nothing
  deriving DecidableEq, Repr

theorem Outcome.map_done {α β : Type} {f : α → β} {o : Outcome α} {b : β}
    (h : o.map f = .done b) : ∃ a, o = .done a ∧ f a = b := by
  cases o with
  | done a =>
      cases h
      exact ⟨a, rfl, rfl⟩
  | failed e => cases h
  | aborted => cases h

theorem Outcome.ofExcept_done {α : Type} {r : Except TableError α} {a : α}
    (h : Outcome.ofExcept r = .done a) : r = .ok a := by
  cases r with
  | ok b =>
      cases h
      rfl
  | error e => cases h

namespace Table

variable {κ ν : Type} [BEq κ]

/-- The answer of a call and the table after it. -/
def call (t : Table κ ν) : Call κ ν → Outcome (Answer ν) × Table κ ν
  | .put k v => ((t.put k v).1.map .value, (t.put k v).2)
  | .get k => ((Outcome.ofExcept (t.get k)).map .value, t)
  | .contains k => ((Outcome.ofExcept (t.contains k)).map .truth, t)
  | .remove k => ((Outcome.ofExcept (t.remove k).1).map .value, (t.remove k).2)
  | .length => ((Outcome.ofExcept t.length).map .count, t)
  | .isEmpty => ((Outcome.ofExcept t.isEmpty).map .truth, t)
  | .clear => ((Outcome.ofExcept t.clear.1).map fun () => .nothing, t.clear.2)

/-- The table after a run. -/
def after (t : Table κ ν) : List (Call κ ν) → Table κ ν
  | [] => t
  | c :: cs => (t.call c).2.after cs

/-- The answers of a run. -/
def answers (t : Table κ ν) : List (Call κ ν) → List (Outcome (Answer ν))
  | [] => []
  | c :: cs => (t.call c).1 :: (t.call c).2.answers cs

/-- The call takes an entry out and fails after that. -/
def isTorn (t : Table κ ν) : Call κ ν → Bool
  | .remove k => t.tears k
  | _ => false

/-- No call of a run takes an entry out and fails after that. -/
def untorn (t : Table κ ν) : List (Call κ ν) → Bool
  | [] => true
  | c :: cs => !t.isTorn c && (t.call c).2.untorn cs

/-- What every call preserves holds after every run. -/
theorem after_preserves {P : Table κ ν → Prop} (step : ∀ t c, P t → P (t.call c).2)
    (calls : List (Call κ ν)) (t : Table κ ν) (h : P t) : P (t.after calls) := by
  induction calls generalizing t with
  | nil => exact h
  | cons c cs ih => exact ih (t.call c).2 (step t c h)

/-! ## Settings -/

omit [BEq κ] in
/-- A resize keeps the settings that it goes by. -/
theorem adjust_settings (t : Table κ ν) :
    t.adjust.2.loadFactor = t.loadFactor ∧ t.adjust.2.minCapacity = t.minCapacity := by
  have hend := adjust_adjustEnd t
  generalize t.adjust = result at hend
  cases hend <;> exact ⟨rfl, rfl⟩

theorem put_settings (t : Table κ ν) (k : κ) (v : ν) :
    (t.put k v).2.loadFactor = t.loadFactor ∧ (t.put k v).2.minCapacity = t.minCapacity := by
  have hsettings := adjust_settings t
  cases hadjust : t.adjust with
  | mk answer t' =>
      rw [hadjust] at hsettings
      cases answer with
      | error e =>
          rw [put_of_adjust_error hadjust]
          exact ⟨rfl, rfl⟩
      | ok u =>
          obtain ⟨s, hs⟩ := open_of_adjust_ok hadjust
          have hend := put_putEnd hadjust hs k v
          generalize t.put k v = result at hend
          cases hend <;> exact hsettings

theorem remove_settings (t : Table κ ν) (k : κ) :
    (t.remove k).2.loadFactor = t.loadFactor ∧ (t.remove k).2.minCapacity = t.minCapacity := by
  have hsettings := adjust_settings t
  cases hadjust : t.adjust with
  | mk answer t' =>
      rw [hadjust] at hsettings
      cases answer with
      | error e =>
          rw [remove_of_adjust_error hadjust]
          exact ⟨rfl, rfl⟩
      | ok u =>
          obtain ⟨s, hs⟩ := open_of_adjust_ok hadjust
          have hend := remove_removeEnd hadjust hs k
          generalize t.remove k = result at hend
          generalize t.tears k = torn at hend
          cases hend <;> exact hsettings

omit [BEq κ] in
theorem clear_settings (t : Table κ ν) :
    t.clear.2.loadFactor = t.loadFactor ∧ t.clear.2.minCapacity = t.minCapacity := by
  rw [clear]
  cases t.slots <;> exact ⟨rfl, rfl⟩

/-- No run changes the settings. -/
theorem after_settings (t : Table κ ν) (calls : List (Call κ ν)) :
    (t.after calls).loadFactor = t.loadFactor ∧ (t.after calls).minCapacity = t.minCapacity := by
  refine after_preserves
    (P := fun t' => t'.loadFactor = t.loadFactor ∧ t'.minCapacity = t.minCapacity)
    (fun t' c h => ?_) calls t ⟨rfl, rfl⟩
  have hcall : (t'.call c).2.loadFactor = t'.loadFactor ∧
      (t'.call c).2.minCapacity = t'.minCapacity := by
    cases c with
    | put k v => exact t'.put_settings k v
    | remove k => exact t'.remove_settings k
    | clear => exact t'.clear_settings
    | get | contains | length | isEmpty => exact ⟨rfl, rfl⟩
  exact ⟨hcall.1.trans h.1, hcall.2.trans h.2⟩

end Table

end BlockTable
