import BlockTable.Proofs.Table.Acts
import BlockTable.Proofs.Table.Lawful

/-!
# Histories

A `History` is how a table came to be: how its entries are stored, its settings, and what was done
to it since.  It is one that keeps what a table asks of its user, so the codecs are lawful, the
settings valid, and no `put` gave up.

Such a table stands for a finite map that the same acts lead to, or for none once it is closed
(`History.standsFor`).  What two tables have in common can then be said of their maps, however
different their codecs, hash functions, settings and acts are.
-/

namespace BlockTable

variable {κ ν : Type} [BEq κ] {scheme : Scheme κ ν} {t : Table κ ν} {d : Dict κ ν}

namespace Table

/-- What an act answers. -/
def actAnswer (t : Table κ ν) : Act κ ν → Outcome (Answer ν)
  | .call c => (t.call c).1
  | .close => (Outcome.ofExcept t.close.1).map fun () => .nothing

/-- The answers of a list of acts. -/
def actAnswers (t : Table κ ν) : List (Act κ ν) → List (Outcome (Answer ν))
  | [] => []
  | a :: rest => t.actAnswer a :: (t.act a).actAnswers rest

end Table

namespace Dict

/-- The map after an act, and none once the table is closed. -/
def act (d? : Option (Dict κ ν)) : Act κ ν → Option (Dict κ ν)
  | .call c => d?.map fun d => (d.call c).2
  | .close => none

/-- The map after a list of acts. -/
def afterActs (d? : Option (Dict κ ν)) (acts : List (Act κ ν)) : Option (Dict κ ν) :=
  acts.foldl act d?

end Dict

/-- The table is open and stores the map, or it is closed and there is none. -/
def StandsFor (scheme : Scheme κ ν) (t : Table κ ν) : Option (Dict κ ν) → Prop
  | some d => Stores scheme t d
  | none => t.slots? = none

namespace StandsFor

variable {d? : Option (Dict κ ν)}

theorem isClosed_eq (h : StandsFor scheme t d?) : t.isClosed = d?.isNone := by
  cases d? with
  | none =>
      have hslots : t.slots? = none := h
      rw [Table.isClosed, hslots]
      rfl
  | some d => exact Stores.isClosed_eq h

variable [EquivBEq κ]

/-- An act leads the table and the map to the same contents again, unless it gives up. -/
theorem act (h : StandsFor scheme t d?) (hlawful : scheme.IsLawful) {a : Act κ ν}
    (haborted : t.actAnswer a ≠ .aborted) : StandsFor scheme (t.act a) (Dict.act d? a) := by
  cases d? with
  | none =>
      have hslots : t.slots? = none := h
      rw [Table.act_of_closed hslots]
      cases a with
      | call c => exact hslots
      | close => exact hslots
  | some d =>
      cases a with
      | call c => exact (Stores.call_of_lawful h hlawful haborted).2
      | close =>
          obtain ⟨g, hshows, -⟩ := h
          rw [Table.act, Table.close_of_some hshows.slots]
          rfl

/-- The induction is on the acts. -/
theorem afterActs (h : StandsFor scheme t d?) (hlawful : scheme.IsLawful) (acts : List (Act κ ν))
    (haborted : .aborted ∉ t.actAnswers acts) :
    StandsFor scheme (t.afterActs acts) (Dict.afterActs d? acts) := by
  induction acts generalizing t d? with
  | nil => exact h
  | cons a rest ih =>
      rw [Table.actAnswers, List.mem_cons, not_or] at haborted
      exact ih (h.act hlawful (Ne.symm haborted.1)) haborted.2

end StandsFor

/-- How a table came to be. -/
structure History (κ ν : Type) [BEq κ] where
  scheme : Scheme κ ν
  sizing : Sizing
  acts : List (Act κ ν)
  lawful : scheme.IsLawful
  valid : sizing.validate = .ok ()
  /-- No `put` gave up. -/
  unaborted : .aborted ∉ (Table.ofSizing scheme sizing).actAnswers acts

namespace History

/-- The table that a history leads to. -/
def table (h : History κ ν) : Table κ ν := (Table.ofSizing h.scheme h.sizing).afterActs h.acts

/-- The finite map that a history leads to, and none once the table is closed. -/
def contents (h : History κ ν) : Option (Dict κ ν) := Dict.afterActs (some Dict.empty) h.acts

theorem standsFor [EquivBEq κ] (h : History κ ν) : StandsFor h.scheme h.table h.contents := by
  have hempty : StandsFor h.scheme (Table.ofSizing h.scheme h.sizing) (some Dict.empty) :=
    stores_ofSizing h.scheme h.valid
  exact hempty.afterActs h.lawful h.acts h.unaborted

/-! ## Samples -/

/-- Two keys that are left of three at one home. -/
def crowded : History (BitVec 8) Bool where
  scheme := .crowding
  sizing := ⟨0x3fe8000000000000, 4, 1⟩
  acts := [.call (.put 1 true), .call (.put 2 false), .call (.put 3 true), .call (.remove 2)]
  lawful := Scheme.crowding_isLawful
  valid := by decide +kernel
  unaborted := by decide +kernel

/-- The same two keys at homes of their own, in another order. -/
def spread : History (BitVec 8) Bool where
  scheme := .spreading
  sizing := ⟨0x3fe0000000000000, 16, 8⟩
  acts := [.call (.put 3 true), .call (.put 1 false), .call .length, .call (.put 1 true)]
  lawful := Scheme.spreading_isLawful
  valid := by decide +kernel
  unaborted := by decide +kernel

end History

end BlockTable
