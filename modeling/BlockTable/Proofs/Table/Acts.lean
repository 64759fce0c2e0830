import BlockTable.Proofs.Slots.Occupied
import BlockTable.Proofs.Table.Entries

/-!
# The life of a table

A table is called, and at some time it may be closed.  `Act` is one or the other, and `afterActs` is
the table after any number of them.

A table that began with valid settings is `Alive` at every time: it is open and its blocks stand for
entries, or it is closed and holds nothing.  No act changes a closed table (`act_of_closed`), and
only closing closes one (`Alive.closed_iff`).
-/

namespace BlockTable

open Slots

variable {κ ν : Type} {scheme : Scheme κ ν} {t : Table κ ν} {g : Slots scheme.Entry}

/-- What is done to a table: a call, or closing it. -/
inductive Act (κ ν : Type) where
  | call (c : Call κ ν)
  | close
  deriving DecidableEq, Repr

namespace Table

/-- The blocks, in the order of their slots.  A closed table has none. -/
def blocks (t : Table κ ν) : List Block :=
  match t.slots? with
  | some s => s.blocks
  | none => []

/-- The block in a slot. -/
def block? (t : Table κ ν) (slot : Nat) : Option Block :=
  match t.slots? with
  | some s => s.block? slot
  | none => none

/-- The occupied slots, in ascending order. -/
def occupied (t : Table κ ν) : List Nat :=
  match t.slots? with
  | some s => s.occupied
  | none => []

theorem capacity_of_some {s : Slots Block} (h : t.slots? = some s) : t.capacity = s.capacity := by
  rw [capacity, h]

theorem blocks_of_some {s : Slots Block} (h : t.slots? = some s) : t.blocks = s.blocks := by
  rw [blocks, h]

theorem blocks_of_none (h : t.slots? = none) : t.blocks = [] := by
  rw [blocks, h]

theorem block?_of_some {s : Slots Block} (h : t.slots? = some s) (slot : Nat) :
    t.block? slot = s.block? slot := by
  rw [block?, h]

theorem occupied_of_some {s : Slots Block} (h : t.slots? = some s) : t.occupied = s.occupied := by
  rw [occupied, h]

theorem adjust_of_closed (h : t.slots? = none) : t.adjust = (.error .closed, t) := by
  rw [adjust, slots_of_none h]

theorem close_of_some {s : Slots Block} (h : t.slots? = some s) :
    t.close = (.ok (), { t with slots? := none, size := 0 }) := by
  rw [close, slots_of_some h]

/-- The version counts every block that is thrown away. -/
theorem clear_of_some {s : Slots Block} (h : t.slots? = some s) :
    t.clear = (.ok (), { t with
      slots? := some (.empty s.capacity)
      size := 0
      version := t.version + UInt64.ofNat s.blocks.length }) := by
  rw [clear, slots_of_some h]

variable [BEq κ]

/-- The table after an act. -/
def act (t : Table κ ν) : Act κ ν → Table κ ν
  | .call c => (t.call c).2
  | .close => t.close.2

/-- The table after a list of acts. -/
def afterActs (t : Table κ ν) : List (Act κ ν) → Table κ ν
  | [] => t
  | a :: rest => (t.act a).afterActs rest

/-- A closed table refuses every act before it changes anything. -/
theorem act_of_closed (h : t.slots? = none) (a : Act κ ν) : t.act a = t := by
  have hadjust := adjust_of_closed h
  cases a with
  | close => rw [act, close, slots_of_none h]
  | call c =>
      cases c with
      | put k v => rw [act, call, put_of_adjust_error hadjust]
      | remove k => rw [act, call, remove_of_adjust_error hadjust]
      | clear => rw [act, call, clear, slots_of_none h]
      | get | contains | length | isEmpty => rfl

end Table

/-- The table is open with entries, or closed and empty. -/
inductive Alive (scheme : Scheme κ ν) (t : Table κ ν) : Prop where
  | opened {g : Slots scheme.Entry} (shows : Shows scheme t g)
  | closed (slots : t.slots? = none) (size : t.size = 0) (scheme_eq : t.scheme = scheme)

/-- The blocks of a table are those of the entries that it shows. -/
theorem Shows.blocks_eq (h : Shows scheme t g) : t.blocks = g.blocks.map Scheme.Entry.block := by
  rw [Table.blocks_of_some h.slots, blocks_map]

theorem Shows.size_eq (h : Shows scheme t g) : t.size = t.blocks.length := by
  rw [h.blocks_eq, List.length_map, h.size]

namespace Alive

/-- The size is the number of blocks, and closing sets it to zero. -/
theorem size_eq (h : Alive scheme t) : t.size = t.blocks.length := by
  cases h with
  | opened hshows => exact hshows.size_eq
  | closed hslots hsize =>
      rw [Table.blocks_of_none hslots, hsize]
      rfl

theorem scheme_eq (h : Alive scheme t) : t.scheme = scheme := by
  cases h with
  | opened hshows => exact hshows.scheme_eq
  | closed _ _ hscheme => exact hscheme

variable [BEq κ]

/-- An act keeps a table alive, also when it fails or gives up. -/
theorem act (h : Alive scheme t) (a : Act κ ν) : Alive scheme (t.act a) := by
  cases h with
  | closed hslots hsize hscheme =>
      rw [Table.act_of_closed hslots]
      exact .closed hslots hsize hscheme
  | opened hshows =>
      cases a with
      | call c =>
          obtain ⟨g', h'⟩ := hshows.call c
          exact .opened h'
      | close =>
          rw [Table.act, Table.close_of_some hshows.slots]
          exact .closed rfl rfl hshows.scheme_eq

/-- A table is closed by closing it, and never opened again. -/
theorem closed_iff (h : Alive scheme t) (a : Act κ ν) :
    (t.act a).slots? = none ↔ t.slots? = none ∨ a = .close := by
  cases h with
  | closed hslots =>
      rw [Table.act_of_closed hslots, hslots]
      exact iff_of_true rfl (.inl rfl)
  | opened hshows =>
      rw [hshows.slots]
      cases a with
      | close =>
          rw [Table.act, Table.close_of_some hshows.slots]
          exact iff_of_true rfl (.inr rfl)
      | call c =>
          obtain ⟨g', h'⟩ := hshows.call c
          rw [Table.act, h'.slots]
          constructor
          · intro h
            cases h
          · rintro (h | h)
            · cases h
            · cases h

/-- The induction is on the acts. -/
theorem afterActs (h : Alive scheme t) (acts : List (Act κ ν)) :
    Alive scheme (t.afterActs acts) := by
  induction acts generalizing t with
  | nil => exact h
  | cons a rest ih => exact ih (h.act a)

end Alive

/-- A table begins open and with no entry. -/
theorem alive_ofSizing (scheme : Scheme κ ν) {sizing : Sizing} (h : sizing.validate = .ok ()) :
    Alive scheme (.ofSizing scheme sizing) := .opened (shows_ofSizing scheme h)

end BlockTable
