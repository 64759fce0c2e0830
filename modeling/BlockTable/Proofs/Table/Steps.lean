import BlockTable.Table.Basic

/-!
# The ends of an operation

What an operation on a table can do, with the conditions under which it does it.  `AdjustEnd`,
`FindEnd`, `PutEnd` and `RemoveEnd` list the ways in which a resize, a look-up, a `put` and a
`remove` end.  They hold of every table, also of one that no run of operations leads to, and later
proofs take an operation apart by cases on its end and never unfold it.

A removal is *torn* when the entry is out and the gap it leaves cannot be closed.  `tears` tells
this from the table before.
-/

namespace BlockTable.Table

variable {κ ν : Type} {t : Table κ ν}

theorem slots_of_some {s : Slots Block} (h : t.slots? = some s) : t.slots = .ok s := by
  rw [slots, h]

theorem slots_of_none (h : t.slots? = none) : t.slots = .error .closed := by
  rw [slots, h]

/-! ## Resizing -/

/-- The number of slots that the load of `t` asks for in place of `capacity`. -/
abbrev wanted (t : Table κ ν) (capacity : Nat) : Nat :=
  Sizing.nextCapacity t.loadFactor t.minCapacity t.size capacity

/-- The ends of a resize. -/
inductive AdjustEnd (t : Table κ ν) : Except TableError Unit × Table κ ν → Prop where
  | closed (slots : t.slots? = none) : AdjustEnd t (.error .closed, t)
  | kept {s : Slots Block} (slots : t.slots? = some s)
      (fits : t.wanted s.capacity = s.capacity) : AdjustEnd t (.ok (), t)
  | failed {s : Slots Block} {e : TableError} (slots : t.slots? = some s)
      (changed : t.wanted s.capacity ≠ s.capacity)
      (rehash : s.rehash (t.scheme.blockHome (t.wanted s.capacity)) (t.wanted s.capacity) =
        .error e) : AdjustEnd t (.error e, t)
  | resized {s s' : Slots Block} (slots : t.slots? = some s)
      (changed : t.wanted s.capacity ≠ s.capacity)
      (rehash : s.rehash (t.scheme.blockHome (t.wanted s.capacity)) (t.wanted s.capacity) =
        .ok s') :
      AdjustEnd t (.ok (), { t with slots? := some s', version := t.version + 1 })

theorem adjust_adjustEnd (t : Table κ ν) : AdjustEnd t t.adjust := by
  rw [adjust]
  cases hs : t.slots? with
  | none =>
      rw [slots_of_none hs]
      exact .closed hs
  | some s =>
      rw [slots_of_some hs]
      simp only
      split
      next hfit => exact .kept hs hfit
      next hchanged =>
        rw [rehash]
        cases hr : s.rehash (t.scheme.blockHome (t.wanted s.capacity)) (t.wanted s.capacity) with
        | error e => exact .failed hs hchanged hr
        | ok s' => exact .resized hs hchanged hr

/-- A resize that fails changes nothing. -/
theorem eq_of_adjust_error {t' : Table κ ν} {e : TableError} (h : t.adjust = (.error e, t')) :
    t' = t := by
  have hend := adjust_adjustEnd t
  rw [h] at hend
  cases hend with
  | closed => rfl
  | failed => rfl

/-- A resize that succeeds leaves an open table. -/
theorem open_of_adjust_ok {t' : Table κ ν} (h : t.adjust = (.ok (), t')) :
    ∃ s, t'.slots? = some s := by
  have hend := adjust_adjustEnd t
  rw [h] at hend
  cases hend with
  | kept hs => exact ⟨_, hs⟩
  | resized => exact ⟨_, rfl⟩

/-! ## Looking up -/

variable [BEq κ]

/-- The ends of a look-up in the slots `s`. -/
inductive FindEnd (t : Table κ ν) (s : Slots Block) (k : κ) :
    Except TableError (Option Block) → Prop where
  | unsearched {e : TableError} (search : t.search s k = .error e) : FindEnd t s k (.error e)
  | missed {last : Slots.Search} (search : t.search s k = .ok last)
      (missing : ∀ slot, last ≠ .found slot) : FindEnd t s k (.ok none)
  | found {slot : Nat} (search : t.search s k = .ok (.found slot)) :
      FindEnd t s k (.ok (s.block? slot))

theorem find?_findEnd {s : Slots Block} (hs : t.slots? = some s) (k : κ) :
    FindEnd t s k (t.find? k) := by
  rw [find?, slots_of_some hs]
  simp only
  cases hsearch : t.search s k with
  | error e => exact .unsearched hsearch
  | ok last =>
      cases last with
      | found slot => exact .found hsearch
      | vacant slot => exact .missed hsearch fun _ h => by cases h
      | full => exact .missed hsearch fun _ h => by cases h

/-! ## Storing -/

/-- The ends of a `put` behind the resize.  Here `t` is the table after the resize and `s` holds its
slots. -/
inductive PutEnd (t : Table κ ν) (s : Slots Block) (k : κ) (v : ν) :
    Outcome (Option ν) × Table κ ν → Prop where
  | unsearched {e : TableError} (search : t.search s k = .error e) :
      PutEnd t s k v (.failed e, { t with version := t.version + 1 })
  | unread {slot : Nat} {e : TableError} (search : t.search s k = .ok (.found slot))
      (old : t.scheme.decodeValue ((s.block? slot).getD []) = .error e) :
      PutEnd t s k v (.failed e, { t with version := t.version + 1 })
  | unwritten {last : Slots.Search} {e : TableError} (search : t.search s k = .ok last)
      (room : last ≠ .full) (encode : t.scheme.encode k v = .error e) :
      PutEnd t s k v (.failed e, { t with version := t.version + 1 })
  | replaced {slot : Nat} {old : ν} {b : Block} (search : t.search s k = .ok (.found slot))
      (read : t.scheme.decodeValue ((s.block? slot).getD []) = .ok old)
      (encode : t.scheme.encode k v = .ok b) :
      PutEnd t s k v (.done (some old),
        { t with slots? := some (s.set slot (some b)), version := t.version + 1 })
  | inserted {slot : Nat} {b : Block} (search : t.search s k = .ok (.vacant slot))
      (encode : t.scheme.encode k v = .ok b) :
      PutEnd t s k v (.done none,
        { t with
          slots? := some (s.set slot (some b))
          size := t.size + 1
          version := t.version + 1 })
  | full (search : t.search s k = .ok .full) :
      PutEnd t s k v (.aborted, { t with version := t.version + 1 })

theorem put_of_adjust_error {t' : Table κ ν} {e : TableError} (h : t.adjust = (.error e, t'))
    (k : κ) (v : ν) : t.put k v = (.failed e, t) := by
  rw [put, h, eq_of_adjust_error h]

/-- Every `put` whose resize goes through ends in one of these ways. -/
theorem put_putEnd {t' : Table κ ν} {s : Slots Block} (h : t.adjust = (.ok (), t'))
    (hs : t'.slots? = some s) (k : κ) (v : ν) : PutEnd t' s k v (t.put k v) := by
  rw [put, h]
  have hslots : slots { t' with version := t'.version + 1 } = .ok s := slots_of_some hs
  have hsame : search { t' with version := t'.version + 1 } s k = t'.search s k := rfl
  simp only [hslots, hsame]
  cases hsearch : t'.search s k with
  | error e => exact .unsearched hsearch
  | ok last =>
      cases last with
      | found slot =>
          simp only [replaceAt]
          cases hold : t'.scheme.decodeValue ((s.block? slot).getD []) with
          | error e => exact .unread hsearch hold
          | ok old =>
              cases hb : t'.scheme.encode k v with
              | error e => exact .unwritten hsearch (fun h => by cases h) hb
              | ok b => exact .replaced hsearch hold hb
      | vacant slot =>
          simp only [insertAt]
          cases hb : t'.scheme.encode k v with
          | error e => exact .unwritten hsearch (fun h => by cases h) hb
          | ok b => exact .inserted hsearch hb
      | full => exact .full hsearch

/-- A `put` gives up exactly when the search behind the resize passes every slot. -/
theorem put_aborts_iff_full {t' : Table κ ν} {s : Slots Block} (h : t.adjust = (.ok (), t'))
    (hs : t'.slots? = some s) (k : κ) (v : ν) :
    (t.put k v).1 = .aborted ↔ t'.search s k = .ok .full := by
  have hend := put_putEnd h hs k v
  generalize t.put k v = result at hend
  cases hend with
  | unsearched hsearch => simp [hsearch]
  | unread hsearch _ => simp [hsearch]
  | unwritten hsearch hroom _ => simp [hsearch, hroom]
  | replaced hsearch _ _ => simp [hsearch]
  | inserted hsearch _ => simp [hsearch]
  | full hsearch => simp [hsearch]

/-! ## Removing -/

/-- How the gap closes that a block leaves. -/
abbrev gapClosing (t : Table κ ν) (s : Slots Block) (slot : Nat) :
    Slots.Closing TableError × Slots Block :=
  (s.set slot none).closeGap (t.scheme.blockHome s.capacity) slot

/-- The removal of a key takes its entry out and fails after that. -/
def tears (t : Table κ ν) (k : κ) : Bool :=
  match t.adjust with
  | (.error _, _) => false
  | (.ok (), t) =>
      match t.slots with
      | .error _ => false
      | .ok s =>
          match t.search s k with
          | .error _ | .ok (.vacant _) | .ok .full => false
          | .ok (.found slot) =>
              match t.scheme.decodeValue ((s.block? slot).getD []), (t.gapClosing s slot).1 with
              | .ok _, .stopped _ => true
              | _, _ => false

/-- The ends of a `remove` behind the resize. -/
inductive RemoveEnd (t : Table κ ν) (s : Slots Block) (k : κ) :
    (torn : Bool) → Except TableError (Option ν) × Table κ ν → Prop where
  | unsearched {e : TableError} (search : t.search s k = .error e) :
      RemoveEnd t s k false (.error e, t)
  | missed {last : Slots.Search} (search : t.search s k = .ok last)
      (missing : ∀ slot, last ≠ .found slot) : RemoveEnd t s k false (.ok none, t)
  | unread {slot : Nat} {e : TableError} (search : t.search s k = .ok (.found slot))
      (old : t.scheme.decodeValue ((s.block? slot).getD []) = .error e) :
      RemoveEnd t s k false (.error e, t)
  | removed {slot : Nat} {old : ν} (search : t.search s k = .ok (.found slot))
      (read : t.scheme.decodeValue ((s.block? slot).getD []) = .ok old)
      (closing : ∀ e, (t.gapClosing s slot).1 ≠ .stopped e) :
      RemoveEnd t s k false (.ok (some old),
        { t with
          slots? := some (t.gapClosing s slot).2
          size := t.size - 1
          version := t.version + 1 })
  | torn {slot : Nat} {old : ν} {e : TableError} (search : t.search s k = .ok (.found slot))
      (read : t.scheme.decodeValue ((s.block? slot).getD []) = .ok old)
      (closing : (t.gapClosing s slot).1 = .stopped e) :
      RemoveEnd t s k true (.error e,
        { t with
          slots? := some (t.gapClosing s slot).2
          size := t.size - 1
          version := t.version + 1 })

theorem remove_of_adjust_error {t' : Table κ ν} {e : TableError} (h : t.adjust = (.error e, t'))
    (k : κ) : t.remove k = (.error e, t) := by
  rw [remove, h, eq_of_adjust_error h]

theorem tears_of_adjust_error {t' : Table κ ν} {e : TableError} (h : t.adjust = (.error e, t'))
    (k : κ) : t.tears k = false := by
  rw [tears, h]

/-- Every `remove` whose resize goes through ends in one of these ways. -/
theorem remove_removeEnd {t' : Table κ ν} {s : Slots Block} (h : t.adjust = (.ok (), t'))
    (hs : t'.slots? = some s) (k : κ) : RemoveEnd t' s k (t.tears k) (t.remove k) := by
  rw [remove, tears, h]
  simp only [slots_of_some hs]
  cases hsearch : t'.search s k with
  | error e => exact .unsearched hsearch
  | ok last =>
      cases last with
      | vacant slot => exact .missed hsearch fun _ h => by cases h
      | full => exact .missed hsearch fun _ h => by cases h
      | found slot =>
          simp only [removeAt]
          cases hold : t'.scheme.decodeValue ((s.block? slot).getD []) with
          | error e => exact .unread hsearch hold
          | ok old =>
              cases hclosing : (t'.gapClosing s slot).1 with
              | stopped e => exact .torn hsearch hold hclosing
              | closed =>
                  exact .removed hsearch hold fun e h => by rw [hclosing] at h; cases h
              | unfinished =>
                  exact .removed hsearch hold fun e h => by rw [hclosing] at h; cases h

end BlockTable.Table
