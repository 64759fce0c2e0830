import BlockTable.Proofs.Table.Acts

/-!
# No block is lost or doubled

What each act does to the blocks of a table, taken without their order.  The codecs may be anything,
so a block may be found under a key that it was not stored for, and a resize or the closing of a gap
may carry it to any slot.  Still the blocks are only ever moved, except that

* a `put` adds the block it wrote (`PutEffect.added`) or exchanges a block for it
  (`PutEffect.exchanged`), as its answer says, and
* a removal takes the one block that it found and could read the value of (`taken?`), also when the
  gap cannot be closed after that.

`blocks_conserved` collects this for every table that acts lead to, with the number of blocks and
with what a `put` does slot by slot.
-/

namespace BlockTable

open Slots

variable {κ ν : Type} {scheme : Scheme κ ν} {t t' : Table κ ν} {g : Slots scheme.Entry}
  {before before' : List Block} {k : κ} {v : ν}

/-! ## Resizing -/

/-- A resize fails and changes nothing, or it only moves blocks.  Then it also changes the number of
slots, or nothing at all. -/
theorem Shows.adjust_cases (h : Shows scheme t g) :
    (∃ e, t.adjust = (.error e, t)) ∨
      ∃ t' g', t.adjust = (.ok (), t') ∧ Shows scheme t' g' ∧ t'.blocks.Perm t.blocks ∧
        (t' = t ∨ t'.capacity ≠ t.capacity ∧ t'.version = t.version + 1) := by
  cases hadjust : t.adjust with
  | mk answer t' =>
      cases answer with
      | error e =>
          rw [Table.eq_of_adjust_error hadjust]
          exact .inl ⟨e, rfl⟩
      | ok u =>
          obtain ⟨homeOf, hhomes⟩ := scheme.exists_homes
          obtain ⟨g', h', hwanted, hadjusted⟩ := h.adjust_ok hhomes hadjust
          refine .inr ⟨t', g', rfl, h', ?_, ?_⟩
          · rw [h'.blocks_eq, h.blocks_eq]
            exact hadjusted.blocks.map _
          · rw [h'.capacity_eq, h.capacity_eq, hwanted]
            have hend := Table.adjust_adjustEnd t
            rw [hadjust] at hend
            cases hend with
            | kept => exact .inl rfl
            | resized hslots hchanged =>
                rw [h.slots] at hslots
                cases hslots
                rw [capacity_map] at hchanged
                exact .inr ⟨hchanged, rfl⟩

theorem Alive.adjust_blocks (h : Alive scheme t) : t.adjust.2.blocks.Perm t.blocks := by
  cases h with
  | closed hslots => rw [Table.adjust_of_closed hslots]
  | opened hshows =>
      obtain ⟨e, hadjust⟩ | ⟨t', g', hadjust, -, hperm, -⟩ := hshows.adjust_cases
      · rw [hadjust]
      · rw [hadjust]
        exact hperm

theorem Shows.slots_pos (h : Shows scheme t g) : 0 < (g.map Scheme.Entry.block).capacity := by
  rw [capacity_map]
  exact h.pos

/-! ## Storing -/

variable [BEq κ]

/-- What a `put` does to the blocks, by its answer. -/
inductive PutEffect (scheme : Scheme κ ν) (k : κ) (v : ν) (before : List Block) :
    Outcome (Option ν) → (after : List Block) → Prop where
  | added {new : Block} {after : List Block} (encode : scheme.encode k v = .ok new)
      (blocks : after.Perm (new :: before)) : PutEffect scheme k v before (.done none) after
  | exchanged {old new : Block} {value : ν} {others after : List Block}
      (holds : scheme.holds k old = .ok true) (read : scheme.decodeValue old = .ok value)
      (encode : scheme.encode k v = .ok new) (found : before.Perm (old :: others))
      (blocks : after.Perm (new :: others)) : PutEffect scheme k v before (.done (some value)) after
  | failed {e : TableError} {after : List Block} (blocks : after.Perm before) :
      PutEffect scheme k v before (.failed e) after
  | aborted {after : List Block} (blocks : after.Perm before) :
      PutEffect scheme k v before .aborted after

theorem PutEffect.of_perm {answer : Outcome (Option ν)} {after : List Block}
    (h : PutEffect scheme k v before' answer after) (hperm : before'.Perm before) :
    PutEffect scheme k v before answer after := by
  cases h with
  | added hencode hblocks => exact .added hencode (hblocks.trans (hperm.cons _))
  | exchanged hholds hread hencode hfound hblocks =>
      exact .exchanged hholds hread hencode (hperm.symm.trans hfound) hblocks
  | failed hblocks => exact .failed (hblocks.trans hperm)
  | aborted hblocks => exact .aborted (hblocks.trans hperm)

/-- The slot that a search ends at. -/
theorem Table.search_searchEnd {s : Slots Block} (t : Table κ ν) (hpos : 0 < s.capacity) (k : κ) :
    SearchEnd s (t.scheme.holds k) (t.scheme.home k s.capacity) (t.search s k) :=
  Slots.search_searchEnd _ (t.scheme.home_lt k hpos)

theorem Table.search_found {s : Slots Block} {slot : Nat} (hpos : 0 < s.capacity)
    (h : t.search s k = .ok (.found slot)) :
    ∃ b, s.block? slot = some b ∧ t.scheme.holds k b = .ok true := by
  have hend := t.search_searchEnd hpos k
  rw [h] at hend
  cases hend with
  | found hblock hholds _ => exact ⟨_, hblock, hholds⟩

theorem Table.search_vacant {s : Slots Block} {slot : Nat} (hpos : 0 < s.capacity)
    (h : t.search s k = .ok (.vacant slot)) : slot < s.capacity ∧ s.block? slot = none := by
  have hend := t.search_searchEnd hpos k
  rw [h] at hend
  cases hend with
  | vacant hbound hblock _ => exact ⟨hbound, hblock⟩

/-- What happens behind the resize of a `put`. -/
theorem Table.PutEnd.effect {s : Slots Block} {result : Outcome (Option ν) × Table κ ν}
    (h : PutEnd t s k v result) (hs : t.slots? = some s) (hpos : 0 < s.capacity) :
    PutEffect t.scheme k v t.blocks result.1 result.2.blocks := by
  rw [blocks_of_some hs]
  cases h with
  | unsearched | unread | unwritten => exact .failed (.of_eq (blocks_of_some hs))
  | full => exact .aborted (.of_eq (blocks_of_some hs))
  | @replaced slot old b hsearch hread hencode =>
      obtain ⟨stored, hblock, hholds⟩ := search_found hpos hsearch
      rw [hblock] at hread
      exact .exchanged hholds hread hencode (blocks_of_block? hblock)
        (blocks_set (some b) (lt_of_block? hblock))
  | inserted hsearch hencode =>
      obtain ⟨hbound, hvacant⟩ := search_vacant hpos hsearch
      exact .added hencode (blocks_set_vacant _ hbound hvacant)

/-- A `put` behind its resize leaves all slots but one as they are. -/
theorem Table.PutEnd.slots {s : Slots Block} {result : Outcome (Option ν) × Table κ ν}
    (h : PutEnd t s k v result) (hs : t.slots? = some s) :
    result.2.capacity = t.capacity ∧
      ∃ slot, ∀ other, other ≠ slot → result.2.block? other = t.block? other := by
  have hcap : t.capacity = s.capacity := by rw [capacity, hs]
  cases h with
  | unsearched | unread | unwritten | full => exact ⟨rfl, 0, fun _ _ => rfl⟩
  | @replaced slot _ b | @inserted slot b =>
      refine ⟨(capacity_set s slot (some b)).trans hcap.symm, slot, fun other hother => ?_⟩
      rw [block?_of_some hs]
      exact block?_set_ne (some b) hother.symm

theorem Shows.put_effect (h : Shows scheme t g) (k : κ) (v : ν) :
    PutEffect scheme k v t.blocks (t.put k v).1 (t.put k v).2.blocks := by
  obtain ⟨e, hadjust⟩ | ⟨t', g', hadjust, h', hperm, -⟩ := h.adjust_cases
  · rw [Table.put_of_adjust_error hadjust]
    exact .failed (.refl _)
  · have heffect := (Table.put_putEnd hadjust h'.slots k v).effect h'.slots h'.slots_pos
    rw [h'.scheme_eq] at heffect
    exact heffect.of_perm hperm

/-- A `put` that keeps the number of slots changes one slot at most. -/
theorem Shows.put_slots (h : Shows scheme t g) {k : κ} {v : ν}
    (hcap : (t.put k v).2.capacity = t.capacity) :
    ∃ slot, ∀ other, other ≠ slot → (t.put k v).2.block? other = t.block? other := by
  obtain ⟨e, hadjust⟩ | ⟨t', g', hadjust, h', -, hresized⟩ := h.adjust_cases
  · rw [Table.put_of_adjust_error hadjust]
    exact ⟨0, fun _ _ => rfl⟩
  · obtain ⟨hput, hslots⟩ := (Table.put_putEnd hadjust h'.slots k v).slots h'.slots
    obtain rfl | ⟨hresized, -⟩ := hresized
    · exact hslots
    · exact absurd (hput.symm.trans hcap) hresized

/-! ## Removing -/

/-- The block of a key, if its value can be read. -/
def Table.readable? (t : Table κ ν) (k : κ) : Option Block :=
  match t.find? k with
  | .error _ | .ok none => none
  | .ok (some b) =>
      match t.scheme.decodeValue b with
      | .error _ => none
      | .ok _ => some b

/-- The block that the removal of a key takes: it is found behind the resize, and its value can be
read. -/
def Table.taken? (t : Table κ ν) (k : κ) : Option Block :=
  match t.adjust with
  | (.error _, _) => none
  | (.ok (), t) => t.readable? k

/-- What a removal does to the blocks, by the block that it takes. -/
inductive RemoveEffect (scheme : Scheme κ ν) (k : κ) (before : List Block) :
    (taken : Option Block) → Except TableError (Option ν) → (after : List Block) → Prop where
  | took {b : Block} {old : ν} {answer : Except TableError (Option ν)} {after : List Block}
      (holds : scheme.holds k b = .ok true) (read : scheme.decodeValue b = .ok old)
      (answered : answer = .ok (some old) ∨ ∃ e, answer = .error e)
      (blocks : before.Perm (b :: after)) : RemoveEffect scheme k before (some b) answer after
  | kept {answer : Except TableError (Option ν)} {after : List Block}
      (answered : ∀ old, answer ≠ .ok (some old)) (blocks : after.Perm before) :
      RemoveEffect scheme k before none answer after

theorem RemoveEffect.of_perm {taken : Option Block} {answer : Except TableError (Option ν)}
    {after : List Block} (h : RemoveEffect scheme k before' taken answer after)
    (hperm : before'.Perm before) : RemoveEffect scheme k before taken answer after := by
  cases h with
  | took hholds hread hanswered hblocks =>
      exact .took hholds hread hanswered (hperm.symm.trans hblocks)
  | kept hanswered hblocks => exact .kept hanswered (hblocks.trans hperm)

omit [BEq κ] in
/-- Closing a gap moves blocks only, however it ends. -/
theorem Table.gapClosing_blocks (t : Table κ ν) {s : Slots Block} {slot : Nat}
    (h : slot < s.capacity) : (t.gapClosing s slot).2.blocks.Perm (s.set slot none).blocks :=
  (closeGap_blocks (t.scheme.blockHome s.capacity) h).2

/-- The ends of a removal behind the resize, by the block that it takes. -/
inductive Table.TakeEnd (t : Table κ ν) (s : Slots Block) (k : κ) :
    (taken : Option Block) → Except TableError (Option ν) × Table κ ν → Prop where
  | kept {answer : Except TableError (Option ν)} (answered : ∀ old, answer ≠ .ok (some old)) :
      TakeEnd t s k none (answer, t)
  | took {slot : Nat} {b : Block} {old : ν} {answer : Except TableError (Option ν)}
      (block : s.block? slot = some b) (holds : t.scheme.holds k b = .ok true)
      (read : t.scheme.decodeValue b = .ok old)
      (answered : answer = .ok (some old) ∨ ∃ e, answer = .error e) :
      TakeEnd t s k (some b) (answer, { t with
        slots? := some (t.gapClosing s slot).2
        size := t.size - 1
        version := t.version + 1 })

theorem Table.RemoveEnd.takeEnd {s : Slots Block} {torn : Bool}
    {result : Except TableError (Option ν) × Table κ ν} (h : RemoveEnd t s k torn result)
    (hs : t.slots? = some s) (hpos : 0 < s.capacity) :
    TakeEnd t s k (t.readable? k) result := by
  rw [readable?, find?, slots_of_some hs]
  cases h with
  | unsearched hsearch =>
      simp only [hsearch]
      exact .kept fun _ h => by cases h
  | @missed last hsearch hmissing =>
      cases last with
      | found slot => exact absurd rfl (hmissing slot)
      | vacant slot =>
          simp only [hsearch]
          exact .kept fun _ h => by cases h
      | full =>
          simp only [hsearch]
          exact .kept fun _ h => by cases h
  | unread hsearch hread =>
      obtain ⟨b, hblock, -⟩ := search_found hpos hsearch
      rw [hblock, Option.getD_some] at hread
      simp only [hsearch, hblock, hread]
      exact .kept fun _ h => by cases h
  | removed hsearch hread =>
      obtain ⟨b, hblock, hholds⟩ := search_found hpos hsearch
      rw [hblock, Option.getD_some] at hread
      simp only [hsearch, hblock, hread]
      exact .took hblock hholds hread (.inl rfl)
  | torn hsearch hread =>
      obtain ⟨b, hblock, hholds⟩ := search_found hpos hsearch
      rw [hblock, Option.getD_some] at hread
      simp only [hsearch, hblock, hread]
      exact .took hblock hholds hread (.inr ⟨_, rfl⟩)

/-- What happens behind the resize of a removal. -/
theorem Table.TakeEnd.effect {s : Slots Block} {taken : Option Block}
    {result : Except TableError (Option ν) × Table κ ν} (h : TakeEnd t s k taken result)
    (hs : t.slots? = some s) :
    RemoveEffect t.scheme k t.blocks taken result.1 result.2.blocks := by
  cases h with
  | kept hanswered => exact .kept hanswered (.refl _)
  | took hblock hholds hread hanswered =>
      rw [blocks_of_some hs]
      exact .took hholds hread hanswered ((blocks_of_block? hblock).trans
        ((t.gapClosing_blocks (lt_of_block? hblock)).symm.cons _))

theorem Shows.remove_effect (h : Shows scheme t g) (k : κ) :
    RemoveEffect scheme k t.blocks (t.taken? k) (t.remove k).1 (t.remove k).2.blocks := by
  rw [Table.taken?]
  obtain ⟨e, hadjust⟩ | ⟨t', g', hadjust, h', hperm, -⟩ := h.adjust_cases
  · rw [Table.remove_of_adjust_error hadjust, hadjust]
    exact .kept (fun _ h => by cases h) (.refl _)
  · have hend := (Table.remove_removeEnd hadjust h'.slots k).takeEnd h'.slots h'.slots_pos
    have heffect := hend.effect h'.slots
    rw [h'.scheme_eq] at heffect
    rw [hadjust]
    exact heffect.of_perm hperm

/-! ## All acts -/

/-- What an act does to the blocks of a table. -/
def Table.Conserves (t : Table κ ν) : Act κ ν → Prop
  | .call (.put k v) => PutEffect t.scheme k v t.blocks (t.put k v).1 (t.put k v).2.blocks
  | .call (.remove k) =>
      RemoveEffect t.scheme k t.blocks (t.taken? k) (t.remove k).1 (t.remove k).2.blocks
  | .call .clear => t.clear.2.blocks = []
  | .close => t.close.2.blocks = []
  | .call c => (t.call c).2 = t

theorem Shows.conserves (h : Shows scheme t g) (a : Act κ ν) : t.Conserves a := by
  cases a with
  | close =>
      show t.close.2.blocks = []
      rw [Table.close_of_some h.slots]
      rfl
  | call c =>
      cases c with
      | put k v =>
          have heffect := h.put_effect k v
          rwa [← h.scheme_eq] at heffect
      | remove k =>
          have heffect := h.remove_effect k
          rwa [← h.scheme_eq] at heffect
      | clear =>
          show t.clear.2.blocks = []
          rw [Table.clear_of_some h.slots]
          exact blocks_empty _
      | get | contains | length | isEmpty => rfl

/-- A closed table fails whatever is asked of it, and has no block to lose. -/
theorem Table.conserves_of_closed (h : t.slots? = none) (a : Act κ ν) : t.Conserves a := by
  have hadjust := adjust_of_closed h
  have hnone : (t.act a).blocks = [] := by rw [act_of_closed h, blocks_of_none h]
  cases a with
  | close => exact hnone
  | call c =>
      cases c with
      | put k v =>
          show PutEffect t.scheme k v t.blocks (t.put k v).1 (t.put k v).2.blocks
          rw [put_of_adjust_error hadjust]
          exact .failed (.refl _)
      | remove k =>
          show RemoveEffect t.scheme k t.blocks (t.taken? k) (t.remove k).1 (t.remove k).2.blocks
          rw [remove_of_adjust_error hadjust, taken?, hadjust]
          exact .kept (fun _ h => by cases h) (.refl _)
      | clear => exact hnone
      | get | contains | length | isEmpty => rfl

theorem Alive.conserves (h : Alive scheme t) (a : Act κ ν) : t.Conserves a := by
  cases h with
  | opened hshows => exact hshows.conserves a
  | closed hslots => exact Table.conserves_of_closed hslots a

namespace Table

/-- On every table that acts lead to, from valid settings and with any codecs: the size counts the
blocks, every act conserves them, a resize and the closing of a gap only move them, and a `put` that
does not resize changes one slot at most. -/
theorem blocks_conserved (scheme : Scheme κ ν) {sizing : Sizing} (hvalid : sizing.validate = .ok ())
    (acts : List (Act κ ν)) :
    let t := (ofSizing scheme sizing).afterActs acts
    t.size = t.blocks.length ∧ (∀ a, t.Conserves a) ∧ t.adjust.2.blocks.Perm t.blocks ∧
      (∀ (s : Slots Block) (slot : Nat), slot < s.capacity →
        (t.gapClosing s slot).2.blocks.Perm (s.set slot none).blocks) ∧
      ∀ k v, (t.put k v).2.capacity = t.capacity →
        ∃ slot, ∀ other, other ≠ slot → (t.put k v).2.block? other = t.block? other := by
  intro t
  have h : Alive scheme t := (alive_ofSizing scheme hvalid).afterActs acts
  refine ⟨h.size_eq, h.conserves, h.adjust_blocks, fun s slot hslot => t.gapClosing_blocks hslot,
    fun k v hcap => ?_⟩
  cases h with
  | opened hshows => exact hshows.put_slots hcap
  | closed hslots =>
      rw [put_of_adjust_error (adjust_of_closed hslots)]
      exact ⟨0, fun _ _ => rfl⟩

/-- Two keys at one home, of which the second cannot be read once it is stored. -/
def tornActs : List (Act Bool Bool) := [.call (.put false true), .call (.put true true)]

/-- The removal of the first key takes its block, and fails when the gap cannot be closed. -/
theorem blocks_conserved_torn :
    let sizing : Sizing := ⟨0x3fe0000000000000, 8, 8⟩
    let t := (ofSizing .failing sizing).afterActs tornActs
    sizing.validate = .ok () ∧ t.tears false = true ∧ t.size = 2 ∧
      t.Conserves (.call (.remove false)) ∧ t.taken? false = some [0, 1] ∧
      (t.remove false).2.blocks = [[7, 1]] := by
  intro sizing t
  have hvalid : sizing.validate = .ok () := by decide +kernel
  obtain ⟨hsize, hconserves, -⟩ := blocks_conserved .failing hvalid tornActs
  refine ⟨hvalid, by decide +kernel, hsize.trans (by decide +kernel), hconserves _, ?_, ?_⟩
  · decide +kernel
  · decide +kernel

end Table

end BlockTable
