import BlockTable.Proofs.Codec.Footprint
import BlockTable.Proofs.Cursor.Accounts

/-!
# Parts of a field

The spans of cursors that were split off one another are parts of one field: they lie inside it, and
no two of them meet (`Span.Tiled`).  It is proved by counting.  Each position is in at most one of
the parts, and in none if it is not in the field, and a step moves a position from one part to
another or loses it (`Span.hits_taken`, `Span.hits_closed`).

The bytes of a span are those of the bytes taken off it and of what it has behind them
(`Span.take_cut`, `Span.drop_cut`).
-/

namespace BlockTable

namespace Span

variable {field s t : Span} {parts : List Span} {cursor width i : Nat}

/-- Every position of the one span is one of the other. -/
def Within (a b : Span) : Prop := ∀ i, a.Covers i → b.Covers i

/-- No position is one of both spans. -/
def Apart (a b : Span) : Prop := ∀ i, a.Covers i → ¬ b.Covers i

/-- Spans inside a field, of which no two meet. -/
structure Tiled (field : Span) (parts : List Span) : Prop where
  within : ∀ s ∈ parts, s.Within field
  apart : parts.Pairwise Apart

/-! ## Counting the parts at a position -/

/-- The number of spans that a position is one of. -/
def hits (parts : List Span) (i : Nat) : Nat := parts.countP fun s => decide (s.Covers i)

/-- No position is one of more parts than its field allows. -/
def Shares (field : Span) (parts : List Span) : Prop := ∀ i, hits parts i ≤ hits [field] i

theorem hits_cons (s : Span) (parts : List Span) (i : Nat) :
    hits (s :: parts) i = hits [s] i + hits parts i := by
  simp only [hits, List.countP_cons, List.countP_nil, Nat.zero_add]
  exact Nat.add_comm ..

theorem hits_append (parts rest : List Span) (i : Nat) :
    hits (parts ++ rest) i = hits parts i + hits rest i := List.countP_append

theorem hits_single (s : Span) (i : Nat) : hits [s] i = if s.Covers i then 1 else 0 := by
  simp only [hits, List.countP_cons, List.countP_nil, Nat.zero_add, decide_eq_true_eq]

theorem hits_pos (hs : s ∈ parts) (hi : s.Covers i) : 0 < hits parts i :=
  List.countP_pos_iff.mpr ⟨s, hs, decide_eq_true hi⟩

/-- A position that two parts have would count twice, and its field counts it once. -/
theorem Shares.tiled (h : Shares field parts) : Tiled field parts where
  within s hs i hi := by
    have hfield := Nat.lt_of_lt_of_le (hits_pos hs hi) (h i)
    rw [hits_single] at hfield
    exact Decidable.of_not_not fun hout => absurd hfield (by rw [if_neg hout]; decide)
  apart := by
    have hone : ∀ i, hits parts i ≤ 1 := fun i => Nat.le_trans (h i) (List.countP_le_length ..)
    clear h
    induction parts with
    | nil => exact .nil
    | cons s rest ih =>
        have hcount : ∀ i, hits [s] i + hits rest i ≤ 1 := fun i => hits_cons s rest i ▸ hone i
        refine .cons (fun t ht i hs hi => ?_)
          (ih fun i => Nat.le_trans (Nat.le_add_left ..) (hcount i))
        have hfirst := hits_pos (.head []) hs
        have hlater := hits_pos ht hi
        exact absurd (hcount i) (by omega)

/-! ## Bytes taken off a span -/

/-- The bytes taken off a span and those behind them make up the span. -/
theorem hits_front_add_behind (h : width ≤ s.room) (i : Nat) :
    hits [s.front width] i + hits [s.behind width] i = hits [s] i := by
  simp only [hits_single, Covers, front, behind]
  grind

/-- A number that no span has changes none. -/
theorem hits_set (parts : List Span) (cursor : Nat) (t : Span) (i : Nat) :
    hits (parts.set cursor t) i + hits [parts[cursor]?.getD ⟨0, 0⟩] i ≤
      hits parts i + hits [t] i := by
  induction parts generalizing cursor with
  | nil =>
      have hnone : ¬ (⟨0, 0⟩ : Span).Covers i := fun h => Nat.not_lt_zero _ h.2
      simp [hits_single, hnone]
  | cons s rest ih =>
      cases cursor with
      | zero =>
          rw [List.set_cons_zero, hits_cons t rest, hits_cons s rest, List.getElem?_cons_zero,
            Option.getD_some]
          omega
      | succ cursor =>
          have hrest := ih cursor
          rw [List.set_cons_succ, hits_cons s (rest.set cursor t), hits_cons s rest,
            List.getElem?_cons_succ]
          omega

/-- Bytes that are taken off a span were in no other part. -/
theorem hits_taken (hs : parts[cursor]?.getD ⟨0, 0⟩ = s) (h : width ≤ s.room) (i : Nat) :
    hits (parts.set cursor (s.behind width)) i + hits [s.front width] i ≤ hits parts i := by
  have hset := hits_set parts cursor (s.behind width) i
  have hsplit := hits_front_add_behind h i
  rw [hs] at hset
  omega

/-- A span that is closed gives its bytes to no other part. -/
theorem hits_closed (hs : parts[cursor]?.getD ⟨0, 0⟩ = s) (i : Nat) :
    hits (parts.set cursor (s.front 0)) i ≤ hits parts i := by
  have hset := hits_set parts cursor (s.front 0) i
  have hsplit := hits_front_add_behind (Nat.zero_le s.room) i
  have hsame : s.behind 0 = s := rfl
  rw [hs] at hset
  rw [hsame] at hsplit
  omega

/-! ## Bytes of a span -/

/-- The bytes of a span. -/
def cut (s : Span) (memory : Nat → UInt8) : List UInt8 :=
  (List.range s.room).map fun j => memory (s.start + j)

variable {memory : Nat → UInt8}

@[simp] theorem length_cut : (s.cut memory).length = s.room := by
  rw [cut, List.length_map, List.length_range]

theorem take_cut (h : width ≤ s.room) :
    (s.cut memory).take width = (s.front width).cut memory := by
  rw [cut, ← List.map_take, List.take_range, Nat.min_eq_left h]
  rfl

theorem drop_cut : (s.cut memory).drop width = (s.behind width).cut memory := by
  refine List.ext_getElem ?_ fun j _ _ => ?_
  · rw [List.length_drop, length_cut, length_cut]
    rfl
  · simp only [cut, behind, List.getElem_drop, List.getElem_map, List.getElem_range]
    rw [Nat.add_assoc]

/-- The bytes of a span are known by what stands at each of its positions. -/
theorem cut_eq {bytes : List UInt8} (hlength : bytes.length = s.room)
    (h : ∀ i, s.Covers i → memory i = bytes.getD (i - s.start) 0) : s.cut memory = bytes := by
  refine List.ext_getElem (length_cut.trans hlength.symm) fun j _ hj => ?_
  have hbyte := h (s.start + j) ⟨Nat.le_add_right .., by omega⟩
  rw [Nat.add_sub_cancel_left, List.getD_eq_getElem?_getD, List.getElem?_eq_getElem hj] at hbyte
  simpa only [cut, List.getElem_map, List.getElem_range, Option.getD_some] using hbyte

end Span

end BlockTable
