import BlockTable.Codec.Writing

/-!
# Windows

A writing that is given a part of a draft cannot tell it from a draft of its own.  `Window` relates
the two: inside the part the bytes agree, outside it the bytes are what they were, and each cursor
stands at the same place of the part.  Every request keeps this relation and gets the same answer
on both sides, and so does every writing (`run_window`).

A cursor without room may stand anywhere, because nothing more can be written through it.

Bytes are compared position by position.  The bytes that a draft lacks count as zero
(`Draft.byte`), so it does not matter how many of them are present.
-/

namespace BlockTable

/-! ## Single bytes -/

/-- The byte at a position. -/
def Draft.byte (d : Draft) (i : Nat) : UInt8 := d.bytes.getD i 0

theorem getD_overlay (position : Nat) (new old : List UInt8) (i : Nat) :
    (overlay position new old).getD i 0 =
      if position ≤ i ∧ i < position + new.length then new.getD (i - position) 0
      else old.getD i 0 := by
  have hlen : ((old.take position).rightpad position 0).length = position := by
    simp only [List.rightpad, List.length_append, List.length_take, List.length_replicate]
    omega
  have hahead : ∀ j < position,
      ((old.take position).rightpad position 0).getD j 0 = old.getD j 0 := by
    intro j hj
    simp only [List.rightpad, List.getD_eq_getElem?_getD, List.getElem?_append, List.length_take,
      List.getElem?_take, List.getElem?_replicate]
    split
    next => rfl
    next hge =>
      rw [List.getElem?_eq_none (by omega : old.length ≤ j)]
      split <;> rfl
  simp only [overlay, List.getD_eq_getElem?_getD, List.append_assoc] at hahead ⊢
  by_cases hi : i < position
  · rw [if_neg (by omega), List.getElem?_append_left (by omega)]
    exact hahead i hi
  · rw [List.getElem?_append_right (by omega), hlen]
    by_cases hnew : i < position + new.length
    · rw [if_pos ⟨by omega, hnew⟩, List.getElem?_append_left (by omega)]
    · rw [if_neg (by omega), List.getElem?_append_right (by omega), List.getElem?_drop]
      congr 2
      omega

theorem span_set (d : Draft) (cursor other : Nat) (span : Span) :
    Draft.span { d with spans := d.spans.set cursor span } other =
      if cursor = other ∧ cursor < d.spans.length then span else d.span other := by
  simp only [Draft.span, List.getElem?_set]
  grind

theorem span_append (d : Draft) (cursor : Nat) (span : Span) :
    Draft.span { d with spans := d.spans ++ [span] } cursor =
      if cursor = d.spans.length then span else d.span cursor := by
  simp only [Draft.span, List.getElem?_append]
  grind

/-! ## The same place of two drafts -/

section

variable {start width : Nat} {base : Nat → UInt8}

/-- A span of the part that begins at `start`, and the same span of the draft alone. -/
structure Span.Same (start width : Nat) (outer inner : Span) : Prop where
  room : outer.room = inner.room
  place : 0 < inner.room → outer.start = start + inner.start ∧ inner.start + inner.room ≤ width

/-- A draft with a part of `width` bytes from `start` on, and that part as a draft of its own.  The
bytes outside the part are those of `base`. -/
structure Window (start width : Nat) (base : Nat → UInt8) (outer inner : Draft) : Prop where
  cursors : outer.spans.length = inner.spans.length
  spans : ∀ cursor, Span.Same start width (outer.span cursor) (inner.span cursor)
  bytes : ∀ i, outer.byte i =
    if start ≤ i ∧ i < start + width then inner.byte (i - start) else base i

/-- The ends of one request for `size` bytes on both sides. -/
inductive Reserved (start width : Nat) (base : Nat → UInt8) (size : Nat) :
    Except TableError Nat × Draft → Except TableError Nat × Draft → Prop where
  | refused {e : TableError} {outer inner : Draft} (window : Window start width base outer inner) :
      Reserved start width base size (.error e, outer) (.error e, inner)
  | granted {a b : Nat} {outer inner : Draft} (span : Span.Same start width ⟨a, size⟩ ⟨b, size⟩)
      (window : Window start width base outer inner) :
      Reserved start width base size (.ok a, outer) (.ok b, inner)

namespace Window

variable {outer inner : Draft}

/-- The two drafts after the span of one cursor has changed in the same way. -/
theorem set_span (h : Window start width base outer inner) (cursor : Nat) {a b : Span}
    (hab : Span.Same start width a b) :
    Window start width base { outer with spans := outer.spans.set cursor a }
      { inner with spans := inner.spans.set cursor b } where
  cursors := by simpa using h.cursors
  spans other := by
    rw [span_set, span_set, h.cursors]
    split
    next => exact hab
    next => exact h.spans other
  bytes := h.bytes

theorem reserve (h : Window start width base outer inner) (cursor size : Nat) :
    Reserved start width base size (outer.reserve cursor size) (inner.reserve cursor size) := by
  have hspan := h.spans cursor
  rw [Draft.reserve, Draft.reserve]
  simp only [hspan.room]
  split
  next hle =>
    refine .granted ⟨rfl, fun hpos => ?_⟩ (h.set_span cursor ⟨rfl, fun hpos => ?_⟩)
    · have hplace := hspan.place (by simp only at hpos; omega)
      simp only
      omega
    · simp only at hpos ⊢
      have hplace := hspan.place (by omega)
      omega
  next => exact .refused (h.set_span cursor ⟨rfl, fun hpos => absurd hpos (Nat.lt_irrefl 0)⟩)

/-- The two drafts after the same bytes were written at the same place. -/
theorem overlay (h : Window start width base outer inner) {a b : Nat} {bs : List UInt8}
    (hspan : Span.Same start width ⟨a, bs.length⟩ ⟨b, bs.length⟩) :
    Window start width base { outer with bytes := overlay a bs outer.bytes }
      { inner with bytes := overlay b bs inner.bytes } where
  cursors := h.cursors
  spans := h.spans
  bytes i := by
    have hbytes := h.bytes i
    simp only [Draft.byte, getD_overlay] at hbytes ⊢
    by_cases hpos : 0 < bs.length
    · obtain ⟨hstart, hle⟩ := hspan.place hpos
      simp only at hstart hle
      rw [hbytes, hstart]
      by_cases hin : start ≤ i ∧ i < start + width
      · rw [if_pos hin, if_pos hin]
        have hsub : i - (start + b) = i - start - b := by omega
        rw [hsub]
        exact ite_congr (propext (by omega)) (fun _ => rfl) (fun _ => rfl)
      · rw [if_neg hin, if_neg hin, if_neg (by omega)]
    · have houter : ¬ (a ≤ i ∧ i < a + bs.length) := by omega
      have hinner : ¬ (b ≤ i - start ∧ i - start < b + bs.length) := by omega
      rw [if_neg houter, if_neg hinner]
      exact hbytes

theorem put (h : Window start width base outer inner) (cursor : Nat) (bs : List UInt8) :
    (outer.put cursor bs).1 = (inner.put cursor bs).1 ∧
      Window start width base (outer.put cursor bs).2 (inner.put cursor bs).2 := by
  have hend := h.reserve cursor bs.length
  rw [Draft.put, Draft.put]
  generalize outer.reserve cursor bs.length = o at hend ⊢
  generalize inner.reserve cursor bs.length = i at hend ⊢
  cases hend with
  | refused window => exact ⟨rfl, window⟩
  | granted span window => exact ⟨rfl, window.overlay span⟩

theorem split (h : Window start width base outer inner) (cursor size : Nat) :
    (outer.split cursor size).1 = (inner.split cursor size).1 ∧
      Window start width base (outer.split cursor size).2 (inner.split cursor size).2 := by
  have hend := h.reserve cursor size
  rw [Draft.split, Draft.split]
  generalize outer.reserve cursor size = o at hend ⊢
  generalize inner.reserve cursor size = i at hend ⊢
  cases hend with
  | refused window => exact ⟨rfl, window⟩
  | granted span window =>
      refine ⟨rfl, by simpa using window.cursors, fun other => ?_, window.bytes⟩
      rw [span_append, span_append, window.cursors]
      split
      next => exact span
      next => exact window.spans other

/-- The two drafts that a writing is given which may write the bytes from one place on. -/
theorem narrow (h : Window start width base outer inner) {a b : Span}
    (hab : Span.Same start width a b) :
    Window start width base ⟨outer.bytes, [a]⟩ ⟨inner.bytes, [b]⟩ where
  cursors := rfl
  spans cursor := by
    cases cursor with
    | zero => exact hab
    | succ n => exact ⟨rfl, fun hpos => absurd hpos (Nat.lt_irrefl 0)⟩
  bytes := h.bytes

end Window

/-! ## What a writing preserves -/

/-- A writing gets the same answers in a part of a draft as in a draft of its own, writes the same
bytes there, and writes nothing outside. -/
theorem run_window : ∀ (w : Writing) {outer inner : Draft},
    Window start width base outer inner →
      (w.run outer).1 = (w.run inner).1 ∧
        Window start width base (w.run outer).2 (w.run inner).2
  | .done result, outer, inner, h => ⟨rfl, h⟩
  | .put cursor bs next, outer, inner, h => by
      obtain ⟨hanswer, hwindow⟩ := h.put cursor bs
      simp only [Writing.run]
      rw [hanswer]
      exact run_window (next _) hwindow
  | .split cursor size next, outer, inner, h => by
      obtain ⟨hanswer, hwindow⟩ := h.split cursor size
      simp only [Writing.run]
      rw [hanswer]
      exact run_window (next _) hwindow
  | .room cursor next, outer, inner, h => by
      have hroom : outer.room cursor = inner.room cursor := (h.spans cursor).room
      simp only [Writing.run]
      rw [hroom]
      exact run_window (next _) h
  | .within cursor size body next, outer, inner, h => by
      have hend := h.reserve cursor size
      simp only [Writing.run]
      generalize outer.reserve cursor size = o at hend ⊢
      generalize inner.reserve cursor size = i at hend ⊢
      cases hend with
      | refused window => exact run_window (next _) window
      | granted span window =>
          obtain ⟨hanswer, hbody⟩ := run_window body (window.narrow span)
          simp only
          rw [hanswer]
          exact run_window (next _) ⟨window.cursors, window.spans, hbody.bytes⟩

end

end BlockTable
