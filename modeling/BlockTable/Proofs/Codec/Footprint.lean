import BlockTable.Proofs.Codec.Fields

/-!
# Footprints

The *footprint* of a writing is where it puts bytes on a draft: the spans of the requests that are
granted, also of those in the parts that it splits off and gives away.  A byte outside the footprint
keeps its value (`byte_run`).  So the bytes of a body that its codec did not write are zero
(`Codec.getD_body`).
-/

namespace BlockTable

/-- The position is one of the span. -/
def Span.Covers (s : Span) (i : Nat) : Prop := s.start ≤ i ∧ i < s.start + s.room

instance (s : Span) (i : Nat) : Decidable (s.Covers i) := inferInstanceAs (Decidable (_ ∧ _))

namespace Draft

/-- The span that a request for `width` bytes is granted, if it is. -/
def granted (d : Draft) (cursor width : Nat) : List Span :=
  match (d.reserve cursor width).1 with
  | .ok start => [⟨start, width⟩]
  | .error _ => []

theorem bytes_reserve (d : Draft) (cursor width : Nat) :
    (d.reserve cursor width).2.bytes = d.bytes := by
  rw [reserve]
  split <;> rfl

theorem bytes_split (d : Draft) (cursor width : Nat) :
    (d.split cursor width).2.bytes = d.bytes := by
  have hbytes := d.bytes_reserve cursor width
  rw [split]
  split
  next hreserve =>
    rw [hreserve] at hbytes
    exact hbytes
  next hreserve =>
    rw [hreserve] at hbytes
    exact hbytes

theorem byte_put {d : Draft} {cursor i : Nat} {bs : List UInt8}
    (h : ∀ s ∈ d.granted cursor bs.length, ¬ s.Covers i) :
    (d.put cursor bs).2.byte i = d.byte i := by
  have hbytes := d.bytes_reserve cursor bs.length
  rw [granted] at h
  rw [put]
  split
  next start d' hreserve =>
    rw [hreserve] at h hbytes
    have hout : ¬ (start ≤ i ∧ i < start + bs.length) := h ⟨start, bs.length⟩ (.head _)
    simp only at hbytes
    rw [byte, getD_overlay, if_neg hout, hbytes, byte]
  next hreserve =>
    rw [hreserve] at hbytes
    exact congrArg (List.getD · i 0) hbytes

end Draft

namespace Writing

/-- The spans that a writing puts bytes on. -/
def footprint : Writing → Draft → List Span
  | .done _, _ => []
  | .put cursor bytes next, d =>
      d.granted cursor bytes.length ++
        (next (d.put cursor bytes).1).footprint (d.put cursor bytes).2
  | .split cursor width next, d =>
      (next (d.split cursor width).1).footprint (d.split cursor width).2
  | .room cursor next, d => (next (d.room cursor)).footprint d
  | .within cursor width body next, d =>
      match d.reserve cursor width with
      | (.error e, d) => (next (.error e)).footprint d
      | (.ok start, d) =>
          let inner : Draft := ⟨d.bytes, [⟨start, width⟩]⟩
          body.footprint inner ++
            (next (body.run inner).1).footprint { d with bytes := (body.run inner).2.bytes }

/-- The induction is on the writing, and a part that is given away has a footprint of its own. -/
theorem byte_run {i : Nat} : ∀ (w : Writing) {d : Draft},
    (∀ s ∈ w.footprint d, ¬ s.Covers i) → (w.run d).2.byte i = d.byte i
  | .done result, d, _ => rfl
  | .put cursor bs next, d, h => by
      rw [footprint] at h
      rw [run]
      have hnext := byte_run (next (d.put cursor bs).1) fun s hs => h s (List.mem_append_right _ hs)
      exact hnext.trans (Draft.byte_put fun s hs => h s (List.mem_append_left _ hs))
  | .split cursor width next, d, h => by
      have hnext := byte_run (next (d.split cursor width).1) h
      exact hnext.trans (congrArg (List.getD · i 0) (d.bytes_split cursor width))
  | .room cursor next, d, h => byte_run (next (d.room cursor)) h
  | .within cursor width body next, d, h => by
      have hbytes := d.bytes_reserve cursor width
      rw [footprint] at h
      rw [run]
      split
      next hreserve =>
        rw [hreserve] at h hbytes
        exact (byte_run (next _) h).trans (congrArg (List.getD · i 0) hbytes)
      next start d' hreserve =>
        rw [hreserve] at h hbytes
        have hbody := byte_run body fun s hs => h s (List.mem_append_left _ hs)
        have hnext := byte_run (next _) fun s hs => h s (List.mem_append_right _ hs)
        simp only at hbytes
        exact (hnext.trans hbody).trans (congrArg (List.getD · i 0) hbytes)

end Writing

/-- A byte of a body that the codec did not write is zero. -/
theorem Codec.getD_body {α : Type} {codec : Codec α} {x : α} {bs : List UInt8} {i : Nat}
    (h : codec.body x = .ok bs)
    (hi : ∀ s ∈ (codec.write x).footprint (.blank (codec.bodySize x)), ¬ s.Covers i) :
    bs.getD i 0 = 0 := by
  rw [body] at h
  split at h
  next d hrun =>
    cases h
    by_cases hlt : i < codec.bodySize x
    · have hbyte := (codec.write x).byte_run hi
      rw [hrun] at hbyte
      rw [Draft.getD_contents d hlt, hbyte]
      rfl
    · rw [List.getD_eq_getElem?_getD, List.getElem?_eq_none]
      · rfl
      · rw [Draft.length_contents]
        omega
  next => cases h

end BlockTable
