import BlockTable.Proofs.Cursor.Parts
import Mathlib.Data.List.Induction

/-!
# Cursors confine what they write

A script for writing that is given a field of a memory, with steps to the cursor given and to all
that are split off it.  What the granted steps have written are *strokes*.  The strokes and the
spans that the cursors have left are parts of the field, whatever of the script is refused
(`Draft.Confined`).  So a byte is written once at most, no write reaches another cursor's bytes, and
every byte of the memory is that of a stroke or is as it was.

Readers are confined in the same way: each has left the bytes of its own part of the field
(`Readers.Confined`).
-/

namespace BlockTable

open BlockTable.Span (hits hits_append hits_pos hits_taken hits_closed)

/-! ## Strokes -/

/-- Bytes that were written, and where. -/
structure Stroke where
  /-- The position of the first byte. -/
  start : Nat
  /-- The bytes. -/
  bytes : List UInt8
  deriving DecidableEq, Repr

namespace Stroke

/-- The positions written. -/
def span (w : Stroke) : Span := ⟨w.start, w.bytes.length⟩

/-- The byte written at a position. -/
def byte (w : Stroke) (i : Nat) : UInt8 := w.bytes.getD (i - w.start) 0

end Stroke

namespace Draft

variable {field : Span} {start d : Draft} {ws : List Stroke} {s : WriteStep}

/-- What a step writes. -/
def strokes (d : Draft) (s : WriteStep) : List Stroke :=
  match s.request with
  | .put bytes => (d.granted s.cursor bytes.length).map fun span => ⟨span.start, bytes⟩
  | .split _ => []

/-- What a script writes. -/
def trail (d : Draft) : List WriteStep → List Stroke
  | [] => []
  | s :: rest => d.strokes s ++ (d.step s).2.trail rest

theorem strokes_wrote {bytes : List UInt8} (hrequest : s.request = .put bytes)
    (hfits : bytes.length ≤ d.room s.cursor) :
    d.strokes s = [⟨(d.span s.cursor).start, bytes⟩] := by
  rw [strokes, hrequest]
  simp only
  rw [granted, reserve_of_le hfits]
  rfl

theorem strokes_parted {width : Nat} (hrequest : s.request = .split width) :
    d.strokes s = [] := by
  rw [strokes, hrequest]

theorem strokes_refused (hlacks : d.room s.cursor < s.request.width) : d.strokes s = [] := by
  rw [strokes]
  cases hrequest : s.request with
  | put bytes =>
      have hlt : d.room s.cursor < bytes.length := by rwa [hrequest] at hlacks
      simp only
      rw [granted, reserve_of_lt hlt]
      rfl
  | split width => rfl

theorem after_append (d : Draft) (steps more : List WriteStep) :
    ledger.after d (steps ++ more) = ledger.after (ledger.after d steps) more :=
  List.foldl_append

theorem trail_append (d : Draft) (steps more : List WriteStep) :
    d.trail (steps ++ more) = d.trail steps ++ (ledger.after d steps).trail more := by
  induction steps generalizing d with
  | nil => rfl
  | cons s rest ih =>
      rw [List.cons_append, trail, ih, trail, List.append_assoc]
      rfl

theorem trail_concat (d : Draft) (steps : List WriteStep) (s : WriteStep) :
    d.trail (steps ++ [s]) = d.trail steps ++ (ledger.after d steps).strokes s := by
  rw [trail_append, trail, trail, List.append_nil]

theorem byte_overlay (d : Draft) (w : Stroke) (spans : List Span) (i : Nat) :
    byte ⟨overlay w.start w.bytes d.bytes, spans⟩ i =
      if w.span.Covers i then w.byte i else d.byte i := getD_overlay ..

theorem run_writing (d : Draft) (s : WriteStep) (next : Except TableError Unit → Writing) :
    (s.writing next).run d = (next (d.step s).1).run (d.step s).2 := by
  obtain ⟨cursor, request⟩ := s
  cases request <;> rfl

/-- A script that goes on after a refusal takes all its steps. -/
theorem run_ofScript (d : Draft) (steps : List WriteStep) :
    (Writing.ofScript false steps).run d = (.ok (), ledger.after d steps) := by
  induction steps generalizing d with
  | nil => rfl
  | cons s rest ih =>
      rw [Writing.ofScript, run_writing]
      cases (d.step s).1 with
      | ok answer => exact ih (d.step s).2
      | error e => exact ih (d.step s).2

/-! ## Confinement -/

/-- What holds of a draft with cursors over the parts of a field and the strokes made so far. -/
structure Confined (field : Span) (start d : Draft) (ws : List Stroke) : Prop where
  shares : field.Shares (d.spans ++ ws.map Stroke.span)
  written : ∀ w ∈ ws, ∀ i, w.span.Covers i → d.byte i = w.byte i
  kept : ∀ i, (∀ w ∈ ws, ¬ w.span.Covers i) → d.byte i = start.byte i

namespace Confined

theorem initial (start : Draft) (hspans : start.spans = [field]) :
    Confined field start start [] where
  shares i := by
    rw [hspans]
    exact Nat.le_refl _
  written _ hw := absurd hw List.not_mem_nil
  kept _ _ := rfl

/-- No stroke covers what a cursor has left. -/
theorem not_covers (h : Confined field start d ws) {w : Stroke} (hw : w ∈ ws) {i : Nat}
    (hi : 0 < hits d.spans i) : ¬ w.span.Covers i := fun hcovers => by
  have hshares := h.shares i
  have hstroke := hits_pos (List.mem_map_of_mem hw) hcovers
  have hone : hits [field] i ≤ 1 := List.countP_le_length
  rw [hits_append] at hshares
  omega

/-- A granted write makes a stroke of bytes that were left to its cursor. -/
theorem wrote (h : Confined field start d ws) {cursor : Nat} {w : Stroke}
    (hstart : (d.span cursor).start = w.start) (hfits : w.bytes.length ≤ d.room cursor) :
    Confined field start ⟨overlay w.start w.bytes d.bytes,
      d.spans.set cursor ((d.span cursor).behind w.bytes.length)⟩ (ws ++ [w]) := by
  have hspan : (d.span cursor).front w.bytes.length = w.span := by rw [Span.front, hstart]; rfl
  have htaken : ∀ i, hits (d.spans.set cursor ((d.span cursor).behind w.bytes.length)) i +
      hits [w.span] i ≤ hits d.spans i := hspan ▸ hits_taken rfl hfits
  have hfree : ∀ w' ∈ ws, ∀ i, w'.span.Covers i → ¬ w.span.Covers i := fun w' hw' i hcovers hi =>
    h.not_covers hw' (Nat.lt_of_lt_of_le (hits_pos (.head []) hi)
      (Nat.le_trans (Nat.le_add_left ..) (htaken i))) hcovers
  refine ⟨fun i => ?_, fun w' hw' i hi => ?_, fun i hi => ?_⟩
  · have hshares := h.shares i
    have hstroke := htaken i
    simp only [List.map_append, List.map_singleton, hits_append] at hshares ⊢
    omega
  · rw [byte_overlay]
    cases List.mem_append.mp hw' with
    | inl hold => rw [if_neg (hfree w' hold i hi), h.written w' hold i hi]
    | inr hnew =>
        cases List.mem_singleton.mp hnew
        rw [if_pos hi]
  · rw [byte_overlay, if_neg (hi w (by simp)),
      h.kept i fun w' hw' => hi w' (List.mem_append_left _ hw')]

/-- One step. -/
theorem step (h : Confined field start d ws) (s : WriteStep) :
    Confined field start (d.step s).2 (ws ++ d.strokes s) := by
  have hend := d.step_stepEnd s
  generalize d.step s = result at hend ⊢
  cases hend with
  | wrote hrequest hfits =>
      rw [strokes_wrote hrequest hfits]
      exact h.wrote (w := ⟨_, _⟩) rfl hfits
  | parted hrequest hfits =>
      rw [strokes_parted hrequest, List.append_nil]
      refine ⟨fun i => ?_, h.written, h.kept⟩
      have hshares := h.shares i
      have htaken := hits_taken rfl hfits i
      rw [hits_append] at hshares
      rw [hits_append, hits_append]
      exact Nat.le_trans (Nat.add_le_add_right htaken _) hshares
  | refused hlacks =>
      rw [strokes_refused hlacks, List.append_nil]
      refine ⟨fun i => ?_, h.written, h.kept⟩
      have hshares := h.shares i
      rw [hits_append] at hshares ⊢
      exact Nat.le_trans (Nat.add_le_add_right (hits_closed rfl i) _) hshares

/-- The induction is on the script, from its end. -/
theorem after (start : Draft) (hspans : start.spans = [field]) (steps : List WriteStep) :
    Confined field start (ledger.after start steps) (start.trail steps) := by
  induction steps using List.reverseRecOn with
  | nil => exact initial start hspans
  | append_singleton steps s ih =>
      rw [trail_concat, after_append]
      exact ih.step s

end Confined

end Draft

/-! ## Readers -/

namespace Readers

variable {field : Span} {memory : Nat → UInt8} {rs : Readers} {s : ReadStep}

/-- What holds of readers of the parts of a field. -/
def Confined (field : Span) (memory : Nat → UInt8) (rs : Readers) : Prop :=
  ∃ spans, field.Shares spans ∧ rs = spans.map fun s => ⟨s.cut memory⟩

/-- The reader over a span. -/
theorem reader_map (spans : List Span) (cursor : Nat) :
    reader (spans.map fun s => ⟨s.cut memory⟩) cursor =
      ⟨(spans[cursor]?.getD ⟨0, 0⟩).cut memory⟩ := by
  rw [reader, List.getElem?_map]
  cases spans[cursor]? <;> rfl

/-- One step. -/
theorem Confined.step (h : Confined field memory rs) (s : ReadStep) :
    Confined field memory (rs.step s).2 := by
  obtain ⟨spans, hshares, hrs⟩ := h
  have hend := rs.step_stepEnd s
  have hreader : rs.reader s.cursor = ⟨(spans[s.cursor]?.getD ⟨0, 0⟩).cut memory⟩ :=
    hrs ▸ reader_map spans s.cursor
  generalize hspan : spans[s.cursor]?.getD ⟨0, 0⟩ = span at hreader
  generalize rs.step s = result at hend ⊢
  cases hend with
  | @took width hrequest hfits =>
      rw [hreader, Reader.remaining, Span.length_cut] at hfits
      refine ⟨spans.set s.cursor (span.behind width), fun i => ?_, ?_⟩
      · have htaken := hits_taken hspan hfits i
        exact Nat.le_trans (Nat.le_trans (Nat.le_add_right ..) htaken) (hshares i)
      · rw [hreader, Span.drop_cut, List.map_set, ← hrs]
  | @parted width hrequest hfits =>
      rw [hreader, Reader.remaining, Span.length_cut] at hfits
      refine ⟨spans.set s.cursor (span.behind width) ++ [span.front width], fun i => ?_, ?_⟩
      · rw [hits_append]
        exact Nat.le_trans (hits_taken hspan hfits i) (hshares i)
      · rw [hreader, Span.drop_cut, Span.take_cut hfits, List.map_append, List.map_set, ← hrs]
        rfl
  | refused hlacks =>
      refine ⟨spans.set s.cursor (span.front 0), fun i => ?_, ?_⟩
      · exact Nat.le_trans (hits_closed hspan i) (hshares i)
      · rw [List.map_set, ← hrs]
        rfl

/-- The induction is on the script. -/
theorem Confined.after (h : Confined field memory rs) (steps : List ReadStep) :
    Confined field memory (ledger.after rs steps) := by
  induction steps generalizing rs with
  | nil => exact h
  | cons s rest ih => exact ih (h.step s)

theorem cut_whole (bytes : List UInt8) :
    (⟨0, bytes.length⟩ : Span).cut (bytes.getD · 0) = bytes :=
  Span.cut_eq rfl fun _ _ => rfl

/-- A script that goes on after a refusal takes all its steps. -/
theorem run_false (rs : Readers) (steps : List ReadStep) :
    (run false steps rs).2 = (.ok (), ledger.after rs steps) := by
  induction steps generalizing rs with
  | nil => rfl
  | cons s rest ih => exact ih (rs.step s).2

end Readers

/-! ## Any script -/

/-- A script with any steps, of which any may be refused, has the cursor given and those that are
split off it write on a field of a memory.  What the cursors have left and what they have written
are parts of the field that do not meet, so each byte is written once at most.  What was written is
there, and all else is as it was, outside the field above all.  The accounts tell what each further
step costs, and a refused one changes no byte.

Readers of a field have the same accounts, and each has left the bytes of a part of its own. -/
theorem writes_confined (memory : List UInt8) (field : Span) (steps : List WriteStep) :
    let start : Draft := ⟨memory, [field]⟩
    let d := Draft.ledger.after start steps
    let strokes := start.trail steps
    (Writing.ofScript false steps).run start = (.ok (), d) ∧
    field.Tiled (d.spans ++ strokes.map Stroke.span) ∧
    (∀ w ∈ strokes, w.span.cut d.byte = w.bytes) ∧
    (∀ i, (∀ w ∈ strokes, ¬ w.span.Covers i) → d.byte i = start.byte i) ∧
    (∀ i, ¬ field.Covers i → d.byte i = start.byte i) ∧
    (∀ s, Draft.ledger.Accounts d s ∧
      (d.room s.cursor < s.request.width → (d.step s).2.bytes = d.bytes)) ∧
    ∀ (bytes : List UInt8) (reads : List ReadStep),
      let rs := Readers.ledger.after [⟨bytes⟩] reads
      (Readers.run false reads [⟨bytes⟩]).2 = (.ok (), rs) ∧
      (∃ spans, (⟨0, bytes.length⟩ : Span).Tiled spans ∧
        rs = spans.map fun s => ⟨s.cut (bytes.getD · 0)⟩) ∧
      ∀ s, Readers.ledger.Accounts rs s := by
  intro start d strokes
  have hconfined : Draft.Confined field start d strokes := .after start rfl steps
  have htiled := hconfined.shares.tiled
  refine ⟨start.run_ofScript steps, htiled, fun w hw => ?_, hconfined.kept, fun i hi => ?_,
    fun s => ⟨d.accounts s, Draft.bytes_of_refused⟩, fun bytes reads => ?_⟩
  · exact Span.cut_eq rfl (hconfined.written w hw)
  · refine hconfined.kept i fun w hw hcovers => hi ?_
    exact htiled.within w.span (List.mem_append_right _ (List.mem_map_of_mem hw)) i hcovers
  · intro rs
    have hfirst : Readers.Confined ⟨0, bytes.length⟩ (bytes.getD · 0) [⟨bytes⟩] :=
      ⟨[⟨0, bytes.length⟩], fun i => Nat.le_refl _, by rw [List.map_singleton, Readers.cut_whole]⟩
    obtain ⟨spans, hshares, hrs⟩ := hfirst.after reads
    exact ⟨Readers.run_false _ reads, ⟨spans, hshares.tiled, hrs⟩, fun s => rs.accounts s⟩

/-- A part of three bytes that is written two of them has one left, and a refused write takes it. -/
theorem writes_confined_refusal :
    let start : Draft := ⟨[1, 2, 3, 4, 5, 6, 7, 8], [⟨2, 5⟩]⟩
    let d := Draft.ledger.after start [⟨0, .split 3⟩, ⟨1, .put [20, 30]⟩]
    let lacking : WriteStep := ⟨1, .put [40, 50]⟩
    let rs := Readers.ledger.after [⟨[1, 2, 3]⟩] [⟨0, .split 2⟩]
    d.byte 4 = 5 ∧ d.byte 7 = 8 ∧ (d.step lacking).1 = .error (.outOfRange 2 1) ∧
      (d.step lacking).2.bytes = d.bytes ∧
      (∀ later, ((Draft.ledger.after (d.step lacking).2 later).step ⟨1, .put [60]⟩).1 =
        .error (.outOfRange 1 0)) ∧
      (rs.step ⟨1, .take 3⟩).1 = .error (.outOfRange 3 2) := by
  intro start d lacking rs
  obtain ⟨-, -, -, hkept, houtside, haccounts, hreaders⟩ :=
    writes_confined [1, 2, 3, 4, 5, 6, 7, 8] ⟨2, 5⟩ [⟨0, .split 3⟩, ⟨1, .put [20, 30]⟩]
  obtain ⟨haccount, hbytes⟩ := haccounts lacking
  obtain ⟨-, -, hreads⟩ := hreaders [1, 2, 3] [⟨0, .split 2⟩]
  exact ⟨hkept 4 (by decide), houtside 7 (by decide), (haccount.refused (by decide)).1,
    hbytes (by decide),
    fun later => haccount.spent (by decide) (by decide) later ⟨1, .put [60]⟩ rfl (by decide),
    ((hreads ⟨1, .take 3⟩).refused (by decide)).1⟩

end BlockTable
