import BlockTable.Proofs.Cursor.Confinement

/-!
# Scripts that are granted

If every step of a script is granted, the place of a cursor depends on two things: the span that the
cursor was made with (`Draft.birth`), and the steps to this cursor (`Span.past`).  The steps to
other cursors in between do not matter (`Draft.Grants.span_after`).  So the place can be told from
the steps to the one cursor, in whatever order they come among the others.
-/

namespace BlockTable

/-- Whether the step makes a cursor. -/
def WriteStep.splits (s : WriteStep) : Bool :=
  match s.request with
  | .put _ => false
  | .split _ => true

namespace Span

/-- The span of the cursor that a request makes, if it makes one. -/
def parted (s : Span) : WriteRequest → List Span
  | .put _ => []
  | .split width => [s.front width]

theorem parted_of_not_splits {s : Span} {x : WriteStep} (h : x.splits = false) :
    s.parted x.request = [] := by
  obtain ⟨cursor, request⟩ := x
  cases request with
  | put bytes => rfl
  | split width => cases h

/-- What steps that are granted leave of a span. -/
def past (s : Span) (steps : List WriteStep) : Span :=
  steps.foldl (fun s x => s.behind x.request.width) s

theorem past_append (s : Span) (steps more : List WriteStep) :
    s.past (steps ++ more) = (s.past steps).past more := List.foldl_append

end Span

namespace Draft

variable {d : Draft} {s : WriteStep} {writes : List WriteStep} {c i : Nat}

/-! ## Single steps -/

/-- What a granted step does to the spans. -/
theorem spans_step (h : (d.step s).1 = .ok ()) : s.request.width ≤ d.room s.cursor ∧
    (d.step s).2.spans = d.spans.set s.cursor ((d.span s.cursor).behind s.request.width) ++
      (d.span s.cursor).parted s.request := by
  have hend := d.step_stepEnd s
  generalize d.step s = result at h hend ⊢
  cases hend with
  | wrote hrequest hfits =>
      rw [hrequest]
      exact ⟨hfits, (List.append_nil _).symm⟩
  | parted hrequest hfits =>
      rw [hrequest]
      exact ⟨hfits, rfl⟩
  | refused => cases h

theorem span_step_target (h : (d.step s).1 = .ok ()) (hc : s.cursor < d.spans.length) :
    (d.step s).2.span s.cursor = (d.span s.cursor).behind s.request.width :=
  Ledger.cursor_target (k := ledger) (spans_step h).2 hc

theorem span_step_other (h : (d.step s).1 = .ok ()) (hc : c < d.spans.length)
    (hne : c ≠ s.cursor) : (d.step s).2.span c = d.span c :=
  Ledger.cursor_other (k := ledger) (spans_step h).2 hc hne

theorem length_step (h : (d.step s).1 = .ok ()) : (d.step s).2.spans.length =
    d.spans.length + if s.splits then 1 else 0 := by
  rw [(spans_step h).2, List.length_append, List.length_set, WriteStep.splits]
  cases s.request <;> rfl

/-! ## Scripts -/

theorem after_take_succ (hs : writes[i]? = some s) :
    ledger.after d (writes.take (i + 1)) = ((ledger.after d (writes.take i)).step s).2 := by
  rw [List.take_add_one, hs, after_append]
  rfl

/-- Each step is to a cursor that has been made, and it is granted. -/
inductive Grants : Draft → List WriteStep → Prop
  | nil (d : Draft) : Grants d []
  | cons {d : Draft} {s : WriteStep} {rest : List WriteStep} (present : s.cursor < d.spans.length)
      (answer : (d.step s).1 = .ok ()) (later : Grants (d.step s).2 rest) : Grants d (s :: rest)

/-- The span that a cursor is made with. -/
def birth (c : Nat) : List WriteStep → Draft → Span
  | [], d => d.span c
  | s :: rest, d => if c < d.spans.length then d.span c else birth c rest (d.step s).2

theorem birth_of_lt (h : c < d.spans.length) : birth c writes d = d.span c := by
  cases writes with
  | nil => rfl
  | cons s rest => exact if_pos h

namespace Grants

/-- Each step is granted where it stands. -/
theorem at_step (h : Grants d writes) (hs : writes[i]? = some s) :
    s.cursor < (ledger.after d (writes.take i)).spans.length ∧
      ((ledger.after d (writes.take i)).step s).1 = .ok () := by
  induction h generalizing i with
  | nil => cases hs
  | cons present answer later ih =>
      cases i with
      | zero =>
          cases hs
          exact ⟨present, answer⟩
      | succ i => exact ih hs

/-- A script that is granted takes all its steps. -/
theorem run_ofScript (h : Grants d writes) (strict : Bool) :
    (Writing.ofScript strict writes).run d = (.ok (), ledger.after d writes) := by
  induction h with
  | nil => rfl
  | cons present answer later ih =>
      rw [Writing.ofScript, run_writing, answer]
      exact ih

/-- The log of a script that is granted. -/
theorem log_getElem? (h : Grants d writes) (strict : Bool) (hs : writes[i]? = some s) :
    (d.log strict writes)[i]? =
      some ⟨.ok (), (ledger.after d (writes.take (i + 1))).room s.cursor⟩ := by
  induction h generalizing i with
  | nil => cases hs
  | @cons d first rest present answer later ih =>
      have hlog : d.log strict (first :: rest) = ⟨.ok (), (d.step first).2.room first.cursor⟩ ::
          (d.step first).2.log strict rest := by
        rw [log]
        simp only [answer]
      rw [hlog]
      cases i with
      | zero =>
          cases hs
          rfl
      | succ i => exact ih hs

theorem length_after (h : Grants d writes) (i : Nat) :
    (ledger.after d (writes.take i)).spans.length =
      d.spans.length + (writes.take i).countP WriteStep.splits := by
  induction h generalizing i with
  | nil => rw [List.take_nil]; rfl
  | cons present answer later ih =>
      cases i with
      | zero => rfl
      | succ i =>
          rw [List.take_succ_cons, List.countP_cons]
          refine (ih i).trans ?_
          rw [length_step answer]
          omega

/-- Where a cursor stands.  The induction is on the script, up to the step at which the cursor is
made: the steps before it are to other cursors. -/
theorem span_after (h : Grants d writes) (i : Nat)
    (hc : c < (ledger.after d (writes.take i)).spans.length) :
    (ledger.after d (writes.take i)).span c =
      (birth c writes d).past ((writes.take i).filter fun s => s.cursor == c) := by
  induction h generalizing i with
  | nil => rw [List.take_nil]; rfl
  | @cons d s rest present answer later ih =>
      cases i with
      | zero => exact (birth_of_lt hc).symm
      | succ i =>
          have hlater := ih i hc
          rw [List.take_succ_cons, List.filter_cons]
          refine hlater.trans ?_
          by_cases hmade : c < d.spans.length
          · have hlasting : c < (d.step s).2.spans.length := by
              rw [length_step answer]
              exact Nat.lt_of_lt_of_le hmade (Nat.le_add_right ..)
            rw [birth_of_lt hmade, birth_of_lt hlasting]
            by_cases htarget : s.cursor = c
            · cases htarget
              rw [span_step_target answer hmade, if_pos (beq_self_eq_true _)]
              rfl
            · rw [span_step_other answer hmade (Ne.symm htarget), if_neg (by simpa using htarget)]
          · have hother : s.cursor ≠ c := fun htarget => hmade (htarget ▸ present)
            rw [birth, if_neg hmade, if_neg (by simpa using hother)]

/-- The span that the cursor of a split is made with. -/
theorem birth_made (h : Grants d writes) (hs : writes[i]? = some s) (hsplits : s.splits) :
    [birth (ledger.after d (writes.take i)).spans.length writes d] =
      ((ledger.after d (writes.take i)).span s.cursor).parted s.request := by
  induction h generalizing i with
  | nil => cases hs
  | @cons d first rest present answer later ih =>
      cases i with
      | zero =>
          cases hs
          have hlength := length_step answer
          rw [if_pos hsplits] at hlength
          have hlt : d.spans.length < (d.step s).2.spans.length := by omega
          change [birth d.spans.length (s :: rest) d] = _
          rw [birth, if_neg (Nat.lt_irrefl _), birth_of_lt hlt, span, (spans_step answer).2]
          cases hrequest : s.request with
          | put bytes =>
              rw [WriteStep.splits, hrequest] at hsplits
              cases hsplits
          | split width =>
              rw [Span.parted, List.getElem?_append_right (Nat.le_of_eq List.length_set),
                List.length_set, Nat.sub_self]
              rfl
      | succ i =>
          have hlength := later.length_after i
          rw [length_step answer] at hlength
          have hmade : ¬ (ledger.after (d.step first).2 (rest.take i)).spans.length <
              d.spans.length := by omega
          refine Eq.trans ?_ (ih hs)
          rw [birth, List.take_succ_cons]
          exact congrArg (fun s => [s]) (if_neg hmade)

/-- What a step wrote is there at the end. -/
theorem cut_written {field : Span} {bytes : List UInt8} (h : Grants d writes)
    (hspans : d.spans = [field]) (hs : writes[i]? = some s) (hrequest : s.request = .put bytes) :
    (((ledger.after d (writes.take i)).span s.cursor).front bytes.length).cut
      (ledger.after d writes).byte = bytes := by
  have hfits := (spans_step (h.at_step hs).2).1
  rw [hrequest] at hfits
  have hstroke : (⟨((ledger.after d (writes.take i)).span s.cursor).start, bytes⟩ : Stroke) ∈
      d.trail writes := by
    obtain ⟨hi, hget⟩ := List.getElem?_eq_some_iff.mp hs
    rw [← List.take_append_drop i writes, trail_append, List.take_append_drop i writes,
      List.drop_eq_getElem_cons hi, hget, trail, strokes_wrote hrequest hfits]
    simp
  exact Span.cut_eq rfl ((Confined.after d hspans writes).written _ hstroke)

end Grants

end Draft

end BlockTable
