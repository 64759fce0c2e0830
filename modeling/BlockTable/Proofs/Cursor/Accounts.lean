import BlockTable.Codec.Script
import BlockTable.Proofs.Codec.Window

/-!
# Accounts of cursors

What a step costs its cursor.  The account is the same for the cursors that write a draft and for
the readers, and it is stated once, of a `Ledger`.  A step takes its width off what its cursor has
left.  If the cursor has less, it has nothing from then on (`Ledger.Charges`).  No step touches
another cursor, so a cursor that was refused bytes is refused every byte after any further steps
(`Ledger.Accounts`).

`Draft.StepEnd` and `Readers.StepEnd` list the ends of a step, and later proofs take steps apart by
them.
-/

namespace BlockTable

/-! ## Ledgers -/

/-- Cursors of one kind, and the steps that are taken with them. -/
structure Ledger (σ ι γ α : Type) where
  /-- The cursors, by their numbers. -/
  cursors : σ → List γ
  /-- What a number stands for that no cursor has yet. -/
  absent : γ
  /-- How many bytes a cursor has left. -/
  left : γ → Nat
  /-- The number of the cursor that a step is to. -/
  target : ι → Nat
  /-- The number of bytes that a step asks for. -/
  width : ι → Nat
  /-- The answer to a step, and what there is after it. -/
  step : σ → ι → Except TableError α × σ
  left_absent : left absent = 0

namespace Ledger

variable {σ ι γ α : Type} (k : Ledger σ ι γ α)

/-- The number of cursors. -/
def count (x : σ) : Nat := (k.cursors x).length

/-- The cursor with a number. -/
def cursor (x : σ) (c : Nat) : γ := (k.cursors x)[c]?.getD k.absent

/-- How many bytes the cursor with a number has left. -/
def remaining (x : σ) (c : Nat) : Nat := k.left (k.cursor x c)

/-- What there is after a list of steps, also of those that are refused. -/
def after (x : σ) (steps : List ι) : σ := steps.foldl (fun x s => (k.step x s).2) x

/-- What a step costs, by its answer and what there is after it. -/
structure Charges (x : σ) (s : ι) (result : Except TableError α × σ) : Prop where
  /-- A step that fits is granted and paid. -/
  granted : k.width s ≤ k.remaining x (k.target s) → (∃ a, result.1 = .ok a) ∧
    k.remaining result.2 (k.target s) = k.remaining x (k.target s) - k.width s
  /-- A step that does not fit is refused, its cursor has nothing left, and no cursor is made. -/
  refused : k.remaining x (k.target s) < k.width s →
    result.1 = .error (.outOfRange (k.width s) (k.remaining x (k.target s))) ∧
    k.remaining result.2 (k.target s) = 0 ∧ k.count result.2 = k.count x
  /-- No other cursor is touched. -/
  others : ∀ c < k.count x, c ≠ k.target s → k.cursor result.2 c = k.cursor x c
  /-- No cursor is lost. -/
  lasting : k.count x ≤ k.count result.2

/-- What a step costs, then and later. -/
structure Accounts (x : σ) (s : ι) : Prop extends k.Charges x s (k.step x s) where
  /-- A cursor that was refused bytes is refused every byte after any further steps. -/
  spent : k.target s < k.count x → k.remaining x (k.target s) < k.width s →
    ∀ (later : List ι) (s' : ι), k.target s' = k.target s → 0 < k.width s' →
      (k.step (k.after (k.step x s).2 later) s').1 = .error (.outOfRange (k.width s') 0)

variable {k} {x x' : σ} {s : ι} {c : Nat} {result : Except TableError α × σ}

theorem remaining_of_count_le (h : k.count x ≤ c) : k.remaining x c = 0 := by
  rw [remaining, cursor, List.getElem?_eq_none h]
  exact k.left_absent

/-! ### One step -/

section changed

variable {y : γ} {made : List γ}

theorem cursor_target (h : k.cursors x' = (k.cursors x).set c y ++ made) (hc : c < k.count x) :
    k.cursor x' c = y := by
  have hset : c < ((k.cursors x).set c y).length := by rwa [List.length_set]
  rw [cursor, h, List.getElem?_append_left hset, List.getElem?_set_self hc, Option.getD_some]

theorem cursor_other {other : Nat} (h : k.cursors x' = (k.cursors x).set c y ++ made)
    (hother : other < k.count x) (hne : other ≠ c) : k.cursor x' other = k.cursor x other := by
  have hset : other < ((k.cursors x).set c y).length := by rwa [List.length_set]
  rw [cursor, cursor, h, List.getElem?_append_left hset, List.getElem?_set_ne hne.symm]

theorem count_changed (h : k.cursors x' = (k.cursors x).set c y ++ made) :
    k.count x' = k.count x + made.length := by
  rw [count, h, List.length_append, List.length_set, count]

/-- A step that fits may make cursors of the bytes that it takes.  It costs nothing to ask for no
byte with a number that no cursor has, and then the new cursors have none either. -/
theorem charges_granted {a : α} (hfits : k.width s ≤ k.remaining x (k.target s))
    (hanswer : result.1 = .ok a)
    (hcursors : k.cursors result.2 = (k.cursors x).set (k.target s) y ++ made)
    (hy : k.left y = k.remaining x (k.target s) - k.width s)
    (hmade : ∀ z ∈ made, k.left z = k.width s) : k.Charges x s result := by
  refine ⟨fun _ => ⟨⟨a, hanswer⟩, ?_⟩, fun hlacks => absurd hfits (Nat.not_le.mpr hlacks),
    fun other hother hne => cursor_other hcursors hother hne, ?_⟩
  · rcases Nat.lt_or_ge (k.target s) (k.count x) with hlt | hge
    · rw [remaining, cursor_target hcursors hlt, hy]
    · have hzero := remaining_of_count_le hge
      rw [hzero, Nat.le_zero] at hfits
      have hset : ((k.cursors x).set (k.target s) y).length ≤ k.target s := by
        rwa [List.length_set]
      rw [hzero, Nat.zero_sub, remaining, cursor, hcursors, List.getElem?_append_right hset]
      cases hz : made[k.target s - ((k.cursors x).set (k.target s) y).length]? with
      | none => exact k.left_absent
      | some z => exact (hmade z (List.mem_of_getElem? hz)).trans hfits
  · rw [count_changed hcursors]
    exact Nat.le_add_right ..

theorem charges_refused (hlacks : k.remaining x (k.target s) < k.width s)
    (hanswer : result.1 = .error (.outOfRange (k.width s) (k.remaining x (k.target s))))
    (hcursors : k.cursors result.2 = (k.cursors x).set (k.target s) y) (hy : k.left y = 0) :
    k.Charges x s result := by
  have happend : k.cursors result.2 = (k.cursors x).set (k.target s) y ++ [] :=
    hcursors.trans (List.append_nil _).symm
  have hcount : k.count result.2 = k.count x := count_changed happend
  refine ⟨fun hfits => absurd hlacks (Nat.not_lt.mpr hfits), fun _ => ⟨hanswer, ?_, hcount⟩,
    fun other hother hne => cursor_other happend hother hne, Nat.le_of_eq hcount.symm⟩
  rcases Nat.lt_or_ge (k.target s) (k.count x) with hlt | hge
  · rw [remaining, cursor_target happend hlt, hy]
  · exact remaining_of_count_le (hcount ▸ hge)

end changed

/-! ### Further steps -/

/-- A cursor never gets more. -/
theorem Charges.remaining_le (h : k.Charges x s result) (hc : c < k.count x) :
    k.remaining result.2 c ≤ k.remaining x c := by
  by_cases htarget : c = k.target s
  · rw [htarget]
    by_cases hfits : k.width s ≤ k.remaining x (k.target s)
    · rw [(h.granted hfits).2]
      exact Nat.sub_le ..
    · rw [(h.refused (Nat.lt_of_not_le hfits)).2.1]
      exact Nat.zero_le _
  · exact Nat.le_of_eq (congrArg k.left (h.others c hc htarget))

/-- The induction is on the further steps. -/
theorem remaining_after (hk : ∀ x s, k.Charges x s (k.step x s)) (hc : c < k.count x)
    (hzero : k.remaining x c = 0) (later : List ι) : k.remaining (k.after x later) c = 0 := by
  induction later generalizing x with
  | nil => exact hzero
  | cons s rest ih =>
      have hle := (hk x s).remaining_le hc
      rw [hzero] at hle
      exact ih (Nat.lt_of_lt_of_le hc (hk x s).lasting) (Nat.le_zero.mp hle)

/-- If every step is charged, a refusal lasts. -/
theorem accounts (hk : ∀ x s, k.Charges x s (k.step x s)) (x : σ) (s : ι) : k.Accounts x s where
  toCharges := hk x s
  spent hc hlacks later s' htarget hwidth := by
    obtain ⟨-, hzero, hcount⟩ := (hk x s).refused hlacks
    have hlater : k.remaining (k.after (k.step x s).2 later) (k.target s') = 0 := by
      rw [htarget]
      exact remaining_after hk (hcount ▸ hc) hzero later
    have hanswer := ((hk _ s').refused (hlater ▸ hwidth)).1
    rwa [hlater] at hanswer

end Ledger

/-! ## Writers -/

/-- The number of bytes that a request asks for. -/
def WriteRequest.width : WriteRequest → Nat
  | .put bytes => bytes.length
  | .split width => width

/-- The next bytes of a span. -/
def Span.front (s : Span) (width : Nat) : Span := ⟨s.start, width⟩

/-- What a span has behind its next bytes. -/
def Span.behind (s : Span) (width : Nat) : Span := ⟨s.start + width, s.room - width⟩

namespace Draft

/-- The cursors that write. -/
def ledger : Ledger Draft WriteStep Span Unit where
  cursors := spans
  absent := ⟨0, 0⟩
  left := Span.room
  target := WriteStep.cursor
  width s := s.request.width
  step := step
  left_absent := rfl

/-- The ends of a step. -/
inductive StepEnd (d : Draft) (s : WriteStep) : Except TableError Unit × Draft → Prop where
  | wrote {bytes : List UInt8} (request : s.request = .put bytes)
      (fits : bytes.length ≤ d.room s.cursor) :
      StepEnd d s (.ok (), ⟨overlay (d.span s.cursor).start bytes d.bytes,
        d.spans.set s.cursor ((d.span s.cursor).behind bytes.length)⟩)
  | parted {width : Nat} (request : s.request = .split width) (fits : width ≤ d.room s.cursor) :
      StepEnd d s (.ok (), ⟨d.bytes, d.spans.set s.cursor ((d.span s.cursor).behind width) ++
        [(d.span s.cursor).front width]⟩)
  | refused (lacks : d.room s.cursor < s.request.width) :
      StepEnd d s (.error (.outOfRange s.request.width (d.room s.cursor)),
        { d with spans := d.spans.set s.cursor ((d.span s.cursor).front 0) })

variable {d : Draft} {s : WriteStep} {result : Except TableError Unit × Draft}

theorem reserve_of_le {cursor width : Nat} (h : width ≤ d.room cursor) :
    d.reserve cursor width = (.ok (d.span cursor).start,
      { d with spans := d.spans.set cursor ((d.span cursor).behind width) }) := if_pos h

theorem reserve_of_lt {cursor width : Nat} (h : d.room cursor < width) :
    d.reserve cursor width = (.error (.outOfRange width (d.room cursor)),
      { d with spans := d.spans.set cursor ((d.span cursor).front 0) }) := if_neg (Nat.not_le.mpr h)

theorem step_stepEnd (d : Draft) (s : WriteStep) : d.StepEnd s (d.step s) := by
  obtain ⟨cursor, request⟩ := s
  cases request with
  | put bytes =>
      show d.StepEnd _ (d.put cursor bytes)
      rw [put]
      rcases Nat.lt_or_ge (d.room cursor) bytes.length with hlt | hle
      · rw [reserve_of_lt hlt]
        exact .refused hlt
      · rw [reserve_of_le hle]
        exact .wrote rfl hle
  | split width =>
      show d.StepEnd _ (d.split cursor width)
      rw [split]
      rcases Nat.lt_or_ge (d.room cursor) width with hlt | hle
      · rw [reserve_of_lt hlt]
        exact .refused hlt
      · rw [reserve_of_le hle]
        exact .parted rfl hle

theorem StepEnd.charges (h : d.StepEnd s result) : ledger.Charges d s result := by
  cases h with
  | @wrote bytes hrequest hfits =>
      have hwidth : ledger.width s = bytes.length := congrArg WriteRequest.width hrequest
      refine Ledger.charges_granted (hwidth ▸ hfits) rfl (List.append_nil _).symm ?_ ?_
      · rw [hwidth]
        rfl
      · simp
  | @parted width hrequest hfits =>
      have hwidth : ledger.width s = width := congrArg WriteRequest.width hrequest
      refine Ledger.charges_granted (hwidth ▸ hfits) rfl rfl ?_ fun z hz => ?_
      · rw [hwidth]
        rfl
      · rw [List.mem_singleton.mp hz, hwidth]
        rfl
  | refused hlacks => exact Ledger.charges_refused hlacks rfl rfl rfl

/-- What a step on a draft costs. -/
theorem accounts (d : Draft) (s : WriteStep) : ledger.Accounts d s :=
  Ledger.accounts (fun d s => (d.step_stepEnd s).charges) d s

/-- A step that is refused changes no byte. -/
theorem bytes_of_refused (h : d.room s.cursor < s.request.width) :
    (d.step s).2.bytes = d.bytes := by
  have hend := d.step_stepEnd s
  generalize d.step s = result at hend
  cases hend with
  | wrote hrequest hfits =>
      rw [hrequest] at h
      exact absurd hfits (Nat.not_le.mpr h)
  | parted => rfl
  | refused => rfl

end Draft

/-! ## Readers -/

/-- The number of bytes that a request asks for. -/
def ReadRequest.width : ReadRequest → Nat
  | .take width | .split width => width

namespace Readers

/-- The cursors that read. -/
def ledger : Ledger Readers ReadStep Reader (List UInt8) where
  cursors := id
  absent := ⟨[]⟩
  left := Reader.remaining
  target := ReadStep.cursor
  width s := s.request.width
  step := step
  left_absent := rfl

/-- The ends of a step. -/
inductive StepEnd (rs : Readers) (s : ReadStep) :
    Except TableError (List UInt8) × Readers → Prop where
  | took {width : Nat} (request : s.request = .take width)
      (fits : width ≤ (rs.reader s.cursor).remaining) :
      StepEnd rs s (.ok ((rs.reader s.cursor).left.take width),
        rs.set s.cursor ⟨(rs.reader s.cursor).left.drop width⟩)
  | parted {width : Nat} (request : s.request = .split width)
      (fits : width ≤ (rs.reader s.cursor).remaining) :
      StepEnd rs s (.ok [], rs.set s.cursor ⟨(rs.reader s.cursor).left.drop width⟩ ++
        [⟨(rs.reader s.cursor).left.take width⟩])
  | refused (lacks : (rs.reader s.cursor).remaining < s.request.width) :
      StepEnd rs s (.error (.outOfRange s.request.width (rs.reader s.cursor).remaining),
        rs.set s.cursor ⟨[]⟩)

variable {rs : Readers} {s : ReadStep} {result : Except TableError (List UInt8) × Readers}

theorem step_stepEnd (rs : Readers) (s : ReadStep) : rs.StepEnd s (rs.step s) := by
  obtain ⟨cursor, request⟩ := s
  cases request with
  | take width =>
      rcases Nat.lt_or_ge (rs.reader cursor).remaining width with hlt | hle
      · simp only [step, Reader.take_of_lt hlt]
        exact .refused hlt
      · simp only [step, Reader.take_of_le hle]
        exact .took rfl hle
  | split width =>
      rcases Nat.lt_or_ge (rs.reader cursor).remaining width with hlt | hle
      · simp only [step, Reader.split, Reader.take_of_lt hlt]
        exact .refused hlt
      · simp only [step, Reader.split, Reader.take_of_le hle]
        exact .parted rfl hle

theorem StepEnd.charges (h : rs.StepEnd s result) : ledger.Charges rs s result := by
  cases h with
  | @took width hrequest hfits =>
      have hwidth : ledger.width s = width := congrArg ReadRequest.width hrequest
      refine Ledger.charges_granted (hwidth ▸ hfits) rfl (List.append_nil _).symm ?_ ?_
      · rw [hwidth]
        exact List.length_drop
      · simp
  | @parted width hrequest hfits =>
      have hwidth : ledger.width s = width := congrArg ReadRequest.width hrequest
      refine Ledger.charges_granted (hwidth ▸ hfits) rfl rfl ?_ fun z hz => ?_
      · rw [hwidth]
        exact List.length_drop
      · rw [List.mem_singleton.mp hz, hwidth]
        exact List.length_take_of_le hfits
  | refused hlacks => exact Ledger.charges_refused hlacks rfl rfl rfl

/-- What a step of readers costs. -/
theorem accounts (rs : Readers) (s : ReadStep) : ledger.Accounts rs s :=
  Ledger.accounts (fun rs s => (rs.step_stepEnd s).charges) rs s

end Readers

end BlockTable
