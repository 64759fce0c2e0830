import BlockTable.Proofs.Cursor.Granted
import Mathlib.Data.List.Forall2
import Mathlib.Data.List.Sigma

/-!
# Reading mirrors writing

A script for writing that is granted is read back by the script that takes what it wrote and splits
where it split.  The steps may come in any order in which each cursor has its own steps in their
order and is used only once it has been made (`Reordering`).

A reordering changes the numbers of the cursors, because a cursor is numbered when it is made.  The
steps keep their places in the script for writing, and a place tells the number that the writer gave
(`numbered`).  The reader's number is where that one stands among those made so far (`mirrored`).

The invariant is `Traced`: each reader has left the bytes of the span that the writer's cursor of
this name had behind the same steps to it.  That span depends on these steps alone
(`Draft.Grants.span_after`), so it is the one that the next step to the cursor was granted on.
-/

namespace BlockTable

/-! ## The script for reading -/

/-- The request that reads back what a request writes. -/
def WriteRequest.mirror : WriteRequest → ReadRequest
  | .put bytes => .take bytes.length
  | .split width => .split width

/-- The bytes that a request writes. -/
def WriteRequest.bytes : WriteRequest → List UInt8
  | .put bytes => bytes
  | .split _ => []

namespace Mirroring

/-- The steps to a cursor, of steps with their places. -/
def toCursor (cursor : Nat) (order : List (WriteStep × Nat)) : List (WriteStep × Nat) :=
  order.filter fun x => x.1.cursor == cursor

/-- The writer's number of the cursor that a step makes, if it makes one. -/
def numbered (writes : List WriteStep) (x : WriteStep × Nat) : List Nat :=
  if x.1.splits then [1 + (writes.take x.2).countP WriteStep.splits] else []

/-- The writer's numbers of the cursors that steps have made, in the order in which they have made
them. -/
def known (writes : List WriteStep) (order : List (WriteStep × Nat)) : List Nat :=
  0 :: order.flatMap (numbered writes)

/-- The steps of a script, with their places in it, in another order. -/
structure Reordering (writes : List WriteStep) (order : List (WriteStep × Nat)) : Prop where
  /-- Each cursor has its own steps, in their order. -/
  onEach : ∀ cursor, toCursor cursor order = toCursor cursor writes.zipIdx
  /-- A cursor has been made before it is used. -/
  made : ∀ i (h : i < order.length), (order[i]).1.cursor ∈ known writes (order.take i)

/-- The script that reads back what steps write, in their order.  The cursors made so far are given
by the writer's numbers. -/
def mirrored (writes : List WriteStep) : List Nat → List (WriteStep × Nat) → List ReadStep
  | _, [] => []
  | cursors, x :: rest =>
      ⟨cursors.idxOf x.1.cursor, x.1.request.mirror⟩ ::
        mirrored writes (cursors ++ numbered writes x) rest

/-! ## Reorderings -/

section

variable {writes : List WriteStep} {order before rest : List (WriteStep × Nat)}
  {x : WriteStep × Nat} {c : Nat}

theorem known_append (before more : List (WriteStep × Nat)) :
    known writes (before ++ more) = known writes before ++ more.flatMap (numbered writes) := by
  rw [known, List.flatMap_append]
  rfl

theorem known_concat (before : List (WriteStep × Nat)) (x : WriteStep × Nat) :
    known writes (before ++ [x]) = known writes before ++ numbered writes x := by
  rw [known_append, List.flatMap_singleton]

/-- The writer numbers the cursors in the order in which it makes them. -/
theorem known_take_zipIdx (writes : List WriteStep) (i : Nat) :
    known writes (writes.zipIdx.take i) =
      List.range (1 + (writes.take i).countP WriteStep.splits) := by
  induction i with
  | zero => rfl
  | succ i ih =>
      rw [List.take_add_one, known_append, ih, List.take_add_one, List.countP_append,
        List.getElem?_zipIdx, Nat.zero_add]
      cases writes[i]? with
      | none => simp
      | some s =>
          cases hsplits : s.splits with
          | false => simp [numbered, hsplits]
          | true => simp [numbered, hsplits, ← Nat.add_assoc, List.range_succ]

theorem zipIdx_split {i : Nat} {s : WriteStep} (hs : writes[i]? = some s) :
    writes.zipIdx = writes.zipIdx.take i ++ (s, i) :: writes.zipIdx.drop (i + 1) := by
  have hplaced : writes.zipIdx[i]? = some (s, i) := by
    rw [List.getElem?_zipIdx, hs, Nat.zero_add]
    rfl
  obtain ⟨hlt, hget⟩ := List.getElem?_eq_some_iff.mp hplaced
  rw [← hget, ← List.drop_eq_getElem_cons hlt, List.take_append_drop]

namespace Reordering

theorem perm (h : Reordering writes order) : order.Perm writes.zipIdx := by
  rw [List.perm_iff_count]
  intro x
  have hcount := congrArg (List.count x) (h.onEach x.1.cursor)
  rwa [toCursor, toCursor, List.count_filter (by simp), List.count_filter (by simp)] at hcount

theorem nodup (h : Reordering writes order) : order.Nodup :=
  h.perm.nodup_iff.mpr (.of_map Prod.snd (List.nodup_zipIdx_map_snd writes))

/-- No two cursors have the same number. -/
theorem nodup_known (h : Reordering writes (before ++ rest)) : (known writes before).Nodup := by
  have hperm : (known writes (before ++ rest)).Perm (known writes writes.zipIdx) :=
    (h.perm.flatMap_right (numbered writes)).cons 0
  have hall := known_take_zipIdx writes writes.zipIdx.length
  rw [List.take_length] at hall
  rw [hall, known_append] at hperm
  exact (hperm.nodup_iff.mpr List.nodup_range).of_append_left

theorem mem_known (h : Reordering writes (before ++ x :: rest)) :
    x.1.cursor ∈ known writes before := by
  have hmade := h.made before.length (by simp)
  simpa using hmade

theorem mem_known_of_mem (h : Reordering writes (before ++ rest)) (hx : x ∈ before) :
    x.1.cursor ∈ known writes before := by
  obtain ⟨ahead, behind, rfl⟩ := List.append_of_mem hx
  rw [List.append_assoc, List.cons_append] at h
  rw [known_append]
  exact List.mem_append_left _ h.mem_known

theorem getElem?_place (h : Reordering writes (before ++ x :: rest)) :
    writes[x.2]? = some x.1 :=
  List.mem_zipIdx_iff_getElem?.mp (h.perm.mem_iff.mp (by simp))

/-- The steps that a cursor has had before one of its steps are those that it had there in the
script. -/
theorem toCursor_before (h : Reordering writes (before ++ x :: rest)) :
    (toCursor x.1.cursor before).map Prod.fst =
      (writes.take x.2).filter fun s => s.cursor == x.1.cursor := by
  -- The step is in the order once and in the script once, so what is ahead of it is the same.
  have hnot : x ∉ before ++ rest := (List.nodup_cons.mp (List.nodup_middle.mp h.nodup)).1
  have hbefore : x ∉ toCursor x.1.cursor before := fun hx =>
    hnot (List.mem_append_left _ (List.mem_of_mem_filter hx))
  have hrest : x ∉ toCursor x.1.cursor rest := fun hx =>
    hnot (List.mem_append_right _ (List.mem_of_mem_filter hx))
  have heach := h.onEach x.1.cursor
  rw [zipIdx_split h.getElem?_place, toCursor, toCursor, List.filter_append, List.filter_append,
    List.filter_cons_of_pos (by simp), List.filter_cons_of_pos (by simp)] at heach
  obtain ⟨hsame, -⟩ := (List.append_cons_inj_of_notMem hbefore hrest).mp heach
  have hsteps : (writes.zipIdx.take x.2).map Prod.fst = writes.take x.2 := by
    rw [List.map_take, List.zipIdx_map_fst]
  rw [hsame, ← hsteps, List.filter_map]
  rfl

/-- A cursor that is made has had no step. -/
theorem toCursor_made (h : Reordering writes (before ++ x :: rest)) (hc : c ∈ numbered writes x) :
    toCursor c (before ++ [x]) = [] := by
  have hall : Reordering writes ((before ++ [x]) ++ rest) := by rwa [List.append_assoc]
  have hnodup := hall.nodup_known
  rw [known_concat] at hnodup
  refine List.filter_eq_nil_iff.mpr fun y hy hcursor => ?_
  have hknown : y.1.cursor ∈ known writes before := by
    cases List.mem_append.mp hy with
    | inl hmem => exact h.mem_known_of_mem hmem
    | inr hlast =>
        cases List.mem_singleton.mp hlast
        exact h.mem_known
  rw [eq_of_beq hcursor] at hknown
  exact List.disjoint_of_nodup_append hnodup hknown hc

end Reordering

end

end Mirroring

/-! ## Single steps -/

/-- What each reader has after a change to the one of a name. -/
theorem map_set_idxOf {α : Type} {names : List Nat} {f g : Nat → α} {c : Nat} {y : α}
    (hnodup : names.Nodup) (hc : c ∈ names) (hy : g c = y)
    (hsame : ∀ c' ∈ names, c' ≠ c → g c' = f c') :
    (names.map f).set (names.idxOf c) y = names.map g := by
  induction names with
  | nil => cases hc
  | cons first rest ih =>
      obtain ⟨hfirst, hrest⟩ := List.nodup_cons.mp hnodup
      by_cases heq : first = c
      · cases heq
        rw [List.idxOf_cons_self, List.map_cons, List.set_cons_zero, List.map_cons, hy]
        congr 1
        refine List.map_congr_left fun c' hc' => (hsame c' (.tail _ hc') ?_).symm
        exact fun heq => hfirst (heq ▸ hc')
      · have hlater : c ∈ rest := (List.mem_cons.mp hc).resolve_left (Ne.symm heq)
        rw [List.idxOf_cons_ne _ heq, List.map_cons, List.set_cons_succ, List.map_cons,
          hsame first (.head _) heq,
          ih hrest hlater fun c' hc' => hsame c' (.tail _ hc')]

section

variable {memory : Nat → UInt8} {rs : Readers} {s : Span} {c width : Nat}

/-- What a reader takes that has a span left. -/
theorem Reader.take_span (h : width ≤ s.room) : (⟨s.cut memory⟩ : Reader).take width =
    (.ok ((s.front width).cut memory), ⟨(s.behind width).cut memory⟩) := by
  have hleft : width ≤ (⟨s.cut memory⟩ : Reader).remaining :=
    Nat.le_trans h (Nat.le_of_eq Span.length_cut.symm)
  rw [take_of_le hleft, Span.drop_cut, Span.take_cut h]

/-- A step that asks for the bytes of a request which was granted on the same span reads them. -/
theorem Readers.step_mirror {request : WriteRequest} (hreader : rs.reader c = ⟨s.cut memory⟩)
    (hfits : request.width ≤ s.room)
    (hbytes : ∀ bytes, request = .put bytes → (s.front bytes.length).cut memory = bytes) :
    rs.step ⟨c, request.mirror⟩ = (.ok request.bytes,
      rs.set c ⟨(s.behind request.width).cut memory⟩ ++
        (s.parted request).map fun s => ⟨s.cut memory⟩) := by
  cases request with
  | put bytes =>
      have htake : (⟨s.cut memory⟩ : Reader).take bytes.length = _ := Reader.take_span hfits
      simp only [step, WriteRequest.mirror, hreader, htake, hbytes bytes rfl]
      exact congrArg (Prod.mk _) (List.append_nil _).symm
  | split width =>
      have htake : (⟨s.cut memory⟩ : Reader).take width = _ := Reader.take_span hfits
      simp only [step, WriteRequest.mirror, hreader, Reader.split, htake]
      rfl

theorem Readers.run_of_ok (strict : Bool) {step : ReadStep} {rest : List ReadStep}
    {bytes : List UInt8} (h : (rs.step step).1 = .ok bytes) :
    run strict (step :: rest) rs =
      (⟨.ok bytes, ((rs.step step).2.reader step.cursor).remaining⟩ ::
        (run strict rest (rs.step step).2).1, (run strict rest (rs.step step).2).2) := by
  rw [run]
  simp only [h]

end

/-! ## Scripts -/

namespace Mirroring

/-- The span that a cursor has behind the steps to it among those taken. -/
def place (start : Draft) (writes : List WriteStep) (before : List (WriteStep × Nat)) (c : Nat) :
    Span :=
  (Draft.birth c writes start).past ((toCursor c before).map Prod.fst)

/-- What holds of the readers after some of the steps. -/
def Traced (start : Draft) (writes : List WriteStep) (before : List (WriteStep × Nat))
    (memory : Nat → UInt8) (rs : Readers) : Prop :=
  rs = (known writes before).map fun c => ⟨(place start writes before c).cut memory⟩

/-- What a line of the log for reading says about the step that it mirrors, next to the log for
writing. -/
structure Mirrors (log : List (LogLine Unit)) (x : WriteStep × Nat) (line : LogLine (List UInt8)) :
    Prop where
  /-- The bytes that were written are read. -/
  answer : line.answer = .ok x.1.request.bytes
  /-- The cursor has as many bytes left. -/
  left : log[x.2]? = some ⟨.ok (), line.left⟩
  /-- A number that was written is read. -/
  value : ∀ width n, n < 1 <<< (8 * width) →
    x.1.request = .put (LittleEndian.encode width n) →
    line.answer.map LittleEndian.decode = .ok n

section

variable {field : Span} {start : Draft} {writes : List WriteStep}
  {before rest : List (WriteStep × Nat)} {x : WriteStep × Nat} {c : Nat} {rs : Readers}

/-- The next step to a cursor finds it where the writer's step found it. -/
theorem place_target (hgrants : start.Grants writes)
    (horder : Reordering writes (before ++ x :: rest)) :
    place start writes before x.1.cursor =
      (Draft.ledger.after start (writes.take x.2)).span x.1.cursor := by
  have hpresent := (hgrants.at_step horder.getElem?_place).1
  rw [hgrants.span_after x.2 hpresent, place, horder.toCursor_before]

theorem place_concat_target : place start writes (before ++ [x]) x.1.cursor =
    (place start writes before x.1.cursor).behind x.1.request.width := by
  rw [place, toCursor, List.filter_append, List.filter_cons_of_pos (by simp), List.map_append,
    Span.past_append]
  rfl

theorem place_concat_other (hne : c ≠ x.1.cursor) :
    place start writes (before ++ [x]) c = place start writes before c := by
  rw [place, toCursor, List.filter_append, List.filter_cons_of_neg (by simpa using hne.symm),
    List.filter_nil, List.append_nil]
  rfl

/-- A cursor that is made has the span that the writer made it with. -/
theorem map_place_numbered (hgrants : start.Grants writes) (hcount : start.spans.length = 1)
    (horder : Reordering writes (before ++ x :: rest)) :
    (numbered writes x).map (place start writes (before ++ [x])) =
      (place start writes before x.1.cursor).parted x.1.request := by
  rw [place_target hgrants horder]
  cases hsplits : x.1.splits with
  | false =>
      rw [numbered, hsplits, Span.parted_of_not_splits hsplits]
      rfl
  | true =>
      have hnumber := hgrants.length_after x.2
      rw [hcount] at hnumber
      rw [← hgrants.birth_made horder.getElem?_place hsplits, hnumber]
      have hnumbered : numbered writes x = [1 + (writes.take x.2).countP WriteStep.splits] :=
        if_pos hsplits
      have hmem : 1 + (writes.take x.2).countP WriteStep.splits ∈ numbered writes x := by
        rw [hnumbered]
        exact .head []
      rw [hnumbered, List.map_singleton, place, horder.toCursor_made hmem]
      rfl

theorem Traced.reader_idxOf {memory : Nat → UInt8} (h : Traced start writes before memory rs)
    (hc : c ∈ known writes before) :
    rs.reader ((known writes before).idxOf c) = ⟨(place start writes before c).cut memory⟩ := by
  rw [h, Readers.reader, List.getElem?_map, List.getElem?_idxOf hc]
  rfl

/-- What is read changes in the one reader, and a cursor that is made gets the bytes of its span. -/
theorem Traced.concat {memory : Nat → UInt8} (hgrants : start.Grants writes)
    (hcount : start.spans.length = 1) (horder : Reordering writes (before ++ x :: rest))
    (h : Traced start writes before memory rs) :
    Traced start writes (before ++ [x]) memory
      (rs.set ((known writes before).idxOf x.1.cursor)
          ⟨((place start writes before x.1.cursor).behind x.1.request.width).cut memory⟩ ++
        ((place start writes before x.1.cursor).parted x.1.request).map
          fun s => ⟨s.cut memory⟩) := by
  rw [Traced, known_concat, List.map_append]
  -- The readers made before, of which one has read on, and the one that is made now, if any.
  refine congrArg₂ (· ++ ·) ?_ ?_
  · rw [h, ← place_concat_target]
    refine map_set_idxOf horder.nodup_known horder.mem_known rfl fun c' _ hne => ?_
    rw [place_concat_other hne]
  · rw [← map_place_numbered hgrants hcount horder, List.map_map]
    rfl

/-- One step. -/
theorem Traced.step (hgrants : start.Grants writes) (hspans : start.spans = [field])
    (horder : Reordering writes (before ++ x :: rest))
    (h : Traced start writes before (Draft.ledger.after start writes).byte rs) :
    let cursor := (known writes before).idxOf x.1.cursor
    let result := rs.step ⟨cursor, x.1.request.mirror⟩
    result.1 = .ok x.1.request.bytes ∧
    Traced start writes (before ++ [x]) (Draft.ledger.after start writes).byte result.2 ∧
    (result.2.reader cursor).remaining =
      (Draft.ledger.after start (writes.take (x.2 + 1))).room x.1.cursor := by
  intro cursor result
  obtain ⟨hpresent, hanswer⟩ := hgrants.at_step horder.getElem?_place
  have htarget := place_target hgrants horder
  have hfits : x.1.request.width ≤ (place start writes before x.1.cursor).room := by
    rw [htarget]
    exact (Draft.spans_step hanswer).1
  have hstep := Readers.step_mirror (h.reader_idxOf horder.mem_known) hfits
    fun bytes hrequest => by
      rw [htarget]
      exact hgrants.cut_written hspans horder.getElem?_place hrequest
  have hresult : result = _ := hstep
  have htraced := h.concat hgrants (hspans ▸ rfl) horder
  have hknown : x.1.cursor ∈ known writes (before ++ [x]) := by
    rw [known_concat]
    exact List.mem_append_left _ horder.mem_known
  have hcursor : cursor = (known writes (before ++ [x])).idxOf x.1.cursor := by
    rw [known_concat, List.idxOf_append_of_mem horder.mem_known]
  rw [hresult]
  refine ⟨rfl, htraced, ?_⟩
  rw [hcursor, htraced.reader_idxOf hknown, Reader.remaining, Span.length_cut,
    place_concat_target, htarget, Draft.after_take_succ horder.getElem?_place, Draft.room,
    Draft.span_step_target hanswer hpresent]

/-- The induction is on the steps that are left. -/
theorem Traced.run (strict : Bool) (hgrants : start.Grants writes) (hspans : start.spans = [field])
    (horder : Reordering writes (before ++ rest))
    (h : Traced start writes before (Draft.ledger.after start writes).byte rs) :
    (Readers.run strict (mirrored writes (known writes before) rest) rs).2.1 = .ok () ∧
    List.Forall₂ (Mirrors (start.log strict writes)) rest
      (Readers.run strict (mirrored writes (known writes before) rest) rs).1 := by
  induction rest generalizing before rs with
  | nil => exact ⟨rfl, .nil⟩
  | cons x rest ih =>
      obtain ⟨hanswer, htraced, hleft⟩ := h.step hgrants hspans horder
      have hlog := hgrants.log_getElem? strict horder.getElem?_place
      rw [← hleft] at hlog
      have hrest : Reordering writes ((before ++ [x]) ++ rest) := by rwa [List.append_assoc]
      obtain ⟨hresult, hlines⟩ := ih hrest htraced
      rw [known_concat] at hresult hlines
      rw [mirrored, Readers.run_of_ok strict hanswer]
      refine ⟨hresult, .cons ⟨rfl, hlog, fun width n hn hrequest => ?_⟩ hlines⟩
      rw [hrequest]
      exact congrArg Except.ok (LittleEndian.decode_encode hn)

theorem traced_start (hspans : start.spans = [field]) (memory : Nat → UInt8) :
    Traced start writes [] memory [⟨field.cut memory⟩] := by
  have hbirth : Draft.birth 0 writes start = field := by
    have hfirst : 0 < start.spans.length := by
      rw [hspans]
      exact Nat.zero_lt_one
    rw [Draft.birth_of_lt hfirst, Draft.span, hspans]
    rfl
  have hplace : place start writes [] 0 = field := hbirth
  rw [Traced, known, List.flatMap_nil, List.map_singleton, hplace]

end

/-- Every step of a script with a field of a memory is granted.  Its steps are taken again, to read
the field back, in any order in which each cursor has its own steps in their order and is used once
it has been made.  Then every step is granted again.  Each reads what its counterpart has written,
bit for bit, and leaves its cursor as many bytes. -/
theorem reads_mirror_writes {memory : List UInt8} {field : Span} {writes : List WriteStep}
    {order : List (WriteStep × Nat)} (strict : Bool)
    (hgrants : Draft.Grants ⟨memory, [field]⟩ writes) (horder : Reordering writes order) :
    let start : Draft := ⟨memory, [field]⟩
    let written := Draft.ledger.after start writes
    let reading := Readers.run strict (mirrored writes [0] order) [⟨field.cut written.byte⟩]
    (Writing.ofScript strict writes).run start = (.ok (), written) ∧
    order.Perm writes.zipIdx ∧
    reading.2.1 = .ok () ∧
    List.Forall₂ (Mirrors (start.log strict writes)) order reading.1 := by
  intro start written reading
  have hstart : Traced start writes [] written.byte [⟨field.cut written.byte⟩] :=
    traced_start rfl written.byte
  have hall : Reordering writes ([] ++ order) := horder
  exact ⟨hgrants.run_ofScript strict, horder.perm, hstart.run strict hgrants rfl hall⟩

/-- Parts of parts, which are read in another order than they were made in, so that they have other
numbers. -/
theorem reads_mirror_writes_renumbered :
    let field : Span := ⟨2, 8⟩
    let start : Draft := ⟨[1, 2, 3], [field]⟩
    let writes : List WriteStep := [⟨0, .split 3⟩, ⟨0, .split 2⟩, ⟨1, .split 1⟩,
      ⟨2, .put (LittleEndian.encode 2 2000)⟩, ⟨3, .put [9]⟩, ⟨1, .put [5, 6]⟩]
    let order : List (WriteStep × Nat) := [(⟨0, .split 3⟩, 0), (⟨1, .split 1⟩, 2),
      (⟨3, .put [9]⟩, 4), (⟨0, .split 2⟩, 1), (⟨1, .put [5, 6]⟩, 5),
      (⟨2, .put (LittleEndian.encode 2 2000)⟩, 3)]
    let reads := mirrored writes [0] order
    reads = [⟨0, .split 3⟩, ⟨1, .split 1⟩, ⟨2, .take 1⟩, ⟨0, .split 2⟩, ⟨1, .take 2⟩,
        ⟨3, .take 2⟩] ∧
      ∃ line, ((Readers.run true reads
          [⟨field.cut (Draft.ledger.after start writes).byte⟩]).1)[5]? = some line ∧
        line.answer.map LittleEndian.decode = .ok 2000 ∧ line.left = 0 := by
  intro field start writes order reads
  have hgrants : start.Grants writes :=
    .cons (by decide) rfl (.cons (by decide) rfl (.cons (by decide) rfl
      (.cons (by decide) rfl (.cons (by decide) rfl (.cons (by decide) rfl (.nil _))))))
  have horder : Reordering writes order := by
    refine ⟨fun cursor => ?_, by decide⟩
    match cursor with
    | 0 | 1 | 2 | 3 | _ + 4 => rfl
  have hlines : List.Forall₂ (Mirrors (start.log true writes)) order
      (Readers.run true reads [⟨field.cut (Draft.ledger.after start writes).byte⟩]).1 :=
    (reads_mirror_writes true hgrants horder).2.2.2
  refine ⟨by decide, ?_⟩
  generalize (Readers.run true reads _).1 = lines at hlines ⊢
  obtain ⟨hlength, hmirrors⟩ := List.forall₂_iff_get.mp hlines
  have hlast : 5 < order.length := by decide
  obtain ⟨-, hleft, hvalue⟩ := hmirrors 5 hlast (hlength ▸ hlast)
  have hlog : (start.log true writes)[3]? = some ⟨.ok (), 0⟩ := rfl
  refine ⟨_, List.getElem?_eq_getElem (hlength ▸ hlast), hvalue 2 2000 (by decide) rfl, ?_⟩
  exact (congrArg LogLine.left (Option.some.inj (hlog.symm.trans hleft))).symm

end Mirroring

end BlockTable
