import BlockTable.Codec.Basic
import BlockTable.Proofs.Codec.Window

/-!
# Fields

The bytes of a field are its header and its body, and the body is what the codec writes into a
draft of its own (`Codec.field`).  Writing fields one behind the other into one draft puts these
bytes one behind the other (`writeField_holds`).  Splitting a field off again gives a reader over
the body, with any bytes allowed to follow (`splitField_append`).

So the fields of a block can be spoken of without drafts and cursors.
-/

namespace BlockTable

/-! ## Drafts written from the front -/

namespace Draft

theorem length_contents (d : Draft) (n : Nat) : (d.contents n).length = n := by
  simp only [contents, List.rightpad, List.length_take, List.length_append, List.length_replicate]
  omega

theorem getD_contents (d : Draft) {n i : Nat} (h : i < n) : (d.contents n).getD i 0 = d.byte i := by
  simp only [contents, byte, List.rightpad, List.getD_eq_getElem?_getD, List.getElem?_take,
    if_pos h, List.getElem?_append, List.getElem?_replicate]
  split
  next => rfl
  next hge =>
    rw [List.getElem?_eq_none (by omega : d.bytes.length ≤ i)]
    split <;> rfl

/-- The bytes `written` fill the draft up to its only cursor, which may write `left` more. -/
structure Holds (d : Draft) (written : List UInt8) (left : Nat) : Prop where
  spans : d.spans = [⟨written.length, left⟩]
  bytes : ∀ i, d.byte i = written.getD i 0

theorem holds_blank (n : Nat) : (blank n).Holds [] n := ⟨rfl, fun _ => rfl⟩

namespace Holds

variable {d : Draft} {written : List UInt8} {left : Nat}

theorem contents (h : d.Holds written left) : d.contents written.length = written := by
  apply List.ext_getElem (length_contents d _)
  intro i hi hi'
  have hbyte := (getD_contents d hi').trans (h.bytes i)
  simpa only [List.getD_eq_getElem?_getD, List.getElem?_eq_getElem hi,
    List.getElem?_eq_getElem hi', Option.getD_some] using hbyte

theorem reserve (h : d.Holds written left) {n : Nat} (hle : n ≤ left) :
    d.reserve 0 n = (.ok written.length,
      { d with spans := [⟨written.length + n, left - n⟩] }) := by
  simp only [Draft.reserve, Draft.span, h.spans]
  exact if_pos hle

/-- Bytes written behind `written`. -/
theorem append {d' : Draft} {bs : List UInt8} {n : Nat} (h : d.Holds written left)
    (hn : bs.length = n) (hspans : d'.spans = [⟨written.length + n, left - n⟩])
    (hbytes : ∀ i, d'.byte i = if written.length ≤ i ∧ i < written.length + n
      then bs.getD (i - written.length) 0 else d.byte i) :
    d'.Holds (written ++ bs) (left - n) where
  spans := by rw [hspans, List.length_append, hn]
  bytes i := by
    have hold := h.bytes i
    rw [hbytes i, hold]
    simp only [List.getD_eq_getElem?_getD, List.getElem?_append]
    split
    next hin => rw [if_neg (by omega)]
    next hout =>
      split
      next => rfl
      next hge =>
        rw [List.getElem?_eq_none (by omega : written.length ≤ i),
          List.getElem?_eq_none (by omega : bs.length ≤ i - written.length)]

theorem put (h : d.Holds written left) {bs : List UInt8} (hle : bs.length ≤ left) :
    ∃ d', d.put 0 bs = (.ok (), d') ∧ d'.Holds (written ++ bs) (left - bs.length) := by
  refine ⟨⟨overlay written.length bs d.bytes, [⟨written.length + bs.length, left - bs.length⟩]⟩,
    ?_, h.append rfl rfl fun i => getD_overlay written.length bs d.bytes i⟩
  rw [Draft.put, h.reserve hle]

/-- What a writing does to a part of the draft is what it does to a blank draft. -/
theorem within (h : d.Holds written left) {n : Nat} (hle : n ≤ left) (body : Writing)
    (next : Except TableError Unit → Writing) :
    ∃ d', (Writing.within 0 n body next).run d = (next (body.run (.blank n)).1).run d' ∧
      d'.Holds (written ++ (body.run (.blank n)).2.contents n) (left - n) := by
  have hwindow : Window written.length n d.byte ⟨d.bytes, [⟨written.length, n⟩]⟩ (.blank n) := by
    refine ⟨rfl, fun cursor => ?_, fun i => ?_⟩
    · cases cursor with
      | zero =>
          refine ⟨rfl, fun _ => ?_⟩
          simp [Draft.span, blank]
      | succ cursor => exact ⟨rfl, fun hpos => absurd hpos (Nat.lt_irrefl 0)⟩
    · show d.byte i = if _ then (blank n).byte (i - written.length) else d.byte i
      split
      next hin =>
        rw [h.bytes i, List.getD_eq_getElem?_getD, List.getElem?_eq_none hin.1]
        rfl
      next => rfl
  obtain ⟨hanswer, hrun⟩ := run_window body hwindow
  have hlen := length_contents (body.run (.blank n)).2 n
  refine ⟨⟨(body.run ⟨d.bytes, [⟨written.length, n⟩]⟩).2.bytes,
    [⟨written.length + n, left - n⟩]⟩, ?_, ?_⟩
  · rw [Writing.run, h.reserve hle]
    simp only
    rw [hanswer]
  · refine h.append hlen rfl fun i => (hrun.bytes i).trans ?_
    split
    next hin => rw [getD_contents _ (by omega)]
    next => rfl

end Holds

end Draft

/-! ## The bytes of a field -/

namespace Codec

variable {α : Type} (codec : Codec α)

/-- What the codec writes into a draft of its own. -/
def body (x : α) : Except TableError (List UInt8) :=
  match (codec.write x).run (.blank (codec.bodySize x)) with
  | (.ok (), d) => .ok (d.contents (codec.bodySize x))
  | (.error e, _) => .error e

/-- The bytes ahead of the body. -/
def header (x : α) : Except TableError (List UInt8) :=
  match codec.width? with
  | some _ => .ok []
  | none =>
      if codec.size x < headerLimit then .ok (LittleEndian.encode headerWidth (codec.size x))
      else .error (.argument (.fieldTooLong (codec.size x)))

/-- The bytes of a field. -/
def field (x : α) : Except TableError (List UInt8) :=
  match codec.header x with
  | .error e => .error e
  | .ok bs =>
      match codec.body x with
      | .error e => .error e
      | .ok bs' => .ok (bs ++ bs')

variable {codec} {x : α} {bs : List UInt8}

theorem field_ok (h : codec.field x = .ok bs) :
    ∃ hd bd, codec.header x = .ok hd ∧ codec.body x = .ok bd ∧ bs = hd ++ bd := by
  rw [field] at h
  cases hhd : codec.header x with
  | error e => simp only [hhd] at h; cases h
  | ok hd =>
      cases hbd : codec.body x with
      | error e => simp only [hhd, hbd] at h; cases h
      | ok bd =>
          simp only [hhd, hbd] at h
          cases h
          exact ⟨hd, bd, rfl, rfl, rfl⟩

/-- A body has a field if its header can be written. -/
theorem exists_field (hbody : codec.body x = .ok bs)
    (hfits : codec.width? = none → codec.size x < headerLimit) :
    ∃ bs, codec.field x = .ok bs := by
  rw [field, header, hbody]
  cases hw : codec.width? with
  | some width => exact ⟨_, rfl⟩
  | none =>
      rw [if_pos (hfits hw)]
      exact ⟨_, rfl⟩

theorem length_body (h : codec.body x = .ok bs) : bs.length = codec.bodySize x := by
  rw [body] at h
  split at h
  next => cases h; exact Draft.length_contents _ _
  next => cases h

theorem length_header (h : codec.header x = .ok bs) : bs.length = codec.headerSize := by
  rw [header] at h
  rw [headerSize]
  cases hwidth : codec.width? with
  | some width =>
      simp only [hwidth] at h
      cases h
      rfl
  | none =>
      simp only [hwidth] at h
      split at h
      next =>
        cases h
        exact LittleEndian.length_encode ..
      next => cases h

theorem length_field (h : codec.field x = .ok bs) : bs.length = codec.fieldSize x := by
  obtain ⟨hd, bd, hhd, hbd, rfl⟩ := field_ok h
  rw [List.length_append, length_header hhd, length_body hbd, fieldSize]

/-! ## Writing a field -/

/-- The body written behind `written`. -/
theorem within_holds {d : Draft} {written : List UInt8} {left : Nat} (h : d.Holds written left)
    (hle : codec.bodySize x ≤ left) (next : Except TableError Unit → Writing) :
    ∃ d', (Writing.within 0 (codec.bodySize x) (codec.write x) next).run d =
        (next ((codec.body x).map fun _ => ())).run d' ∧
      ∀ bs, codec.body x = .ok bs → d'.Holds (written ++ bs) (left - bs.length) := by
  obtain ⟨d', hrun, hholds⟩ := h.within hle (codec.write x) next
  refine ⟨d', ?_, fun bs hbs => ?_⟩
  · rw [hrun, body]
    cases hw : (codec.write x).run (.blank (codec.bodySize x)) with
    | mk answer d =>
        cases answer with
        | error e => rfl
        | ok u => rfl
  · rw [length_body hbs]
    rw [body] at hbs
    split at hbs
    next hw =>
      cases hbs
      rwa [hw] at hholds
    next => cases hbs

/-- The field written behind `written`. -/
theorem writeField_holds {d : Draft} {written : List UInt8} {left : Nat} (h : d.Holds written left)
    (hle : codec.fieldSize x ≤ left) (next : Except TableError Unit → Writing) :
    ∃ d', (codec.writeField x next).run d = (next ((codec.field x).map fun _ => ())).run d' ∧
      ∀ bs, codec.field x = .ok bs → d'.Holds (written ++ bs) (left - bs.length) := by
  rw [fieldSize, headerSize] at hle
  rw [writeField, field, header]
  cases hwidth : codec.width? with
  | some width =>
      have hbody : codec.bodySize x = width := by rw [bodySize, hwidth]
      rw [hwidth] at hle
      obtain ⟨d', hrun, hholds⟩ := within_holds h (by simpa using hle) next
      rw [hbody] at hrun
      refine ⟨d', ?_, fun bs hbs => hholds bs ?_⟩
      · simp only
        rw [hrun]
        cases codec.body x <;> rfl
      · simp only at hbs
        cases hb : codec.body x with
        | error e => rw [hb] at hbs; cases hbs
        | ok bd => rw [hb] at hbs; exact hbs
  | none =>
      have hbody : codec.bodySize x = codec.size x := by rw [bodySize, hwidth]
      rw [hwidth] at hle
      simp only at hle ⊢
      split
      next hfits =>
        have hlen := LittleEndian.length_encode headerWidth (codec.size x)
        have hroom : (LittleEndian.encode headerWidth (codec.size x)).length ≤ left := by omega
        obtain ⟨d', hput, hholds⟩ := h.put hroom
        obtain ⟨d'', hrun, hholds'⟩ := within_holds hholds (by omega : codec.bodySize x ≤ _) next
        rw [hbody] at hrun
        refine ⟨d'', ?_, fun bs hbs => ?_⟩
        · rw [Writing.run, hput]
          simp only
          rw [hrun]
          cases codec.body x <;> rfl
        · cases hb : codec.body x with
          | error e => rw [hb] at hbs; cases hbs
          | ok bd =>
              rw [hb] at hbs
              cases hbs
              have := hholds' bd hb
              rwa [List.append_assoc, Nat.sub_sub, ← List.length_append] at this
      next => exact ⟨d, rfl, fun bs hbs => by cases hbs⟩

/-! ## Reading a field -/

theorem storedSize_append (h : codec.field x = .ok bs) (rest : List UInt8) :
    codec.storedSize (bs ++ rest) = bs.length := by
  rw [length_field h]
  obtain ⟨hd, bd, hhd, -, rfl⟩ := field_ok h
  have hlen := length_header hhd
  rw [header] at hhd
  rw [storedSize, fieldSize, bodySize]
  rw [headerSize] at hlen ⊢
  cases hwidth : codec.width? with
  | some width => exact (Nat.zero_add width).symm
  | none =>
      simp only [hwidth] at hhd hlen ⊢
      split at hhd
      next hfits =>
        cases hhd
        rw [List.append_assoc, List.take_left' hlen, LittleEndian.decode_encode hfits]
      next => cases hhd

/-- Splitting a field off leaves what follows it. -/
theorem splitField_append (h : codec.field x = .ok bs) (rest : List UInt8) :
    ∃ bd, codec.body x = .ok bd ∧ codec.splitField ⟨bs ++ rest⟩ = (.ok ⟨bd⟩, ⟨rest⟩) := by
  obtain ⟨hd, bd, hhd, hbd, rfl⟩ := field_ok h
  refine ⟨bd, hbd, ?_⟩
  have hlen := length_header hhd
  have hlen' := length_body hbd
  rw [headerSize] at hlen
  rw [bodySize] at hlen'
  rw [header] at hhd
  have hsplit : ∀ n, bd.length = n → Reader.split ⟨bd ++ rest⟩ n = (.ok ⟨bd⟩, ⟨rest⟩) := by
    intro n hn
    rw [Reader.split, Reader.take_of_le (by simp [Reader.remaining, ← hn])]
    simp only [List.take_left' hn, List.drop_left' hn]
  rw [splitField]
  cases hwidth : codec.width? with
  | some width =>
      simp only [hwidth] at hhd hlen'
      cases hhd
      exact hsplit width hlen'
  | none =>
      simp only [hwidth] at hhd hlen hlen'
      split at hhd
      next hfits =>
        cases hhd
        rw [Reader.takeNat, Reader.take_of_le (by simp [Reader.remaining])]
        simp only [List.append_assoc, List.take_left' hlen, List.drop_left' hlen,
          LittleEndian.decode_encode hfits]
        exact hsplit _ hlen'
      next => cases hhd

end Codec

end BlockTable
