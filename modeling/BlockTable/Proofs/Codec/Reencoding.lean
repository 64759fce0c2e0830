import BlockTable.Proofs.Codec.Forms

/-!
# Writing what was read

A value that was read can be written again, into at most the bytes that it was read from
(`Stock.Spells.size_le`).  Counts and lengths that were read from four bytes fit into four bytes, so
the value fits, and it round-trips.

The bytes may be fewer, because writing drops the slack in the fields of an array.  Only an array
reads less than its field holds, so there is slack only where arrays are elements of arrays.  In a
flat codec a value has one form (`Stock.Spells.unique`).  What writing gives is a form too, as it
reads back, so it is the form that was read.
-/

namespace BlockTable

variable {bytes bytes' body form form' : List UInt8}

/-- Equally many bytes that spell one number are the same. -/
theorem LittleEndian.decode_inj (hlen : form.length = form'.length)
    (h : decode form = decode form') : form = form' := by
  rw [← encode_decode form, ← encode_decode form', hlen, h]

/-! ## Fields and rows -/

namespace Codec

variable {α : Type} {codec element : Codec α} {spells : List UInt8 → α → Prop} {x : α}
  {xs : List α}

/-- A header tells the length of one body only, and at most one that a header can hold. -/
theorem IsFrame.unique (h : codec.IsFrame bytes body) (h' : codec.IsFrame bytes' body) :
    bytes = bytes' := by
  cases hw : codec.width? with
  | some width => exact ((isFrame_of_width hw).mp h).1.trans ((isFrame_of_width hw).mp h').1.symm
  | none =>
      obtain ⟨header, rfl, hlen, hdecode⟩ := (isFrame_of_header hw).mp h
      obtain ⟨header', rfl, hlen', hdecode'⟩ := (isFrame_of_header hw).mp h'
      rw [LittleEndian.decode_inj (hlen.trans hlen'.symm) (hdecode.trans hdecode'.symm)]

theorem IsFrame.length_lt (h : codec.IsFrame bytes body) (hw : codec.width? = none) :
    body.length < headerLimit := by
  obtain ⟨header, -, hlen, hdecode⟩ := (isFrame_of_header hw).mp h
  have hlt := LittleEndian.decode_lt header
  rwa [hlen, hdecode] at hlt

/-- A field is as long as its value needs, if the body is as long as the value needs. -/
theorem IsFrame.fieldSize_le (h : codec.IsFrame bytes body) (hsize : codec.size x ≤ body.length) :
    codec.fieldSize x ≤ bytes.length := by
  rw [fieldSize, headerSize, bodySize]
  cases hw : codec.width? with
  | some width =>
      obtain ⟨rfl, hlen⟩ := (isFrame_of_width hw).mp h
      simp only
      omega
  | none =>
      obtain ⟨header, rfl, hlen, -⟩ := (isFrame_of_header hw).mp h
      simp only [List.length_append]
      omega

/-- A field whose body begins with a form is as long as its value needs, and its header could be
written. -/
theorem FieldSpells.size_le {fills : Bool} (h : codec.FieldSpells spells fills bytes x)
    (hsize : ∀ form, spells form x → codec.size x ≤ form.length) :
    (codec.width? = none → codec.size x < headerLimit) ∧ codec.fieldSize x ≤ bytes.length := by
  obtain ⟨body, slack, hframe, form, rfl, hform, -⟩ := h
  have hle : codec.size x ≤ (form ++ slack).length := by
    rw [List.length_append]
    exact Nat.le_add_right_of_le (hsize form hform)
  exact ⟨fun hw => Nat.lt_of_le_of_lt hle (hframe.length_lt hw), hframe.fieldSize_le hle⟩

/-- A row is as long as the fields of its values need. -/
theorem IsRow.foldr_le (h : IsRow spells bytes xs) (n : Nat)
    (hsize : ∀ form x, spells form x → codec.fieldSize x ≤ form.length) :
    xs.foldr (fun x size => codec.fieldSize x + size) n ≤ n + bytes.length := by
  induction xs generalizing bytes with
  | nil => exact Nat.le_add_right ..
  | cons x xs ih =>
      obtain ⟨form, rest, rfl, hform, hrow⟩ := h
      have hfirst := hsize form x hform
      have hothers := ih hrow
      rw [List.foldr_cons, List.length_append]
      omega

theorem IsRow.forall {P : α → Prop} (h : IsRow spells bytes xs)
    (hall : ∀ form x, spells form x → P x) : ∀ x ∈ xs, P x := by
  induction xs generalizing bytes with
  | nil => exact fun x hx => absurd hx List.not_mem_nil
  | cons y ys ih =>
      obtain ⟨form, rest, -, hform, hrow⟩ := h
      intro x hx
      cases List.mem_cons.mp hx with
      | inl heq => exact heq ▸ hall form y hform
      | inr hmem => exact ih hrow x hmem

theorem IsRow.unique (h : IsRow spells bytes xs) (h' : IsRow spells bytes' xs)
    (hone : ∀ form form' x, spells form x → spells form' x → form = form') : bytes = bytes' := by
  induction xs generalizing bytes bytes' with
  | nil => exact Eq.trans h (Eq.symm h')
  | cons x xs ih =>
      obtain ⟨form, rest, rfl, hform, hrow⟩ := h
      obtain ⟨form', rest', rfl, hform', hrow'⟩ := h'
      rw [hone form form' x hform hform', ih hrow hrow']

end Codec

/-! ## Sizes -/

namespace Stock

variable {α : Type} {s : Stock α} {x : α}

/-- Every value fits whose form was read, and its size is at most the length of the form. -/
theorem Spells.size_le (h : s.Spells form x) : s.Fits x ∧ s.codec.size x ≤ form.length := by
  induction s generalizing form with
  | native width => exact ⟨trivial, Nat.le_of_eq h.1.symm⟩
  | bool => exact ⟨trivial, Nat.le_of_eq (congrArg List.length h).symm⟩
  | char => exact ⟨trivial, Nat.le_of_eq h.1.symm⟩
  | str =>
      cases h
      exact ⟨trivial, Nat.le_of_eq (Utf8.length_encode x).symm⟩
  | bytes => exact ⟨trivial, Nat.le_of_eq (congrArg List.length h).symm⟩
  | unit => exact ⟨trivial, Nat.zero_le _⟩
  | array element ih =>
      obtain ⟨count, row, rfl, hlen, -, hlimit, hrow⟩ := h
      refine ⟨⟨hlimit, hrow.forall fun bytes y hy => ⟨?_, ?_⟩⟩, ?_⟩
      · exact (hy.size_le fun _ hform => (ih hform).2).1
      · obtain ⟨_, _, _, _, _, hform, -⟩ := hy
        exact (ih hform).1
      · rw [List.length_append, hlen]
        exact hrow.foldr_le Codec.countWidth fun bytes y hy =>
          (hy.size_le fun _ hform => (ih hform).2).2

/-! ## Flat codecs -/

/-- The codec is one of arrays. -/
def isArray {α : Type} : Stock α → Bool
  | .array _ => true
  | .native _ | .bool | .char | .str | .bytes | .unit => false

/-- No array has arrays as elements. -/
def isFlat {α : Type} : Stock α → Bool
  | .array element => !element.isArray
  | .native _ | .bool | .char | .str | .bytes | .unit => true

theorem Spells.length_eq {width : Nat} (h : s.Spells form x) (hw : s.codec.width? = some width) :
    form.length = width := by
  cases s with
  | native | char =>
      cases hw
      exact h.1
  | bool | unit =>
      cases hw
      exact congrArg List.length h
  | str | bytes | array => cases hw

/-- A value that is no array leaves no slack in its field. -/
theorem Spells.slack_eq {slack : List UInt8} (h : s.Spells form x) (hs : s.isArray = false)
    (hframe : s.codec.IsFrame bytes (form ++ slack)) (hfills : s.fillsField = true → slack = []) :
    slack = [] := by
  cases hw : s.codec.width? with
  | some width =>
      have hlen := ((Codec.isFrame_of_width hw).mp hframe).2
      rw [List.length_append, h.length_eq hw] at hlen
      exact List.length_eq_zero_iff.mp (by omega)
  | none =>
      refine hfills ?_
      cases s with
      | native | bool | char | unit => cases hw
      | str | bytes => rfl
      | array => cases hs

theorem Spells.unique_of_not_array (h : s.Spells form x) (h' : s.Spells form' x)
    (hs : s.isArray = false) : form = form' := by
  cases s with
  | native | char => exact LittleEndian.decode_inj (h.1.trans h'.1.symm) (h.2.trans h'.2.symm)
  | bool | str | bytes | unit => exact Eq.trans h (Eq.symm h')
  | array => cases hs

theorem fieldSpells_unique (hs : s.isArray = false)
    (h : s.codec.FieldSpells s.Spells s.fillsField bytes x)
    (h' : s.codec.FieldSpells s.Spells s.fillsField bytes' x) : bytes = bytes' := by
  obtain ⟨_, slack, hframe, form, rfl, hform, hfills⟩ := h
  obtain ⟨_, slack', hframe', form', rfl, hform', hfills'⟩ := h'
  rw [hform.slack_eq hs hframe hfills, List.append_nil] at hframe
  rw [hform'.slack_eq hs hframe' hfills', List.append_nil,
    ← hform.unique_of_not_array hform' hs] at hframe'
  exact hframe.unique hframe'

/-- In a flat codec a value has one form. -/
theorem Spells.unique (h : s.Spells form x) (h' : s.Spells form' x) (hs : s.isFlat = true) :
    form = form' := by
  cases s with
  | native | bool | char | str | bytes | unit => exact h.unique_of_not_array h' rfl
  | array element =>
      have hone : element.isArray = false := by simpa [isFlat] using hs
      obtain ⟨count, row, rfl, hlen, hcount, -, hrow⟩ := h
      obtain ⟨count', row', rfl, hlen', hcount', -, hrow'⟩ := h'
      have hcounts : count = count' :=
        LittleEndian.decode_inj (hlen.trans hlen'.symm) (hcount.trans hcount'.symm)
      have hrows : row = row' :=
        hrow.unique hrow' fun _ _ _ hy hy' => fieldSpells_unique hone hy hy'
      rw [hcounts, hrows]

/-! ## Writing again -/

variable {bs : List UInt8} {r : Reader}

/-- The bytes that reading consumes are a form of the value. -/
theorem consumed_spells (h : s.codec.read ⟨bs⟩ = (.ok x, r)) :
    s.Spells (bs.take (bs.length - r.remaining)) x := by
  obtain ⟨form, hbs, hspells, -⟩ := (s.follows bs x r.left).mp h
  have hlen : bs.length - r.remaining = form.length := by
    rw [hbs, List.length_append, Reader.remaining, Nat.add_sub_cancel]
  rwa [hlen, hbs, List.take_left]

/-- What writing a value gives is a form of it. -/
theorem exists_body_spells (h : s.codec.RoundTrips x) :
    ∃ form, s.codec.body x = .ok form ∧ s.Spells form x := by
  obtain ⟨form, hbody, hread⟩ := h.body
  have hspells := consumed_spells hread
  rw [Reader.remaining, List.length_nil, Nat.sub_zero, List.take_length] at hspells
  exact ⟨form, hbody, hspells⟩

/-- A value that was read has a size of at most the number of bytes consumed, and it round-trips.
In a flat codec its size is that number, and writing it gives the bytes consumed, which are the same
wherever this value is read. -/
theorem read_reencodes {α : Type} (s : Stock α) {x : α} {bs : List UInt8} {r : Reader}
    (hread : s.codec.read ⟨bs⟩ = (.ok x, r)) :
    let n := bs.length - r.remaining
    s.codec.size x ≤ n ∧ s.codec.RoundTrips x ∧
      (s.isFlat = true → s.codec.size x = n ∧ s.codec.body x = .ok (bs.take n) ∧
        ∀ bs' r', s.codec.read ⟨bs'⟩ = (.ok x, r') →
          bs'.take (bs'.length - r'.remaining) = bs.take n) := by
  intro n
  have hspells : s.Spells (bs.take n) x := consumed_spells hread
  have hlen : (bs.take n).length = n := List.length_take_of_le (Nat.sub_le ..)
  obtain ⟨hfits, hsize⟩ := hspells.size_le
  have htrip := s.roundTrips hfits
  refine ⟨hlen ▸ hsize, htrip, fun hflat => ?_⟩
  obtain ⟨form, hbody, hform⟩ := exists_body_spells htrip
  obtain rfl : form = bs.take n := hform.unique hspells hflat
  refine ⟨?_, hbody, fun bs' r' hread' => (consumed_spells hread').unique hspells hflat⟩
  rw [← htrip.bodySize_eq, ← Codec.length_body hbody, hlen]

/-- Of the bytes that an array in an array was read from, the slack in the inner field is dropped.
An array of bytes is written as it was read. -/
theorem read_reencodes_slack :
    let nested : Stock (List (List (BitVec (8 * 1)))) := .array (.array (.native 1))
    let flat : Stock (List (BitVec (8 * 1))) := .array (.native 1)
    let slack : List UInt8 := [1, 0, 0, 0, 6, 0, 0, 0, 1, 0, 0, 0, 7, 9, 5]
    nested.codec.read ⟨slack⟩ = (.ok [[7]], ⟨[5]⟩) ∧ nested.codec.size [[7]] ≤ 14 ∧
      nested.codec.size [[7]] = 13 ∧ nested.codec.RoundTrips [[7]] ∧
      flat.codec.read ⟨[1, 0, 0, 0, 7, 9]⟩ = (.ok [7], ⟨[9]⟩) ∧
      flat.codec.body [7] = .ok [1, 0, 0, 0, 7] := by
  intro nested flat slack
  have hnested : nested.codec.read ⟨slack⟩ = (.ok [[7]], ⟨[5]⟩) := by rfl
  have hflat : flat.codec.read ⟨[1, 0, 0, 0, 7, 9]⟩ = (.ok [7], ⟨[9]⟩) := by rfl
  obtain ⟨hsize, htrip, -⟩ := nested.read_reencodes hnested
  obtain ⟨-, -, hsame⟩ := flat.read_reencodes hflat
  obtain ⟨-, hbody, -⟩ := hsame rfl
  exact ⟨hnested, hsize, rfl, htrip, hflat, hbody⟩

end Stock

end BlockTable
