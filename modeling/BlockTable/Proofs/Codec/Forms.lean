import BlockTable.Proofs.Codec.Malformed
import BlockTable.Proofs.Text.WellFormed

/-!
# What stock codecs accept

The *form* of a value is any bytes that a stock codec takes for it (`Stock.Spells`), and reading
succeeds exactly on bytes that begin with a form (`Stock.follows`).  The bytes behind it are left
over, and texts and byte strings leave none.  Together with the errors of reading that fails, this
is all that reading can do (`Stock.read_iff_spells`).

The form of an array is a count with a row of fields.  The body of each field only has to begin with
the form of an element.  What the body holds behind that is slack, which nothing looks at, so a
value can have many forms if its codec has arrays in arrays.

Each reader is said by an equivalence, from the next few bytes (`Reader.take_iff`) to a field
(`Codec.splitField_iff`) and a row of fields (`Codec.Follows.row`).
-/

namespace BlockTable

variable {bs form rest : List UInt8} {width n : Nat}

/-! ## The bytes ahead of a reader -/

namespace Reader

variable {body : List UInt8}

/-- A reader takes as many bytes as are asked for, or none. -/
theorem take_iff :
    take ⟨bs⟩ width = (.ok form, ⟨rest⟩) ↔ bs = form ++ rest ∧ form.length = width := by
  constructor
  · intro h
    rw [take] at h
    split at h
    next hle =>
      cases h
      exact ⟨(List.take_append_drop width bs).symm, List.length_take_of_le hle⟩
    next => cases h
  · rintro ⟨rfl, rfl⟩
    rw [take_of_le (by rw [remaining, List.length_append]; omega), List.take_left, List.drop_left]

theorem split_iff :
    split ⟨bs⟩ width = (.ok ⟨body⟩, ⟨rest⟩) ↔ bs = body ++ rest ∧ body.length = width := by
  rw [← take_iff, split]
  constructor
  · intro h
    split at h
    next htake =>
      cases h
      exact htake
    next => cases h
  · intro h
    rw [h]

theorem takeNat_iff : takeNat ⟨bs⟩ width = (.ok n, ⟨rest⟩) ↔
    ∃ form, bs = form ++ rest ∧ form.length = width ∧ LittleEndian.decode form = n := by
  rw [takeNat]
  constructor
  · intro h
    split at h
    next htake =>
      cases h
      obtain ⟨hbs, hlen⟩ := take_iff.mp htake
      exact ⟨_, hbs, hlen, rfl⟩
    next => cases h
  · rintro ⟨form, hbs, hlen, rfl⟩
    rw [take_iff.mpr ⟨hbs, hlen⟩]

end Reader

/-! ## Forms -/

/-- The bytes begin with a form, and `rest` is left over.  A form that fills its field leaves
nothing. -/
def Begin (spells : List UInt8 → Prop) (fills : Bool) (bs rest : List UInt8) : Prop :=
  ∃ form, bs = form ++ rest ∧ spells form ∧ (fills = true → rest = [])

namespace Codec

variable {α : Type} {codec element : Codec α} {spells : List UInt8 → α → Prop} {fills : Bool}
  {x : α} {xs : List α} {body : List UInt8}

/-- The bytes of a field with the body given: the body alone if the width is fixed, and otherwise
behind a header that tells its length. -/
def IsFrame (codec : Codec α) (bytes body : List UInt8) : Prop :=
  match codec.width? with
  | some width => bytes = body ∧ body.length = width
  | none => ∃ header, bytes = header ++ body ∧ header.length = headerWidth ∧
      LittleEndian.decode header = body.length

/-- Forms one behind the other, one for each value. -/
def IsRow (spells : List UInt8 → α → Prop) : List UInt8 → List α → Prop
  | bytes, [] => bytes = []
  | bytes, x :: xs => ∃ form rest, bytes = form ++ rest ∧ spells form x ∧ IsRow spells rest xs

/-- Reading accepts exactly the bytes that begin with a form. -/
def Follows (codec : Codec α) (spells : List UInt8 → α → Prop) (fills : Bool) : Prop :=
  ∀ bs x rest, codec.read ⟨bs⟩ = (.ok x, ⟨rest⟩) ↔ Begin (spells · x) fills bs rest

/-! ## Values that are no arrays -/

/-- Any bytes of the width are the form of a number, and of one only. -/
theorem native_follows (width : Nat) :
    (native width).Follows
      (fun form x => form.length = width ∧ LittleEndian.decode form = x.toNat) false := by
  intro bs x rest
  constructor
  · intro h
    simp only [native] at h
    split at h
    next htake =>
      cases h
      obtain ⟨form, hbs, hlen, hform⟩ := Reader.takeNat_iff.mp htake
      refine ⟨form, hbs, ⟨hlen, ?_⟩, fun h => by cases h⟩
      have hlt := LittleEndian.decode_lt form
      rw [hlen, hform, Nat.one_shiftLeft] at hlt
      rw [hform, BitVec.toNat_ofNat, Nat.mod_eq_of_lt hlt]
    next => cases h
  · rintro ⟨form, hbs, ⟨hlen, hform⟩, -⟩
    simp only [native, Reader.takeNat_iff.mpr ⟨form, hbs, hlen, hform⟩, BitVec.ofNat_toNat,
      BitVec.setWidth_eq]

/-- Zero and one are the forms, and no other byte is. -/
theorem bool_follows : bool.Follows (fun form x => form = [if x then 1 else 0]) false := by
  intro bs x rest
  constructor
  · intro h
    -- a byte is what writing its number gives
    have hbyte : ∀ {n : Nat} {r : Reader}, Reader.takeNat ⟨bs⟩ 1 = (.ok n, r) →
        bs = LittleEndian.encode 1 n ++ r.left := by
      intro n r htake
      obtain ⟨form, hbs, hlen, hform⟩ := Reader.takeNat_iff.mp htake
      rw [hbs, ← hlen, ← hform, LittleEndian.encode_decode]
    simp only [bool] at h
    split at h
    next htake =>
      cases h
      exact ⟨_, hbyte htake, rfl, fun h => by cases h⟩
    next htake =>
      cases h
      exact ⟨_, hbyte htake, rfl, fun h => by cases h⟩
    next => cases h
    next => cases h
  · rintro ⟨form, rfl, rfl, -⟩
    cases x <;> rfl

theorem char_follows :
    char.Follows (fun form x => form.length = 4 ∧ LittleEndian.decode form = x.toNat) false := by
  intro bs x rest
  constructor
  · intro h
    simp only [char] at h
    split at h
    next htake =>
      obtain ⟨form, hbs, hlen, hform⟩ := Reader.takeNat_iff.mp htake
      split at h
      next hvalid =>
        cases h
        refine ⟨form, hbs, ⟨hlen, ?_⟩, fun h => by cases h⟩
        exact hform.trans (Utf8.toNat_val_ofNat hvalid).symm
      next => cases h
    next => cases h
  · rintro ⟨form, hbs, ⟨hlen, hform⟩, -⟩
    have hvalid : x.toNat.isValidChar := x.valid
    simp only [char, Reader.takeNat_iff.mpr ⟨form, hbs, hlen, hform⟩, if_pos hvalid,
      Char.ofNat_toNat]

theorem bytes_follows : bytes.Follows (fun form x => form = x) true := by
  intro bs x rest
  have hread : bytes.read ⟨bs⟩ = (.ok bs, ⟨[]⟩) := Reader.take_remaining bs
  rw [hread]
  constructor
  · intro h
    cases h
    exact ⟨bs, (List.append_nil bs).symm, rfl, fun _ => rfl⟩
  · rintro ⟨form, rfl, rfl, hrest⟩
    rw [hrest rfl, List.append_nil]

/-- The only form of a text is its encoding (`Utf8.decode_eq_ok_iff`). -/
theorem str_follows : str.Follows (fun form x => form = Utf8.encode x) true := by
  intro bs x rest
  constructor
  · intro h
    simp only [str, Reader.take_remaining] at h
    split at h
    next hdecode =>
      cases h
      exact ⟨bs, (List.append_nil bs).symm, Utf8.decode_eq_ok_iff.mp hdecode, fun _ => rfl⟩
    next => cases h
  · rintro ⟨form, rfl, rfl, hrest⟩
    rw [hrest rfl, List.append_nil]
    simp only [str, Reader.take_remaining, Utf8.decode_encode]

theorem unit_follows : unit.Follows (fun form _ => form = []) false := by
  intro bs x rest
  constructor
  · intro h
    cases h
    exact ⟨[], rfl, rfl, fun h => by cases h⟩
  · rintro ⟨form, rfl, rfl, -⟩
    rfl

/-! ## Fields -/

theorem isFrame_of_width (hw : codec.width? = some width) {bytes : List UInt8} :
    codec.IsFrame bytes body ↔ bytes = body ∧ body.length = width := by
  rw [IsFrame, hw]

theorem isFrame_of_header (hw : codec.width? = none) {bytes : List UInt8} :
    codec.IsFrame bytes body ↔ ∃ header, bytes = header ++ body ∧
      header.length = headerWidth ∧ LittleEndian.decode header = body.length := by
  rw [IsFrame, hw]

/-- A field is split off from what is behind it by the length of its frame. -/
theorem splitField_iff : codec.splitField ⟨bs⟩ = (.ok ⟨body⟩, ⟨rest⟩) ↔
    ∃ bytes, bs = bytes ++ rest ∧ codec.IsFrame bytes body := by
  rw [splitField]
  cases hw : codec.width? with
  | some width =>
      simp only [isFrame_of_width hw, Reader.split_iff]
      constructor
      · rintro ⟨hbs, hlen⟩
        exact ⟨body, hbs, rfl, hlen⟩
      · rintro ⟨_, hbs, rfl, hlen⟩
        exact ⟨hbs, hlen⟩
  | none =>
      simp only [isFrame_of_header hw]
      constructor
      · intro h
        split at h
        next htake =>
          obtain ⟨header, rfl, hlen, rfl⟩ := Reader.takeNat_iff.mp htake
          obtain ⟨hrest, hbody⟩ := Reader.split_iff.mp h
          rw [hrest]
          exact ⟨header ++ body, (List.append_assoc ..).symm, header, rfl, hlen, hbody.symm⟩
        next => cases h
      · rintro ⟨_, rfl, header, rfl, hlen, hbody⟩
        have htake : Reader.takeNat ⟨header ++ body ++ rest⟩ headerWidth =
            (.ok body.length, ⟨body ++ rest⟩) :=
          Reader.takeNat_iff.mpr ⟨header, List.append_assoc .., hlen, hbody⟩
        simp only [htake]
        exact Reader.split_iff.mpr ⟨rfl, rfl⟩

/-- A field whose body begins with the form of a value. -/
def FieldSpells (codec : Codec α) (spells : List UInt8 → α → Prop) (fills : Bool)
    (bytes : List UInt8) (x : α) : Prop :=
  ∃ body slack, codec.IsFrame bytes body ∧ Begin (spells · x) fills body slack

/-- What is left over is what is behind the field.  The slack in its body is gone. -/
theorem Follows.field (h : element.Follows spells fills) :
    element.readField ⟨bs⟩ = (.ok x, ⟨rest⟩) ↔
      ∃ bytes, bs = bytes ++ rest ∧ element.FieldSpells spells fills bytes x := by
  rw [readField]
  constructor
  · intro hread
    split at hread
    next body r hsplit =>
      injection hread with hx hrest
      obtain ⟨bytes, hbs, hfield⟩ := splitField_iff.mp hsplit
      have hread' : element.read ⟨body.left⟩ = (.ok x, ⟨(element.read body).2.left⟩) :=
        Prod.ext hx rfl
      rw [hrest] at hbs
      exact ⟨bytes, hbs, body.left, _, hfield, (h _ _ _).mp hread'⟩
    next => cases hread
  · rintro ⟨bytes, hbs, body, slack, hfield, hbegin⟩
    have hsplit := splitField_iff.mpr ⟨bytes, hbs, hfield⟩
    simp only [hsplit, (h body x slack).mpr hbegin]

/-- The induction is on the number of fields. -/
theorem Follows.row (h : element.Follows spells fills) :
    readFields element n ⟨bs⟩ = (.ok xs, ⟨rest⟩) ↔
      ∃ row, bs = row ++ rest ∧ xs.length = n ∧
        IsRow (element.FieldSpells spells fills) row xs := by
  induction n generalizing bs xs with
  | zero =>
      constructor
      · intro hread
        cases hread
        exact ⟨[], rfl, rfl, rfl⟩
      · rintro ⟨row, rfl, hlen, hrow⟩
        cases List.length_eq_zero_iff.mp hlen
        cases hrow
        rfl
  | succ n ih =>
      rw [readFields]
      constructor
      · intro hread
        split at hread
        next => cases hread
        next hfirst =>
          split at hread
          next => cases hread
          next hothers =>
            cases hread
            obtain ⟨bytes, rfl, hfield⟩ := h.field.mp hfirst
            obtain ⟨row, hrow, hlen, hspelled⟩ := ih.mp hothers
            rw [hrow, ← List.append_assoc]
            exact ⟨bytes ++ row, rfl, congrArg Nat.succ hlen, bytes, row, rfl, hfield, hspelled⟩
      · rintro ⟨row, rfl, hlen, hrow⟩
        cases xs with
        | nil => cases hlen
        | cons x xs =>
            obtain ⟨bytes, row, rfl, hfield, hspelled⟩ := hrow
            have hfirst := h.field.mpr ⟨bytes, List.append_assoc bytes row rest, hfield⟩
            have hothers := ih.mpr ⟨row, rfl, Nat.succ_inj.mp hlen, hspelled⟩
            simp only [hfirst, hothers]

/-! ## Arrays -/

/-- A count, and behind it that many fields. -/
def ArraySpells (element : Codec α) (spells : List UInt8 → α → Prop) (fills : Bool)
    (form : List UInt8) (xs : List α) : Prop :=
  ∃ count row, form = count ++ row ∧ count.length = countWidth ∧
    LittleEndian.decode count = xs.length ∧ xs.length < countLimit ∧
    IsRow (element.FieldSpells spells fills) row xs

/-- The count tells where an array ends, so what is behind it is left over. -/
theorem Follows.array (h : element.Follows spells fills) :
    (array element).Follows (element.ArraySpells spells fills) false := by
  intro bs xs rest
  constructor
  · intro hread
    simp only [Codec.array] at hread
    split at hread
    next => cases hread
    next htake =>
      split at hread
      next hlimit =>
        obtain ⟨count, rfl, hlen, rfl⟩ := Reader.takeNat_iff.mp htake
        obtain ⟨row, hrow, hcount, hspelled⟩ := h.row.mp hread
        rw [hrow, ← List.append_assoc]
        exact ⟨count ++ row, rfl, ⟨count, row, rfl, hlen, hcount.symm, hcount ▸ hlimit, hspelled⟩,
          fun h => by cases h⟩
      next => cases hread
  · rintro ⟨_, rfl, ⟨count, row, rfl, hlen, hcount, hlimit, hspelled⟩, -⟩
    have htake := Reader.takeNat_iff.mpr ⟨count, List.append_assoc count row rest, hlen, hcount⟩
    have hread : readFields element xs.length ⟨row ++ rest⟩ = (.ok xs, ⟨rest⟩) :=
      h.row.mpr ⟨row, rfl, rfl, hspelled⟩
    simp only [Codec.array, htake, if_pos hlimit, hread]

end Codec

/-! ## The stock -/

namespace Stock

/-- The value fills its field, so that no byte is left behind its form. -/
def fillsField {α : Type} : Stock α → Bool
  | .str | .bytes => true
  | .native _ | .bool | .char | .unit | .array _ => false

/-- The bytes are a form of the value. -/
def Spells {α : Type} : Stock α → List UInt8 → α → Prop
  | .native width, form, x => form.length = width ∧ LittleEndian.decode form = x.toNat
  | .bool, form, x => form = [if x then 1 else 0]
  | .char, form, x => form.length = 4 ∧ LittleEndian.decode form = x.toNat
  | .str, form, x => form = Utf8.encode x
  | .bytes, form, x => form = x
  | .unit, form, _ => form = []
  | .array element, form, xs => element.codec.ArraySpells element.Spells element.fillsField form xs

/-- The induction is on the codec, where arrays ask for the forms of their elements. -/
theorem follows {α : Type} (s : Stock α) : s.codec.Follows s.Spells s.fillsField := by
  induction s with
  | native width => exact Codec.native_follows width
  | bool => exact Codec.bool_follows
  | char => exact Codec.char_follows
  | str => exact Codec.str_follows
  | bytes => exact Codec.bytes_follows
  | unit => exact Codec.unit_follows
  | array element ih => exact ih.array

/-- Reading answers a value exactly if the bytes begin with a form of it, and then leaves what is
behind the form.  A form that fills its field has to be all of the bytes.  Reading fails only at
bytes that end too early or that decode to nothing. -/
theorem read_iff_spells {α : Type} (s : Stock α) (bs : List UInt8) :
    (∀ x r, s.codec.read ⟨bs⟩ = (.ok x, r) ↔
      ∃ form, bs = form ++ r.left ∧ s.Spells form x ∧ (s.fillsField = true → r.remaining = 0) ∧
        r.remaining = bs.length - form.length) ∧
      ∀ e, (s.codec.read ⟨bs⟩).1 = .error e → e.IsMalformed := by
  refine ⟨fun x r => ⟨fun hread => ?_, ?_⟩, s.onlyMalformed ⟨bs⟩⟩
  · obtain ⟨form, hbs, hspells, hfills⟩ := (s.follows bs x r.left).mp hread
    refine ⟨form, hbs, hspells, fun h => congrArg List.length (hfills h), ?_⟩
    rw [hbs, List.length_append, Nat.add_sub_cancel_left]
    rfl
  · rintro ⟨form, hbs, hspells, hfills, -⟩
    exact (s.follows bs x r.left).mpr
      ⟨form, hbs, hspells, fun h => List.length_eq_zero_iff.mp (hfills h)⟩

/-- An array in an array, with a byte of slack in the inner field and a byte behind the outer
one. -/
theorem read_iff_spells_slack :
    let s : Stock (List (List (BitVec (8 * 1)))) := .array (.array (.native 1))
    let form : List UInt8 := [1, 0, 0, 0, 6, 0, 0, 0, 1, 0, 0, 0, 7, 9]
    s.codec.read ⟨form ++ [5]⟩ = (.ok [[7]], ⟨[5]⟩) ∧ s.Spells form [[7]] := by
  intro s form
  have hread : s.codec.read ⟨form ++ [5]⟩ = (.ok [[7]], ⟨[5]⟩) := by rfl
  obtain ⟨form', hform, hspells, -⟩ := ((s.read_iff_spells (form ++ [5])).1 _ _).mp hread
  refine ⟨hread, ?_⟩
  rwa [List.append_cancel_right hform]

end Stock

end BlockTable
