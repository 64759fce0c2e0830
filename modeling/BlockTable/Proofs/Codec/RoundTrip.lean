import BlockTable.Codec.Format
import BlockTable.Proofs.Codec.Laws
import BlockTable.Proofs.Text.Utf8

/-!
# Stock codecs read back what they write

A `Stock` is a codec of the stock, with arrays nested to any depth, and `Stock.Fits` says of a value
that all its counts and headers can be written.  Every such value fills exactly the bytes that its
size says, and is read back from them with none left over (`Stock.roundTrips`).

The induction is on the codec.  For an array there is a second one on its elements: `writeFields`
puts their fields one behind the other (`writeFields_holds`), and `readFields` takes them off again,
with any bytes allowed to follow (`readFields_append`).
-/

namespace BlockTable

/-- A number is read back from its bytes, whatever follows. -/
theorem Reader.takeNat_encode {width n : Nat} (h : n < 1 <<< (8 * width)) (rest : List UInt8) :
    takeNat ⟨LittleEndian.encode width n ++ rest⟩ width = (.ok n, ⟨rest⟩) := by
  have hlen := LittleEndian.length_encode width n
  rw [takeNat, take_of_le (by simp [remaining])]
  simp only [List.take_left' hlen, List.drop_left' hlen, LittleEndian.decode_encode h]

theorem Reader.takeNat_encode_self {width n : Nat} (h : n < 1 <<< (8 * width)) :
    takeNat ⟨LittleEndian.encode width n⟩ width = (.ok n, ⟨[]⟩) := by
  have htake := takeNat_encode h []
  rwa [List.append_nil] at htake

theorem Reader.take_remaining (bs : List UInt8) :
    take ⟨bs⟩ (remaining ⟨bs⟩) = (.ok bs, ⟨[]⟩) := by
  rw [take_of_le (Nat.le_refl _), remaining, List.take_length, List.drop_length]

namespace Codec

variable {α : Type} {codec : Codec α} {x : α} {xs : List α} {bs : List UInt8}

/-- The value fills as many bytes as its size says and is read back from them. -/
structure RoundTrips (codec : Codec α) (x : α) : Prop where
  size_eq : ∀ width, codec.width? = some width → codec.size x = width
  trip : ∃ d, (codec.write x).run (.blank (codec.size x)) = (.ok (), d) ∧ d.room 0 = 0 ∧
    codec.read ⟨d.contents (codec.size x)⟩ = (.ok x, ⟨[]⟩)

theorem roundTrips_of_holds {d : Draft}
    (hwidth : ∀ width, codec.width? = some width → codec.size x = width)
    (hrun : (codec.write x).run (.blank (codec.size x)) = (.ok (), d)) (hd : d.Holds bs 0)
    (hlen : bs.length = codec.size x) (hread : codec.read ⟨bs⟩ = (.ok x, ⟨[]⟩)) :
    codec.RoundTrips x := by
  refine ⟨hwidth, d, hrun, ?_, ?_⟩
  · rw [Draft.room, Draft.span, hd.spans]
    rfl
  · rw [← hlen, hd.contents, hread]

/-- A codec that writes all its bytes at once. -/
theorem roundTrips_of_bytes (hwidth : ∀ width, codec.width? = some width → codec.size x = width)
    (hwrite : codec.write x = .bytes bs) (hlen : bs.length = codec.size x)
    (hread : codec.read ⟨bs⟩ = (.ok x, ⟨[]⟩)) : codec.RoundTrips x := by
  obtain ⟨d, hput, hd⟩ := (Draft.holds_blank (codec.size x)).put (Nat.le_of_eq hlen)
  rw [List.nil_append, hlen, Nat.sub_self] at hd
  refine roundTrips_of_holds hwidth ?_ hd hlen hread
  rw [hwrite, Writing.bytes, Writing.run, hput]
  rfl

theorem native_roundTrips (width : Nat) (x : BitVec (8 * width)) : (native width).RoundTrips x := by
  have hlt : x.toNat < 1 <<< (8 * width) := by
    rw [Nat.one_shiftLeft]
    exact x.isLt
  refine roundTrips_of_bytes (fun w hw => by cases hw; rfl) rfl
    (LittleEndian.length_encode width x.toNat) ?_
  simp only [native, Reader.takeNat_encode_self hlt, BitVec.ofNat_toNat, BitVec.setWidth_eq]

theorem bool_roundTrips (x : Bool) : bool.RoundTrips x := by
  refine roundTrips_of_bytes (fun w hw => by cases hw; rfl) rfl rfl ?_
  cases x <;> rfl

theorem char_roundTrips (x : Char) : char.RoundTrips x := by
  have hlt : x.toNat < 1 <<< (8 * 4) := x.val.toNat_lt
  have hvalid : x.toNat.isValidChar := x.valid
  refine roundTrips_of_bytes (fun w hw => by cases hw; rfl) rfl
    (LittleEndian.length_encode 4 x.toNat) ?_
  simp only [char, Reader.takeNat_encode_self hlt, if_pos hvalid, Char.ofNat_toNat]

theorem bytes_roundTrips (x : List UInt8) : bytes.RoundTrips x :=
  roundTrips_of_bytes (fun w hw => by cases hw) rfl rfl (Reader.take_remaining x)

theorem str_roundTrips (x : String) : str.RoundTrips x := by
  refine roundTrips_of_bytes (fun w hw => by cases hw) rfl (Utf8.length_encode x) ?_
  simp only [str, Reader.take_remaining, Utf8.decode_encode]

theorem unit_roundTrips (x : Unit) : unit.RoundTrips x :=
  roundTrips_of_holds (fun w hw => by cases hw; rfl) rfl (Draft.holds_blank 0) rfl rfl

/-! ## Fields one behind the other -/

/-- The size that the codec states is that of the body. -/
theorem RoundTrips.bodySize_eq (h : codec.RoundTrips x) : codec.bodySize x = codec.size x := by
  rw [bodySize]
  cases hw : codec.width? with
  | some width => exact (h.size_eq width hw).symm
  | none => rfl

theorem RoundTrips.body (h : codec.RoundTrips x) :
    ∃ bs, codec.body x = .ok bs ∧ codec.read ⟨bs⟩ = (.ok x, ⟨[]⟩) := by
  obtain ⟨d, hrun, -, hread⟩ := h.trip
  refine ⟨_, ?_, hread⟩
  rw [Codec.body, h.bodySize_eq, hrun]

/-- The value is read back from its field, whatever follows. -/
theorem RoundTrips.field (h : codec.RoundTrips x)
    (hfits : codec.width? = none → codec.size x < headerLimit) :
    ∃ bs, codec.field x = .ok bs ∧
      ∀ rest, codec.readField ⟨bs ++ rest⟩ = (.ok x, ⟨rest⟩) := by
  obtain ⟨bd, hbody, hread⟩ := h.body
  obtain ⟨bs, hbs⟩ := exists_field hbody hfits
  refine ⟨bs, hbs, fun rest => ?_⟩
  obtain ⟨bd', hbody', hsplit⟩ := splitField_append hbs rest
  rw [hbody] at hbody'
  cases hbody'
  rw [readField, hsplit]
  simp only [hread]

/-- The bytes of fields one behind the other. -/
def fields (codec : Codec α) : List α → Except TableError (List UInt8)
  | [] => .ok []
  | x :: xs =>
      match codec.field x with
      | .error e => .error e
      | .ok bs =>
          match codec.fields xs with
          | .error e => .error e
          | .ok rest => .ok (bs ++ rest)

theorem fields_cons (h : codec.fields (x :: xs) = .ok bs) :
    ∃ bx bxs, codec.field x = .ok bx ∧ codec.fields xs = .ok bxs ∧ bs = bx ++ bxs := by
  rw [fields] at h
  split at h
  next => cases h
  next hx =>
    split at h
    next => cases h
    next hxs =>
      cases h
      exact ⟨_, _, hx, hxs, rfl⟩

theorem length_fields (n : Nat) (h : codec.fields xs = .ok bs) :
    xs.foldr (fun x size => codec.fieldSize x + size) n = n + bs.length := by
  induction xs generalizing bs with
  | nil =>
      cases h
      rfl
  | cons x xs ih =>
      obtain ⟨bx, bxs, hx, hxs, rfl⟩ := fields_cons h
      rw [List.foldr_cons, ih hxs, List.length_append, ← length_field hx]
      omega

theorem writeFields_holds {d : Draft} {written : List UInt8} {left : Nat}
    (hd : d.Holds written left) (h : codec.fields xs = .ok bs) (hle : bs.length ≤ left) :
    ∃ d', (writeFields codec xs).run d = (.ok (), d') ∧
      d'.Holds (written ++ bs) (left - bs.length) := by
  induction xs generalizing d written left bs with
  | nil =>
      cases h
      rw [List.append_nil]
      exact ⟨d, rfl, hd⟩
  | cons x xs ih =>
      obtain ⟨bx, bxs, hx, hxs, rfl⟩ := fields_cons h
      rw [List.length_append] at hle ⊢
      have hroom : codec.fieldSize x ≤ left := by
        rw [← length_field hx]
        omega
      obtain ⟨d', hrun, hd'⟩ := writeField_holds hd hroom (Writing.onSuccess (writeFields codec xs))
      obtain ⟨d'', hrun', hd''⟩ := ih (hd' bx hx) hxs (by omega)
      refine ⟨d'', ?_, ?_⟩
      · rw [writeFields, hrun, hx]
        exact hrun'
      · rwa [List.append_assoc, Nat.sub_sub] at hd''

/-- Elements that round-trip, and whose headers can be written. -/
abbrev Framed (codec : Codec α) (x : α) : Prop :=
  (codec.width? = none → codec.size x < headerLimit) ∧ codec.RoundTrips x

theorem exists_fields (h : ∀ x ∈ xs, codec.Framed x) : ∃ bs, codec.fields xs = .ok bs := by
  induction xs with
  | nil => exact ⟨_, rfl⟩
  | cons x xs ih =>
      obtain ⟨hfits, htrip⟩ := h x (List.mem_cons_self ..)
      obtain ⟨bx, hx, -⟩ := htrip.field hfits
      obtain ⟨bxs, hxs⟩ := ih fun y hy => h y (List.mem_cons_of_mem _ hy)
      rw [fields, hx, hxs]
      exact ⟨_, rfl⟩

theorem readFields_append (hall : ∀ x ∈ xs, codec.Framed x) (h : codec.fields xs = .ok bs)
    (rest : List UInt8) : readFields codec xs.length ⟨bs ++ rest⟩ = (.ok xs, ⟨rest⟩) := by
  induction xs generalizing bs with
  | nil =>
      cases h
      rfl
  | cons x xs ih =>
      obtain ⟨bx, bxs, hx, hxs, rfl⟩ := fields_cons h
      obtain ⟨hfits, htrip⟩ := hall x (List.mem_cons_self ..)
      obtain ⟨bx', hx', hread⟩ := htrip.field hfits
      rw [hx] at hx'
      cases hx'
      have hrest := ih (fun y hy => hall y (List.mem_cons_of_mem _ hy)) hxs
      rw [List.length_cons, readFields, List.append_assoc, hread]
      simp only [hrest]

/-- An array of values that round-trip. -/
theorem array_roundTrips (hcount : xs.length < countLimit) (h : ∀ x ∈ xs, codec.Framed x) :
    (array codec).RoundTrips xs := by
  obtain ⟨bs, hbs⟩ := exists_fields h
  have hlen := LittleEndian.length_encode countWidth xs.length
  have hsize : (array codec).size xs = countWidth + bs.length := length_fields countWidth hbs
  have hroom : (LittleEndian.encode countWidth xs.length).length ≤ (array codec).size xs := by omega
  obtain ⟨d, hput, hd⟩ := (Draft.holds_blank ((array codec).size xs)).put hroom
  obtain ⟨d', hrun, hd'⟩ := writeFields_holds hd hbs (by omega)
  have hleft : (array codec).size xs - (LittleEndian.encode countWidth xs.length).length -
      bs.length = 0 := by omega
  rw [hleft, List.nil_append] at hd'
  refine roundTrips_of_holds (fun width hw => by cases hw) ?_ hd'
    (by rw [List.length_append, hlen, hsize]) ?_
  · simp only [array, if_pos hcount, Writing.run]
    simp only [array] at hput
    rw [hput]
    exact hrun
  · have hcount' : xs.length < 1 <<< (8 * countWidth) := Nat.lt_trans hcount (by decide)
    have hread := readFields_append h hbs []
    rw [List.append_nil] at hread
    simp only [array, Reader.takeNat_encode hcount', if_pos hcount, hread]

end Codec

/-! ## The stock -/

/-- The stock codecs, with the types of their values. -/
inductive Stock : Type → Type 1 where
  | native (width : Nat) : Stock (BitVec (8 * width))
  | bool : Stock Bool
  | char : Stock Char
  | str : Stock String
  | bytes : Stock (List UInt8)
  | unit : Stock Unit
  | array {α : Type} (element : Stock α) : Stock (List α)

namespace Stock

/-- The codec that is meant. -/
def codec {α : Type} : Stock α → Codec α
  | .native width => .native width
  | .bool => .bool
  | .char => .char
  | .str => .str
  | .bytes => .bytes
  | .unit => .unit
  | .array element => .array element.codec

/-- Every array in a value has a count that can be written, and every element that needs a header
has a length that can be written. -/
def Fits {α : Type} : Stock α → α → Prop
  | .array element, xs =>
      xs.length < Codec.countLimit ∧
        ∀ x ∈ xs, (element.codec.width? = none → element.codec.size x < Codec.headerLimit) ∧
          element.Fits x
  | .native _, _ | .bool, _ | .char, _ | .str, _ | .bytes, _ | .unit, _ => True

instance decidableFits {α : Type} : (s : Stock α) → (x : α) → Decidable (s.Fits x)
  | .array element, xs =>
      have := element.decidableFits
      inferInstanceAs (Decidable (xs.length < Codec.countLimit ∧
        ∀ x ∈ xs, (element.codec.width? = none → element.codec.size x < Codec.headerLimit) ∧
          element.Fits x))
  | .native _, _ | .bool, _ | .char, _ | .str, _ | .bytes, _ | .unit, _ => .isTrue trivial

/-- Every value that fits is written into a cursor over exactly the bytes of its size, fills them,
and is read back from them with none left over.  A fixed width is the size of every value. -/
theorem roundTrips {α : Type} (s : Stock α) {x : α} (h : s.Fits x) : s.codec.RoundTrips x := by
  induction s with
  | native width => exact Codec.native_roundTrips width x
  | bool => exact Codec.bool_roundTrips x
  | char => exact Codec.char_roundTrips x
  | str => exact Codec.str_roundTrips x
  | bytes => exact Codec.bytes_roundTrips x
  | unit => exact Codec.unit_roundTrips x
  | array element ih =>
      exact Codec.array_roundTrips h.1 fun x hx => ⟨(h.2 x hx).1, ih (h.2 x hx).2⟩

/-- Arrays of texts and of nothing at all, as elements of an array. -/
theorem roundTrips_nested :
    (array (array str)).Fits [["a", ""], []] ∧ (array (array unit)).Fits [[(), ()], [()]] ∧
      (array (array str)).codec.RoundTrips [["a", ""], []] ∧
      (array (array unit)).codec.RoundTrips [[(), ()], [()]] := by
  have htexts : (array (array str)).Fits [["a", ""], []] := by decide +kernel
  have hunits : (array (array unit)).Fits [[(), ()], [()]] := by decide +kernel
  exact ⟨htexts, hunits, roundTrips _ htexts, roundTrips _ hunits⟩

end Stock

/-- The stock codec that a format means. -/
def Format.stock : (f : Format) → Stock f.Item
  | .native s => .native s.width
  | .bool => .bool
  | .char => .char
  | .str => .str
  | .bytes => .bytes
  | .unit => .unit
  | .array element => .array element.stock

theorem Format.codec_stock (f : Format) : f.stock.codec = f.codec := by
  induction f with
  | native | bool | char | str | bytes | unit => rfl
  | array element ih => exact congrArg Codec.array ih

end BlockTable
