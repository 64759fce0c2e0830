import BlockTable.Text.Utf8

/-!
# Texts read back

Every text is read back from its bytes (`decode_encode`), and it has as many bytes as its size says
(`length_encode`).

A character is followed through the machine byte by byte.  `pending?_two`, `pending?_three` and
`pending?_four` say what its first byte leaves pending, by how many bytes the character has, and
`decodeFrom_more` and `decodeFrom_last` what each further byte does.  The range that a first byte
sets for the second one holds the second byte of every character that begins so, because a
character is neither overlong nor a surrogate nor beyond the last code point.
-/

namespace BlockTable.Utf8

variable {index start lead : Nat} {b : UInt8} {bs : List UInt8} {p : Pending}

/-! ## The first byte of a character -/

theorem pending?_two (hlow : 0xC2 ≤ lead) (hhigh : lead < 0xE0) :
    pending? start lead = some ⟨start, 1, lead - 0xC0, 0x80, 0xBF⟩ := by
  rw [pending?, if_neg (by omega), if_pos hhigh]

/-- The ranges for the second byte leave out overlong forms and surrogates. -/
theorem pending?_three (hlow : 0xE0 ≤ lead) (hhigh : lead < 0xF0) :
    pending? start lead = some ⟨start, 2, lead - 0xE0, if lead = 0xE0 then 0xA0 else 0x80,
      if lead = 0xED then 0x9F else 0xBF⟩ := by
  rw [pending?, if_neg (by omega), if_neg (by omega)]
  by_cases hfirst : lead = 0xE0
  · subst hfirst
    rfl
  · rw [if_neg hfirst, if_neg hfirst]
    by_cases hsurrogate : lead = 0xED
    · subst hsurrogate
      rfl
    · rw [if_neg hsurrogate, if_pos hhigh, if_neg hsurrogate]

/-- Here they leave out overlong forms and what lies beyond the last code point. -/
theorem pending?_four (hlow : 0xF0 ≤ lead) (hhigh : lead ≤ 0xF4) :
    pending? start lead = some ⟨start, 3, lead - 0xF0, if lead = 0xF0 then 0x90 else 0x80,
      if lead = 0xF4 then 0x8F else 0xBF⟩ := by
  rw [pending?, if_neg (by omega), if_neg (by omega), if_neg (by omega), if_neg (by omega),
    if_neg (by omega)]
  by_cases hfirst : lead = 0xF0
  · subst hfirst
    rfl
  · rw [if_neg hfirst, if_neg hfirst]
    by_cases hlast : lead = 0xF4
    · subst hlast
      rfl
    · rw [if_pos (by omega), if_neg hlast]

/-! ## One byte -/

theorem decodeFrom_single (h : b.toNat < 0x80) :
    decodeFrom index none (b :: bs) =
      (decodeFrom (index + 1) none bs).map (Char.ofNat b.toNat :: ·) := by
  rw [decodeFrom, if_pos h]

theorem decodeFrom_lead (h : ¬ b.toNat < 0x80) (hp : pending? index b.toNat = some p) :
    decodeFrom index none (b :: bs) = decodeFrom (index + 1) (some p) bs := by
  rw [decodeFrom, if_neg h, hp]

/-- A byte in its range, behind which others are missing. -/
theorem decodeFrom_more (hlow : p.low ≤ b.toNat) (hhigh : b.toNat ≤ p.high)
    (hmore : 1 < p.missing) :
    decodeFrom index (some p) (b :: bs) =
      decodeFrom (index + 1)
        (some ⟨p.start, p.missing - 1, p.code * 64 + (b.toNat - 0x80), 0x80, 0xBF⟩) bs := by
  rw [decodeFrom, if_pos ⟨hlow, hhigh⟩]
  exact if_neg (by omega)

/-- A byte in its range, which is the last of its character. -/
theorem decodeFrom_last (hlow : p.low ≤ b.toNat) (hhigh : b.toNat ≤ p.high)
    (hlast : p.missing ≤ 1) :
    decodeFrom index (some p) (b :: bs) =
      (decodeFrom (index + 1) none bs).map
        (Char.ofNat (p.code * 64 + (b.toNat - 0x80)) :: ·) := by
  rw [decodeFrom, if_pos ⟨hlow, hhigh⟩]
  exact if_pos hlast

/-! ## One character -/

/-- A byte that can follow the first one unless that narrows the range. -/
def IsTail (b : UInt8) : Prop := 0x80 ≤ b.toNat ∧ b.toNat ≤ 0xBF

variable {a c d : UInt8}

theorem decodeFrom_two (hlow : 0xC2 ≤ a.toNat) (hhigh : a.toNat < 0xE0) (hb : IsTail b) :
    decodeFrom index none (a :: b :: bs) =
      (decodeFrom (index + 2) none bs).map
        (Char.ofNat ((a.toNat - 0xC0) * 64 + (b.toNat - 0x80)) :: ·) := by
  rw [decodeFrom_lead (by omega) (pending?_two hlow hhigh)]
  exact decodeFrom_last hb.1 hb.2 (Nat.le_refl 1)

theorem decodeFrom_three (hlow : 0xE0 ≤ a.toNat) (hhigh : a.toNat < 0xF0) (hb : IsTail b)
    (hfirst : a.toNat = 0xE0 → 0xA0 ≤ b.toNat) (hsurrogate : a.toNat = 0xED → b.toNat ≤ 0x9F)
    (hc : IsTail c) :
    decodeFrom index none (a :: b :: c :: bs) =
      (decodeFrom (index + 3) none bs).map
        (Char.ofNat (((a.toNat - 0xE0) * 64 + (b.toNat - 0x80)) * 64 + (c.toNat - 0x80)) :: ·) := by
  rw [decodeFrom_lead (by omega) (pending?_three hlow hhigh), decodeFrom_more]
  · exact decodeFrom_last hc.1 hc.2 (Nat.le_refl 1)
  · show (if a.toNat = 0xE0 then 0xA0 else 0x80) ≤ b.toNat
    split
    next heq => exact hfirst heq
    next => exact hb.1
  · show b.toNat ≤ if a.toNat = 0xED then 0x9F else 0xBF
    split
    next heq => exact hsurrogate heq
    next => exact hb.2
  · exact Nat.lt_succ_self 1

theorem decodeFrom_four (hlow : 0xF0 ≤ a.toNat) (hhigh : a.toNat ≤ 0xF4) (hb : IsTail b)
    (hfirst : a.toNat = 0xF0 → 0x90 ≤ b.toNat) (hlast : a.toNat = 0xF4 → b.toNat ≤ 0x8F)
    (hc : IsTail c) (hd : IsTail d) :
    decodeFrom index none (a :: b :: c :: d :: bs) =
      (decodeFrom (index + 4) none bs).map
        (Char.ofNat ((((a.toNat - 0xF0) * 64 + (b.toNat - 0x80)) * 64 + (c.toNat - 0x80)) * 64 +
          (d.toNat - 0x80)) :: ·) := by
  rw [decodeFrom_lead (by omega) (pending?_four hlow hhigh), decodeFrom_more,
    decodeFrom_more hc.1 hc.2 (Nat.lt_succ_self 1)]
  · exact decodeFrom_last hd.1 hd.2 (Nat.le_refl 1)
  · show (if a.toNat = 0xF0 then 0x90 else 0x80) ≤ b.toNat
    split
    next heq => exact hfirst heq
    next => exact hb.1
  · show b.toNat ≤ if a.toNat = 0xF4 then 0x8F else 0xBF
    split
    next heq => exact hlast heq
    next => exact hb.2
  · show 1 < 3
    decide

/-! ## The bytes of a code point -/

theorem toNat_ofNat {n : Nat} (h : n < 256) : (UInt8.ofNat n).toNat = n :=
  UInt8.toNat_ofNat_of_lt' h

theorem isTail_ofNat (n : Nat) : IsTail (UInt8.ofNat (n % 64 + 128)) := by
  rw [IsTail, toNat_ofNat (by omega)]
  omega

section

variable {v : Nat}

theorem decodeFrom_code_two (hlow : 0x80 ≤ v) (hhigh : v < 0x800) :
    decodeFrom index none
        (UInt8.ofNat (v / 64 % 32 + 192) :: UInt8.ofNat (v % 64 + 128) :: bs) =
      (decodeFrom (index + 2) none bs).map (Char.ofNat v :: ·) := by
  have ha := toNat_ofNat (n := v / 64 % 32 + 192) (by omega)
  have hb := toNat_ofNat (n := v % 64 + 128) (by omega)
  have hcode : (v / 64 % 32 + 192 - 0xC0) * 64 + (v % 64 + 128 - 0x80) = v := by omega
  rw [decodeFrom_two (by omega) (by omega) (isTail_ofNat v), ha, hb, hcode]

theorem decodeFrom_code_three (hlow : 0x800 ≤ v) (hhigh : v < 0x10000)
    (hvalid : v < 0xD800 ∨ 0xDFFF < v) :
    decodeFrom index none (UInt8.ofNat (v / 4096 % 16 + 224) ::
        UInt8.ofNat (v / 64 % 64 + 128) :: UInt8.ofNat (v % 64 + 128) :: bs) =
      (decodeFrom (index + 3) none bs).map (Char.ofNat v :: ·) := by
  have ha := toNat_ofNat (n := v / 4096 % 16 + 224) (by omega)
  have hb := toNat_ofNat (n := v / 64 % 64 + 128) (by omega)
  have hc := toNat_ofNat (n := v % 64 + 128) (by omega)
  have hcode : ((v / 4096 % 16 + 224 - 0xE0) * 64 + (v / 64 % 64 + 128 - 0x80)) * 64 +
      (v % 64 + 128 - 0x80) = v := by omega
  rw [decodeFrom_three (by omega) (by omega) (isTail_ofNat _) (by omega) (by omega)
    (isTail_ofNat v), ha, hb, hc, hcode]

theorem decodeFrom_code_four (hlow : 0x10000 ≤ v) (hhigh : v < 0x110000) :
    decodeFrom index none (UInt8.ofNat (v / 262144 % 8 + 240) ::
        UInt8.ofNat (v / 4096 % 64 + 128) :: UInt8.ofNat (v / 64 % 64 + 128) ::
        UInt8.ofNat (v % 64 + 128) :: bs) =
      (decodeFrom (index + 4) none bs).map (Char.ofNat v :: ·) := by
  have ha := toNat_ofNat (n := v / 262144 % 8 + 240) (by omega)
  have hb := toNat_ofNat (n := v / 4096 % 64 + 128) (by omega)
  have hc := toNat_ofNat (n := v / 64 % 64 + 128) (by omega)
  have hd := toNat_ofNat (n := v % 64 + 128) (by omega)
  have hcode : (((v / 262144 % 8 + 240 - 0xF0) * 64 + (v / 4096 % 64 + 128 - 0x80)) * 64 +
      (v / 64 % 64 + 128 - 0x80)) * 64 + (v % 64 + 128 - 0x80) = v := by omega
  rw [decodeFrom_four (by omega) (by omega) (isTail_ofNat _) (by omega) (by omega)
    (isTail_ofNat _) (isTail_ofNat v), ha, hb, hc, hd, hcode]

end

/-- A character is read back whatever follows it. -/
theorem decodeFrom_encodeChar (index : Nat) (x : Char) (bs : List UInt8) :
    decodeFrom index none (String.utf8EncodeChar x ++ bs) =
      (decodeFrom (index + x.utf8Size) none bs).map (x :: ·) := by
  have hvalid : x.val.toNat < 0xD800 ∨ (0xDFFF < x.val.toNat ∧ x.val.toNat < 0x110000) := x.valid
  have hx : Char.ofNat x.val.toNat = x := Char.ofNat_toNat x
  rw [← String.length_utf8EncodeChar]
  unfold String.utf8EncodeChar
  generalize x.val.toNat = v at hvalid hx
  subst hx
  simp only
  split
  next hone =>
    have hb := toNat_ofNat (n := v) (by omega)
    rw [List.singleton_append, decodeFrom_single (by omega), hb]
    rfl
  next =>
    split
    next htwo => exact decodeFrom_code_two (by omega) (by omega)
    next =>
      split
      next hthree => exact decodeFrom_code_three (by omega) (by omega) (by omega)
      next => exact decodeFrom_code_four (by omega) (by omega)

/-! ## All characters of a text -/

/-- The induction is on the characters. -/
theorem decodeFrom_flatMap (index : Nat) (xs : List Char) :
    decodeFrom index none (xs.flatMap String.utf8EncodeChar) = .ok xs := by
  induction xs generalizing index with
  | nil => rfl
  | cons x xs ih =>
      rw [List.flatMap_cons, decodeFrom_encodeChar, ih]
      rfl

/-- A text is read back from its bytes. -/
theorem decode_encode (s : String) : decode (encode s) = .ok s := by
  rw [decode, encode, decodeFrom_flatMap]
  exact congrArg Except.ok String.ofList_toList

/-- The size of a text is the number of its bytes. -/
theorem length_encode (s : String) : (encode s).length = s.utf8ByteSize := by
  have hbytes : s.toByteArray = (s.toList.flatMap String.utf8EncodeChar).toByteArray := by
    rw [← List.utf8Encode, ← String.toByteArray_ofList, String.ofList_toList]
  rw [encode, ← String.size_toByteArray, hbytes]
  simp

end BlockTable.Utf8
