import BlockTable.Proofs.Text.Utf8

/-!
# Bytes that are texts

Bytes decode exactly if they are the bytes of a text, and then to that text (`decode_eq_ok_iff`).
`decode_encode` is one direction.  For the other one, decoding that succeeds is taken apart byte by
byte: `of_decodeFrom_more` and `of_decodeFrom_last` say what each further byte of a character has
been, and `pending?_bounds` what its first byte has been.  The ranges leave the code point in the
bounds at which a character has that many bytes, so writing it gives the bytes back
(`encodeChar_two`, `encodeChar_three` and `encodeChar_four`).
-/

namespace BlockTable.Utf8

variable {index start lead v : Nat} {a b c d : UInt8} {bs : List UInt8} {xs : List Char}
  {p : Pending}

/-! ## Bytes that were read -/

/-- No character of several bytes begins with a byte outside these bounds. -/
theorem pending?_bounds (h : pending? start lead = some p) : 0xC2 ≤ lead ∧ lead ≤ 0xF4 := by
  by_cases hlow : lead < 0xC2
  · rw [pending?, if_pos hlow] at h
    cases h
  · by_cases hhigh : 0xF4 < lead
    · rw [pending?, if_neg hlow, if_neg (by omega), if_neg (by omega), if_neg (by omega),
        if_neg (by omega), if_neg (by omega), if_neg (by omega), if_neg (by omega)] at h
      cases h
    · omega

theorem exists_of_map_cons {x : Char} {result : Except Fault (List Char)}
    (h : result.map (x :: ·) = .ok xs) : ∃ ys, result = .ok ys ∧ xs = x :: ys := by
  cases result with
  | error fault => cases h
  | ok ys =>
      cases h
      exact ⟨ys, rfl, rfl⟩

theorem of_decodeFrom_more (hmore : 1 < p.missing) (h : decodeFrom index (some p) bs = .ok xs) :
    ∃ b rest, bs = b :: rest ∧ p.low ≤ b.toNat ∧ b.toNat ≤ p.high ∧
      decodeFrom (index + 1)
        (some ⟨p.start, p.missing - 1, p.code * 64 + (b.toNat - 0x80), 0x80, 0xBF⟩) rest =
          .ok xs := by
  cases bs with
  | nil => cases h
  | cons b rest =>
      by_cases hrange : p.low ≤ b.toNat ∧ b.toNat ≤ p.high
      · rw [decodeFrom_more hrange.1 hrange.2 hmore] at h
        exact ⟨b, rest, rfl, hrange.1, hrange.2, h⟩
      · rw [decodeFrom, if_neg hrange] at h
        cases h

theorem of_decodeFrom_last (hlast : p.missing ≤ 1) (h : decodeFrom index (some p) bs = .ok xs) :
    ∃ b rest ys, bs = b :: rest ∧ p.low ≤ b.toNat ∧ b.toNat ≤ p.high ∧
      decodeFrom (index + 1) none rest = .ok ys ∧
      xs = Char.ofNat (p.code * 64 + (b.toNat - 0x80)) :: ys := by
  cases bs with
  | nil => cases h
  | cons b rest =>
      by_cases hrange : p.low ≤ b.toNat ∧ b.toNat ≤ p.high
      · rw [decodeFrom_last hrange.1 hrange.2 hlast] at h
        obtain ⟨ys, hrest, hxs⟩ := exists_of_map_cons h
        exact ⟨b, rest, ys, rfl, hrange.1, hrange.2, hrest, hxs⟩
      · rw [decodeFrom, if_neg hrange] at h
        cases h

/-! ## Characters written again -/

theorem ofNat_eq {n : Nat} (h : n = b.toNat) : UInt8.ofNat n = b := by
  rw [h, UInt8.ofNat_toNat]

theorem toNat_val_ofNat (h : v.isValidChar) : (Char.ofNat v).val.toNat = v := by
  rw [Char.ofNat, dif_pos h]
  rfl

theorem encodeChar_one (hb : b.toNat < 0x80) :
    String.utf8EncodeChar (Char.ofNat b.toNat) = [b] := by
  unfold String.utf8EncodeChar
  rw [toNat_val_ofNat (.inl (by omega))]
  rw [if_pos (by omega), ofNat_eq rfl]

theorem encodeChar_two (hlow : 0xC2 ≤ a.toNat) (hhigh : a.toNat < 0xE0) (hb : IsTail b) :
    String.utf8EncodeChar (Char.ofNat ((a.toNat - 0xC0) * 64 + (b.toNat - 0x80))) = [a, b] := by
  obtain ⟨hb, hb'⟩ := hb
  unfold String.utf8EncodeChar
  rw [toNat_val_ofNat (.inl (by omega)), if_neg (by omega), if_pos (by omega),
    ofNat_eq (b := a) (by omega), ofNat_eq (b := b) (by omega)]

theorem encodeChar_three (hlow : 0xE0 ≤ a.toNat) (hhigh : a.toNat < 0xF0) (hb : IsTail b)
    (hfirst : a.toNat = 0xE0 → 0xA0 ≤ b.toNat) (hsurrogate : a.toNat = 0xED → b.toNat ≤ 0x9F)
    (hc : IsTail c) :
    String.utf8EncodeChar (Char.ofNat
      (((a.toNat - 0xE0) * 64 + (b.toNat - 0x80)) * 64 + (c.toNat - 0x80))) = [a, b, c] := by
  obtain ⟨hb, hb'⟩ := hb
  obtain ⟨hc, hc'⟩ := hc
  -- neither overlong nor a surrogate
  have hvalid :
      (((a.toNat - 0xE0) * 64 + (b.toNat - 0x80)) * 64 + (c.toNat - 0x80)).isValidChar := by
    rw [Nat.isValidChar]
    omega
  unfold String.utf8EncodeChar
  rw [toNat_val_ofNat hvalid, if_neg (by omega), if_neg (by omega), if_pos (by omega),
    ofNat_eq (b := a) (by omega), ofNat_eq (b := b) (by omega), ofNat_eq (b := c) (by omega)]

theorem encodeChar_four (hlow : 0xF0 ≤ a.toNat) (hhigh : a.toNat ≤ 0xF4) (hb : IsTail b)
    (hfirst : a.toNat = 0xF0 → 0x90 ≤ b.toNat) (hlast : a.toNat = 0xF4 → b.toNat ≤ 0x8F)
    (hc : IsTail c) (hd : IsTail d) :
    String.utf8EncodeChar (Char.ofNat
      ((((a.toNat - 0xF0) * 64 + (b.toNat - 0x80)) * 64 + (c.toNat - 0x80)) * 64 +
        (d.toNat - 0x80))) = [a, b, c, d] := by
  obtain ⟨hb, hb'⟩ := hb
  obtain ⟨hc, hc'⟩ := hc
  obtain ⟨hd, hd'⟩ := hd
  -- neither overlong nor beyond the last code point
  have hvalid : ((((a.toNat - 0xF0) * 64 + (b.toNat - 0x80)) * 64 + (c.toNat - 0x80)) * 64 +
      (d.toNat - 0x80)).isValidChar := .inr (by omega)
  unfold String.utf8EncodeChar
  rw [toNat_val_ofNat hvalid, if_neg (by omega), if_neg (by omega), if_neg (by omega),
    ofNat_eq (b := a) (by omega), ofNat_eq (b := b) (by omega), ofNat_eq (b := c) (by omega),
    ofNat_eq (b := d) (by omega)]

/-! ## One character -/

/-- A second byte in the range that the first one sets. -/
theorem isTail_of_range {P Q : Prop} [Decidable P] [Decidable Q] {low high : Nat}
    (hlow : (if P then low else 0x80) ≤ b.toNat) (hhigh : b.toNat ≤ if Q then high else 0xBF)
    (hle : 0x80 ≤ low) (hge : high ≤ 0xBF) :
    IsTail b ∧ (P → low ≤ b.toNat) ∧ (Q → b.toNat ≤ high) := by
  refine ⟨⟨?_, ?_⟩, fun hP => ?_, fun hQ => ?_⟩
  · split at hlow <;> omega
  · split at hhigh <;> omega
  · rwa [if_pos hP] at hlow
  · rwa [if_pos hQ] at hhigh

/-- The bytes that decoding begins with are those of the first character. -/
theorem exists_encodeChar (h : decodeFrom index none (a :: bs) = .ok xs) :
    ∃ x ys rest index', a :: bs = String.utf8EncodeChar x ++ rest ∧ xs = x :: ys ∧
      decodeFrom index' none rest = .ok ys := by
  by_cases hsingle : a.toNat < 0x80
  · rw [decodeFrom_single hsingle] at h
    obtain ⟨ys, hrest, rfl⟩ := exists_of_map_cons h
    exact ⟨_, ys, bs, _, by rw [encodeChar_one hsingle]; rfl, rfl, hrest⟩
  · cases hp : pending? index a.toNat with
    | none =>
        rw [decodeFrom, if_neg hsingle, hp] at h
        cases h
    | some p =>
        rw [decodeFrom_lead hsingle hp] at h
        obtain ⟨hlow, hhigh⟩ := pending?_bounds hp
        obtain htwo | ⟨hthree, hthree'⟩ | hfour :
            a.toNat < 0xE0 ∨ (0xE0 ≤ a.toNat ∧ a.toNat < 0xF0) ∨ 0xF0 ≤ a.toNat := by omega
        · rw [pending?_two hlow htwo] at hp
          cases hp
          obtain ⟨b, rest, ys, rfl, hb, hb', hrest, rfl⟩ := of_decodeFrom_last (Nat.le_refl 1) h
          exact ⟨_, ys, rest, _, by rw [encodeChar_two hlow htwo ⟨hb, hb'⟩]; rfl, rfl, hrest⟩
        · rw [pending?_three hthree hthree'] at hp
          cases hp
          obtain ⟨b, bs, rfl, hb, hb', h⟩ := of_decodeFrom_more (Nat.lt_succ_self 1) h
          obtain ⟨c, rest, ys, rfl, hc, hc', hrest, rfl⟩ := of_decodeFrom_last (Nat.le_refl 1) h
          obtain ⟨htail, hfirst, hsurrogate⟩ := isTail_of_range hb hb' (by decide) (by decide)
          refine ⟨_, ys, rest, _, ?_, rfl, hrest⟩
          rw [encodeChar_three hthree hthree' htail hfirst hsurrogate ⟨hc, hc'⟩]
          rfl
        · rw [pending?_four hfour hhigh] at hp
          cases hp
          obtain ⟨b, bs, rfl, hb, hb', h⟩ := of_decodeFrom_more (by decide : 1 < 3) h
          obtain ⟨c, bs, rfl, hc, hc', h⟩ := of_decodeFrom_more (Nat.lt_succ_self 1) h
          obtain ⟨d, rest, ys, rfl, hd, hd', hrest, rfl⟩ := of_decodeFrom_last (Nat.le_refl 1) h
          obtain ⟨htail, hfirst, hlast⟩ := isTail_of_range hb hb' (by decide) (by decide)
          refine ⟨_, ys, rest, _, ?_, rfl, hrest⟩
          rw [encodeChar_four hfour hhigh htail hfirst hlast ⟨hc, hc'⟩ ⟨hd, hd'⟩]
          rfl

/-! ## All characters of a text -/

/-- The induction is on the characters that the bytes decode to. -/
theorem eq_flatMap_of_decodeFrom (h : decodeFrom index none bs = .ok xs) :
    bs = xs.flatMap String.utf8EncodeChar := by
  induction xs generalizing index bs with
  | nil =>
      cases bs with
      | nil => rfl
      | cons a bs =>
          obtain ⟨x, ys, rest, index', -, hxs, -⟩ := exists_encodeChar h
          cases hxs
  | cons x xs ih =>
      cases bs with
      | nil => cases h
      | cons a bs =>
          obtain ⟨y, ys, rest, index', hbs, hxs, hrest⟩ := exists_encodeChar h
          cases hxs
          rw [hbs, List.flatMap_cons, ← ih hrest]

/-- Bytes decode exactly if they are the bytes of a text, and then to that text. -/
theorem decode_eq_ok_iff {s : String} : decode bs = .ok s ↔ bs = encode s := by
  constructor
  · intro h
    rw [decode] at h
    cases hxs : decodeFrom 0 none bs with
    | error fault =>
        rw [hxs] at h
        cases h
    | ok xs =>
        rw [hxs] at h
        cases h
        rw [encode, String.toList_ofList]
        exact eq_flatMap_of_decodeFrom hxs
  · rintro rfl
    exact decode_encode s

example : (decode [0x61, 0xC3, 0xA9, 0xE2, 0x82, 0xAC]).toOption = some "aé€" := by decide +kernel

/-- A character of two bytes, spelt with three. -/
example : decode [0x61, 0xE0, 0x9F, 0x80] = .error (.invalid 1 1) := by rfl

end BlockTable.Utf8
