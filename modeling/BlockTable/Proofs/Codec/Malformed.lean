import BlockTable.Proofs.Codec.RoundTrip
import BlockTable.Table.Block

/-!
# Reading that fails

A stock codec fails to read only at malformed bytes: they end too early, or they decode to nothing
(`Stock.onlyMalformed`).  The first is the one error of a reader, and so of a field that is split
off.  The second comes from the codec of the value.

With any codecs, an entry that does not decode fails with one of these errors or with one that the
codec of its key or its value answers (`Scheme.decode_error`).
-/

namespace BlockTable

/-- The bytes end too early, or they decode to nothing. -/
def TableError.IsMalformed (e : TableError) : Prop :=
  (∃ requested remaining, e = .outOfRange requested remaining) ∨ ∃ fault, e = .undecodable fault

variable {r r' : Reader} {n : Nat} {e : TableError}

theorem TableError.undecodable_isMalformed (fault : DecodingFault) :
    (undecodable fault).IsMalformed := .inr ⟨fault, rfl⟩

/-- A reader fails where the bytes end, and nowhere else. -/
theorem Reader.take_error (h : r.take n = (.error e, r')) : e.IsMalformed := by
  rw [take] at h
  split at h
  next => cases h
  next =>
    cases h
    exact .inl ⟨_, _, rfl⟩

theorem Reader.split_error (h : r.split n = (.error e, r')) : e.IsMalformed := by
  rw [split] at h
  split at h
  next => cases h
  next htake =>
    cases h
    exact take_error htake

theorem Reader.takeNat_error (h : r.takeNat n = (.error e, r')) : e.IsMalformed := by
  rw [takeNat] at h
  split at h
  next => cases h
  next htake =>
    cases h
    exact take_error htake

/-! ## Codecs -/

namespace Codec

variable {α : Type} {codec element : Codec α}

theorem splitField_error (h : codec.splitField r = (.error e, r')) : e.IsMalformed := by
  rw [splitField] at h
  split at h
  next => exact Reader.split_error h
  next =>
    split at h
    next => exact Reader.split_error h
    next hheader =>
      cases h
      exact Reader.takeNat_error hheader

/-- Behind its header, a field fails as its codec does on the body alone. -/
theorem readField_error (h : (codec.readField r).1 = .error e) :
    e.IsMalformed ∨ ∃ body, (codec.read body).1 = .error e := by
  rw [readField] at h
  split at h
  next body _ _ => exact .inr ⟨body, h⟩
  next hsplit =>
    cases h
    exact .inl (splitField_error hsplit)

/-- Reading fails only at malformed bytes. -/
def OnlyMalformed (codec : Codec α) : Prop :=
  ∀ r e, (codec.read r).1 = .error e → e.IsMalformed

theorem native_onlyMalformed (width : Nat) : (native width).OnlyMalformed := by
  intro r e h
  simp only [native] at h
  split at h
  next => cases h
  next htake =>
    cases h
    exact Reader.takeNat_error htake

theorem bool_onlyMalformed : bool.OnlyMalformed := by
  intro r e h
  simp only [bool] at h
  split at h
  next => cases h
  next => cases h
  next =>
    cases h
    exact TableError.undecodable_isMalformed _
  next htake =>
    cases h
    exact Reader.takeNat_error htake

theorem char_onlyMalformed : char.OnlyMalformed := by
  intro r e h
  simp only [char] at h
  split at h
  next =>
    split at h
    next => cases h
    next =>
      cases h
      exact TableError.undecodable_isMalformed _
  next htake =>
    cases h
    exact Reader.takeNat_error htake

/-- A byte string is all that is left, so reading one never fails. -/
theorem bytes_onlyMalformed : bytes.OnlyMalformed := by
  rintro ⟨bs⟩ e h
  cases h.symm.trans (congrArg Prod.fst (Reader.take_remaining bs))

/-- A text is all that is left too, and can only decode to nothing. -/
theorem str_onlyMalformed : str.OnlyMalformed := by
  rintro ⟨bs⟩ e h
  simp only [str, Reader.take_remaining] at h
  split at h
  next => cases h
  next =>
    cases h
    exact TableError.undecodable_isMalformed _

theorem unit_onlyMalformed : unit.OnlyMalformed := by
  intro r e h
  cases h

/-- A field adds no error but that its bytes end. -/
theorem OnlyMalformed.field (h : element.OnlyMalformed)
    (hread : (element.readField r).1 = .error e) : e.IsMalformed := by
  rcases readField_error hread with hmalformed | ⟨body, hbody⟩
  · exact hmalformed
  · exact h body e hbody

/-- The induction is on the fields.  The first one that fails ends the row with its error. -/
theorem OnlyMalformed.row (h : element.OnlyMalformed)
    (hread : (readFields element n r).1 = .error e) : e.IsMalformed := by
  induction n generalizing r with
  | zero => cases hread
  | succ n ih =>
      rw [readFields] at hread
      split at hread
      next hfirst =>
        cases hread
        exact h.field (congrArg Prod.fst hfirst)
      next =>
        split at hread
        next hothers =>
          cases hread
          exact ih (congrArg Prod.fst hothers)
        next => cases hread

/-- An array fails at its count, at a count beyond the limit, or in its row. -/
theorem OnlyMalformed.array (h : element.OnlyMalformed) : (array element).OnlyMalformed := by
  intro r e hread
  simp only [Codec.array] at hread
  split at hread
  next htake =>
    cases hread
    exact Reader.takeNat_error htake
  next =>
    split at hread
    next => exact h.row hread
    next =>
      cases hread
      exact TableError.undecodable_isMalformed _

end Codec

/-- The induction is on the codec, where arrays ask for their elements. -/
theorem Stock.onlyMalformed {α : Type} (s : Stock α) : s.codec.OnlyMalformed := by
  induction s with
  | native width => exact Codec.native_onlyMalformed width
  | bool => exact Codec.bool_onlyMalformed
  | char => exact Codec.char_onlyMalformed
  | str => exact Codec.str_onlyMalformed
  | bytes => exact Codec.bytes_onlyMalformed
  | unit => exact Codec.unit_onlyMalformed
  | array element ih => exact ih.array

/-! ## Entries -/

/-- An entry fails in the field of its key or in the field of its value. -/
theorem Scheme.decode_error {κ ν : Type} {scheme : Scheme κ ν} {b : Block}
    (h : scheme.decode b = .error e) :
    e.IsMalformed ∨ (∃ body, (scheme.key.read body).1 = .error e) ∨
      ∃ body, (scheme.value.read body).1 = .error e := by
  rw [decode] at h
  split at h
  next hkey =>
    cases h
    rcases Codec.readField_error (congrArg Prod.fst hkey) with hmalformed | hread
    · exact .inl hmalformed
    · exact .inr (.inl hread)
  next =>
    split at h
    next hvalue =>
      cases h
      rcases Codec.readField_error hvalue with hmalformed | hread
      · exact .inl hmalformed
      · exact .inr (.inr hread)
    next => cases h

end BlockTable
