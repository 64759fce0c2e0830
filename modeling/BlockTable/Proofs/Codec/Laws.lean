import BlockTable.Codec.Altered
import BlockTable.Codec.Stock
import BlockTable.Proofs.Codec.Fields

/-!
# Laws of codecs

A *lawful* codec writes every value, and reads every value back.  A *faithful* codec may refuse to
write a value and may fail to read it, but it reads no value as another one.

Both laws speak of a body alone (`Codec.body`).  They say nothing of what a codec does with other
bytes than its own, or with bytes behind them.
-/

namespace BlockTable

namespace Codec

variable {α : Type} {codec : Codec α}

/-- Every value fits its field and reads back from it. -/
structure IsLawful (codec : Codec α) : Prop where
  fits : codec.width? = none → ∀ x, codec.size x < headerLimit
  reads : ∀ x, ∃ bs, codec.body x = .ok bs ∧ (codec.read ⟨bs⟩).1 = .ok x

/-- What reads back is the value written. -/
structure IsFaithful (codec : Codec α) : Prop where
  eq_of_read : ∀ {x y bs}, codec.body x = .ok bs → (codec.read ⟨bs⟩).1 = .ok y → y = x

theorem IsLawful.read (h : codec.IsLawful) {x : α} {bs : List UInt8}
    (hbs : codec.body x = .ok bs) : (codec.read ⟨bs⟩).1 = .ok x := by
  obtain ⟨bs', hbs', hread⟩ := h.reads x
  rw [hbs] at hbs'
  cases hbs'
  exact hread

theorem IsLawful.isFaithful (h : codec.IsLawful) : codec.IsFaithful where
  eq_of_read hbs hread := by
    rw [h.read hbs] at hread
    cases hread
    rfl

theorem IsLawful.exists_field (h : codec.IsLawful) (x : α) : ∃ bs, codec.field x = .ok bs := by
  obtain ⟨bd, hbd, -⟩ := h.reads x
  exact Codec.exists_field hbd fun hw => h.fits hw x

/-! ## Stock and altered codecs -/

/-- A codec that writes all its bytes at once. -/
theorem body_of_bytes {x : α} {bs : List UInt8} (hw : codec.write x = .bytes bs)
    (hlen : bs.length = codec.bodySize x) : codec.body x = .ok bs := by
  obtain ⟨d, hput, hd⟩ := (Draft.holds_blank (codec.bodySize x)).put (Nat.le_of_eq hlen)
  rw [List.nil_append] at hd
  rw [body, hw, Writing.bytes, Writing.run, hput]
  show Except.ok (d.contents (codec.bodySize x)) = .ok bs
  rw [← hlen, hd.contents]

theorem native_isLawful (width : Nat) : (native width).IsLawful where
  fits h := by cases h
  reads x := by
    have hlen := LittleEndian.length_encode width x.toNat
    have hlt : x.toNat < 1 <<< (8 * width) := by
      rw [Nat.one_shiftLeft]
      exact x.isLt
    refine ⟨_, body_of_bytes rfl hlen, ?_⟩
    simp only [native]
    rw [Reader.takeNat, Reader.take_of_le (by simp [Reader.remaining])]
    simp only [List.take_of_length_le (Nat.le_of_eq hlen), LittleEndian.decode_encode hlt,
      BitVec.ofNat_toNat, BitVec.setWidth_eq]

theorem bool_isLawful : bool.IsLawful where
  fits h := by cases h
  reads x := by
    refine ⟨_, body_of_bytes rfl rfl, ?_⟩
    cases x <;> rfl

theorem unit_isLawful : unit.IsLawful where
  fits h := by cases h
  reads _ := ⟨[], rfl, rfl⟩

/-- A codec whose bodies are `n` bytes long may as well say so in a header. -/
theorem IsLawful.sized (h : codec.IsLawful) {n : Nat} (hsize : ∀ x, codec.bodySize x = n)
    (hn : n < headerLimit) : (codec.sized none n).IsLawful where
  fits _ _ := hn
  reads x := by
    obtain ⟨bs, hbs, hread⟩ := h.reads x
    rw [body, hsize x] at hbs
    exact ⟨bs, hbs, hread⟩

theorem IsFaithful.refusing [BEq α] (h : codec.IsFaithful) (refused : α) (words : String) :
    (codec.refusing refused words).IsFaithful where
  eq_of_read {x y bs} hbs hread := by
    rw [body] at hbs
    simp only [Codec.refusing] at hbs hread
    split at hbs
    next hrun =>
      cases hbs
      split at hrun
      next => cases hrun
      next =>
        refine h.eq_of_read (x := x) ?_ hread
        simp only [body, bodySize] at hrun ⊢
        rw [hrun]
    next => cases hbs

/-- Bytes listed for a value have to fill its field, and may only be read as that value. -/
theorem IsFaithful.substituting [BEq α] (h : codec.IsFaithful) {listed : List (α × List UInt8)}
    (hlisted : ∀ x bs, listed.lookup x = some bs →
      bs.length = (codec.substituting listed).bodySize x ∧
        ∀ y, (codec.read ⟨bs⟩).1 = .ok y → y = x) : (codec.substituting listed).IsFaithful where
  eq_of_read {x y bs} hbs hread := by
    cases hx : listed.lookup x with
    | some bs' =>
        obtain ⟨hlen, honly⟩ := hlisted x bs' hx
        have hwrite : (codec.substituting listed).write x = .bytes bs' := by
          simp only [Codec.substituting, hx]
        rw [body_of_bytes hwrite hlen] at hbs
        cases hbs
        exact honly y hread
    | none =>
        refine h.eq_of_read (x := x) ?_ hread
        simp only [body, bodySize, Codec.substituting, hx] at hbs ⊢
        exact hbs

end Codec

end BlockTable
