import BlockTable.Codec.Script
import BlockTable.Proofs.Codec.Footprint
import BlockTable.Proofs.Table.Blocks

/-!
# The framing of blocks

A block is the field of its key and the field of its value, and nothing that a codec does while it
writes reaches across the border of its own body (`encode_framed`).  The codecs may state any sizes,
write by any requests and go on after refusals.  The body of each field is still what its codec
writes into a draft of its own, with zeros where it wrote nothing, and the header still holds the
length of the body.  So the length that the headers of a block tell is the length it was given, and
both ways of reading it, the value behind a skipped key and the key with the value behind it, hand
each codec its own body.
-/

namespace BlockTable

/-- The bytes `field` are the field of a value, and `body` is its body. -/
structure Codec.IsField {α : Type} (codec : Codec α) (x : α) (field body : List UInt8) : Prop where
  /-- The body is what the codec writes into a draft of its own. -/
  body_eq : codec.body x = .ok body
  /-- Bytes outside the footprint of this are zero. -/
  unwritten : ∀ i, (∀ s ∈ (codec.write x).footprint (.blank (codec.bodySize x)), ¬ s.Covers i) →
    body.getD i 0 = 0
  /-- A field of a fixed width is its body. -/
  bare : ∀ width, codec.width? = some width → body.length = width ∧ field = body
  /-- Any other field is the length of the body, and the body. -/
  headed : codec.width? = none → body.length = codec.size x ∧ body.length < headerLimit ∧
    field = LittleEndian.encode headerWidth body.length ++ body

theorem Codec.exists_isField {α : Type} {codec : Codec α} {x : α} {field : List UInt8}
    (h : codec.field x = .ok field) : ∃ body, codec.IsField x field body := by
  obtain ⟨header, body, hheader, hbody, rfl⟩ := field_ok h
  have hlen := length_body hbody
  rw [bodySize] at hlen
  rw [Codec.header] at hheader
  refine ⟨body, hbody, fun i hi => getD_body hbody hi, fun width hw => ?_, fun hw => ?_⟩
  · simp only [hw] at hheader hlen
    cases hheader
    exact ⟨hlen, rfl⟩
  · simp only [hw] at hheader hlen
    rw [hlen]
    split at hheader
    next hfits =>
      cases hheader
      exact ⟨rfl, hfits, rfl⟩
    next => cases hheader

namespace Scheme

variable {κ ν : Type} {scheme : Scheme κ ν} {k : κ} {v : ν} {b : Block}

/-- The block of an entry, however its codecs wrote it: two fields, of which the headers tell the
length of the block, and from which each codec reads its own body. -/
theorem encode_framed (h : scheme.encode k v = .ok b) :
    ∃ kf kb vf vb, b = kf ++ vf ∧ scheme.key.IsField k kf kb ∧ scheme.value.IsField v vf vb ∧
      b.length = scheme.blockSize k v ∧ scheme.storedSize b = scheme.blockSize k v ∧
      scheme.decodeKey b = (scheme.key.read ⟨kb⟩).1 ∧
      scheme.decodeValue b = (scheme.value.read ⟨vb⟩).1 ∧
      scheme.decode b = do
        let k ← (scheme.key.read ⟨kb⟩).1
        let v ← (scheme.value.read ⟨vb⟩).1
        return (k, v) := by
  obtain ⟨kf, vf, hk, hv, rfl⟩ := encode_ok.mp h
  obtain ⟨kb, hkey⟩ := Codec.exists_isField hk
  obtain ⟨vb, hvalue⟩ := Codec.exists_isField hv
  obtain ⟨kb', vb', hkb, hvb, hdecodeKey, hdecodeValue⟩ := read_encode h
  rw [hkey.body_eq] at hkb
  rw [hvalue.body_eq] at hvb
  cases hkb
  cases hvb
  refine ⟨kf, kb, vf, vb, rfl, hkey, hvalue, length_encode h,
    (storedSize_encode h).trans (length_encode h), hdecodeKey, hdecodeValue, ?_⟩
  rw [decode_encode h, hdecodeKey, hdecodeValue]
  cases (scheme.key.read ⟨kb⟩).1 with
  | error e => rfl
  | ok k => cases (scheme.value.read ⟨vb⟩).1 <;> rfl

/-- A key that leaves a byte out and goes on after a refusal, and a value that misstates its size
and writes too much. -/
def lying : Scheme Unit Unit where
  key := Rehearsal.codec ⟨none, 3, false,
    [⟨0, .put [1]⟩, ⟨0, .split 1⟩, ⟨0, .put [9, 9]⟩, ⟨1, .put [2]⟩], []⟩
  value := Rehearsal.codec ⟨some 2, 7, false, [⟨0, .put [5, 5, 5]⟩], []⟩
  hash _ := 0

theorem encode_framed_lying :
    lying.encode () () = .ok [3, 0, 0, 0, 1, 2, 0, 0, 0] ∧
      ∃ kf kb vf vb, [3, 0, 0, 0, 1, 2, 0, 0, 0] = kf ++ vf ∧ lying.key.IsField () kf kb ∧
        lying.value.IsField () vf vb ∧ lying.storedSize [3, 0, 0, 0, 1, 2, 0, 0, 0] = 9 := by
  have hencode : lying.encode () () = .ok [3, 0, 0, 0, 1, 2, 0, 0, 0] := rfl
  obtain ⟨kf, kb, vf, vb, hblock, hkey, hvalue, hlen, hstored, -⟩ := encode_framed hencode
  exact ⟨hencode, kf, kb, vf, vb, hblock, hkey, hvalue, hstored.trans hlen.symm⟩

end Scheme

end BlockTable
