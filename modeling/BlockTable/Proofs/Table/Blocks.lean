import BlockTable.Proofs.Codec.Laws
import BlockTable.Table.Block

/-!
# Blocks and the entries they stand for

A block is the field of its key and the field of its value (`encode_ok`), and each part is read
back from its own field.  What is read of a block is therefore what the codecs read of what they
wrote, and the laws of the codecs carry over to blocks.

A `Scheme.Entry` is a block together with the key and the value that it was written for.  The
block may be unreadable, but it still stands for that entry.
-/

namespace BlockTable.Scheme

variable {κ ν : Type} {scheme : Scheme κ ν} {k : κ} {v : ν} {b : Block}

/-! ## Writing and reading blocks -/

/-- A block is made of two fields. -/
theorem encode_eq (scheme : Scheme κ ν) (k : κ) (v : ν) : scheme.encode k v = do
    let kf ← scheme.key.field k
    let vf ← scheme.value.field v
    return kf ++ vf := by
  have hsize : scheme.key.fieldSize k ≤ scheme.blockSize k v := Nat.le_add_right ..
  obtain ⟨d, hrun, hkey⟩ := Codec.writeField_holds (Draft.holds_blank (scheme.blockSize k v))
    hsize (Writing.onSuccess (scheme.value.writeField v .done))
  rw [encode, writing, hrun]
  cases hkf : scheme.key.field k with
  | error e => rfl
  | ok kf =>
      have hroom : scheme.value.fieldSize v ≤ scheme.blockSize k v - kf.length := by
        rw [Codec.length_field hkf, blockSize]
        omega
      obtain ⟨d', hrun', hvalue⟩ :=
        Codec.writeField_holds (hkey kf hkf) hroom Writing.done
      simp only [Except.map, Writing.onSuccess]
      rw [hrun']
      cases hvf : scheme.value.field v with
      | error e => rfl
      | ok vf =>
          have hsize : scheme.blockSize k v = (kf ++ vf).length := by
            rw [List.length_append, Codec.length_field hkf, Codec.length_field hvf, blockSize]
          have hcontents := (hvalue vf hvf).contents
          rw [List.nil_append] at hcontents
          show Except.ok (d'.contents (scheme.blockSize k v)) = .ok (kf ++ vf)
          rw [hsize, hcontents]

/-- A block can be written exactly if both of its fields can. -/
theorem encode_ok : scheme.encode k v = .ok b ↔
    ∃ kf vf, scheme.key.field k = .ok kf ∧ scheme.value.field v = .ok vf ∧ b = kf ++ vf := by
  rw [encode_eq]
  constructor
  · intro h
    cases hkf : scheme.key.field k with
    | error e => rw [hkf] at h; cases h
    | ok kf =>
        cases hvf : scheme.value.field v with
        | error e => rw [hkf, hvf] at h; cases h
        | ok vf =>
            rw [hkf, hvf] at h
            cases h
            exact ⟨kf, vf, rfl, rfl, rfl⟩
  · rintro ⟨kf, vf, hkf, hvf, rfl⟩
    rw [hkf, hvf]
    rfl

theorem length_encode (h : scheme.encode k v = .ok b) : b.length = scheme.blockSize k v := by
  obtain ⟨kf, vf, hk, hv, rfl⟩ := encode_ok.mp h
  rw [List.length_append, Codec.length_field hk, Codec.length_field hv, blockSize]

/-- The headers of a block tell its length. -/
theorem storedSize_encode (h : scheme.encode k v = .ok b) : scheme.storedSize b = b.length := by
  obtain ⟨kf, vf, hk, hv, rfl⟩ := encode_ok.mp h
  have hvalue := Codec.storedSize_append hv []
  rw [List.append_nil] at hvalue
  rw [storedSize, Codec.storedSize_append hk, List.drop_left, hvalue, List.length_append]

theorem reader_encode (h : scheme.encode k v = .ok b) : scheme.reader b = ⟨b⟩ := by
  rw [reader, storedSize_encode h, List.take_length]

/-- The two bodies are split off a block one after the other. -/
theorem split_encode (h : scheme.encode k v = .ok b) :
    ∃ kb vb rest, scheme.key.body k = .ok kb ∧ scheme.value.body v = .ok vb ∧
      scheme.key.splitField (scheme.reader b) = (.ok ⟨kb⟩, rest) ∧
      scheme.value.splitField rest = (.ok ⟨vb⟩, ⟨[]⟩) := by
  rw [reader_encode h]
  obtain ⟨kf, vf, hk, hv, rfl⟩ := encode_ok.mp h
  obtain ⟨kb, hkb, hksplit⟩ := Codec.splitField_append hk vf
  obtain ⟨vb, hvb, hvsplit⟩ := Codec.splitField_append hv []
  rw [List.append_nil] at hvsplit
  exact ⟨kb, vb, ⟨vf⟩, hkb, hvb, hksplit, hvsplit⟩

/-- What is read of a block is what the codecs read of the two bodies. -/
theorem read_encode (h : scheme.encode k v = .ok b) :
    ∃ kb vb, scheme.key.body k = .ok kb ∧ scheme.value.body v = .ok vb ∧
      scheme.decodeKey b = (scheme.key.read ⟨kb⟩).1 ∧
      scheme.decodeValue b = (scheme.value.read ⟨vb⟩).1 := by
  obtain ⟨kb, vb, rest, hkb, hvb, hksplit, hvsplit⟩ := split_encode h
  refine ⟨kb, vb, hkb, hvb, ?_, ?_⟩
  · rw [decodeKey, Codec.readField, hksplit]
  · rw [decodeValue, valueBody, hksplit]
    simp only [hvsplit]

/-- A block decodes if its key and its value do.  If both fail, the error is that of the key. -/
theorem decode_encode (h : scheme.encode k v = .ok b) :
    scheme.decode b = match scheme.decodeKey b, scheme.decodeValue b with
      | .error e, _ => .error e
      | .ok _, .error e => .error e
      | .ok k, .ok v => .ok (k, v) := by
  obtain ⟨kb, vb, rest, -, -, hksplit, hvsplit⟩ := split_encode h
  rw [decode, decodeKey, decodeValue, valueBody, Codec.readField, hksplit]
  simp only [Codec.readField, hvsplit]
  cases (scheme.key.read ⟨kb⟩).1 with
  | error e => rfl
  | ok k =>
      simp only [hvsplit]
      cases (scheme.value.read ⟨vb⟩).1 <;> rfl

/-! ## Laws -/

variable [BEq κ]

/-- Both codecs are lawful, and equal keys have equal hashes. -/
structure IsLawful (scheme : Scheme κ ν) : Prop where
  key : scheme.key.IsLawful
  value : scheme.value.IsLawful
  hash : ∀ {k k' : κ}, (k == k') = true → scheme.hash k = scheme.hash k'

/-- Both codecs are faithful, and equal keys have equal hashes. -/
structure IsFaithful (scheme : Scheme κ ν) : Prop where
  key : scheme.key.IsFaithful
  value : scheme.value.IsFaithful
  hash : ∀ {k k' : κ}, (k == k') = true → scheme.hash k = scheme.hash k'

theorem IsLawful.isFaithful (h : scheme.IsLawful) : scheme.IsFaithful :=
  ⟨h.key.isFaithful, h.value.isFaithful, h.hash⟩

theorem IsFaithful.home_eq (h : scheme.IsFaithful) {k k' : κ} (hk : (k == k') = true)
    (capacity : Nat) : scheme.home k capacity = scheme.home k' capacity := by
  rw [home, home, h.hash hk]

theorem IsLawful.exists_encode (h : scheme.IsLawful) (k : κ) (v : ν) :
    ∃ b, scheme.encode k v = .ok b := by
  obtain ⟨kf, hk⟩ := h.key.exists_field k
  obtain ⟨vf, hv⟩ := h.value.exists_field v
  exact ⟨kf ++ vf, encode_ok.mpr ⟨kf, vf, hk, hv, rfl⟩⟩

/-! ## Entries -/

omit [BEq κ] in
theorem home_lt (scheme : Scheme κ ν) (k : κ) {capacity : Nat} (h : 0 < capacity) :
    scheme.home k capacity < capacity := Nat.mod_lt _ h

omit [BEq κ] in
/-- The home of a block is that of its key as it decodes. -/
theorem exists_decodeKey_of_blockHome {capacity slot : Nat}
    (h : scheme.blockHome capacity b = .ok slot) :
    ∃ k, scheme.decodeKey b = .ok k ∧ scheme.home k capacity = slot := by
  rw [blockHome] at h
  split at h
  next => cases h
  next k hk =>
    cases h
    exact ⟨k, hk, rfl⟩

omit [BEq κ] in
theorem blockHome_lt {capacity slot : Nat} (hc : 0 < capacity)
    (h : scheme.blockHome capacity b = .ok slot) : slot < capacity := by
  obtain ⟨k, -, rfl⟩ := exists_decodeKey_of_blockHome h
  exact scheme.home_lt k hc

/-- A block with the entry that it was written for. -/
structure Entry (scheme : Scheme κ ν) where
  key : κ
  value : ν
  block : Block
  encode_eq : scheme.encode key value = .ok block

namespace Entry

variable (e : scheme.Entry)

/-- The key and the value. -/
def pair : κ × ν := (e.key, e.value)

variable {e}

omit [BEq κ] in
/-- If the key of a block decodes at all, it is the key that was written. -/
theorem key_eq (h : scheme.key.IsFaithful) (hk : scheme.decodeKey e.block = .ok k) :
    k = e.key := by
  obtain ⟨kb, vb, hkb, -, hkey, -⟩ := read_encode e.encode_eq
  rw [hkey] at hk
  exact h.eq_of_read hkb hk

/-- If the value decodes at all, it too is the one that was written. -/
theorem value_eq (h : scheme.IsFaithful) (hv : scheme.decodeValue e.block = .ok v) :
    v = e.value := by
  obtain ⟨kb, vb, -, hvb, -, hvalue⟩ := read_encode e.encode_eq
  rw [hvalue] at hv
  exact h.value.eq_of_read hvb hv

/-- A block that answers whether it holds a key answers for its entry. -/
theorem holds_eq (h : scheme.key.IsFaithful) {answer : Bool}
    (hk : scheme.holds k e.block = .ok answer) : answer = (e.key == k) := by
  rw [holds] at hk
  split at hk
  next => cases hk
  next stored hstored =>
    cases hk
    rw [e.key_eq h hstored]

theorem blockHome_eq (h : scheme.IsFaithful) {capacity slot : Nat}
    (hs : scheme.blockHome capacity e.block = .ok slot) : scheme.home e.key capacity = slot := by
  obtain ⟨stored, hstored, rfl⟩ := exists_decodeKey_of_blockHome hs
  rw [e.key_eq h.key hstored]

theorem decodeKey_eq (h : scheme.IsLawful) (e : scheme.Entry) :
    scheme.decodeKey e.block = .ok e.key := by
  obtain ⟨kb, vb, hkb, -, hkey, -⟩ := read_encode e.encode_eq
  rw [hkey, h.key.read hkb]

theorem decodeValue_eq (h : scheme.IsLawful) (e : scheme.Entry) :
    scheme.decodeValue e.block = .ok e.value := by
  obtain ⟨kb, vb, -, hvb, -, hvalue⟩ := read_encode e.encode_eq
  rw [hvalue, h.value.read hvb]

/-- A block of lawful codecs decodes to the entry that it was written for. -/
theorem decode_eq (h : scheme.IsLawful) (e : scheme.Entry) :
    scheme.decode e.block = .ok e.pair := by
  rw [decode_encode e.encode_eq, e.decodeKey_eq h, e.decodeValue_eq h]
  rfl

end Entry

/-! ## Faults -/

/-- The errors of codecs: at a block that was written, or at an entry that is to be written. -/
inductive Fault (scheme : Scheme κ ν) : TableError → Prop where
  | key {entry : scheme.Entry} {e : TableError}
      (unread : scheme.decodeKey entry.block = .error e) : Fault scheme e
  | value {entry : scheme.Entry} {e : TableError}
      (unread : scheme.decodeValue entry.block = .error e) : Fault scheme e
  | entry {k : κ} {v : ν} {e : TableError}
      (unwritten : scheme.encode k v = .error e) : Fault scheme e

variable {e : TableError} {entry : scheme.Entry}

theorem decodeKey_of_holds (h : scheme.holds k b = .error e) :
    scheme.decodeKey b = .error e := by
  rw [holds] at h
  split at h
  next hkey =>
    cases h
    exact hkey
  next => cases h

theorem fault_of_holds (h : scheme.holds k entry.block = .error e) : scheme.Fault e :=
  .key (decodeKey_of_holds h)

omit [BEq κ] in
theorem decodeKey_of_blockHome {capacity : Nat} (h : scheme.blockHome capacity b = .error e) :
    scheme.decodeKey b = .error e := by
  rw [blockHome] at h
  split at h
  next hkey =>
    cases h
    exact hkey
  next => cases h

omit [BEq κ] in
theorem fault_of_blockHome {capacity : Nat}
    (h : scheme.blockHome capacity entry.block = .error e) : scheme.Fault e :=
  .key (decodeKey_of_blockHome h)

/-- Lawful codecs have no errors. -/
theorem IsLawful.not_fault (h : scheme.IsLawful) : ¬ scheme.Fault e := by
  intro hfault
  cases hfault with
  | key hkey =>
      rw [Entry.decodeKey_eq h] at hkey
      cases hkey
  | value hvalue =>
      rw [Entry.decodeValue_eq h] at hvalue
      cases hvalue
  | entry hentry =>
      obtain ⟨b, hb⟩ := h.exists_encode _ _
      rw [hb] at hentry
      cases hentry

/-! ## Samples -/

/-- Bytes as keys, which all have the same home slot, and truth values behind a header. -/
def crowding : Scheme (BitVec 8) Bool := ⟨.native 1, Codec.bool.sized none 1, fun _ => 0⟩

theorem crowding_isLawful : crowding.IsLawful where
  key := Codec.native_isLawful 1
  value := Codec.bool_isLawful.sized (fun _ => rfl) (by decide)
  hash _ := rfl

/-- Bytes as keys, each with a home of its own, and truth values. -/
def spreading : Scheme (BitVec 8) Bool := ⟨.native 1, .bool, fun k => UInt64.ofNat k.toNat⟩

theorem spreading_isLawful : spreading.IsLawful where
  key := Codec.native_isLawful 1
  value := Codec.bool_isLawful
  hash h := by rw [eq_of_beq h]

/-- Bytes as keys, each with a home of its own, and truth values.  The value `false` is stored as a
byte that does not decode. -/
def garbling : Scheme (BitVec 8) Bool :=
  ⟨.native 1, Codec.bool.substituting [(false, [7])], fun k => UInt64.ofNat k.toNat⟩

/-- Truth values as keys and values.  The key `true` is stored as bytes that do not decode, and the
value `false` is refused. -/
def failing : Scheme Bool Bool :=
  ⟨Codec.bool.substituting [(true, [7])], Codec.bool.refusing false "refused", fun _ => 0⟩

theorem failing_isFaithful : failing.IsFaithful where
  key := by
    refine Codec.bool_isLawful.isFaithful.substituting fun x bs h => ?_
    cases x with
    | false => cases h
    | true =>
        cases h
        exact ⟨rfl, fun y hread => by cases hread⟩
  value := Codec.bool_isLawful.isFaithful.refusing false "refused"
  hash _ := rfl

end BlockTable.Scheme
