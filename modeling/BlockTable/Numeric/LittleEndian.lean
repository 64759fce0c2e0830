/-!
# Little-endian numbers

A number written in a fixed count of bytes, the least significant first.  Field lengths, array
counts and every scalar of a block are written this way.

A number of at most `8 * width` bits reads back from its `width` bytes (`decode_encode`), and any
bytes are the written form of the number they spell (`encode_decode`), so the two directions are
inverse to each other at every width.
-/

namespace BlockTable.LittleEndian

/-- The `width` lowest bytes of `n`, the least significant first. -/
def encode : (width : Nat) → (n : Nat) → List UInt8
  | 0, _ => []
  | width + 1, n => UInt8.ofNat n :: encode width (n / 256)

/-- The number that the bytes spell, the least significant first. -/
def decode : List UInt8 → Nat
  | [] => 0
  | b :: bs => b.toNat + 256 * decode bs

@[simp] theorem length_encode (width n : Nat) : (encode width n).length = width := by
  induction width generalizing n with
  | zero => rfl
  | succ width ih => simp [encode, ih]

theorem decode_encode {width n : Nat} (h : n < 1 <<< (8 * width)) :
    decode (encode width n) = n := by
  induction width generalizing n with
  | zero =>
      have hzero : n = 0 := by simpa using h
      rw [hzero]
      rfl
  | succ width ih =>
      have hdiv : n / 256 < 1 <<< (8 * width) := by
        rw [Nat.div_lt_iff_lt_mul (by decide)]
        rwa [Nat.mul_succ, Nat.shiftLeft_add, Nat.shiftLeft_eq _ 8] at h
      simp only [encode, decode, ih hdiv, UInt8.toNat_ofNat']
      omega

/-- Any bytes are the written form of the number that they spell. -/
theorem encode_decode (bs : List UInt8) : encode bs.length (decode bs) = bs := by
  induction bs with
  | nil => rfl
  | cons b bs ih =>
      have hb : b.toNat < 256 := b.toNat_lt
      have hdiv : (b.toNat + 256 * decode bs) / 256 = decode bs := by omega
      have hmod : UInt8.ofNat (b.toNat + 256 * decode bs) = b := by
        apply UInt8.toNat_inj.1
        simp only [UInt8.toNat_ofNat']
        omega
      simp only [List.length_cons, encode, decode, hdiv, ih, hmod]

/-- Bytes spell no number of more bits than they have. -/
theorem decode_lt (bs : List UInt8) : decode bs < 1 <<< (8 * bs.length) := by
  induction bs with
  | nil => exact Nat.one_pos
  | cons b bs ih =>
      have hb : b.toNat < 256 := b.toNat_lt
      rw [decode, List.length_cons, Nat.mul_succ, Nat.shiftLeft_add, Nat.shiftLeft_eq _ 8]
      omega

end BlockTable.LittleEndian
