/-!
# UTF-8

The bytes of a text, and the characters of bytes.

`decode` reads byte by byte.  Between two characters nothing is pending.  Inside a character
`Pending` holds what the bytes so far say: where the character began, how many bytes are missing,
and the range of the next one.  That range is narrower than usual for the second byte after `E0`,
`ED`, `F0` and `F4`, which rules out overlong forms, surrogates and code points beyond the last one.

A fault names the first byte of the sequence that cannot be completed.  A sequence that meets a byte
outside its range is *invalid*, and its length is the number of bytes that fitted.  A sequence that
meets the end of the bytes is *incomplete*.
-/

namespace BlockTable.Utf8

/-- Why bytes are no text. -/
inductive Fault where
  /-- The `length` bytes from `start` on fit no character. -/
  | invalid (length start : Nat)
  /-- The bytes end within the character that begins at `start`. -/
  | incomplete (start : Nat)
  deriving DecidableEq, Repr

/-- The wording of a fault. -/
def Fault.message : Fault → String
  | .invalid length start => s!"invalid utf-8 sequence of {length} bytes from index {start}"
  | .incomplete start => s!"incomplete utf-8 byte sequence from index {start}"

/-- The bytes of a text. -/
def encode (s : String) : List UInt8 := s.toList.flatMap String.utf8EncodeChar

/-- A character of which some bytes are still missing. -/
structure Pending where
  /-- The index of the first byte. -/
  start : Nat
  /-- The number of missing bytes. -/
  missing : Nat
  /-- The bits of the code point read so far. -/
  code : Nat
  /-- The least byte that can follow. -/
  low : Nat := 0x80
  /-- The greatest byte that can follow. -/
  high : Nat := 0xBF

/-- What the first byte of a character of several bytes says, if it can be one. -/
def pending? (start : Nat) (lead : Nat) : Option Pending :=
  if lead < 0xC2 then none
  else if lead < 0xE0 then some { start, missing := 1, code := lead - 0xC0 }
  else if lead = 0xE0 then some { start, missing := 2, code := 0, low := 0xA0 }
  else if lead = 0xED then some { start, missing := 2, code := 0xD, high := 0x9F }
  else if lead < 0xF0 then some { start, missing := 2, code := lead - 0xE0 }
  else if lead = 0xF0 then some { start, missing := 3, code := 0, low := 0x90 }
  else if lead < 0xF4 then some { start, missing := 3, code := lead - 0xF0 }
  else if lead = 0xF4 then some { start, missing := 3, code := 4, high := 0x8F }
  else none

/-- The characters of the bytes from `index` on. -/
def decodeFrom : (index : Nat) → Option Pending → List UInt8 → Except Fault (List Char)
  | _, none, [] => .ok []
  | _, some p, [] => .error (.incomplete p.start)
  | index, none, b :: bs =>
      if b.toNat < 0x80 then (decodeFrom (index + 1) none bs).map (Char.ofNat b.toNat :: ·)
      else
        match pending? index b.toNat with
        | none => .error (.invalid 1 index)
        | some p => decodeFrom (index + 1) (some p) bs
  | index, some p, b :: bs =>
      if p.low ≤ b.toNat ∧ b.toNat ≤ p.high then
        let code := p.code * 64 + (b.toNat - 0x80)
        if p.missing ≤ 1 then (decodeFrom (index + 1) none bs).map (Char.ofNat code :: ·)
        else decodeFrom (index + 1) (some ⟨p.start, p.missing - 1, code, 0x80, 0xBF⟩) bs
      else .error (.invalid (index - p.start) p.start)

/-- The text of the bytes. -/
def decode (bs : List UInt8) : Except Fault String := (decodeFrom 0 none bs).map String.ofList

end BlockTable.Utf8
