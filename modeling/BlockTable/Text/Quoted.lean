import BlockTable.Text.Unprintable

/-!
# Quoted text

A text between double quotes, with escapes for the quote, the backslash, and every character that
does not show by itself.  A single quote stays as it is.
-/

namespace BlockTable.Quoted

/-- The digits of a number in base sixteen, lower case. -/
def hex (n : Nat) : String := String.ofList (Nat.toDigits 16 n)

/-- A character inside a quoted text. -/
def escape (c : Char) : String :=
  if c = '\x00' then "\\0"
  else if c = '\t' then "\\t"
  else if c = '\n' then "\\n"
  else if c = '\r' then "\\r"
  else if c = '"' then "\\\""
  else if c = '\\' then "\\\\"
  else if Unprintable.contains c then "\\u\x7b" ++ hex c.toNat ++ "\x7d"
  else c.toString

/-- The quoted form of a text. -/
def encode (s : String) : String := "\"" ++ String.join (s.toList.map escape) ++ "\""

end BlockTable.Quoted
