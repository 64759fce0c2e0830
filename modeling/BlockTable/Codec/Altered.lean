import BlockTable.Codec.Basic

/-!
# Altered codecs

Codecs made from another one by changing what it says or writes, and never what it reads.  With them
a value can be given too small a field, be refused, or be stored as bytes of another value or of
none.
-/

namespace BlockTable.Codec

variable {α : Type} (codec : Codec α)

/-- The codec with other sizes. -/
def sized (width? : Option Nat) (size : Nat) : Codec α :=
  { codec with width?, size := fun _ => size }

/-- The codec with one value refused, in the given words and before anything is written. -/
def refusing [BEq α] (refused : α) (words : String) : Codec α :=
  { codec with
    write := fun x => if x == refused then .fail (.argument (.other words)) else codec.write x }

/-- The codec with listed values stored as the bytes listed with them.  Of two lines for a value the
first counts. -/
def substituting [BEq α] (listed : List (α × List UInt8)) : Codec α :=
  { codec with
    size := fun x =>
      match listed.lookup x with
      | some bs => bs.length
      | none => codec.size x
    write := fun x =>
      match listed.lookup x with
      | some bs => .bytes bs
      | none => codec.write x }

end BlockTable.Codec
