import BlockTable.Table.Iterator

/-!
# Contents

What is said of the contents of a table as a whole: whether two tables hold the same, the hash of
the contents, their text, and the description of a table.

Equality and hash see the entries only.  They do not see the order of the slots, the number of
slots, or the hash function that places the keys, since contents are hashed with a hasher of their
own and the hashes of the entries are added.  That hasher is a parameter, which the program leaves
at `Hasher.multiplying`.  An entry that does not decode makes a table unequal to every other and its
hash zero.
-/

namespace BlockTable.Table

variable {κ ν : Type}

/-! ## Equality -/

/-- Every answer is an entry that the table holds with an equal value. -/
def holdsAll [BEq κ] [BEq ν] (t : Table κ ν) :
    List (Except TableError (κ × ν)) → Except TableError Bool
  | [] => .ok true
  | .error e :: _ => .error e
  | .ok (k, v) :: rest =>
      match t.get k with
      | .error e => .error e
      | .ok none => .ok false
      | .ok (some v') => if v' == v then t.holdsAll rest else .ok false

/-- Two open tables hold the same entries. -/
def sameEntries [BEq κ] [BEq ν] (a b : Table κ ν) : Except TableError Bool :=
  match a.length, b.length, a.entries with
  | .error e, _, _ | .ok _, .error e, _ | .ok _, .ok _, .error e => .error e
  | .ok m, .ok n, .ok answers => if m = n then b.holdsAll answers else .ok false

/-- Both tables are closed, or both are open and hold the same entries. -/
def beq [BEq κ] [BEq ν] (a b : Table κ ν) : Bool :=
  match a.isClosed, b.isClosed with
  | true, true => true
  | false, false =>
      match a.sameEntries b with
      | .ok same => same
      | .error _ => false
  | _, _ => false

/-! ## Hash -/

/-- The sum of the hashes of the entries. -/
def sumHashes (hash : κ × ν → UInt64) :
    List (Except TableError (κ × ν)) → UInt64 → Except TableError UInt64
  | [], sum => .ok sum
  | .error e :: _, _ => .error e
  | .ok entry :: rest, sum => sumHashes hash rest (sum + hash entry)

/-- The sum of the hashes of all entries. -/
def entriesHash (t : Table κ ν) (hash : κ × ν → UInt64) : Except TableError UInt64 :=
  match t.entries with
  | .error e => .error e
  | .ok answers => sumHashes hash answers 0

/-- The hash of an entry: the hash of the key, xor the hash of the value. -/
def entryHash (content : Hasher) (feedsOfKey : κ → List Feed) (feedsOfValue : ν → List Feed)
    (entry : κ × ν) : UInt64 :=
  content.hash (feedsOfKey entry.1) ^^^ content.hash (feedsOfValue entry.2)

/-- The hash of the contents. -/
def contentsHash (t : Table κ ν) (feedsOfKey : κ → List Feed) (feedsOfValue : ν → List Feed)
    (content : Hasher := .multiplying) : Except TableError UInt64 :=
  t.entriesHash (entryHash content feedsOfKey feedsOfValue)

/-- What a table feeds to a hasher: whether it is closed, and a hash of its contents, which is zero
if there is none. -/
def feedsWith (t : Table κ ν) (hash : Except TableError UInt64) : List Feed :=
  [.word 1 t.isClosed.toNat, .word 8 (match hash with | .ok h => h.toNat | .error _ => 0)]

/-- How a table is fed to a hasher. -/
def feeds (t : Table κ ν) (feedsOfKey : κ → List Feed) (feedsOfValue : ν → List Feed)
    (content : Hasher := .multiplying) : List Feed :=
  t.feedsWith (t.contentsHash feedsOfKey feedsOfValue content)

/-! ## Text -/

/-- The lines of the entries, behind the text written so far.  An entry that does not decode ends
the text, and the error is what was written before it. -/
def writeLines (line : κ × ν → String) :
    List (Except TableError (κ × ν)) → (first : Bool) → String → Except String String
  | [], _, text => .ok text
  | .error _ :: _, _, text => .error text
  | .ok entry :: rest, first, text =>
      writeLines line rest false (text ++ (if first then "\n  " else ",\n  ") ++ line entry)

/-- The text of a table with a line for each entry. -/
def textWith (t : Table κ ν) (line : κ × ν → String) : Except String String :=
  match t.entries with
  | .error _ => .ok "<closed>"
  | .ok answers =>
      match writeLines line answers true "\x7b" with
      | .error text => .error text
      | .ok text => .ok (text ++ "\n\x7d")

/-- The text of a table, with a line `key=value` for each entry. -/
def text (t : Table κ ν) (textOfKey : κ → String) (textOfValue : ν → String) :
    Except String String :=
  t.textWith fun entry => textOfKey entry.1 ++ "=" ++ textOfValue entry.2

/-- The description of a table. -/
def outline (t : Table κ ν) : Outline :=
  .record "RawTable" (.ofList [
    ("capacity", .option (t.slots?.map fun s => .nat s.capacity)),
    ("size", .nat t.size),
    ("load_factor", .leaf (AmountStyle.described.text .double t.loadFactor.toNat)),
    ("modifications", .nat t.version.toNat)])

end BlockTable.Table
