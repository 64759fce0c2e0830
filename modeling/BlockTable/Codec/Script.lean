import BlockTable.Codec.Basic

/-!
# Scripts

A *script* is a list of requests to numbered cursors, fixed beforehand.  Cursor 0 is the one given,
and each granted split makes the next number.  A script that is *strict* ends at the first refusal,
and any other one goes on to its end.

A script for writing runs on a draft and one for reading on the readers made so far.  Both leave a
log with a line for each request: the answer, and what the cursor has left.  `Rehearsal` is a codec
whose two directions are scripts.
-/

namespace BlockTable

/-- A line of a log: the answer to a request, and what its cursor has left then. -/
structure LogLine (α : Type) where
  /-- The answer. -/
  answer : Except TableError α
  /-- How many bytes the cursor has left. -/
  left : Nat

/-! ## Scripts for writing -/

/-- A request of a script for writing. -/
inductive WriteRequest where
  /-- Writes bytes. -/
  | put (bytes : List UInt8)
  /-- Makes the next cursor. -/
  | split (width : Nat)
  deriving DecidableEq, Repr

/-- A request to a cursor. -/
structure WriteStep where
  /-- The number of the cursor. -/
  cursor : Nat
  /-- What is asked of it. -/
  request : WriteRequest
  deriving DecidableEq, Repr

/-- The answer to a step, and the draft after it. -/
def Draft.step (d : Draft) (s : WriteStep) : Except TableError Unit × Draft :=
  match s.request with
  | .put bytes => d.put s.cursor bytes
  | .split width => d.split s.cursor width

/-- The step as a request of a writing. -/
def WriteStep.writing (s : WriteStep) (next : Except TableError Unit → Writing) : Writing :=
  match s.request with
  | .put bytes => .put s.cursor bytes next
  | .split width => .split s.cursor width next

/-- The script as a writing. -/
def Writing.ofScript (strict : Bool) : List WriteStep → Writing
  | [] => .skip
  | s :: rest =>
      s.writing fun
        | .ok () => ofScript strict rest
        | .error e => if strict then .fail e else ofScript strict rest

/-- The log of a script for writing. -/
def Draft.log (strict : Bool) : List WriteStep → Draft → List (LogLine Unit)
  | [], _ => []
  | s :: rest, d =>
      let (answer, d) := d.step s
      ⟨answer, d.room s.cursor⟩ ::
        match answer with
        | .ok () => Draft.log strict rest d
        | .error _ => if strict then [] else Draft.log strict rest d

/-! ## Scripts for reading -/

/-- A request of a script for reading. -/
inductive ReadRequest where
  /-- Reads bytes. -/
  | take (width : Nat)
  /-- Makes the next cursor. -/
  | split (width : Nat)
  deriving DecidableEq, Repr

/-- A request to a cursor. -/
structure ReadStep where
  /-- The number of the cursor. -/
  cursor : Nat
  /-- What is asked of it. -/
  request : ReadRequest
  deriving DecidableEq, Repr

/-- The readers made so far, by the numbers of their cursors. -/
abbrev Readers := List Reader

namespace Readers

/-- The reader of a cursor.  A number that no cursor has yet stands for a reader at its end. -/
def reader (rs : Readers) (cursor : Nat) : Reader := rs[cursor]?.getD ⟨[]⟩

/-- The answer to a step, and the readers after it.  A split answers no bytes. -/
def step (rs : Readers) (s : ReadStep) : Except TableError (List UInt8) × Readers :=
  match s.request with
  | .take width =>
      let (answer, r) := (rs.reader s.cursor).take width
      (answer, rs.set s.cursor r)
  | .split width =>
      match (rs.reader s.cursor).split width with
      | (.ok part, r) => (.ok [], rs.set s.cursor r ++ [part])
      | (.error e, r) => (.error e, rs.set s.cursor r)

/-- Runs a script: the log, the result, and the readers at the end. -/
def run (strict : Bool) : List ReadStep → Readers →
    List (LogLine (List UInt8)) × Except TableError Unit × Readers
  | [], rs => ([], .ok (), rs)
  | s :: rest, rs =>
      let (answer, rs) := rs.step s
      let line : LogLine (List UInt8) := ⟨answer, (rs.reader s.cursor).remaining⟩
      match strict, answer with
      | true, .error e => ([line], .error e, rs)
      | _, _ =>
          let (lines, result) := run strict rest rs
          (line :: lines, result)

end Readers

/-! ## A codec of two scripts -/

/-- A codec in the making: its sizes, and a script for each direction. -/
structure Rehearsal where
  /-- The width that the codec states. -/
  width? : Option Nat
  /-- The size that the codec states. -/
  size : Nat
  /-- Whether a refusal ends a script. -/
  strict : Bool
  /-- The script for writing. -/
  writes : List WriteStep
  /-- The script for reading. -/
  reads : List ReadStep

namespace Rehearsal

/-- The codec.  It stores no value but what its script writes. -/
def codec (p : Rehearsal) : Codec Unit where
  width? := p.width?
  size _ := p.size
  write _ := .ofScript p.strict p.writes
  read r :=
    let (_, result, rs) := Readers.run p.strict p.reads [r]
    (result, Readers.reader rs 0)

/-- The log of the script for writing in a field of its own.  There is none if the field has no
header. -/
def writeLog (p : Rehearsal) : List (LogLine Unit) :=
  let width := p.codec.bodySize ()
  if p.width? = none ∧ Codec.headerLimit ≤ width then []
  else Draft.log p.strict p.writes (.blank width)

/-- The log of the script for reading over a body. -/
def readLog (p : Rehearsal) (body : List UInt8) : List (LogLine (List UInt8)) :=
  (Readers.run p.strict p.reads [⟨body⟩]).1

end Rehearsal

end BlockTable
