import BlockTable.Cursor.Draft

/-!
# Writings

What a codec does with the cursor it is given is a *writing*: a tree of requests, each followed by
what happens on its answer.  A codec can look at every answer and decide by it, go on after a
refusal, or give up.  It reaches the bytes by these requests only, so what holds of every writing
holds of every codec.

The cursor given is number 0, and each granted split makes the next number.  `within` splits a part
off and gives it to another writing, which sees it as its own number 0 and sees no other cursor.
-/

namespace BlockTable

/-- A tree of requests to cursors. -/
inductive Writing where
  /-- Ends with a result. -/
  | done (result : Except TableError Unit)
  /-- Writes bytes. -/
  | put (cursor : Nat) (bytes : List UInt8) (next : Except TableError Unit → Writing)
  /-- Makes the next cursor, over the next `width` bytes. -/
  | split (cursor width : Nat) (next : Except TableError Unit → Writing)
  /-- Asks how many bytes a cursor may still write. -/
  | room (cursor : Nat) (next : Nat → Writing)
  /-- Gives the next `width` bytes to another writing, and goes on with its result or with the
  refusal. -/
  | within (cursor width : Nat) (body : Writing) (next : Except TableError Unit → Writing)

namespace Writing

/-- Carries a draft through the requests. -/
def run : Writing → Draft → Except TableError Unit × Draft
  | .done result, d => (result, d)
  | .put cursor bytes next, d =>
      let (answer, d) := d.put cursor bytes
      (next answer).run d
  | .split cursor width next, d =>
      let (answer, d) := d.split cursor width
      (next answer).run d
  | .room cursor next, d => (next (d.room cursor)).run d
  | .within cursor width body next, d =>
      match d.reserve cursor width with
      | (.error e, d) => (next (.error e)).run d
      | (.ok start, d) =>
          let (answer, inner) := body.run ⟨d.bytes, [⟨start, width⟩]⟩
          (next answer).run { d with bytes := inner.bytes }

/-- Ends at once, without a request. -/
def skip : Writing := .done (.ok ())

/-- Ends with an error. -/
def fail (e : TableError) : Writing := .done (.error e)

/-- Goes on after a success, and ends with the error otherwise. -/
def onSuccess (next : Writing) : Except TableError Unit → Writing
  | .ok () => next
  | .error e => .fail e

/-- Writes bytes at the cursor given, and ends. -/
def bytes (bs : List UInt8) : Writing := .put 0 bs .done

end Writing

end BlockTable
