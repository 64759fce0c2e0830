import BlockTable.Map
import BlockTable.Proofs.Table.Versions

/-!
# Sessions

A table in use: acts on the table, and steps of any number of iterators of it, in any order.  An
`Access` is what a user holds, a table itself or a map over one, and a `Session` is that with the
iterators made so far.

The `Life` of an iterator records what happens from its making on: how often the version was bumped,
and what the iterator answered.
-/

namespace BlockTable

/-- What is done in a session. -/
inductive Event (κ ν : Type) where
  /-- An act on the table. -/
  | act (a : Act κ ν)
  /-- A new iterator is made. -/
  | iterate
  /-- The iterator with this number is asked whether it has more. -/
  | hasMore (i : Nat)
  /-- The iterator with this number is asked for its next entry. -/
  | next (i : Nat)
  deriving DecidableEq, Repr

/-- What a step of an iterator answers. -/
inductive Reply (κ ν : Type) where
  | more (answer : Except TableError Bool)
  | entry (answer : Except TableError (κ × ν))

namespace Reply

variable {κ ν : Type}

def error? : Reply κ ν → Option TableError
  | .more (.error e) | .entry (.error e) => some e
  | .more (.ok _) | .entry (.ok _) => none

/-- The answer to a question for the next entry. -/
def entry? : Reply κ ν → Option (Except TableError (κ × ν))
  | .more _ => none
  | .entry answer => some answer

end Reply

/-- A table as its user holds it. -/
structure Access (σ κ ν : Type) [BEq κ] where
  /-- The table behind it. -/
  table : σ → Table κ ν
  act : σ → Act κ ν → σ
  iterator : σ → Except TableError Iterator
  hasMore : σ → Iterator → Except TableError Bool
  next : σ → Iterator → Except TableError (κ × ν) × Iterator
  table_act : ∀ x a, table (act x a) = (table x).act a
  iterator_eq : ∀ x, iterator x = (table x).iterator
  hasMore_eq : ∀ x it, hasMore x it = (table x).hasMore it
  next_eq : ∀ x it, next x it = (table x).next it

section

variable {κ ν : Type} [BEq κ]

/-- The table itself. -/
def Table.access : Access (Table κ ν) κ ν where
  table := id
  act := Table.act
  iterator := Table.iterator
  hasMore := Table.hasMore
  next := Table.next
  table_act _ _ := rfl
  iterator_eq _ := rfl
  hasMore_eq _ _ := rfl
  next_eq _ _ := rfl

/-- The map after an act. -/
def BlockMap.act (m : BlockMap κ ν) : Act κ ν → BlockMap κ ν
  | .call (.put k v) => (m.put k v).2
  | .call (.remove k) => (m.remove k).2
  | .call .clear => m.clear.2
  | .call _ => m
  | .close => m.close.2

/-- A map over a table. -/
def BlockMap.access : Access (BlockMap κ ν) κ ν where
  table := BlockMap.table
  act := BlockMap.act
  iterator := BlockMap.iterator
  hasMore := BlockMap.hasMore
  next := BlockMap.next
  table_act _ a := by
    cases a with
    | close => rfl
    | call c => cases c <;> rfl
  iterator_eq _ := rfl
  hasMore_eq _ _ := rfl
  next_eq _ _ := rfl

end

/-- A table in use, with its iterators in the order of their making. -/
structure Session (σ : Type) where
  host : σ
  iterators : List Iterator

/-- The life of an iterator so far. -/
structure Life (σ κ ν : Type) where
  /-- The session it is in. -/
  session : Session σ
  /-- What has happened since it was made. -/
  events : List (Event κ ν)
  /-- How often the version was bumped. -/
  bumps : Nat
  /-- What the iterator answered. -/
  replies : List (Reply κ ν)

/-- What the iterator answered when it was asked for its next entry. -/
def Life.answers {σ κ ν : Type} (l : Life σ κ ν) : List (Except TableError (κ × ν)) :=
  l.replies.filterMap Reply.entry?

namespace Access

variable {σ κ ν : Type} [BEq κ] (o : Access σ κ ν)

/-- The session after an event.  No iterator can be made of a closed table, and a number that no
iterator has yet stands for nothing. -/
def step (s : Session σ) : Event κ ν → Session σ
  | .act a => { s with host := o.act s.host a }
  | .iterate =>
      match o.iterator s.host with
      | .error _ => s
      | .ok it => { s with iterators := s.iterators ++ [it] }
  | .hasMore _ => s
  | .next i =>
      match s.iterators[i]? with
      | none => s
      | some it => { s with iterators := s.iterators.set i (o.next s.host it).2 }

/-- What the iterator with number `i` answers in an event. -/
def reply? (i : Nat) (s : Session σ) : Event κ ν → Option (Reply κ ν)
  | .hasMore j => if j = i then s.iterators[i]?.map fun it => .more (o.hasMore s.host it) else none
  | .next j => if j = i then s.iterators[i]?.map fun it => .entry (o.next s.host it).1 else none
  | .act _ | .iterate => none

/-- How often an event bumps the version. -/
def bumps (s : Session σ) : Event κ ν → Nat
  | .act a => (o.table s.host).bumps a
  | .iterate | .hasMore _ | .next _ => 0

/-- The session after a list of events. -/
def after (s : Session σ) (events : List (Event κ ν)) : Session σ := events.foldl o.step s

/-- One more event in the life of the iterator with number `i`. -/
def record (i : Nat) (l : Life σ κ ν) (e : Event κ ν) : Life σ κ ν where
  session := o.step l.session e
  events := l.events ++ [e]
  bumps := l.bumps + o.bumps l.session e
  replies := l.replies ++ (o.reply? i l.session e).toList

/-- The life of the iterator that is made in a session, and the events in it. -/
def life (s : Session σ) (events : List (Event κ ν)) : Life σ κ ν :=
  events.foldl (o.record s.iterators.length) ⟨o.step s .iterate, [], 0, []⟩

end Access

end BlockTable
