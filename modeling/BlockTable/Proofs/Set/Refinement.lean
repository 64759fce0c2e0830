import BlockTable.Proofs.Set.Elements
import BlockTable.Proofs.Table.ContentsHash

/-!
# Sets refine finite sets

A set with a lawful codec of elements is open, and its map has the elements for its keys
(`BlockSet.Represents`).  A call on it is a call on the map, so a set answers like a finite set, for
a single call (`Represents.call`) and then for a run.

Whether two sets are equal, and what they are fed to a hasher as, is asked of the maps too.  There
a set leaves out the hashes of its values, and these are zero for a hasher that hashes no feeds to
zero (`BlockSet.feeds_eq`).
-/

namespace BlockTable

variable {α : Type}

namespace BlockSet

/-! ## Runs of calls -/

/-- The answer of a call and the set after it. -/
def call [BEq α] (s : BlockSet α) : SetCall α → Outcome SetAnswer × BlockSet α
  | .add x => ((s.add x).1.map .truth, (s.add x).2)
  | .contains x => ((Outcome.ofExcept (s.contains x)).map .truth, s)
  | .remove x => ((Outcome.ofExcept (s.remove x).1).map .truth, (s.remove x).2)
  | .length => ((Outcome.ofExcept s.length).map .count, s)
  | .isEmpty => ((Outcome.ofExcept s.isEmpty).map .truth, s)
  | .clear => ((Outcome.ofExcept s.clear.1).map fun () => .nothing, s.clear.2)

/-- The set after a run. -/
def after [BEq α] (s : BlockSet α) : List (SetCall α) → BlockSet α
  | [] => s
  | c :: cs => (s.call c).2.after cs

/-- The answers of a run. -/
def answers [BEq α] (s : BlockSet α) : List (SetCall α) → List (Outcome SetAnswer)
  | [] => []
  | c :: cs => (s.call c).1 :: (s.call c).2.answers cs

/-- A call is a call on the map. -/
theorem call_eq [BEq α] (s : BlockSet α) (c : SetCall α) :
    s.call c =
      ((s.map.table.call c.onMap).1.map c.read, ⟨⟨(s.map.table.call c.onMap).2⟩⟩) := by
  cases c with
  | add x =>
      simp only [call, add, BlockMap.put, SetCall.onMap, Table.call, Prod.map]
      cases (s.map.table.put x ()).1 <;> rfl
  | remove x =>
      simp only [call, remove, BlockMap.remove, SetCall.onMap, Table.call, Prod.map]
      cases (s.map.table.remove x).1 <;> rfl
  | clear =>
      simp only [call, clear, BlockMap.clear, SetCall.onMap, Table.call, Prod.map]
      cases s.map.table.clear.1 <;> rfl
  | contains x =>
      simp only [call, contains, BlockMap.contains, SetCall.onMap, Table.call]
      cases s.map.table.contains x <;> rfl
  | length =>
      simp only [call, length, BlockMap.length, SetCall.onMap, Table.call]
      cases s.map.table.length <;> rfl
  | isEmpty =>
      simp only [call, isEmpty, BlockMap.isEmpty, SetCall.onMap, Table.call]
      cases s.map.table.isEmpty <;> rfl

/-! ## Iterators -/

/-- The answers of at most `steps` steps, up to the end. -/
def drain (s : BlockSet α) : (steps : Nat) → Iterator → List (Except TableError α)
  | 0, _ => []
  | steps + 1, it =>
      match s.next? it with
      | (none, _) => []
      | (some answer, it) => answer :: s.drain steps it

/-- The induction is on the steps. -/
theorem drain_eq (s : BlockSet α) (steps : Nat) (it : Iterator) :
    s.drain steps it = (s.map.table.drain steps it).map (·.map Prod.fst) := by
  induction steps generalizing it with
  | zero => rfl
  | succ steps ih =>
      rw [drain, Table.drain, next?, BlockMap.next?]
      cases s.map.table.next? it with
      | mk answer? it' =>
          cases answer? with
          | none => rfl
          | some answer => exact congrArg _ (ih it')

/-! ## Making a set -/

/-- A set is made of a table with valid settings. -/
theorem of_make {element : Codec α} {hash : α → UInt64} {sizing : Sizing} {s : BlockSet α}
    (h : make element hash sizing = .done s) :
    sizing.validate = .ok () ∧ s = ⟨⟨.ofSizing (scheme element hash) sizing⟩⟩ := by
  rw [make, BlockMap.make, Table.make] at h
  cases hvalid : sizing.validate with
  | error e =>
      rw [hvalid] at h
      cases h
  | ok u =>
      rw [hvalid] at h
      simp only at h
      split at h
      next =>
        cases h
        exact ⟨rfl, rfl⟩
      next => cases h

/-! ## Contents -/

/-- If the hash of no feeds is zero, the values leave no trace in the hash of the map. -/
theorem feeds_eq (s : BlockSet α) {content : Hasher} (hempty : content.hash [] = 0)
    (feedsOfElement : α → List Feed) :
    s.feeds feedsOfElement content = s.map.feeds feedsOfElement (fun () => []) content := by
  have hentry : Table.entryHash content feedsOfElement (fun () => []) =
      fun entry => content.hash (feedsOfElement entry.1) := by
    funext entry
    rw [Table.entryHash, hempty, UInt64.xor_zero]
  rw [feeds, BlockMap.feeds, Table.feeds, Table.contentsHash, hentry]

/-! ## The finite set -/

variable [BEq α] {element : Codec α} {hash : α → UInt64} {s : BlockSet α} {e : FiniteSet α}

/-- The map of the set is open and has the elements for its keys. -/
def Represents (element : Codec α) (hash : α → UInt64) (s : BlockSet α) (e : FiniteSet α) : Prop :=
  ∃ d : Dict α Unit, Stores (scheme element hash) s.map.table d ∧ d.keys = e

variable [EquivBEq α]

namespace Represents

omit [EquivBEq α] in
theorem of_make {sizing : Sizing} (h : make element hash sizing = .done s) :
    Represents element hash s .empty := by
  obtain ⟨hvalid, rfl⟩ := BlockSet.of_make h
  exact ⟨.empty, stores_ofSizing _ hvalid, rfl⟩

/-- A call that does not give up answers like the finite set. -/
theorem call (h : Represents element hash s e) (hlawful : (scheme element hash).IsLawful)
    {c : SetCall α} (haborted : (s.call c).1 ≠ .aborted) :
    (s.call c).1 = .done (e.call c).1 ∧ Represents element hash (s.call c).2 (e.call c).2 := by
  obtain ⟨d, hstores, rfl⟩ := h
  rw [call_eq] at haborted ⊢
  have hmap : (s.map.table.call c.onMap).1 ≠ .aborted := by
    intro hmap
    rw [hmap] at haborted
    exact haborted rfl
  obtain ⟨hdone, hnext⟩ := hstores.call_of_lawful hlawful hmap
  rw [d.call_keys c, hdone]
  exact ⟨rfl, _, hnext, rfl⟩

/-- The induction is on the run, and both sets take it side by side. -/
theorem run (h : Represents element hash s e) (hlawful : (scheme element hash).IsLawful)
    (calls : List (SetCall α)) (haborted : .aborted ∉ s.answers calls) :
    s.answers calls = (e.answers calls).map .done ∧
      Represents element hash (s.after calls) (e.after calls) := by
  induction calls generalizing s e with
  | nil => exact ⟨rfl, h⟩
  | cons c cs ih =>
      rw [answers, List.mem_cons, not_or] at haborted
      obtain ⟨hdone, hnext⟩ := h.call hlawful (Ne.symm haborted.1)
      obtain ⟨hanswers, hafter⟩ := ih hnext haborted.2
      refine ⟨?_, hafter⟩
      rw [answers, FiniteSet.answers, List.map_cons, hdone, hanswers]

omit [EquivBEq α] in
/-- An iterator of its own answers each element once, and no more. -/
theorem drain_eq (h : Represents element hash s e) (hlawful : (scheme element hash).IsLawful) :
    ∃ (it : Iterator) (xs : List α), s.iterator = .ok it ∧ xs.Perm e.elements ∧
      ∀ steps, e.size < steps → s.drain steps it = xs.map .ok := by
  obtain ⟨d, hstores, rfl⟩ := h
  obtain ⟨it, entries, hit, hperm, hdrain⟩ := hstores.drain_eq hlawful
  refine ⟨it, entries.map Prod.fst, hit, hperm.map _, fun steps hsteps => ?_⟩
  rw [d.size_keys] at hsteps
  rw [BlockSet.drain_eq, hdrain steps hsteps, List.map_map, List.map_map]
  rfl

variable {element' : Codec α} {hash' : α → UInt64} {s' : BlockSet α} {e' : FiniteSet α}

/-- Two sets are equal exactly when they have the same elements. -/
theorem beq_iff (h : Represents element hash s e) (hlawful : (scheme element hash).IsLawful)
    (h' : Represents element' hash' s' e') (hlawful' : (scheme element' hash').IsLawful) :
    s.beq false s' = true ↔ ∀ x, e.has x = e'.has x := by
  obtain ⟨d, hstores, rfl⟩ := h
  obtain ⟨d', hstores', rfl⟩ := h'
  rw [beq, BlockMap.beq_eq, Bool.false_or, hstores.beq_iff hlawful hstores' hlawful',
    ← Dict.agrees_iff, Dict.agrees_iff_has]

/-- Equal sets are fed alike to any hasher, if equal elements hash equally. -/
theorem feeds_eq_of_beq (h : Represents element hash s e)
    (hlawful : (scheme element hash).IsLawful) (h' : Represents element' hash' s' e')
    (hlawful' : (scheme element' hash').IsLawful) {content : Hasher}
    {feedsOfElement : α → List Feed}
    (hfeeds : ∀ {x y : α}, (x == y) = true →
      content.hash (feedsOfElement x) = content.hash (feedsOfElement y))
    (hbeq : s.beq false s' = true) :
    s.feeds feedsOfElement content = s'.feeds feedsOfElement content := by
  obtain ⟨d, hstores, -⟩ := h
  obtain ⟨d', hstores', -⟩ := h'
  rw [beq, BlockMap.beq_eq, Bool.false_or] at hbeq
  have hstands : StandsFor (scheme element hash) s.map.table (some d) := hstores
  have hstands' : StandsFor (scheme element' hash') s'.map.table (some d') := hstores'
  have hentry : ∀ {x y : α × Unit}, Dict.Alike x y →
      content.hash (feedsOfElement x.1) = content.hash (feedsOfElement y.1) :=
    fun h => hfeeds h.key
  exact hstands.feedsWith_eq_of_beq hlawful hstands' hlawful' hentry hbeq

end Represents

end BlockSet

/-! ## Histories -/

/-- How a set came to be: how its elements are stored, its settings, and the calls since.  Its user
kept what a set asks for, and no `add` gave up. -/
structure SetHistory (α : Type) [BEq α] where
  element : Codec α
  hash : α → UInt64
  sizing : Sizing
  /-- The set when it was made. -/
  start : BlockSet α
  calls : List (SetCall α)
  lawful : element.IsLawful
  hash_eq : ∀ {x y : α}, (x == y) = true → hash x = hash y
  made : BlockSet.make element hash sizing = .done start
  unaborted : .aborted ∉ start.answers calls

namespace SetHistory

variable [BEq α]

/-- The set that a history leads to. -/
def set (h : SetHistory α) : BlockSet α := h.start.after h.calls

/-- The finite set that a history leads to. -/
def contents (h : SetHistory α) : FiniteSet α := FiniteSet.empty.after h.calls

theorem scheme_isLawful (h : SetHistory α) : (BlockSet.scheme h.element h.hash).IsLawful :=
  ⟨h.lawful, Codec.unit_isLawful, h.hash_eq⟩

theorem run [EquivBEq α] (h : SetHistory α) :
    h.start.answers h.calls = (FiniteSet.empty.answers h.calls).map .done ∧
      BlockSet.Represents h.element h.hash h.set h.contents :=
  (BlockSet.Represents.of_make h.made).run h.scheme_isLawful h.calls h.unaborted

/-- A set refines a finite set.  It answers like one, its iterator answers each element once and no
more, and two sets are equal exactly when they have the same elements.  Whatever hasher the contents
are hashed with, as long as it hashes no feeds to zero: equal sets are fed alike to a hasher if
equal elements hash equally, and a set is fed to it as its map is. -/
theorem refines_finiteSet [EquivBEq α] (a b : SetHistory α) (content : Hasher)
    (hempty : content.hash [] = 0) {feedsOfElement : α → List Feed}
    (hfeeds : ∀ {x y : α}, (x == y) = true →
      content.hash (feedsOfElement x) = content.hash (feedsOfElement y)) :
    a.start.answers a.calls = (FiniteSet.empty.answers a.calls).map .done ∧
    (∃ (it : Iterator) (xs : List α), a.set.iterator = .ok it ∧ xs.Perm a.contents.elements ∧
      ∀ steps, a.contents.size < steps → a.set.drain steps it = xs.map .ok) ∧
    (a.set.beq false b.set = true ↔ ∀ x, a.contents.has x = b.contents.has x) ∧
    (a.set.beq false b.set = true →
      a.set.feeds feedsOfElement content = b.set.feeds feedsOfElement content) ∧
    ∀ s : BlockSet α,
      s.feeds feedsOfElement content = s.map.feeds feedsOfElement (fun () => []) content := by
  obtain ⟨hanswers, ha⟩ := a.run
  obtain ⟨-, hb⟩ := b.run
  exact ⟨hanswers, ha.drain_eq a.scheme_isLawful,
    ha.beq_iff a.scheme_isLawful hb b.scheme_isLawful,
    ha.feeds_eq_of_beq a.scheme_isLawful hb b.scheme_isLawful hfeeds,
    fun s => s.feeds_eq hempty feedsOfElement⟩

/-- Elements at one home, with a gap closed in their midst. -/
def crowded : SetHistory (BitVec 8) where
  element := .native 1
  hash _ := 0
  sizing := ⟨0x3fe8000000000000, 4, 1⟩
  start := ⟨⟨.ofSizing (BlockSet.scheme (.native 1) fun _ => 0) ⟨0x3fe8000000000000, 4, 1⟩⟩⟩
  calls := [.add 1, .add 2, .add 3, .add 2, .remove 1, .contains 1, .remove 1, .length]
  lawful := Codec.native_isLawful 1
  hash_eq _ := rfl
  made := by rfl
  unaborted := by decide +kernel

/-- The same elements at homes of their own. -/
def spread : SetHistory (BitVec 8) where
  element := .native 1
  hash x := UInt64.ofNat x.toNat
  sizing := ⟨0x3fe0000000000000, 16, 8⟩
  start := ⟨⟨.ofSizing (BlockSet.scheme (.native 1) fun x => UInt64.ofNat x.toNat)
    ⟨0x3fe0000000000000, 16, 8⟩⟩⟩
  calls := [.clear, .add 3, .add 2, .isEmpty]
  lawful := Codec.native_isLawful 1
  hash_eq h := by rw [eq_of_beq h]
  made := by rfl
  unaborted := by decide +kernel

/-- Equal sets of different capacities. -/
theorem refines_finiteSet_crowded :
    let feedsOfElement : BitVec 8 → List Feed := fun x => [.word 1 x.toNat]
    crowded.set.capacity ≠ spread.set.capacity ∧
      crowded.start.answers crowded.calls =
        [.done (.truth true), .done (.truth true), .done (.truth true), .done (.truth false),
          .done (.truth true), .done (.truth false), .done (.truth false), .done (.count 2)] ∧
      crowded.set.beq false spread.set = true ∧
      crowded.set.feeds feedsOfElement = spread.set.feeds feedsOfElement := by
  intro feedsOfElement
  have hfeeds : ∀ {x y : BitVec 8}, (x == y) = true →
      Hasher.multiplying.hash (feedsOfElement x) = Hasher.multiplying.hash (feedsOfElement y) :=
    fun h => by rw [eq_of_beq h]
  have hempty : Hasher.multiplying.hash [] = 0 := by decide
  obtain ⟨hanswers, -, -, hhash, -⟩ :=
    refines_finiteSet crowded spread .multiplying hempty hfeeds
  have hbeq : crowded.set.beq false spread.set = true := by decide +kernel
  exact ⟨by decide +kernel, hanswers.trans (by decide +kernel), hbeq, hhash hbeq⟩

end SetHistory

end BlockTable
