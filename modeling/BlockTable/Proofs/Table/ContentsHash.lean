import BlockTable.Proofs.Table.Equality

/-!
# The hash of contents

The hash of an open table is the sum of the hashes of the entries of its map
(`Stores.entriesHash_eq`), in whatever order the slots list them.  Equal tables have maps whose
entries come in equal pairs, so they hash equally as soon as equal items do.  A closed table has no
hash, and what is fed to a hasher for it is the same for all.  None of this depends on which hasher
the contents are hashed with.
-/

namespace BlockTable

variable {κ ν : Type}

/-- The sum over answers that are all entries. -/
theorem Table.sumHashes_ok (f : κ × ν → UInt64) (entries : List (κ × ν)) (sum : UInt64) :
    sumHashes f (entries.map .ok) sum = .ok (entries.foldl (fun sum x => sum + f x) sum) := by
  induction entries generalizing sum with
  | nil => rfl
  | cons entry rest ih => exact ih (sum + f entry)

variable [BEq κ] {scheme scheme' : Scheme κ ν} {t t' : Table κ ν} {d : Dict κ ν}

theorem Stores.entriesHash_eq (h : Stores scheme t d) (hlawful : scheme.IsLawful)
    (f : κ × ν → UInt64) :
    t.entriesHash f = .ok (d.entries.foldl (fun sum x => sum + f x) 0) := by
  obtain ⟨entries, hentries, hperm⟩ := h.entries_eq hlawful
  rw [Table.entriesHash, hentries]
  exact (Table.sumHashes_ok f entries 0).trans (congrArg _ (Dict.foldl_add_perm f hperm))

omit [BEq κ] in
theorem Table.entriesHash_of_closed (h : t.slots? = none) (f : κ × ν → UInt64) :
    t.entriesHash f = .error .closed := by
  rw [entriesHash, entries, iterator, slots_of_none h]

variable [EquivBEq κ] [BEq ν]

/-- Equal tables have equal sums, if equal entries count the same. -/
theorem StandsFor.entriesHash_eq_of_beq {d? d'? : Option (Dict κ ν)} (h : StandsFor scheme t d?)
    (hlawful : scheme.IsLawful) (h' : StandsFor scheme' t' d'?) (hlawful' : scheme'.IsLawful)
    {f : κ × ν → UInt64} (hf : ∀ {x y}, Dict.Alike x y → f x = f y) (hbeq : t.beq t' = true) :
    t.entriesHash f = t'.entriesHash f := by
  have hclosed := Table.isClosed_eq_of_beq hbeq
  rw [h.isClosed_eq, h'.isClosed_eq] at hclosed
  cases d? with
  | none =>
      cases d'? with
      | none => rw [Table.entriesHash_of_closed h, Table.entriesHash_of_closed h']
      | some d' => cases hclosed
  | some d =>
      cases d'? with
      | none => cases hclosed
      | some d' =>
          obtain ⟨hsize, hholds⟩ := (Stores.beq_iff h hlawful h' hlawful').mp hbeq
          rw [Stores.entriesHash_eq h hlawful, Stores.entriesHash_eq h' hlawful',
            Dict.foldl_add_eq f hf hsize hholds]

/-- They are then fed alike to any hasher, since both are open or both are closed. -/
theorem StandsFor.feedsWith_eq_of_beq {d? d'? : Option (Dict κ ν)} (h : StandsFor scheme t d?)
    (hlawful : scheme.IsLawful) (h' : StandsFor scheme' t' d'?) (hlawful' : scheme'.IsLawful)
    {f : κ × ν → UInt64} (hf : ∀ {x y}, Dict.Alike x y → f x = f y) (hbeq : t.beq t' = true) :
    t.feedsWith (t.entriesHash f) = t'.feedsWith (t'.entriesHash f) := by
  have hsum := h.entriesHash_eq_of_beq hlawful h' hlawful' hf hbeq
  simp only [Table.feedsWith, hsum, Table.isClosed_eq_of_beq hbeq]

namespace History

/-- Whatever hasher the contents are hashed with: if equal items hash equally, equal tables hash
equally and are fed alike to any hasher, and so are equal maps.  The hash of an open table is the
sum, modulo `2 ^ 64`, over the entries of its map in any order, of the hash of the key xor the hash
of the value. -/
theorem contentsHash_eq_of_beq (a b : History κ ν) (content : Hasher)
    {feedsOfKey : κ → List Feed} {feedsOfValue : ν → List Feed}
    (hkey : ∀ {k k' : κ}, (k == k') = true →
      content.hash (feedsOfKey k) = content.hash (feedsOfKey k'))
    (hvalue : ∀ {v v' : ν}, (v == v') = true →
      content.hash (feedsOfValue v) = content.hash (feedsOfValue v')) :
    (a.table.beq b.table = true →
      a.table.contentsHash feedsOfKey feedsOfValue content =
          b.table.contentsHash feedsOfKey feedsOfValue content ∧
        a.table.feeds feedsOfKey feedsOfValue content =
          b.table.feeds feedsOfKey feedsOfValue content) ∧
    (BlockMap.beq false ⟨a.table⟩ ⟨b.table⟩ = true →
      BlockMap.feeds ⟨a.table⟩ feedsOfKey feedsOfValue content =
        BlockMap.feeds ⟨b.table⟩ feedsOfKey feedsOfValue content) ∧
    ∀ d, a.contents = some d → ∀ entries : List (κ × ν), entries.Perm d.entries →
      a.table.contentsHash feedsOfKey feedsOfValue content =
        .ok (entries.foldl (fun sum entry => sum +
          (content.hash (feedsOfKey entry.1) ^^^ content.hash (feedsOfValue entry.2))) 0) := by
  have hentry : ∀ {x y : κ × ν}, Dict.Alike x y →
      Table.entryHash content feedsOfKey feedsOfValue x =
        Table.entryHash content feedsOfKey feedsOfValue y := by
    intro x y h
    rw [Table.entryHash, Table.entryHash, hkey h.key, hvalue h.value]
  have hhash : a.table.beq b.table = true →
      a.table.contentsHash feedsOfKey feedsOfValue content =
        b.table.contentsHash feedsOfKey feedsOfValue content :=
    a.standsFor.entriesHash_eq_of_beq a.lawful b.standsFor b.lawful hentry
  have hfeeds : a.table.beq b.table = true →
      a.table.feeds feedsOfKey feedsOfValue content =
        b.table.feeds feedsOfKey feedsOfValue content :=
    a.standsFor.feedsWith_eq_of_beq a.lawful b.standsFor b.lawful hentry
  refine ⟨fun hbeq => ⟨hhash hbeq, hfeeds hbeq⟩, fun hbeq => ?_, fun d hd entries hperm => ?_⟩
  · rw [BlockMap.beq_eq, Bool.false_or] at hbeq
    exact hfeeds hbeq
  · have hstores : Stores a.scheme a.table d := by
      have h := a.standsFor
      rwa [hd] at h
    refine (hstores.entriesHash_eq a.lawful _).trans (congrArg _ ?_)
    exact Dict.foldl_add_perm _ hperm.symm

/-- The hash of two entries in different slots, with the hasher of the program. -/
theorem contentsHash_eq_of_beq_spread :
    let feedsOfKey : BitVec 8 → List Feed := fun k => [.word 1 k.toNat]
    let feedsOfValue : Bool → List Feed := fun v => [.word 1 v.toNat]
    crowded.table.beq spread.table = true ∧
      crowded.table.contentsHash feedsOfKey feedsOfValue =
        spread.table.contentsHash feedsOfKey feedsOfValue ∧
      crowded.table.feeds feedsOfKey feedsOfValue = [.word 1 0, .word 8 5950685925251634217] := by
  intro feedsOfKey feedsOfValue
  have hbeq : crowded.table.beq spread.table = true := by decide +kernel
  have hkey : ∀ {k k' : BitVec 8}, (k == k') = true →
      Hasher.multiplying.hash (feedsOfKey k) = Hasher.multiplying.hash (feedsOfKey k') :=
    fun h => by rw [eq_of_beq h]
  have hvalue : ∀ {v v' : Bool}, (v == v') = true →
      Hasher.multiplying.hash (feedsOfValue v) = Hasher.multiplying.hash (feedsOfValue v') :=
    fun h => by rw [eq_of_beq h]
  have h := contentsHash_eq_of_beq crowded spread .multiplying hkey hvalue
  refine ⟨hbeq, (h.1 hbeq).1, (h.1 hbeq).2.trans ?_⟩
  decide +kernel

end History

end BlockTable
