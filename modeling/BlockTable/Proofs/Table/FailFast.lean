import BlockTable.Proofs.Table.Sessions
import BlockTable.Proofs.Table.Staleness

/-!
# Iterators are fail-fast

An iterator answers entries only while its table is as it was when the iterator was made.  As soon
as anything changed it answers that the table was modified, and it says so for good, until the table
is closed.  Then it answers that.  So the entries that an iterator gave are at every time the first
ones of the blocks at its making, in the order of their slots.

This needs codecs that keep the two errors to the table, and a version that has not come round:
fewer than `2 ^ 64` bumps in the life of the iterator.  `Life.Tracks` is what every event keeps
(`Life.Tracks.record`), and so every life.
-/

namespace BlockTable

variable {σ κ ν : Type} [BEq κ] {o : Access σ κ ν} {l : Life σ κ ν} {t₀ : Table κ ν} {i : Nat}
  {it : Iterator} {e : Event κ ν} {r : Reply κ ν}

/-! ## Events -/

/-- A step of an iterator asks the table. -/
theorem Access.reply?_cases {s : Session σ} (hreply : o.reply? i s e = some r)
    (hit : s.iterators[i]? = some it) :
    r = .more ((o.table s.host).hasMore it) ∨ r = .entry ((o.table s.host).next it).1 := by
  cases e with
  | act | iterate => cases hreply
  | hasMore j =>
      rw [reply?] at hreply
      split at hreply
      next =>
        rw [hit] at hreply
        cases hreply
        exact .inl (congrArg _ (o.hasMore_eq _ _))
      next => cases hreply
  | next j =>
      rw [reply?] at hreply
      split at hreply
      next =>
        rw [hit] at hreply
        cases hreply
        exact .inr (congrArg (Reply.entry ·.1) (o.next_eq _ _))
      next => cases hreply

/-- A reply carries one of the two errors exactly when the table refuses the iterator with it. -/
theorem Access.error?_iff {s : Session σ} (hreply : o.reply? i s e = some r)
    (hit : s.iterators[i]? = some it)
    (hdecode : ∀ b e, (o.table s.host).scheme.decode b = .error e → ¬ e.IsStale) {e : TableError}
    (he : e.IsStale) : r.error? = some e ↔ (o.table s.host).staleness? it = some e := by
  cases hstale : (o.table s.host).staleness? it with
  | some e' =>
      obtain rfl | rfl := reply?_cases hreply hit
      · rw [Table.hasMore_eq, hstale]
        rfl
      · rw [Table.next_of_stale hstale]
        rfl
  | none =>
      refine iff_of_false (fun herror => ?_) (fun h => by cases h)
      obtain rfl | rfl := reply?_cases hreply hit
      · rw [Table.hasMore_eq, hstale] at herror
        cases herror
      · cases hnext : ((o.table s.host).next it).1 with
        | ok entry =>
            rw [hnext] at herror
            cases herror
        | error e' =>
            rw [hnext] at herror
            cases herror
            exact Table.next_error hdecode hstale hnext he

theorem Access.table_step (o : Access σ κ ν) (s : Session σ) (e : Event κ ν) :
    o.table (o.step s e).host = match e with
      | .act a => (o.table s.host).act a
      | .iterate | .hasMore _ | .next _ => o.table s.host := by
  cases e with
  | act a => exact o.table_act _ _
  | iterate =>
      rw [step]
      cases o.iterator s.host <;> rfl
  | hasMore j => rfl
  | next j =>
      rw [step]
      cases s.iterators[j]? <;> rfl

/-- What an event does to the table. -/
structure Access.Stepped (o : Access σ κ ν) (scheme : Scheme κ ν) (s : Session σ) (e : Event κ ν) :
    Prop where
  alive : Alive scheme (o.table (o.step s e).host)
  closed_iff : (o.table (o.step s e).host).slots? = none ↔
    (o.table s.host).slots? = none ∨ e = .act .close
  version : (o.table (o.step s e).host).version =
    (o.table s.host).version + UInt64.ofNat (o.bumps s e)
  same : o.bumps s e = 0 → e ≠ .act .close → o.table (o.step s e).host = o.table s.host

theorem Access.stepped {scheme : Scheme κ ν} {s : Session σ} (h : Alive scheme (o.table s.host))
    (e : Event κ ν) : o.Stepped scheme s e := by
  have htable := o.table_step s e
  cases e with
  | act a =>
      simp only at htable
      refine ⟨htable ▸ h.act a, ?_, htable ▸ h.act_version a, fun hbumps ha => ?_⟩
      · rw [htable, h.closed_iff, Event.act.injEq]
      · exact htable.trans (h.act_eq hbumps fun hclose => ha (congrArg _ hclose))
  | iterate | hasMore | next =>
      refine ⟨htable ▸ h, ?_, ?_, fun _ _ => htable⟩
      · rw [htable]
        exact (or_iff_left fun h => by cases h).symm
      · rw [htable]
        exact (UInt64.add_zero _).symm

/-- Only a step to its next entry moves an iterator. -/
theorem Access.step_iterator {s : Session σ} (hit : s.iterators[i]? = some it) (e : Event κ ν) :
    (e = .next i ∧ (o.step s e).iterators[i]? = some ((o.table s.host).next it).2 ∧
      o.reply? i s e = some (.entry ((o.table s.host).next it).1)) ∨
    ((o.step s e).iterators[i]? = some it ∧
      (o.reply? i s e).toList.filterMap Reply.entry? = []) := by
  obtain ⟨hlt, -⟩ := List.getElem?_eq_some_iff.mp hit
  cases e with
  | act a => exact .inr ⟨hit, rfl⟩
  | iterate =>
      refine .inr ⟨?_, rfl⟩
      rw [step]
      split
      next => exact hit
      next => exact (List.getElem?_append_left hlt).trans hit
  | hasMore j =>
      refine .inr ⟨hit, ?_⟩
      rw [reply?]
      split
      next =>
        rw [hit]
        rfl
      next => rfl
  | next j =>
      rw [step, reply?]
      by_cases hj : j = i
      · subst hj
        refine .inl ⟨rfl, ?_⟩
        rw [if_pos rfl, hit, ← o.next_eq]
        exact ⟨List.getElem?_set_self hlt, rfl⟩
      · rw [if_neg hj]
        refine .inr ⟨?_, rfl⟩
        split
        next => exact hit
        next => exact (List.getElem?_set_ne hj).trans hit

/-! ## Lives -/

/-- What holds in the life of the iterator with number `i`, which was made of the table `t₀`. -/
structure Life.Tracks (o : Access σ κ ν) (t₀ : Table κ ν) (i : Nat) (l : Life σ κ ν) : Prop where
  alive : Alive t₀.scheme (o.table l.session.host)
  closed_iff : (o.table l.session.host).slots? = none ↔ .act .close ∈ l.events
  version : (o.table l.session.host).version = t₀.version + UInt64.ofNat l.bumps
  same : l.bumps = 0 → .act .close ∉ l.events → o.table l.session.host = t₀
  iterator : ∃ it, l.session.iterators[i]? = some it ∧ it.version = t₀.version ∧
    (l.bumps = 0 → .act .close ∉ l.events → ∃ s, t₀.Passed s it l.answers)
  modified : (∃ r ∈ l.replies, r.error? = some .modified) → l.bumps ≠ 0

namespace Life.Tracks

/-- A closed table refuses the iterator as closed, and an open one as modified unless the bumps
come round to zero. -/
theorem staleness?_cases (h : l.Tracks o t₀ i) (hit : l.session.iterators[i]? = some it) :
    (.act .close ∈ l.events ∧ (o.table l.session.host).staleness? it = some .closed) ∨
      (.act .close ∉ l.events ∧ (o.table l.session.host).staleness? it =
        if UInt64.ofNat l.bumps = 0 then none else some .modified) := by
  obtain ⟨it', hit', hversion, -⟩ := h.iterator
  rw [hit] at hit'
  cases hit'
  rw [← h.closed_iff, Table.staleness?]
  cases (o.table l.session.host).slots? with
  | none => exact .inl ⟨rfl, rfl⟩
  | some s =>
      refine .inr ⟨fun h => (by cases h), ?_⟩
      simp only [h.version, hversion, ne_eq, UInt64.left_eq_add, ite_not]

theorem record_iterator (h : l.Tracks o t₀ i) (e : Event κ ν) :
    ∃ it, (o.record i l e).session.iterators[i]? = some it ∧ it.version = t₀.version ∧
      (l.bumps = 0 → .act .close ∉ l.events →
        ∃ s, t₀.Passed s it (o.record i l e).answers) := by
  obtain ⟨it, hit, hversion, hpassed⟩ := h.iterator
  have hanswers : (o.record i l e).answers =
      l.answers ++ (o.reply? i l.session e).toList.filterMap Reply.entry? :=
    List.filterMap_append ..
  rw [hanswers]
  obtain ⟨-, hmoved, hreply⟩ | ⟨hkept, hnone⟩ := Access.step_iterator (o := o) hit e
  · refine ⟨_, hmoved, (Table.next_version _ _).trans hversion, fun hzero hopen => ?_⟩
    obtain ⟨s, hs⟩ := hpassed hzero hopen
    have hsame := h.same hzero hopen
    have hsize := h.alive.size_eq
    rw [hsame, Table.blocks_of_some hs.slots] at hsize
    rw [hreply, hsame]
    exact ⟨s, hs.next hversion hsize⟩
  · rw [hnone, List.append_nil]
    exact ⟨it, hkept, hversion, hpassed⟩

theorem record_modified (h : l.Tracks o t₀ i)
    (hdecode : ∀ b e, t₀.scheme.decode b = .error e → ¬ e.IsStale) (e : Event κ ν)
    (hmodified : ∃ r ∈ (o.record i l e).replies, r.error? = some .modified) : l.bumps ≠ 0 := by
  obtain ⟨r, hr, herror⟩ := hmodified
  obtain hold | hnew := List.mem_append.mp hr
  · exact h.modified ⟨r, hold, herror⟩
  · obtain ⟨it, hit, -⟩ := h.iterator
    rw [← h.alive.scheme_eq] at hdecode
    rw [Access.error?_iff (Option.mem_toList.mp hnew) hit hdecode (.inl rfl)] at herror
    intro hzero
    obtain ⟨-, hstale⟩ | ⟨-, hstale⟩ := h.staleness?_cases hit
    · rw [hstale] at herror
      cases herror
    · have hnone : UInt64.ofNat l.bumps = 0 := by
        rw [hzero]
        rfl
      rw [hstale, if_pos hnone] at herror
      cases herror

/-- Every event keeps what holds in the life of an iterator. -/
theorem record (h : l.Tracks o t₀ i)
    (hdecode : ∀ b e, t₀.scheme.decode b = .error e → ¬ e.IsStale) (e : Event κ ν) :
    (o.record i l e).Tracks o t₀ i := by
  have hstep := Access.stepped h.alive e
  obtain ⟨it, hit, hversion, hpassed⟩ := h.record_iterator e
  have hevents : .act .close ∈ (o.record i l e).events ↔
      .act .close ∈ l.events ∨ e = .act .close := by
    simp only [Access.record, List.mem_append, List.mem_singleton, eq_comm]
  have hbumps : (o.record i l e).bumps = 0 → l.bumps = 0 ∧ o.bumps l.session e = 0 :=
    Nat.add_eq_zero_iff.mp
  refine ⟨hstep.alive, ?_, ?_, fun hzero hopen => ?_,
    ⟨it, hit, hversion, fun hzero hopen => ?_⟩, fun hmodified hzero => ?_⟩
  · rw [hevents, ← h.closed_iff]
    exact hstep.closed_iff
  · rw [Access.record, UInt64.ofNat_add, ← UInt64.add_assoc, ← h.version]
    exact hstep.version
  · rw [hevents, not_or] at hopen
    exact (hstep.same (hbumps hzero).2 hopen.2).trans (h.same (hbumps hzero).1 hopen.1)
  · rw [hevents, not_or] at hopen
    exact hpassed (hbumps hzero).1 hopen.1
  · exact h.record_modified hdecode e hmodified (hbumps hzero).1

end Life.Tracks

/-- An iterator begins ahead of the first block of an open table. -/
theorem Access.tracks_made {s : Session σ} {scheme : Scheme κ ν}
    (halive : Alive scheme (o.table s.host)) (hit : o.iterator s.host = .ok it) :
    (Life.mk (o.step s .iterate) ([] : List (Event κ ν)) 0 []).Tracks o (o.table s.host)
      s.iterators.length := by
  have hiterators : (o.step s .iterate).iterators = s.iterators ++ [it] := by rw [step, hit]
  have htable : o.table (o.step s .iterate).host = o.table s.host := o.table_step s .iterate
  rw [o.iterator_eq, Table.iterator] at hit
  cases hslots : (o.table s.host).slots? with
  | none =>
      rw [Table.slots_of_none hslots] at hit
      cases hit
  | some slots =>
      rw [Table.slots_of_some hslots] at hit
      cases hit
      refine ⟨?_, ?_, ?_, fun _ _ => htable, ⟨⟨0, 0, (o.table s.host).version⟩, ?_, rfl,
        fun _ _ => ⟨slots, hslots, slots.blocksFrom_zero, 0, ?_, .inl rfl⟩⟩, ?_⟩
      · rw [htable, halive.scheme_eq]
        exact halive
      · rw [htable, hslots]
        exact iff_of_false (fun h => by cases h) (fun h => by cases h)
      · rw [htable]
        exact (UInt64.add_zero _).symm
      · rw [hiterators, List.getElem?_concat_length]
      · simp [Life.answers]
      · rintro ⟨r, hr, -⟩
        cases hr

theorem Access.life_tracks {s : Session σ} {scheme : Scheme κ ν}
    (halive : Alive scheme (o.table s.host))
    (hdecode : ∀ b e, scheme.decode b = .error e → ¬ e.IsStale)
    (hit : o.iterator s.host = .ok it) (events : List (Event κ ν)) :
    (o.life s events).Tracks o (o.table s.host) s.iterators.length := by
  rw [← halive.scheme_eq] at hdecode
  exact List.foldlRecOn events _ (o.tracks_made halive hit) fun l h e _ => h.record hdecode e

theorem Access.after_alive {scheme : Scheme κ ν} {s : Session σ}
    (h : Alive scheme (o.table s.host)) (events : List (Event κ ν)) :
    Alive scheme (o.table (o.after s events).host) :=
  List.foldlRecOn (motive := fun s => Alive scheme (o.table s.host)) events o.step h
    fun _ h e _ => (Access.stepped h e).alive

/-! ## What an iterator owes -/

/-- What a reply `r` at the end of a life has to be, for an iterator made of the table `t₀`. -/
structure Access.Owed (o : Access σ κ ν) (t₀ : Table κ ν) (l : Life σ κ ν) (r : Reply κ ν) :
    Prop where
  /-- Only a table that is still the same is shown, and it is shown from the front. -/
  shown : r.error? ≠ some .modified → r.error? ≠ some .closed →
    (o.table l.session.host).slots? = t₀.slots? ∧ (o.table l.session.host).size = t₀.size ∧
      t₀.Lists (l.answers ++ r.entry?.toList)
  /-- Once modified, the table is called modified until it is closed. -/
  stale : (∃ earlier ∈ l.replies, earlier.error? = some .modified) →
    r.error? = some .modified ∨ .act .close ∈ l.events ∧ r.error? = some .closed
  /-- A closed table is called closed. -/
  closed : .act .close ∈ l.events → r.error? = some .closed

/-- Every iterator, made at any time, pays what it owes at every later time. -/
def Access.FailFast (o : Access σ κ ν) (x : σ) : Prop :=
  ∀ earlier later : List (Event κ ν),
    let start := o.after ⟨x, []⟩ earlier
    let i := start.iterators.length
    let l := o.life start later
    (∃ it, o.iterator start.host = .ok it) → l.bumps < UInt64.size →
      ∀ e, e = .hasMore i ∨ e = .next i →
        ∃ r, o.reply? i l.session e = some r ∧ o.Owed (o.table start.host) l r

theorem Life.Tracks.owed (h : l.Tracks o t₀ i)
    (hdecode : ∀ b e, t₀.scheme.decode b = .error e → ¬ e.IsStale) (hlt : l.bumps < UInt64.size)
    (hreply : o.reply? i l.session e = some r) : o.Owed t₀ l r := by
  obtain ⟨it, hit, -⟩ := h.iterator
  have hdecode' := hdecode
  rw [← h.alive.scheme_eq] at hdecode'
  have hmodified := Access.error?_iff hreply hit hdecode' (.inl rfl)
  have hclosed := Access.error?_iff hreply hit hdecode' (.inr rfl)
  obtain ⟨hclose, hstale⟩ | ⟨hopen, hstale⟩ := h.staleness?_cases hit
  · rw [hstale] at hmodified hclosed
    have hreply := hclosed.mpr rfl
    exact ⟨fun _ hne => absurd hreply hne, fun _ => .inr ⟨hclose, hreply⟩, fun _ => hreply⟩
  · rw [hstale] at hmodified hclosed
    by_cases hzero : UInt64.ofNat l.bumps = 0
    · have hbumps : l.bumps = 0 := by
        rw [← UInt64.toNat_ofNat_of_lt' hlt, hzero]
        rfl
      obtain ⟨it', -, -, hpassed⟩ := h.record_iterator e
      obtain ⟨s, hs⟩ := hpassed hbumps hopen
      have hanswers : (o.record i l e).answers = l.answers ++ r.entry?.toList := by
        rw [Life.answers, Access.record, hreply, List.filterMap_append]
        cases hentry : r.entry? <;> simp [hentry, Life.answers]
      rw [hanswers] at hs
      have hsame := h.same hbumps hopen
      exact ⟨fun _ _ => ⟨congrArg _ hsame, congrArg _ hsame, hs.lists⟩,
        fun hmodified => absurd hbumps (h.modified hmodified), fun hclose => absurd hclose hopen⟩
    · rw [if_neg hzero] at hmodified
      have hreply := hmodified.mpr rfl
      exact ⟨fun hne => absurd hreply hne, fun _ => .inl hreply, fun hclose => absurd hclose hopen⟩

theorem Access.failFast (o : Access σ κ ν) {scheme : Scheme κ ν} {x : σ}
    (halive : Alive scheme (o.table x)) (hkey : scheme.key.NeverStale)
    (hvalue : scheme.value.NeverStale) : o.FailFast x := by
  intro earlier later start i l hmade hlt e hask
  have hdecode : ∀ b e, scheme.decode b = .error e → ¬ e.IsStale := fun _ _ h =>
    Scheme.decode_not_stale hkey hvalue h
  have hstart : Alive scheme (o.table start.host) := after_alive (s := ⟨x, []⟩) halive earlier
  obtain ⟨it, hit⟩ := hmade
  have htracks : l.Tracks o (o.table start.host) i := life_tracks hstart hdecode hit later
  obtain ⟨r, hreply⟩ : ∃ r, o.reply? i l.session e = some r := by
    obtain ⟨it, hit, -⟩ := htracks.iterator
    obtain rfl | rfl := hask
    · exact ⟨_, by rw [reply?, if_pos rfl, hit, Option.map_some]⟩
    · exact ⟨_, by rw [reply?, if_pos rfl, hit, Option.map_some]⟩
  rw [← hstart.scheme_eq] at hdecode
  exact ⟨r, hreply, htracks.owed hdecode hlt hreply⟩

/-- Tables and maps, empty at first and with valid settings, have iterators that are fail-fast in
every session, if the codecs leave staleness to the table. -/
theorem iterators_failFast (scheme : Scheme κ ν) {sizing : Sizing}
    (hvalid : sizing.validate = .ok ()) (hkey : scheme.key.NeverStale)
    (hvalue : scheme.value.NeverStale) :
    Table.access.FailFast (.ofSizing scheme sizing) ∧
      BlockMap.access.FailFast ⟨.ofSizing scheme sizing⟩ :=
  have halive := alive_ofSizing scheme hvalid
  ⟨Table.access.failFast halive hkey hvalue, BlockMap.access.failFast halive hkey hvalue⟩

/-- A first entry is given, then its value is replaced, and then the map is closed. -/
theorem iterators_failFast_replaced :
    let sizing : Sizing := ⟨0x3fe0000000000000, 8, 8⟩
    let o : Access (BlockMap (BitVec 8) Bool) (BitVec 8) Bool := BlockMap.access
    let start := o.after ⟨⟨.ofSizing .crowding sizing⟩, []⟩
      [.act (.call (.put 1 true)), .act (.call (.put 2 true))]
    let l := o.life start [.next 0, .act (.call (.put 1 false)), .hasMore 0, .act .close]
    sizing.validate = .ok () ∧ Scheme.crowding.key.NeverStale ∧ Scheme.crowding.value.NeverStale ∧
      l.bumps = 1 ∧ l.replies.map Reply.error? = [none, some .modified] ∧
      ∃ r, o.reply? 0 l.session (.next 0) = some r ∧ o.Owed (o.table start.host) l r ∧
        r.error? = some .closed := by
  intro sizing o start l
  have hvalid : sizing.validate = .ok () := by decide +kernel
  have hkey : Scheme.crowding.key.NeverStale := Codec.native_neverStale 1
  have hvalue : Scheme.crowding.value.NeverStale := Codec.bool_neverStale
  have hbumps : l.bumps = 1 := by decide +kernel
  obtain ⟨-, hmap⟩ := iterators_failFast .crowding hvalid hkey hvalue
  obtain ⟨r, hreply, howed⟩ := hmap [.act (.call (.put 1 true)), .act (.call (.put 2 true))]
    [.next 0, .act (.call (.put 1 false)), .hasMore 0, .act .close]
    ⟨⟨0, 0, 2⟩, by decide +kernel⟩ (by decide +kernel) (.next 0) (.inr rfl)
  exact ⟨hvalid, hkey, hvalue, hbumps, by decide +kernel, r, hreply, howed,
    howed.closed (by decide +kernel)⟩

end BlockTable
