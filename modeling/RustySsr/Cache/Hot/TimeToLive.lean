import RustySsr.Cache.Hot.Latest

/-!
Owns how old a value of the hot cache can be. A lookup that promotes an entry of
the hot map stores it anew, with a new time, so being read keeps an entry alive.
`boundsLife_iff` states for every run that the time-to-live bounds the age of
every answer exactly if no lookup promotes an entry that has aged.
-/

namespace RustySsr.Cache.HotCache

open RustySsr.Platform
open RustySsr.Foundation

/-- The user inserted this value under the key at this time. -/
def InsertedAt (events : List Event) (urlHash : UInt64) (html : String) (time : Nat) : Prop :=
  ⟨time, .insert urlHash html⟩ ∈ events

/-- The clock readings of the events do not decrease. -/
def Chronological (events : List Event) : Prop :=
  events.Pairwise fun first second => first.now ≤ second.now

instance (events : List Event) : Decidable (Chronological events) :=
  inferInstanceAs (Decidable (events.Pairwise fun first second => first.now ≤ second.now))

/-- After the events, every answer is a value inserted within the time-to-live
before the lookup. -/
def BoundsLife (ttlSecs : Nat) (events : List Event) : Prop :=
  ∀ urlHash html now, (∀ event ∈ events, event.now ≤ now) →
    ((Execution.run apply (withTtl ttlSecs) events).peek urlHash now = some html ∨
      ((Execution.run apply (withTtl ttlSecs) events).get urlHash now).1 = some html) →
    ∃ time, InsertedAt events urlHash html time ∧ now ≤ time + fromSecs ttlSecs

/-- A lookup that promotes an entry of the hot map finds one that has not aged. -/
def FreshPromotion (cache : HotCache) (event : Event) : Prop :=
  match event.op with
  | .get urlHash =>
      cache.firstUltraHot urlHash = none → ∀ entry, cache.hotMap.lookup urlHash = some entry →
        cache.isExpired entry event.now = false → event.now ≤ entry.createdAt
  | _ => True

/-! ### Everything a lookup can do -/

theorem get_cases (cache : HotCache) (urlHash : UInt64) (now : Nat) :
    (cache.get urlHash now).2 = cache ∨
      (∃ entry, cache.hotMap.lookup urlHash = some entry ∧
        (cache.get urlHash now).2 = { cache with hotMap := cache.hotMap.erase urlHash }) ∨
      ∃ entry, cache.firstUltraHot urlHash = none ∧ cache.hotMap.lookup urlHash = some entry ∧
        cache.isExpired entry now = false ∧
          (cache.get urlHash now).2 = cache.promoteToUltraHot urlHash entry.html now := by
  unfold get
  cases first : cache.firstUltraHot urlHash with
  | some entry =>
      dsimp only
      split_ifs <;> exact Or.inl rfl
  | none =>
      cases found : cache.hotMap.lookup urlHash with
      | none => exact Or.inl rfl
      | some entry =>
          dsimp only
          split_ifs with expired
          · exact Or.inr (Or.inl ⟨entry, rfl, rfl⟩)
          · exact Or.inr (Or.inr ⟨entry, rfl, rfl, Bool.eq_false_iff.mpr expired, rfl⟩)

/-! ### Fresh promotions keep the insertion times -/

/-- Every entry that a lookup may reach was inserted at its time or later. -/
def Dated (history : List Event) (cache : HotCache) : Prop :=
  ∀ key entry, cache.Exposes key entry →
    ∃ time, InsertedAt history key entry.html time ∧ entry.createdAt ≤ time

theorem Dated.mono {history longer : List Event} {cache : HotCache} (dated : Dated history cache)
    (kept : history ⊆ longer) : Dated longer cache := by
  intro key entry exposed
  obtain ⟨time, inserted, notLater⟩ := dated key entry exposed
  exact ⟨time, kept inserted, notLater⟩

theorem Dated.get {history : List Event} {cache : HotCache} (dated : Dated history cache)
    {urlHash : UInt64} {now : Nat} (fresh : FreshPromotion cache ⟨now, .get urlHash⟩) :
    Dated history (cache.get urlHash now).2 := by
  rcases cache.get_cases urlHash now with same | ⟨_, _, erased⟩ | ⟨entry, absent, found, live, moved⟩
  · rw [same]
    exact dated
  · rw [erased]
    exact fun key entry exposed => dated key entry (exposes_erase exposed)
  · rw [moved]
    intro key other exposed
    rcases exposes_promoteToUltraHot (firstUltraHot_none_iff.mp absent) exposed with
      ⟨rfl, rfl⟩ | old
    · obtain ⟨time, inserted, notLater⟩ :=
        dated key entry (.map found (firstUltraHot_none_iff.mp absent))
      exact ⟨time, inserted, (fresh absent entry found live).trans notLater⟩
    · exact dated key other old

theorem Dated.apply {history : List Event} {cache : HotCache} {event : Event}
    (dated : Dated history cache) (fresh : FreshPromotion cache event) :
    Dated (history ++ [event]) (cache.apply event) := by
  have older := dated.mono (List.subset_append_left history [event])
  obtain ⟨now, op⟩ := event
  cases op with
  | insert urlHash html =>
      intro key entry exposed
      rcases exposes_insert exposed with ⟨rfl, rfl | ⟨member, sameKey⟩⟩ | ⟨_, old⟩
      · exact ⟨now, List.mem_append_right _ (List.mem_singleton_self _), Nat.le_refl _⟩
      · exact older key entry (.recent member sameKey)
      · exact older key entry old
  | get urlHash => exact older.get fresh
  | peek urlHash => exact older
  | clear => exact fun key entry exposed => absurd exposed (cache.not_exposes_clear key entry)

theorem dated_run {ttlSecs : Nat} {events : List Event}
    (fresh : Execution.Guarded apply FreshPromotion (withTtl ttlSecs) events) :
    Dated events (Execution.run apply (withTtl ttlSecs) events) :=
  Execution.run_invariant (fun history cache => Dated history cache)
    (fun key entry exposed => absurd exposed (not_exposes_withTtl ttlSecs key entry))
    (fun _ _ _ dated guard => dated.apply guard) fresh

theorem apply_ttl (cache : HotCache) (event : Event) : (cache.apply event).ttl = cache.ttl := by
  obtain ⟨now, op⟩ := event
  cases op with
  | insert urlHash html => exact insert_ttl cache urlHash html now
  | get urlHash => exact get_ttl cache urlHash now
  | peek urlHash => rfl
  | clear => rfl

theorem run_ttl (ttlSecs : Nat) (events : List Event) :
    (Execution.run apply (withTtl ttlSecs) events).ttl = ttlOfSecs ttlSecs :=
  Execution.run_invariant_always (fun _ cache => cache.ttl = ttlOfSecs ttlSecs) rfl
    fun _ current event same => (apply_ttl current event).trans same

/-! ### The newest copy of a key -/

/-- The copy of the key that was stored last: in the ring, else in the hot map. -/
def newestCopy (cache : HotCache) (key : UInt64) : Option HotEntry :=
  ((cache.olderEntries ++ cache.recentEntries).reverse.find? fun entry => entry.urlHash = key).or
    (cache.hotMap.lookup key)

theorem newestCopy_of_absent {cache : HotCache} {key : UInt64}
    (absent : cache.firstUltraHot key = none) : cache.newestCopy key = cache.hotMap.lookup key := by
  have none : (cache.olderEntries ++ cache.recentEntries).reverse.find?
      (fun entry => entry.urlHash = key) = none := by
    refine List.find?_eq_none.mpr fun entry member => ?_
    have inRing : entry ∈ cache.ultraHotEntries := by
      rw [ultraHotEntries_eq]
      simpa [or_comm] using member
    simpa using firstUltraHot_none_iff.mp absent entry inRing
  rw [newestCopy, none, Option.none_or]

/-- An insertion stores the newest copy of its key; every other key keeps its
newest copy or loses it. -/
theorem newestCopy_insert {cache : HotCache} {urlHash key : UInt64} {html : String} {now : Nat}
    {entry : HotEntry} (newest : (cache.insert urlHash html now).newestCopy key = some entry) :
    (key = urlHash ∧ entry = ⟨urlHash, html, now⟩) ∨
      (key ≠ urlHash ∧ cache.newestCopy key = some entry) := by
  have queue : (cache.insert urlHash html now).olderEntries ++
      (cache.insert urlHash html now).recentEntries =
        cache.remainingEntries ++ cache.recentEntries ++ [⟨urlHash, html, now⟩] := by
    rcases cache.insert_segments urlHash html now with
      ⟨recent, older, _⟩ | ⟨rest, recent, older, _⟩
    · rw [recent, older, List.append_assoc]
    · rw [recent, older, rest, List.nil_append, List.append_nil]
  rw [newestCopy, queue, List.reverse_append, List.find?_append] at newest
  by_cases same : key = urlHash
  · subst same
    simp at newest
    exact Or.inl ⟨rfl, newest.symm⟩
  · refine Or.inr ⟨same, ?_⟩
    have skipped : List.find? (fun entry => decide (entry.urlHash = key))
        (List.reverse [(⟨urlHash, html, now⟩ : HotEntry)]) = none := by
      simp [Ne.symm same]
    rw [skipped, Option.none_or] at newest
    rw [newestCopy, olderEntries_eq, List.append_assoc, List.reverse_append, List.find?_append]
    cases kept : (cache.remainingEntries ++ cache.recentEntries).reverse.find?
        (fun entry => entry.urlHash = key) with
    | some copy => rwa [kept] at newest
    | none =>
        rw [kept, Option.none_or] at newest
        rw [Option.none_or]
        rcases insert_lookup newest with ⟨displaced, sameKey⟩ | ⟨notDisplaced, old⟩
        · simp [displaced, sameKey]
        · have other : List.find? (fun entry => decide (entry.urlHash = key))
              cache.displacedEntry.toList.reverse = none := by
            refine List.find?_eq_none.mpr fun entry member => ?_
            simpa using notDisplaced entry (by simpa using member)
          rw [other, Option.none_or, old]

theorem newestCopy_erase {cache : HotCache} {urlHash key : UInt64} {order : List UInt64}
    {entry : HotEntry}
    (newest : newestCopy
      { cache with hotMap := cache.hotMap.erase urlHash, accessOrder := order } key = some entry) :
    cache.newestCopy key = some entry := by
  unfold newestCopy at newest ⊢
  rcases Option.or_eq_some_iff.mp newest with inRing | ⟨absent, found⟩
  · exact Option.or_eq_some_iff.mpr (Or.inl inRing)
  · exact Option.or_eq_some_iff.mpr (Or.inr ⟨absent, (HashMap.lookup_erase_some_iff.mp found).2⟩)

/-- No insertion of a key is newer than its newest copy. -/
def Newest (history : List Event) (cache : HotCache) : Prop :=
  ∀ key entry, cache.newestCopy key = some entry →
    ∀ html time, InsertedAt history key html time → time ≤ entry.createdAt

theorem insertedAt_snoc_iff {history : List Event} {event : Event} {key : UInt64} {html : String}
    {time : Nat} : InsertedAt (history ++ [event]) key html time ↔
      InsertedAt history key html time ∨ event = ⟨time, .insert key html⟩ := by
  simp [InsertedAt, eq_comm]

theorem newestCopy_clear (cache : HotCache) (key : UInt64) : cache.clear.newestCopy key = none := by
  simp [newestCopy, clear, olderEntries, recentEntries, List.reduceOption]

theorem Newest.get {history : List Event} {cache : HotCache} (newest : Newest history cache)
    {urlHash : UInt64} {now : Nat} (notLater : ∀ event ∈ history, event.now ≤ now) :
    Newest history (cache.get urlHash now).2 := by
  rcases cache.get_cases urlHash now with same | ⟨_, _, erased⟩ | ⟨entry, _, _, _, moved⟩
  · rw [same]
    exact newest
  · rw [erased]
    exact fun key entry copy => newest key entry (newestCopy_erase copy)
  · rw [moved]
    intro key other copy html time inserted
    rcases newestCopy_insert copy with ⟨rfl, rfl⟩ | ⟨_, old⟩
    · exact notLater _ inserted
    · exact newest key other (newestCopy_erase old) html time inserted

theorem Newest.apply {history : List Event} {cache : HotCache} {event : Event}
    (newest : Newest history cache) (notLater : ∀ earlier ∈ history, earlier.now ≤ event.now) :
    Newest (history ++ [event]) (cache.apply event) := by
  obtain ⟨now, op⟩ := event
  -- A step that inserts nothing adds no insertion to compare with.
  have unchanged {next : HotCache} (kept : Newest history next)
      (quiet : ∀ key html time, (⟨now, op⟩ : Event) ≠ ⟨time, .insert key html⟩) :
      Newest (history ++ [⟨now, op⟩]) next := by
    intro key entry copy html time inserted
    rcases insertedAt_snoc_iff.mp inserted with old | last
    · exact kept key entry copy html time old
    · exact absurd last (quiet key html time)
  cases op with
  | insert urlHash html =>
      intro key entry copy other time inserted
      rcases newestCopy_insert copy with ⟨rfl, rfl⟩ | ⟨different, old⟩
      · rcases insertedAt_snoc_iff.mp inserted with earlier | last
        · exact notLater _ earlier
        · exact (congrArg Event.now last).symm.le
      · rcases insertedAt_snoc_iff.mp inserted with earlier | last
        · exact newest key entry old other time earlier
        · simp only [Event.mk.injEq, Op.insert.injEq] at last
          exact absurd last.2.1.symm different
  | get urlHash => exact unchanged (newest.get notLater) (by simp)
  | peek urlHash => exact unchanged newest (by simp)
  | clear =>
      have cleared : Newest history cache.clear := by
        intro key entry copy
        rw [newestCopy_clear] at copy
        contradiction
      exact unchanged cleared (by simp)

theorem newest_run {ttlSecs : Nat} {events : List Event} (chronological : Chronological events) :
    Newest events (Execution.run apply (withTtl ttlSecs) events) := by
  refine Execution.run_invariant_always (fun history cache => Chronological history →
    Newest history cache) (fun _ _ _ _ _ _ inserted => absurd inserted List.not_mem_nil) ?_
      chronological
  intro history current event newest chronologicalNow
  obtain ⟨before, _, across⟩ := List.pairwise_append.mp chronologicalNow
  exact (newest before).apply fun earlier member =>
    across earlier member event (List.mem_singleton_self _)

/-! ### An aged promotion is answered too long -/

/-- A promoted value is answered until its new time runs out. -/
theorem promoteToUltraHot_peek {cache : HotCache} {urlHash : UInt64} {html : String} {now later : Nat}
    (absent : cache.firstUltraHot urlHash = none) (live : outlived cache.ttl now later = false) :
    (cache.promoteToUltraHot urlHash html now).peek urlHash later = some html := by
  have noRecent : cache.recentEntries.find? (fun entry => entry.urlHash = urlHash) = none := by
    rw [firstUltraHot_eq] at absent
    exact (Option.or_eq_none_iff.mp absent).1
  have first : (cache.promoteToUltraHot urlHash html now).firstUltraHot urlHash =
      some ⟨urlHash, html, now⟩ := by
    rw [promoteToUltraHot, insert_firstUltraHot]
    change some ((cache.recentEntries.find? fun entry => entry.urlHash = urlHash).getD _) = _
    rw [noRecent, Option.getD_none]
  have sameTtl : (cache.promoteToUltraHot urlHash html now).ttl = cache.ttl := insert_ttl _ _ _ _
  rw [peek, first]
  simp [isExpired, sameTtl, live]

/-- If the answers after a lookup are young enough, it has promoted no entry that
had aged. -/
theorem promotion_fresh_of_boundsLife {ttlSecs : Nat} (positive : 0 < ttlSecs)
    {earlier : List Event} {now : Nat} {urlHash : UInt64}
    (chronological : Chronological (earlier ++ [⟨now, .get urlHash⟩]))
    (bounds : BoundsLife ttlSecs (earlier ++ [⟨now, .get urlHash⟩])) :
    FreshPromotion (Execution.run apply (withTtl ttlSecs) earlier) ⟨now, .get urlHash⟩ := by
  intro absent entry found live
  obtain ⟨before, _, across⟩ := List.pairwise_append.mp chronological
  have ended : ∀ event ∈ earlier ++ [⟨now, .get urlHash⟩],
      event.now ≤ now + fromSecs ttlSecs := by
    intro event member
    rcases List.mem_append.mp member with old | last
    · exact (across event old _ (List.mem_singleton_self _)).trans (Nat.le_add_right _ _)
    · rw [List.mem_singleton.mp last]
      exact Nat.le_add_right _ _
  have moved : ((Execution.run apply (withTtl ttlSecs) earlier).get urlHash now).2 =
      (Execution.run apply (withTtl ttlSecs) earlier).promoteToUltraHot urlHash entry.html
        now := by
    have answers : (Execution.run apply (withTtl ttlSecs) earlier).isExpired entry now =
        false := live
    simp [HotCache.get, absent, found, answers]
  have stillLive : outlived (Execution.run apply (withTtl ttlSecs) earlier).ttl now
      (now + fromSecs ttlSecs) = false := by
    rw [run_ttl, ttlOfSecs_pos positive, Bool.eq_false_iff, Ne, outlived_some_iff]
    omega
  have answered : (Execution.run apply (withTtl ttlSecs) (earlier ++ [⟨now, .get urlHash⟩])).peek
      urlHash (now + fromSecs ttlSecs) = some entry.html := by
    rw [Execution.run_snoc]
    exact (congrArg (fun cache => peek cache urlHash _) moved).trans
      (promoteToUltraHot_peek absent stillLive)
  obtain ⟨time, inserted, young⟩ := bounds urlHash entry.html _ ended (Or.inl answered)
  have copy : (Execution.run apply (withTtl ttlSecs) earlier).newestCopy urlHash =
      some entry := (newestCopy_of_absent absent).trans found
  rcases insertedAt_snoc_iff.mp inserted with old | last
  · have notNewer := newest_run before urlHash entry copy entry.html time old
    show now ≤ entry.createdAt
    omega
  · simp at last

/-- Without aged promotions the answers are young enough. -/
theorem boundsLife_of_fresh {ttlSecs : Nat} (positive : 0 < ttlSecs) {events : List Event}
    (fresh : Execution.Guarded apply FreshPromotion (withTtl ttlSecs) events) :
    BoundsLife ttlSecs events := by
  intro urlHash html now _ answer
  rw [get_fst, or_self] at answer
  obtain ⟨entry, exposed, rfl, live⟩ := peek_some answer
  obtain ⟨time, inserted, notLater⟩ := dated_run fresh urlHash entry exposed
  rw [run_ttl, ttlOfSecs_pos positive, Bool.eq_false_iff, Ne, outlived_some_iff] at live
  exact ⟨time, inserted, by omega⟩

/-- **The time-to-live bounds the age of every answer, exactly if no lookup
promotes an entry that has aged.** -/
theorem boundsLife_iff {ttlSecs : Nat} (positive : 0 < ttlSecs) {events : List Event}
    (chronological : Chronological events) :
    (∀ upTo, upTo <+: events → BoundsLife ttlSecs upTo) ↔
      Execution.Guarded apply FreshPromotion (withTtl ttlSecs) events := by
  constructor
  · rintro bounds earlier ⟨now, op⟩ later rfl
    cases op with
    | get urlHash =>
        have upTo : earlier ++ [⟨now, .get urlHash⟩] <+: earlier ++ ⟨now, .get urlHash⟩ :: later :=
          ⟨later, by simp⟩
        exact promotion_fresh_of_boundsLife positive
          (List.Pairwise.sublist upTo.sublist chronological) (bounds _ upTo)
    | _ => trivial
  · rintro fresh upTo ⟨rest, rfl⟩
    exact boundsLife_of_fresh positive fresh.initial

/-- Nine values, of which the first moves to the hot map. -/
def displacingRun : List Event :=
  (List.range 9).map fun key => ⟨0, .insert (UInt64.ofNat key) "page"⟩

/-- A lookup at the time of the insertion promotes an entry that has not aged. -/
theorem boundsLife_promotedAtOnce :
    BoundsLife 1 (displacingRun ++ [⟨0, .get 0⟩]) := by
  have atZero : ∀ event ∈ displacingRun ++ [⟨0, .get 0⟩], event.now = 0 := by decide
  refine (boundsLife_iff (by decide) (by decide)).mpr ?_ _ (List.prefix_refl _)
  rintro earlier ⟨now, op⟩ later split
  obtain rfl : now = 0 := atZero ⟨now, op⟩ (by simp [split])
  cases op with
  | get urlHash => exact fun _ _ _ _ => Nat.zero_le _
  | _ => trivial

/-- A value that is looked up in the hot map after 0.9 seconds is answered for
another second, though its time-to-live is one second. -/
theorem lookup_extends_life :
    ¬ ∀ ttlSecs events, 0 < ttlSecs → Chronological events → BoundsLife ttlSecs events := by
  intro bounds
  obtain ⟨time, inserted, young⟩ := bounds 1 (displacingRun ++ [⟨900000000, .get 0⟩]) (by decide)
    (by decide) 0 "page" 1800000000 (by decide) (Or.inl (by decide))
  have atZero : ∀ event ∈ displacingRun ++ [⟨900000000, .get 0⟩],
      event.op = .insert 0 "page" → event.now = 0 := by decide
  obtain rfl : time = 0 := atZero _ inserted rfl
  revert young
  decide

end RustySsr.Cache.HotCache
