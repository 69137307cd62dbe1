import RustySsr.Cache.Ssr.Provenance

/-!
Owns how old a served page can be. A promotion starts the hot entry's time
anew, so the time-to-live bounds the age of every answer exactly when no lookup
promotes a cold page that has already aged. `boundsAge_iff` states this for
every run of a cache with a time-to-live.
-/

namespace RustySsr.Cache.SsrCache

open RustySsr.Platform
open RustySsr.Foundation

/-- The clock readings of the events do not decrease. -/
def Chronological (events : List Event) : Prop :=
  events.Pairwise fun first second => first.now ≤ second.now

/-- Every looked-up URL belongs to the set. -/
def LookupsWithin (urls : Set String) (events : List Event) : Prop :=
  ∀ event ∈ events, ∀ thread url, event.op = .tryGet thread url → url ∈ urls

def Event.IsLookup (event : Event) : Prop := ∃ thread url, event.op = .tryGet thread url

/-- After the events, and after any further steps that are not lookups, every
answer is a page inserted within the time-to-live before the lookup. -/
def BoundsAge (hashUrl : String → UInt64) (urls : Set String) (maxColdEntries ttlSecs : Nat)
    (events : List Event) : Prop :=
  ∀ later thread url now html, (∀ event ∈ later, ¬ event.IsLookup) → InsertsWithin urls later →
    url ∈ urls → Chronological (events ++ later) → (∀ event ∈ events ++ later, event.now ≤ now) →
      ((after hashUrl maxColdEntries ttlSecs (events ++ later)).tryGet hashUrl thread url now).1 =
          some html →
        ∃ time, InsertedAt (events ++ later) url html time ∧ now ≤ time + fromSecs ttlSecs

/-- A lookup that misses in its hot cache finds no aged page in the cold one. -/
def FreshPromotion (hashUrl : String → UInt64) (cache : SsrCache) (event : Event) : Prop :=
  match event.op with
  | .tryGet thread url =>
      (cache.syncedHot thread).cache.peek (hashUrl url) event.now = none →
        ∀ pageUrl html createdAt, cache.coldCache.HasPage (hashUrl url) pageUrl html createdAt →
          outlived cache.coldCache.ttl createdAt event.now = false → createdAt = event.now
  | _ => True

/-! ### Fresh promotions keep the insertion times -/

/-- Every page in either tier carries the time at which it was inserted. -/
abbrev Dated (hashUrl : String → UInt64) (history : List Event) (cache : SsrCache) : Prop :=
  Pages (fun key url html createdAt => key = hashUrl url ∧ InsertedAt history url html createdAt)
    (fun _ _ key entry => ∃ url, key = hashUrl url ∧
      InsertedAt history url entry.html entry.createdAt) cache

section Run

variable {hashUrl : String → UInt64} {urls : Set String} {maxColdEntries ttlSecs : Nat}

theorem Dated.run {history : List Event} {cache : SsrCache} (dated : Dated hashUrl history cache)
    {later : List Event}
    (fresh : Execution.Guarded (apply hashUrl) (FreshPromotion hashUrl) cache later) :
    Dated hashUrl (history ++ later) (Execution.run (apply hashUrl) cache later) := by
  refine Execution.run_invariant (fun passed current => Dated hashUrl (history ++ passed) current)
    (by simpa using dated) ?_ fresh
  intro passed current event pages fresh
  rw [← List.append_assoc]
  have kept : history ++ passed ⊆ history ++ passed ++ [event] := List.subset_append_left _ _
  refine (pages.mono ?_ ?_).apply ?_ ?_
  · exact fun page => ⟨page.1, page.2.mono kept⟩
  · rintro _ _ _ _ ⟨url, sameHash, insertion⟩
    exact ⟨url, sameHash, insertion.mono kept⟩
  · intro thread url lookup pageUrl html createdAt page live missed found
    obtain ⟨sourceUrl, createdAt', coldPage, coldLive⟩ := ColdCache.get_some found
    obtain ⟨sameHash, insertion⟩ := pages.cold coldPage
    simp only [FreshPromotion, lookup] at fresh
    rw [fresh missed sourceUrl html createdAt' coldPage coldLive] at insertion
    exact ⟨sourceUrl, sameHash, insertion.mono kept⟩
  · intro thread order url html insertion
    have inserts : event.Inserts url html := ⟨thread, order, insertion⟩
    have recorded : InsertedAt (history ++ passed ++ [event]) url html event.now :=
      ⟨event, by simp, inserts, rfl⟩
    exact ⟨⟨rfl, recorded⟩, url, rfl, recorded⟩

theorem Dated.tryGet {history : List Event} {cache : SsrCache} (dated : Dated hashUrl history cache)
    (same : SameTtl ttlSecs cache) (positive : 0 < ttlSecs) (injective : Set.InjOn hashUrl urls)
    (within : InsertsWithin urls history) {thread : ThreadId} {url html : String} {now : Nat}
    (target : url ∈ urls) (answer : (cache.tryGet hashUrl thread url now).1 = some html) :
    ∃ time, InsertedAt history url html time ∧ now ≤ time + fromSecs ttlSecs := by
  have young : ∀ {createdAt}, outlived (ttlOfSecs ttlSecs) createdAt now = false →
      now ≤ createdAt + fromSecs ttlSecs := by
    intro createdAt live
    rw [ttlOfSecs_pos positive, Bool.eq_false_iff, Ne, outlived_some_iff] at live
    omega
  rcases dated.tryGet_some answer with
    ⟨entry, ⟨source, sameHash, insertion⟩, rfl, live⟩ | ⟨source, createdAt, page, live⟩
  · rw [same.syncedHot thread] at live
    obtain rfl := injective target (within _ _ insertion.inserted) sameHash
    exact ⟨entry.createdAt, insertion, young live⟩
  · obtain ⟨sameHash, insertion⟩ := page
    rw [same.cold] at live
    obtain rfl := injective target (within _ _ insertion.inserted) sameHash
    exact ⟨createdAt, insertion, young live⟩

/-! ### An aged promotion is served too long -/

/-- No insertion of a cold page's URL is newer than the page. -/
abbrev Newest (hashUrl : String → UInt64) (history : List Event) (cache : SsrCache) : Prop :=
  Pages (fun key url _ createdAt => key = hashUrl url ∧
    ∀ html time, InsertedAt history url html time → time ≤ createdAt) (fun _ _ _ _ => True) cache

theorem insertedAt_snoc_iff {history : List Event} {event : Event} {url html : String}
    {time : Nat} : InsertedAt (history ++ [event]) url html time ↔
      InsertedAt history url html time ∨ (event.Inserts url html ∧ event.now = time) := by
  simp only [InsertedAt, List.mem_append, List.mem_singleton, or_and_right, exists_or,
    exists_eq_left]

theorem Chronological.snoc {history : List Event} {event : Event}
    (chronological : Chronological (history ++ [event])) :
    Chronological history ∧ ∀ earlier ∈ history, earlier.now ≤ event.now := by
  obtain ⟨before, _, across⟩ := List.pairwise_append.mp chronological
  exact ⟨before, fun earlier member => across earlier member event (List.mem_singleton_self _)⟩

theorem newest_after {events : List Event} (chronological : Chronological events) :
    Newest hashUrl events (after hashUrl maxColdEntries ttlSecs events) := by
  have always : Chronological events →
      Newest hashUrl events (after hashUrl maxColdEntries ttlSecs events) := by
    refine Execution.run_invariant_always (fun history current =>
      Chronological history → Newest hashUrl history current) (fun _ => pages_withTtl _ _ _ _) ?_
    intro history current event newest chronologicalNow
    obtain ⟨before, notLater⟩ := chronologicalNow.snoc
    have pages := newest before
    -- A step that inserts nothing adds no insertion to compare with.
    have unchanged (quiet : ∀ url html, ¬ event.Inserts url html) :
        Newest hashUrl (history ++ [event]) current := by
      refine pages.mono ?_ id
      rintro key url html createdAt ⟨sameHash, newest⟩
      refine ⟨sameHash, fun other time insertion => ?_⟩
      rcases insertedAt_snoc_iff.mp insertion with old | ⟨inserts, _⟩
      · exact newest other time old
      · exact absurd inserts (quiet url other)
    obtain ⟨now, op⟩ := event
    cases op with
    | insert thread order url html =>
        refine pages.insert ⟨rfl, fun other time insertion => ?_⟩ ?_ trivial
        · rcases insertedAt_snoc_iff.mp insertion with ⟨earlier, member, _, rfl⟩ | ⟨_, rfl⟩
          · exact notLater earlier member
          · exact Nat.le_refl _
        · rintro key pageUrl pageHtml createdAt different ⟨rfl, newest⟩
          refine ⟨rfl, fun other time insertion => ?_⟩
          rcases insertedAt_snoc_iff.mp insertion with old | ⟨inserts, _⟩
          · exact newest other time old
          · rw [inserts_insert] at inserts
            exact absurd (congrArg hashUrl inserts.1) different
    | tryGet thread url => exact (unchanged (by simp)).tryGet fun _ _ _ _ => trivial
    | invalidate url => exact ((unchanged (by simp)).invalidate url).mono And.right id
    | invalidatePrefix order urlPrefix =>
        exact ((unchanged (by simp)).invalidatePrefix order urlPrefix).mono And.right id
    | clear => exact (unchanged (by simp)).clear.mono False.elim id
  exact always chronological

/-- Events at one later instant extend a chronological run. -/
theorem Chronological.extend {events more : List Event} (chronological : Chronological events)
    {now later : Nat} (ended : ∀ event ∈ events, event.now ≤ now) (ordered : now ≤ later)
    (atLater : ∀ event ∈ more, event.now = later) :
    Chronological (events ++ more) ∧ ∀ event ∈ events ++ more, event.now ≤ later := by
  constructor
  · refine List.pairwise_append.mpr ⟨chronological, ?_, fun first inEvents next inMore => ?_⟩
    · refine List.pairwise_of_forall_mem_list fun first inMore next nextInMore => ?_
      exact Nat.le_of_eq ((atLater first inMore).trans (atLater next nextInMore).symm)
    · rw [atLater next inMore]
      exact (ended first inEvents).trans ordered
  · intro event member
    rcases List.mem_append.mp member with inEvents | inMore
    · exact (ended event inEvents).trans ordered
    · exact Nat.le_of_eq (atLater event inMore)

/-- After a promotion, a lookup at the last instant of the hot entry can be
answered with the promoted page. -/
theorem promotion_becomes_hit (positive : 0 < ttlSecs) {earlier : List Event} {now : Nat}
    {thread : ThreadId} {url another pageUrl html : String} {createdAt : Nat}
    (distinct : hashUrl another ≠ hashUrl url)
    (missed : ((after hashUrl maxColdEntries ttlSecs earlier).syncedHot thread).cache.peek
      (hashUrl url) now = none)
    (page : (after hashUrl maxColdEntries ttlSecs earlier).coldCache.HasPage (hashUrl url) pageUrl
      html createdAt)
    (live : outlived (after hashUrl maxColdEntries ttlSecs earlier).coldCache.ttl createdAt now =
      false) :
    ∃ count, ((after hashUrl maxColdEntries ttlSecs
      (earlier ++ [⟨now, .tryGet thread url⟩] ++ List.replicate count
        ⟨now + fromSecs ttlSecs, .insert thread VisitOrder.stored another ""⟩)).tryGet hashUrl thread
          url (now + fromSecs ttlSecs)).1 = some html := by
  have snoc : after hashUrl maxColdEntries ttlSecs (earlier ++ [⟨now, .tryGet thread url⟩]) =
      ((after hashUrl maxColdEntries ttlSecs earlier).tryGet hashUrl thread url now).2 :=
    Execution.run_snoc _ _ _ _
  have promoted := tryGet_promotes missed (ColdCache.get_of_hasPage page live)
  rw [← snoc] at promoted
  have exposed : ((after hashUrl maxColdEntries ttlSecs
      (earlier ++ [⟨now, .tryGet thread url⟩])).syncedHot thread).cache.Exposes (hashUrl url)
      ⟨hashUrl url, html, now⟩ := by
    rw [promoted]
    exact HotCache.insert_exposes_self _ _ _ _
  have liveLater : outlived ((after hashUrl maxColdEntries ttlSecs
      (earlier ++ [⟨now, .tryGet thread url⟩])).syncedHot thread).cache.ttl now
      (now + fromSecs ttlSecs) = false := by
    rw [(sameTtl_after hashUrl maxColdEntries ttlSecs _).syncedHot thread, ttlOfSecs_pos positive,
      Bool.eq_false_iff, Ne, outlived_some_iff]
    omega
  obtain ⟨count, hit⟩ := exposes_becomes_hit exposed liveLater distinct VisitOrder.stored ""
  exact ⟨count, by rw [after_append]; exact hit⟩

/-- A page that a lookup promotes under the bound was inserted at that instant. -/
theorem promotion_fresh_of_boundsAge (injective : Set.InjOn hashUrl urls)
    (several : urls.Nontrivial) (positive : 0 < ttlSecs) {earlier : List Event} {now : Nat}
    {thread : ThreadId} {url : String} (target : url ∈ urls) (within : InsertsWithin urls earlier)
    (chronological : Chronological (earlier ++ [⟨now, .tryGet thread url⟩]))
    (bounds : BoundsAge hashUrl urls maxColdEntries ttlSecs
      (earlier ++ [⟨now, .tryGet thread url⟩])) :
    FreshPromotion hashUrl (after hashUrl maxColdEntries ttlSecs earlier)
      ⟨now, .tryGet thread url⟩ := by
  intro missed pageUrl html createdAt page live
  obtain ⟨before, notLater⟩ := chronological.snoc
  obtain ⟨sameHash, coldEvent, coldMember, coldInserts, coldTime⟩ :=
    (fromHistory_after hashUrl maxColdEntries ttlSecs earlier).cold page
  obtain rfl : url = pageUrl := injective target (within _ _ ⟨coldEvent, coldMember, coldInserts⟩)
    sameHash
  obtain ⟨another, second, different⟩ := several.exists_ne url
  obtain ⟨count, hit⟩ := promotion_becomes_hit positive
    (fun same => different (injective second target same)) missed page live
  have ended : ∀ event ∈ earlier ++ [⟨now, .tryGet thread url⟩], event.now ≤ now := by
    intro event member
    rcases List.mem_append.mp member with old | last
    · exact notLater event old
    · rw [List.mem_singleton.mp last]
  set fillers := List.replicate count
    (⟨now + fromSecs ttlSecs, .insert thread VisitOrder.stored another ""⟩ : Event)
  have atLater : ∀ event ∈ fillers, event.now = now + fromSecs ttlSecs := by
    intro event member
    rw [List.eq_of_mem_replicate member]
  have noLookups : ∀ event ∈ fillers, ¬ event.IsLookup := by
    rintro event member ⟨_, _, lookup⟩
    rw [List.eq_of_mem_replicate member] at lookup
    contradiction
  obtain ⟨chronologicalLater, endedLater⟩ :=
    chronological.extend ended (Nat.le_add_right _ _) atLater
  obtain ⟨time, ⟨event, member, inserts, rfl⟩, young⟩ := bounds _ thread url _ html noLookups
    (fun _ _ insertion => (inserted_replicate insertion).1 ▸ second) target chronologicalLater
    endedLater hit
  rcases List.mem_append.mp member with inRun | inFillers
  · rcases List.mem_append.mp inRun with old | last
    · have notNewer := ((newest_after before).cold page).2 html event.now ⟨event, old, inserts, rfl⟩
      have coldBefore : coldEvent.now ≤ now := notLater coldEvent coldMember
      show createdAt = now
      omega
    · rw [List.mem_singleton.mp last] at inserts
      simp at inserts
  · exact absurd (inserted_replicate ⟨event, inFillers, inserts⟩).1.symm different

/-- **The time-to-live bounds the age of every answer, exactly when no lookup
promotes an aged page.** -/
theorem boundsAge_iff (injective : Set.InjOn hashUrl urls) (several : urls.Nontrivial)
    (positive : 0 < ttlSecs) {events : List Event} (within : InsertsWithin urls events)
    (lookups : LookupsWithin urls events) (chronological : Chronological events) :
    (∀ upTo, upTo <+: events → BoundsAge hashUrl urls maxColdEntries ttlSecs upTo) ↔
      Execution.Guarded (apply hashUrl) (FreshPromotion hashUrl) (withTtl maxColdEntries ttlSecs)
        events := by
  constructor
  · rintro bounds earlier ⟨now, op⟩ later rfl
    cases op with
    | tryGet thread url =>
        have upTo : earlier ++ [⟨now, .tryGet thread url⟩] <+:
            earlier ++ ⟨now, .tryGet thread url⟩ :: later := ⟨later, by simp⟩
        exact promotion_fresh_of_boundsAge injective several positive
          (lookups ⟨now, .tryGet thread url⟩ (by simp) thread url rfl)
          (within.of_subset (List.subset_append_left _ _))
          (chronological.sublist upTo.sublist) (bounds _ upTo)
    | _ => trivial
  · rintro fresh upTo ⟨rest, rfl⟩ later thread url now html noLookups withinLater target _ _ answer
    have start : Dated hashUrl [] (withTtl maxColdEntries ttlSecs) := pages_withTtl _ _ _ _
    have dated := start.run fresh.initial
    have freshLater : Execution.Guarded (apply hashUrl) (FreshPromotion hashUrl)
        (after hashUrl maxColdEntries ttlSecs upTo) later := by
      rintro earlier ⟨time, op⟩ rest split
      cases op with
      | tryGet lookupThread lookupUrl =>
          have member : ⟨time, .tryGet lookupThread lookupUrl⟩ ∈ later := by simp [split]
          exact absurd ⟨lookupThread, lookupUrl, rfl⟩ (noLookups _ member)
      | _ => trivial
    rw [after_append] at answer
    have same : SameTtl ttlSecs (Execution.run (apply hashUrl) _ later) :=
      (sameTtl_after hashUrl maxColdEntries ttlSecs upTo).run later
    have inserted := (within.of_subset (List.subset_append_left _ _)).append withinLater
    exact (dated.run freshLater).tryGet same positive injective inserted target answer

end Run

/-- A promotion at the instant of the insertion keeps the page's time, and a later
lookup on that thread is a hot hit, which promotes nothing. -/
theorem boundsAge_fresh_promotion :
    BoundsAge hashOfTwo twoUrls 4 1 [⟨0, .insert 0 VisitOrder.stored "/a" "page"⟩,
      ⟨0, .tryGet 1 "/a"⟩, ⟨900000000, .tryGet 1 "/a"⟩] := by
  refine (boundsAge_iff hashOfTwo_injOn twoUrls_nontrivial (by decide)
    (by simp [twoUrls]) (by simp [LookupsWithin, twoUrls])
    (by simp [Chronological])).mpr ?_ _ (List.prefix_refl _)
  refine Execution.guarded_cons_iff.mpr ⟨trivial, Execution.guarded_cons_iff.mpr ⟨?_,
    Execution.guarded_cons_iff.mpr ⟨fun missed => absurd missed (by decide),
      Execution.guarded_nil _ _⟩⟩⟩
  rintro _ pageUrl html createdAt ⟨lastAccess, found⟩ _
  exact (congrArg CacheEntry.createdAt (Option.some.inj found)).symm

/-- A page of age `0.9 s`, promoted by another thread and looked up there again
`0.9 s` later, is served at twice its time-to-live less a fifth. -/
theorem promotion_extends_life :
    ¬ ∀ hashUrl urls maxColdEntries ttlSecs events, Set.InjOn hashUrl urls →
      1 ≤ maxColdEntries → 0 < ttlSecs → InsertsWithin urls events → LookupsWithin urls events →
        Chronological events → BoundsAge hashUrl urls maxColdEntries ttlSecs events := by
  intro bounds
  obtain ⟨time, ⟨event, member, inserts, rfl⟩, young⟩ := bounds hashOfTwo twoUrls 4 1
    [⟨0, .insert 0 VisitOrder.stored "/a" "page"⟩, ⟨900000000, .tryGet 1 "/a"⟩] hashOfTwo_injOn
    (by decide) (by decide) (by simp [twoUrls]) (by simp [LookupsWithin, twoUrls])
    (by simp [Chronological]) [] 1 "/a" 1800000000 "page" (by simp) (insertsWithin_nil _)
    (Or.inl rfl) (by simp [Chronological]) (by simp) (by decide)
  simp only [List.append_nil, List.mem_cons, List.not_mem_nil, or_false] at member
  rcases member with rfl | rfl
  · revert young
    decide
  · simp at inserts

end RustySsr.Cache.SsrCache
