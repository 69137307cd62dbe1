import RustySsr.Cache.Cold.Refinement
import RustySsr.Cache.Ssr.Generation

/-!
Owns which URLs an eviction of the multi-tier cache takes. The cold tier is
ordered by what reaches it, insertions and lookups that miss the hot tier and
hit the cold one: `evictsLeastRecentlyTouched` states this for every run. A hot
hit leaves the cold entry as old as it was, so a page in steady use can be
evicted before pages that nobody asked for since.
-/

namespace RustySsr.Cache

open RustySsr.Platform
open RustySsr.Foundation

namespace ColdCache

/-- The entries stand in the order in which the log of keys last mentions them,
and the counter counts the log. -/
structure FollowsLog (cold : ColdCache) (log : List UInt64) : Prop where
  ordered : ∃ entries, Ordered cold entries ∧ Recency.InOrder log entries
  idle : cold.evicting = false
  counted : cold.accessCounter.toNat = log.length

namespace FollowsLog

variable {cold : ColdCache} {log : List UInt64}

theorem touch (follows : FollowsLog cold log) (room : log.length + 1 < 2 ^ 64) (key : UInt64)
    (page : Page) :
    FollowsLog { cold with
        accessCounter := cold.accessCounter + 1
        cache := cold.cache.insert key ⟨page.url, page.html, cold.accessCounter, page.createdAt⟩ }
      (log ++ [key]) where
  ordered := by
    obtain ⟨entries, ordered, inOrder⟩ := follows.ordered
    exact ⟨_, ordered.store (follows.counted ▸ room) key page, inOrder.record key _⟩
  idle := follows.idle
  counted := by
    show (cold.accessCounter + 1).toNat = (log ++ [key]).length
    rw [UInt64.toNat_add, follows.counted, List.length_append, List.length_singleton]
    exact Nat.mod_eq_of_lt room

/-- A removal of keys changes no order. -/
theorem eraseAll (follows : FollowsLog cold log) (keys : List UInt64) :
    FollowsLog { cold with cache := cold.cache.eraseAll keys } log where
  ordered := by
    obtain ⟨entries, ordered, inOrder⟩ := follows.ordered
    exact ⟨_, ordered.eraseAll keys, inOrder.sublist List.filter_sublist⟩
  idle := follows.idle
  counted := follows.counted

theorem erase (follows : FollowsLog cold log) (key : UInt64) :
    FollowsLog { cold with cache := cold.cache.erase key } log :=
  follows.eraseAll [key]

theorem clear (follows : FollowsLog cold log) : FollowsLog cold.clear log where
  ordered := ⟨[], ⟨by simp [ColdCache.clear], List.nodup_nil, List.Pairwise.nil, by simp⟩,
    List.Pairwise.nil⟩
  idle := follows.idle
  counted := follows.counted

theorem get_hit (follows : FollowsLog cold log) (room : log.length + 1 < 2 ^ 64) {key : UInt64}
    {now : Nat} {html : String} (hit : (cold.get key now).1 = some html) :
    FollowsLog (cold.get key now).2 (log ++ [key]) := by
  unfold ColdCache.get at hit ⊢
  cases found : cold.cache.lookup key with
  | none => simp [found] at hit
  | some entry =>
      rw [found] at hit
      dsimp only at hit ⊢
      split_ifs at hit ⊢ with expired
      exact follows.touch room key ⟨entry.url, entry.html, entry.createdAt⟩

/-- A miss removes at most an expired entry. -/
theorem get_miss (follows : FollowsLog cold log) {key : UInt64} {now : Nat}
    (miss : (cold.get key now).1 = none) : FollowsLog (cold.get key now).2 log := by
  unfold ColdCache.get at miss ⊢
  cases found : cold.cache.lookup key with
  | none => exact follows
  | some entry =>
      rw [found] at miss
      dsimp only at miss ⊢
      split_ifs at miss ⊢ with expired
      exact follows.erase key

/-- What an insertion evicts is no more recent than what it leaves. -/
theorem not_moreRecent_of_evicted (follows : FollowsLog cold log) {order : ScanOrder}
    {evicted kept : UInt64} (isEvicted : evicted ∈ cold.evictedKeys order)
    (present : kept ∈ cold.cache) (isKept : kept ∉ cold.evictedKeys order) :
    ¬ Recency.MoreRecent log evicted kept := by
  obtain ⟨entries, ordered, inOrder⟩ := follows.ordered
  have full : cold.maxEntries ≤ cold.cache.len ∧ cold.evicting = false := by
    by_contra notFull
    rw [evictedKeys, if_neg notFull] at isEvicted
    exact List.not_mem_nil isEvicted
  have keys := (ordered.victims_perm order).map Prod.snd
  rw [List.map_map] at keys
  rw [evictedKeys, if_pos full, keys.mem_iff] at isEvicted isKept
  obtain ⟨⟨_, evictedEntry⟩, inDropped, rfl⟩ := List.mem_map.mp isEvicted
  obtain ⟨⟨_, keptEntry⟩, member, rfl⟩ := List.mem_map.mp ((ordered.mem_keys_iff kept).mp present)
  rw [← List.take_append_drop (entries.length - batchSize cold.maxEntries) entries] at inOrder
  rw [← List.take_append_drop (entries.length - batchSize cold.maxEntries) entries,
    List.mem_append] at member
  rcases member with inTaken | alsoDropped
  · exact (List.pairwise_append.mp inOrder).2.2 _ inTaken _ inDropped
  · exact absurd (List.mem_map_of_mem alsoDropped) isKept

theorem evictBatch (follows : FollowsLog cold log) (order : ScanOrder) :
    FollowsLog (cold.evictBatch order).2 log where
  ordered := by
    obtain ⟨entries, ordered, inOrder⟩ := follows.ordered
    exact ⟨_, (ordered.evictBatch follows.idle order).2, inOrder.sublist (List.take_sublist _ _)⟩
  idle := by
    unfold ColdCache.evictBatch
    rw [follows.idle]
    rfl
  counted := by
    rw [evictBatch_accessCounter]
    exact follows.counted

theorem insert (follows : FollowsLog cold log) (room : log.length + 1 < 2 ^ 64)
    (order : ScanOrder) (key : UInt64) (url html : String) (now : Nat) :
    FollowsLog (cold.insert order key url html now).2 (log ++ [key]) := by
  have evicted : FollowsLog (if cold.maxEntries ≤ cold.cache.len then cold.evictBatch order
      else (0, cold)).2 log := by
    split_ifs
    · exact follows.evictBatch order
    · exact follows
  exact evicted.touch room key ⟨url, html, now⟩

end FollowsLog

theorem followsLog_withTtl (maxEntries ttlSecs : Nat) :
    FollowsLog (withTtl maxEntries ttlSecs) [] where
  ordered := ⟨[], ⟨by simp [withTtl], List.nodup_nil, List.Pairwise.nil, by simp⟩,
    List.Pairwise.nil⟩
  idle := rfl
  counted := rfl

end ColdCache

namespace SsrCache

section Logs

variable (hashUrl : String → UInt64)

/-- The URL that an event inserts, or looks up with success in whichever tier. -/
def served (cache : SsrCache) (event : Event) : List String :=
  match event.op with
  | .tryGet thread url =>
      if (cache.tryGet hashUrl thread url event.now).1.isSome then [url] else []
  | .insert _ _ url _ => [url]
  | _ => []

/-- The URL that an event inserts, or looks up with a hit in the cold tier. -/
def touched (cache : SsrCache) (event : Event) : List String :=
  match event.op with
  | .tryGet thread url =>
      if (cache.syncedHot thread).cache.peek (hashUrl url) event.now = none ∧
          (cache.coldCache.get (hashUrl url) event.now).1.isSome then [url]
      else []
  | .insert _ _ url _ => [url]
  | _ => []

/-- What a run from a new cache records, in order. -/
def logOf (recorded : SsrCache → Event → List String) (maxColdEntries : Nat)
    (events : List Event) : List String :=
  Execution.trace (apply hashUrl) recorded (SsrCache.new maxColdEntries) events

/-- Every URL that the events insert or look up belongs to the set. -/
def RequestsWithin (urls : Set String) (events : List Event) : Prop :=
  ∀ event ∈ events, match event.op with
    | .tryGet _ url => url ∈ urls
    | .insert _ _ url _ => url ∈ urls
    | _ => True

/-- No URL that an insertion would evict is more recent in the log than a URL
that would stay in the cold tier. -/
def EvictsOldest (urls : Set String) (cache : SsrCache) (order : ScanOrder)
    (log : List String) : Prop :=
  ∀ evicted ∈ urls, ∀ kept ∈ urls, hashUrl evicted ∈ cache.coldCache.evictedKeys order →
    hashUrl kept ∈ cache.coldCache.cache → hashUrl kept ∉ cache.coldCache.evictedKeys order →
      ¬ Recency.MoreRecent log evicted kept

variable {hashUrl}

theorem logOf_snoc (recorded : SsrCache → Event → List String) (maxColdEntries : Nat)
    (events : List Event) (event : Event) :
    logOf hashUrl recorded maxColdEntries (events ++ [event]) =
      logOf hashUrl recorded maxColdEntries events ++
        recorded (after hashUrl maxColdEntries 0 events) event :=
  Execution.trace_snoc recorded _ events event

/-- One event adds the keys it touches to the log of the cold tier. -/
theorem followsLog_apply {cache : SsrCache} {log : List UInt64}
    (follows : cache.coldCache.FollowsLog log) (event : Event)
    (room : (log ++ (touched hashUrl cache event).map hashUrl).length < 2 ^ 64) :
    (apply hashUrl cache event).coldCache.FollowsLog
      (log ++ (touched hashUrl cache event).map hashUrl) := by
  obtain ⟨now, op⟩ := event
  cases op with
  | tryGet thread url =>
      show (cache.tryGet hashUrl thread url now).2.coldCache.FollowsLog _
      rcases tryGet_cases hashUrl cache thread url now with
        ⟨html, peeked, outcome⟩ | ⟨peeked, ⟨html, answer, outcome⟩ | ⟨answer, outcome⟩⟩
      · have untouched : touched hashUrl cache ⟨now, .tryGet thread url⟩ = [] := by
          simp [touched, peeked]
        rw [outcome, untouched, List.map_nil, List.append_nil]
        exact follows
      · have touches : touched hashUrl cache ⟨now, .tryGet thread url⟩ = [url] := by
          simp [touched, peeked, answer]
        rw [touches, List.length_append, List.map_singleton, List.length_singleton] at room
        rw [outcome, touches]
        exact follows.get_hit room answer
      · have untouched : touched hashUrl cache ⟨now, .tryGet thread url⟩ = [] := by
          simp [touched, answer]
        rw [outcome, untouched, List.map_nil, List.append_nil]
        exact follows.get_miss answer
  | insert thread order url html =>
      have room : log.length + 1 < 2 ^ 64 := by simpa [touched] using room
      exact follows.insert room order (hashUrl url) url html now
  | invalidate url =>
      show (cache.invalidate hashUrl url).coldCache.FollowsLog (log ++ [])
      rw [invalidate_coldCache, List.append_nil]
      exact follows.erase (hashUrl url)
  | invalidatePrefix order urlPrefix =>
      show (cache.invalidatePrefix order urlPrefix).2.coldCache.FollowsLog (log ++ [])
      rw [List.append_nil]
      have removed := follows.eraseAll (cache.coldCache.keysWithPrefix order urlPrefix)
      unfold SsrCache.invalidatePrefix
      dsimp only
      split_ifs <;> exact removed
  | clear =>
      show cache.coldCache.clear.FollowsLog (log ++ [])
      rw [List.append_nil]
      exact follows.clear

/-- The cold tier follows the log of its touches throughout a run. -/
theorem followsLog_after {maxColdEntries : Nat} {events : List Event}
    (room : (logOf hashUrl (touched hashUrl) maxColdEntries events).length < 2 ^ 64) :
    (after hashUrl maxColdEntries 0 events).coldCache.FollowsLog
      ((logOf hashUrl (touched hashUrl) maxColdEntries events).map hashUrl) := by
  induction events using List.reverseRecOn with
  | nil => exact ColdCache.followsLog_withTtl maxColdEntries 0
  | append_singleton events event inductionHypothesis =>
      rw [logOf_snoc, List.length_append] at room
      have before := inductionHypothesis (Nat.lt_of_le_of_lt (Nat.le_add_right _ _) room)
      rw [logOf_snoc, List.map_append, after, Execution.run_snoc]
      exact followsLog_apply before event (by simpa using room)

/-- The log names only URLs of the events. -/
theorem mem_logOf_touched {urls : Set String} {maxColdEntries : Nat} {events : List Event}
    (within : RequestsWithin urls events) :
    ∀ url ∈ logOf hashUrl (touched hashUrl) maxColdEntries events, url ∈ urls := by
  induction events using List.reverseRecOn with
  | nil => exact fun url member => absurd member List.not_mem_nil
  | append_singleton events event inductionHypothesis =>
      intro url member
      rw [logOf_snoc, List.mem_append] at member
      rcases member with earlier | last
      · exact inductionHypothesis (fun other inEvents =>
          within other (List.mem_append_left _ inEvents)) url earlier
      · have bound := within event (List.mem_append_right _ (List.mem_singleton_self event))
        obtain ⟨now, op⟩ := event
        cases op with
        | tryGet thread requested =>
            have same : url = requested := by
              unfold touched at last
              dsimp only at last
              split_ifs at last
              · exact List.mem_singleton.mp last
              · exact absurd last List.not_mem_nil
            exact same ▸ bound
        | insert thread order requested html => exact List.mem_singleton.mp last ▸ bound
        | invalidate _ => exact absurd last List.not_mem_nil
        | invalidatePrefix _ _ => exact absurd last List.not_mem_nil
        | clear => exact absurd last List.not_mem_nil

end Logs

/-! ### Concrete runs -/

def urlOfLength (length : Nat) : String := String.ofList (List.replicate length 'a')

def hashOfLength (url : String) : UInt64 := UInt64.ofNat url.length

def insertionOf (length : Nat) : Event :=
  ⟨0, .insert 0 VisitOrder.stored (urlOfLength length) "page"⟩

def shortUrls : Set String := {url | ∃ length < 10, url = urlOfLength length}

theorem hashOfLength_injOn : Set.InjOn hashOfLength shortUrls := by
  rintro _ ⟨first, firstShort, rfl⟩ _ ⟨second, secondShort, rfl⟩ sameHash
  have same : first % 2 ^ 64 = second % 2 ^ 64 := by
    simpa [hashOfLength, urlOfLength] using congrArg UInt64.toNat sameHash
  rw [show first = second by omega]

/-- Nine pages fill the cold tier; then the oldest is found in the hot tier. -/
def hotHitRun : List Event :=
  (List.range 9).map insertionOf ++ [⟨0, .tryGet 0 (urlOfLength 0)⟩]

/-- The first page is inserted until the stamps start again, then eight others. -/
def wrappingRun : List Event :=
  (List.replicate (2 ^ 64) 0 ++ List.range' 1 7).map insertionOf ++ [insertionOf 8]

/-- The cold tier after insertions of pages by length. -/
def coldInsertions (cold : ColdCache) (lengths : List Nat) : ColdCache :=
  Execution.run (fun cold length =>
    (cold.insert VisitOrder.stored (UInt64.ofNat length) (urlOfLength length) "page" 0).2)
    cold lengths

theorem coldCache_run_insertions (cache : SsrCache) (lengths : List Nat) :
    (Execution.run (apply hashOfLength) cache (lengths.map insertionOf)).coldCache =
      coldInsertions cache.coldCache lengths := by
  induction lengths generalizing cache with
  | nil => rfl
  | cons length lengths inductionHypothesis =>
      have hashed : hashOfLength (urlOfLength length) = UInt64.ofNat length := by
        simp [hashOfLength, urlOfLength]
      rw [List.map_cons]
      refine (inductionHypothesis _).trans ?_
      show coldInsertions (cache.coldCache.insert _ _ _ _ _).2 lengths = _
      rw [hashed]
      rfl

/-- The cold tier that stored one page this many times. -/
def onlyFirst (count : Nat) : ColdCache where
  cache := (∅ : HashMap UInt64 CacheEntry).insert 0
    ⟨urlOfLength 0, "page", UInt64.ofNat (count - 1), 0⟩
  maxEntries := 9
  accessCounter := UInt64.ofNat count
  evicting := false
  ttl := none

/-- Inserting one page again and again only moves its stamp. -/
theorem coldInsertions_replicate {count : Nat} (positive : 1 ≤ count) :
    coldInsertions (ColdCache.withTtl 9 0) (List.replicate count 0) = onlyFirst count := by
  induction count, positive using Nat.le_induction with
  | base => rfl
  | succ count _ inductionHypothesis =>
      rw [List.replicate_succ', coldInsertions, Execution.run_snoc, ← coldInsertions,
        inductionHypothesis]
      simp [ColdCache.insert, HashMap.len, onlyFirst]

/-- The stamp of the first page is the last one before they start again. -/
theorem coldCache_wrappingRun :
    (after hashOfLength 9 0 wrappingRun).coldCache =
      coldInsertions (onlyFirst (2 ^ 64)) (List.range' 1 8) := by
  have repeated : coldInsertions (SsrCache.withTtl 9 0).coldCache (List.replicate (2 ^ 64) 0) =
      onlyFirst (2 ^ 64) := coldInsertions_replicate (by decide)
  have events : wrappingRun =
      (List.replicate (2 ^ 64) 0 ++ (List.range' 1 7 ++ [8])).map insertionOf := by
    rw [wrappingRun, ← List.append_assoc, @List.map_append _ _ _ _ [8]]
    rfl
  rw [after, events, coldCache_run_insertions, coldInsertions, Execution.run_append,
    ← coldInsertions, ← coldInsertions, repeated]
  rfl

theorem requestsWithin_insertions {lengths : List Nat} (short : ∀ length ∈ lengths, length < 10) :
    RequestsWithin shortUrls (lengths.map insertionOf) := by
  intro event member
  obtain ⟨length, inLengths, rfl⟩ := List.mem_map.mp member
  exact ⟨length, short length inLengths, rfl⟩

theorem requestsWithin_hotHitRun : RequestsWithin shortUrls hotHitRun := by
  intro event member
  rcases List.mem_append.mp member with insertion | lookup
  · exact requestsWithin_insertions (by decide) event insertion
  · obtain rfl := List.mem_singleton.mp lookup
    exact ⟨0, by decide, rfl⟩

theorem requestsWithin_wrappingRun : RequestsWithin shortUrls wrappingRun := by
  intro event member
  rcases List.mem_append.mp member with insertion | last
  · refine requestsWithin_insertions (fun length inLengths => ?_) event insertion
    rcases List.mem_append.mp inLengths with repeated | other
    · rw [List.eq_of_mem_replicate repeated]
      decide
    · have := List.mem_range'_1.mp other
      omega
  · obtain rfl := List.mem_singleton.mp last
    exact ⟨8, by decide, rfl⟩

/-! ### Every run -/

/-- **The cold tier evicts what reached it longest ago.** After fewer than `2 ^ 64`
touches, no URL that an insertion evicts was inserted, or looked up with a hit
in the cold tier, more recently than a URL that stays. -/
theorem evictsLeastRecentlyTouched {hashUrl : String → UInt64} {urls : Set String}
    (injective : Set.InjOn hashUrl urls)
    {maxColdEntries : Nat} {events : List Event} (within : RequestsWithin urls events)
    (room : (logOf hashUrl (touched hashUrl) maxColdEntries events).length < 2 ^ 64)
    (order : ScanOrder) :
    EvictsOldest hashUrl urls (after hashUrl maxColdEntries 0 events) order
      (logOf hashUrl (touched hashUrl) maxColdEntries events) := by
  rintro evicted _ kept keptWithin isEvicted present isKept ⟨earlier, later, split, absent⟩
  refine (followsLog_after room).not_moreRecent_of_evicted isEvicted present isKept
    ⟨earlier.map hashUrl, later.map hashUrl, ?_, fun sameKey => ?_⟩
  · rw [split, List.map_append, List.map_cons]
  · obtain ⟨other, member, sameHash⟩ := List.mem_map.mp sameKey
    have inLog : other ∈ logOf hashUrl (touched hashUrl) maxColdEntries events := by
      rw [split]
      exact List.mem_append_right _ (List.mem_cons_of_mem _ member)
    have same := injective (mem_logOf_touched within other inLog) keptWithin sameHash
    exact absent (same ▸ member)

theorem evictsLeastRecentlyTouched_hotHitRun :
    EvictsOldest hashOfLength shortUrls (after hashOfLength 9 0 hotHitRun) VisitOrder.stored
      (logOf hashOfLength (touched hashOfLength) 9 hotHitRun) :=
  evictsLeastRecentlyTouched hashOfLength_injOn requestsWithin_hotHitRun (by decide +kernel)
    VisitOrder.stored

/-- The requests served do not order the evictions: a page that was just found in
the hot tier is evicted before one that was not. Without a bound on their number
the touches do not either, since the stamps start again. -/
theorem evicts_a_recently_served_url :
    Set.InjOn hashOfLength shortUrls ∧
      (RequestsWithin shortUrls hotHitRun ∧
        ¬ EvictsOldest hashOfLength shortUrls (after hashOfLength 9 0 hotHitRun)
          VisitOrder.stored (logOf hashOfLength (served hashOfLength) 9 hotHitRun)) ∧
      (RequestsWithin shortUrls wrappingRun ∧
        ¬ EvictsOldest hashOfLength shortUrls (after hashOfLength 9 0 wrappingRun)
          VisitOrder.stored (logOf hashOfLength (touched hashOfLength) 9 wrappingRun)) := by
  refine ⟨hashOfLength_injOn, ⟨requestsWithin_hotHitRun, ?_⟩, requestsWithin_wrappingRun, ?_⟩
  · have log : logOf hashOfLength (served hashOfLength) 9 hotHitRun =
        (List.range 9).map urlOfLength ++ urlOfLength 0 :: [] := by decide +kernel
    intro evictsOldest
    exact evictsOldest (urlOfLength 0) ⟨0, by decide, rfl⟩ (urlOfLength 8) ⟨8, by decide, rfl⟩
      (by decide +kernel) (by decide +kernel) (by decide +kernel)
      ⟨_, [], log, List.not_mem_nil⟩
  · intro evictsOldest
    refine evictsOldest (urlOfLength 8) ⟨8, by decide, rfl⟩ (urlOfLength 0) ⟨0, by decide, rfl⟩
      ?_ ?_ ?_ ⟨_, [], logOf_snoc _ _ _ _, List.not_mem_nil⟩
    all_goals
      rw [coldCache_wrappingRun]
      decide +kernel

end SsrCache

end RustySsr.Cache
