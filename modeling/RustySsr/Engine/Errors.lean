import RustySsr.Cache.Ssr.Provenance
import RustySsr.Engine.Model

/-!
Owns what a failed call of `render_with_data` leaves behind. Its lookup has
synchronised one hot cache and may have removed an expired cold entry; no later
lookup can tell. `error_unobservable` states this for every state of the cache
and every sequence of later lookups.
-/

namespace RustySsr.Engine

open RustySsr.Cache
open RustySsr.Cache.SsrCache
open RustySsr.Platform
open RustySsr.Foundation

/-- A call of `try_get`. -/
structure Lookup where
  thread : ThreadId
  url : String
  now : Nat

/-! ### Two cold caches that differ in expired entries -/

/-- The first cache lacks at most entries of the second that have expired by now. -/
structure ColdAlike (now : Nat) (left right : ColdCache) : Prop where
  entries : ∀ key, left.cache.lookup key = right.cache.lookup key ∨
    (left.cache.lookup key = none ∧ ∃ entry, right.cache.lookup key = some entry ∧
      outlived right.ttl entry.createdAt now = true)
  stamps : left.accessCounter = right.accessCounter
  sameTtl : left.ttl = right.ttl

/-- A lookup that misses may have removed an expired entry. -/
theorem coldAlike_of_missed {cold : ColdCache} {urlHash : UInt64} {now : Nat}
    (missed : (cold.get urlHash now).1 = none) : ColdAlike now (cold.get urlHash now).2 cold := by
  unfold ColdCache.get at missed ⊢
  cases found : cold.cache.lookup urlHash with
  | none => exact ⟨fun _ => Or.inl rfl, rfl, rfl⟩
  | some entry =>
      rw [found] at missed
      dsimp only at missed ⊢
      split_ifs at missed ⊢ with expired
      refine ⟨fun key => ?_, rfl, rfl⟩
      by_cases same : key = urlHash
      · subst same
        exact Or.inr ⟨AList.lookup_erase _ _, entry, found, expired⟩
      · exact Or.inl (AList.lookup_erase_ne same)

namespace ColdAlike

variable {now later : Nat} {left right : ColdCache}

/-- The second cache drops an entry that the first one lacks, or both drop it. -/
theorem erase (alike : ColdAlike now left right) {urlHash : UInt64}
    {cache : HashMap UInt64 CacheEntry} (dropped : cache.lookup urlHash = none)
    (others : ∀ key, key ≠ urlHash → cache.lookup key = left.cache.lookup key) :
    ColdAlike now { left with cache := cache }
      { right with cache := right.cache.erase urlHash } where
  entries := by
    intro key
    by_cases same : key = urlHash
    · subst same
      exact Or.inl (dropped.trans (AList.lookup_erase key right.cache).symm)
    · rw [others key same, AList.lookup_erase_ne same]
      exact alike.entries key
  stamps := alike.stamps
  sameTtl := alike.sameTtl

/-- Both caches store the same entry with their next stamp. -/
theorem touch (alike : ColdAlike now left right) (urlHash : UInt64) (entry : CacheEntry) :
    ColdAlike now
      { left with
        accessCounter := left.accessCounter + 1
        cache := left.cache.insert urlHash { entry with lastAccess := left.accessCounter } }
      { right with
        accessCounter := right.accessCounter + 1
        cache := right.cache.insert urlHash { entry with lastAccess := right.accessCounter } } where
  entries := by
    intro key
    rw [alike.stamps]
    by_cases same : key = urlHash
    · subst same
      exact Or.inl ((AList.lookup_insert left.cache).trans (AList.lookup_insert right.cache).symm)
    · rw [AList.lookup_insert_ne same, AList.lookup_insert_ne same]
      exact alike.entries key
  stamps := congrArg (· + 1) alike.stamps
  sameTtl := alike.sameTtl

/-- Both caches answer a later lookup alike and stay alike. -/
theorem get (alike : ColdAlike now left right) (ordered : now ≤ later) (urlHash : UInt64) :
    (left.get urlHash later).1 = (right.get urlHash later).1 ∧
      ColdAlike now (left.get urlHash later).2 (right.get urlHash later).2 := by
  rcases alike.entries urlHash with same | ⟨absent, entry, found, expired⟩
  · unfold ColdCache.get
    rw [same]
    cases right.cache.lookup urlHash with
    | none => exact ⟨rfl, alike⟩
    | some entry =>
        have sameTest : outlived left.ttl entry.createdAt later =
            outlived right.ttl entry.createdAt later := by rw [alike.sameTtl]
        dsimp only
        rw [sameTest]
        split_ifs with expired
        · exact ⟨rfl, alike.erase (AList.lookup_erase _ _) fun key different =>
            AList.lookup_erase_ne different⟩
        · exact ⟨rfl, alike.touch urlHash entry⟩
  · have stillExpired := outlived_mono ordered expired
    simp only [ColdCache.get, absent, found, stillExpired, if_true, true_and]
    exact alike.erase absent fun _ _ => rfl

end ColdAlike

/-! ### The hot caches after a lookup -/

section Synced

variable {hashUrl : String → UInt64} {cache : SsrCache} {thread other : ThreadId} {url html : String}
  {now : Nat}

/-- Synchronising a hot cache once more changes nothing. -/
theorem beginLookup_syncedHot (cache : SsrCache) (thread other : ThreadId) :
    (cache.beginLookup thread).syncedHot other = cache.syncedHot other := by
  have sameGeneration : (cache.beginLookup thread).generation = cache.generation := rfl
  by_cases same : other = thread
  · subst same
    have present : (cache.beginLookup other).hotCache other = some (cache.syncedHot other) :=
      getOrInitHotCache_self _ other
    exact syncedHot_of_current present ((syncedHot_generation _ _).trans sameGeneration.symm)
  · have kept : (cache.beginLookup thread).hotCache other = cache.hotCache other :=
      getOrInitHotCache_other _ same
    rw [syncedHot, syncedHot, kept, sameGeneration]
    rfl

/-- The hot caches after a promotion, as later lookups find them. -/
theorem coldHit_syncedHot (cache : SsrCache) (thread other : ThreadId) (cold : ColdCache)
    (urlHash : UInt64) (html : String) (now : Nat) :
    (((cache.beginLookup thread).withCold cold).coldHit thread urlHash html now).syncedHot other =
      if other = thread then
        ⟨cache.generation, (cache.syncedHot thread).cache.insert urlHash html now⟩
      else cache.syncedHot other := by
  set promoted := ((cache.beginLookup thread).withCold cold).coldHit thread urlHash html now
  have sameGeneration : promoted.generation = cache.generation := rfl
  have hotCacheEq : promoted.hotCache = Function.update cache.hotCache thread
      (some ⟨cache.generation, (cache.syncedHot thread).cache.insert urlHash html now⟩) :=
    getOrInitHotCache_insertHot (cache.count fun m => { m with lookups := m.lookups + 1 }) thread
      urlHash html now
  split_ifs with same
  · subst same
    have present := congrFun hotCacheEq other
    rw [Function.update_self] at present
    exact syncedHot_of_current present sameGeneration.symm
  · rw [syncedHot, syncedHot, hotCacheEq, Function.update_of_ne same, sameGeneration]
    rfl

end Synced

/-! ### Two caches with the same hot caches -/

/-- The first cache lacks at most expired cold entries, and its lookups and
misses are ahead by one. -/
structure Alike (now : Nat) (left right : SsrCache) : Prop where
  cold : ColdAlike now left.coldCache right.coldCache
  hot : ∀ thread, left.syncedHot thread = right.syncedHot thread
  metrics : left.metrics =
    { right.metrics with lookups := right.metrics.lookups + 1, misses := right.metrics.misses + 1 }

section Alike

variable {hashUrl : String → UInt64} {now later : Nat} {left right cache : SsrCache}

/-- A lookup that misses leaves a cache alike to the one it found. -/
theorem alike_of_missed {thread : ThreadId} {url : String}
    (missed : (cache.tryGet hashUrl thread url now).1 = none) :
    Alike now (cache.tryGet hashUrl thread url now).2 cache := by
  rcases tryGet_cases hashUrl cache thread url now with
    ⟨html, _, result⟩ | ⟨_, ⟨html, _, result⟩ | ⟨coldMissed, result⟩⟩
  · simp [result] at missed
  · simp [result] at missed
  · rw [result]
    exact ⟨coldAlike_of_missed coldMissed, beginLookup_syncedHot cache thread, rfl⟩

theorem Alike.sameGeneration (alike : Alike now left right) :
    left.generation = right.generation := by
  have sameStates := congrArg HotCacheState.generation (alike.hot 0)
  rwa [syncedHot_generation, syncedHot_generation] at sameStates

/-- Both caches answer a later lookup alike and stay alike. -/
theorem Alike.tryGet (alike : Alike now left right) (ordered : now ≤ later) (thread : ThreadId)
    (url : String) :
    (left.tryGet hashUrl thread url later).1 = (right.tryGet hashUrl thread url later).1 ∧
      Alike now (left.tryGet hashUrl thread url later).2
        (right.tryGet hashUrl thread url later).2 := by
  have coldStep := alike.cold.get ordered (hashUrl url)
  have synced (other : ThreadId) :
      (left.beginLookup thread).syncedHot other = (right.beginLookup thread).syncedHot other := by
    rw [beginLookup_syncedHot, beginLookup_syncedHot, alike.hot]
  rw [tryGet_eq, tryGet_eq, alike.hot thread, coldStep.1]
  cases (right.syncedHot thread).cache.peek (hashUrl url) later with
  | some html =>
      refine ⟨rfl, alike.cold, synced, ?_⟩
      simp [hotHit, beginLookup, getOrInitHotCache, count, alike.metrics]
  | none =>
      cases (right.coldCache.get (hashUrl url) later).1 with
      | some html =>
          refine ⟨rfl, coldStep.2, fun other => ?_, ?_⟩
          · rw [coldHit_syncedHot, coldHit_syncedHot, alike.hot, alike.hot, alike.sameGeneration]
          · simp [coldHit, insertHot, withCold, beginLookup, getOrInitHotCache, count,
              alike.metrics]
      | none =>
          refine ⟨rfl, coldStep.2, synced, ?_⟩
          simp [missed, withCold, beginLookup, getOrInitHotCache, count, alike.metrics]

end Alike

/-! ### A failed call -/

/-- The answer of `try_get` and the cache after it. -/
def lookUp (hashUrl : String → UInt64) (cache : SsrCache) (lookup : Lookup) :
    Option String × SsrCache :=
  cache.tryGet hashUrl lookup.thread lookup.url lookup.now

namespace SsrEngine

section Failed

variable {hashUrl : String → UInt64} {pool : RenderPool} {engine next : SsrEngine}
  {lookup store : Visit} {order : ScanOrder} {url data : String} {error : SsrError}

theorem alike_of_failed
    (failed : engine.renderWithData hashUrl pool lookup store order url data =
      (.error error, next)) :
    Alike lookup.now next.cache engine.cache := by
  rcases renderWithData_cases hashUrl pool engine lookup store order url data with
    ⟨cached, _, result⟩ | ⟨missed, ⟨poolError, _, result⟩ | ⟨html, _, result⟩⟩
  · simp [result] at failed
  · rw [result, Prod.mk.injEq] at failed
    rw [← failed.2]
    exact alike_of_missed missed
  · simp [result] at failed

/-- **A failed call is invisible to every later lookup: the answers are those of
the cache before the call, and only the lookups and misses are ahead, by one.** -/
theorem error_unobservable
    (failed : engine.renderWithData hashUrl pool lookup store order url data =
      (.error error, next))
    {lookups : List Lookup} (later : ∀ looked ∈ lookups, lookup.now ≤ looked.now) :
    Execution.transcript (lookUp hashUrl) next.cache lookups =
        Execution.transcript (lookUp hashUrl) engine.cache lookups ∧
      (Execution.settle (lookUp hashUrl) next.cache lookups).metrics =
        { (Execution.settle (lookUp hashUrl) engine.cache lookups).metrics with
          lookups := (Execution.settle (lookUp hashUrl) engine.cache lookups).metrics.lookups + 1
          misses := (Execution.settle (lookUp hashUrl) engine.cache lookups).metrics.misses + 1 } := by
  have guarded : Execution.Guarded (fun current looked => (lookUp hashUrl current looked).2)
      (fun _ looked => lookup.now ≤ looked.now) engine.cache lookups := by
    intro earlier looked rest split
    exact later looked (by simp [split])
  have preserved : ∀ left right (looked : Lookup), Alike lookup.now left right →
      lookup.now ≤ looked.now →
        (lookUp hashUrl left looked).1 = (lookUp hashUrl right looked).1 ∧
          Alike lookup.now (lookUp hashUrl left looked).2 (lookUp hashUrl right looked).2 :=
    fun _ _ looked alike ordered => alike.tryGet ordered looked.thread looked.url
  have simulated := Execution.simulates preserved (alike_of_failed failed) guarded
  exact ⟨simulated.1, simulated.2.metrics⟩

end Failed

/-- An engine whose one page has expired by the time of the failing call. -/
def agedEngine : SsrEngine :=
  (new { smallConfig with cacheTtl := some 1000000000 }).withCache
    ((SsrCache.withTtl 1 1).insert hashOfTwo 0 VisitOrder.stored "/a" "page" 0)

/-- A call that times out removes the expired page, which no lookup would find. -/
theorem error_unobservable_expired :
    Execution.transcript (lookUp hashOfTwo)
        (agedEngine.renderWithData hashOfTwo (fun _ _ => .error .timeout) ⟨1, 2000000000⟩
          ⟨1, 2000000000⟩ VisitOrder.stored "/a" "\x7b\x7d").2.cache
        [⟨0, "/a", 2000000000⟩, ⟨1, "/b", 3000000000⟩] =
      Execution.transcript (lookUp hashOfTwo) agedEngine.cache
        [⟨0, "/a", 2000000000⟩, ⟨1, "/b", 3000000000⟩] := by
  have failed : agedEngine.renderWithData hashOfTwo (fun _ _ => .error .timeout) ⟨1, 2000000000⟩
      ⟨1, 2000000000⟩ VisitOrder.stored "/a" "\x7b\x7d" = (.error .timeout,
        (agedEngine.renderWithData hashOfTwo (fun _ _ => .error .timeout) ⟨1, 2000000000⟩
          ⟨1, 2000000000⟩ VisitOrder.stored "/a" "\x7b\x7d").2) := rfl
  exact (error_unobservable failed (by simp)).1

end SsrEngine

end RustySsr.Engine
