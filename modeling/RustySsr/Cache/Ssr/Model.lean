import RustySsr.Cache.Cold.Contents
import RustySsr.Cache.Hot.Contents
import RustySsr.Foundation.Execution

/-!
Owns the multi-tier cache of `src/cache/ssr.rs`: one hot cache per thread, the
shared cold cache, the generation counter and the metric counters. The hash of
a URL is a parameter, since `DefaultHasher` fixes no algorithm. Each operation
is given by the shared-memory steps it is made of, and then as one step; the
interleavings of those steps, and the loads of `metrics` among them, are owned
elsewhere. The latency reading `last_access_ns` is left out: no answer of the
cache depends on it.
-/

namespace RustySsr.Cache

open RustySsr.Platform
open RustySsr.Foundation

abbrev ThreadId := Nat

/-- A thread's hot cache and the generation it was last synchronised with. -/
structure HotCacheState where
  generation : UInt64
  cache : HotCache

structure CacheMetricsInner where
  lookups : Nat
  hotHits : Nat
  coldHits : Nat
  misses : Nat
  promotions : Nat
  insertions : Nat
  evictions : Nat
deriving DecidableEq, Repr

inductive Counter where
  | lookups
  | hotHits
  | coldHits
  | misses
  | promotions
  | insertions
  | evictions
deriving DecidableEq, Repr

def CacheMetricsInner.get (metrics : CacheMetricsInner) : Counter → Nat
  | .lookups => metrics.lookups
  | .hotHits => metrics.hotHits
  | .coldHits => metrics.coldHits
  | .misses => metrics.misses
  | .promotions => metrics.promotions
  | .insertions => metrics.insertions
  | .evictions => metrics.evictions

/-- `load`: a counter is a `u64` and wraps, so the count is read modulo `2 ^ 64`. -/
def CacheMetricsInner.load (metrics : CacheMetricsInner) (counter : Counter) : Nat :=
  metrics.get counter % 2 ^ 64

structure CacheMetrics where
  lookups : Nat
  hotHits : Nat
  coldHits : Nat
  misses : Nat
  promotions : Nat
  insertions : Nat
  evictions : Nat
  coldSize : Nat
  coldCapacity : Nat
deriving DecidableEq, Repr

structure SsrCache where
  hotCache : ThreadId → Option HotCacheState
  coldCache : ColdCache
  ttlSecs : Nat
  generation : UInt64
  metrics : CacheMetricsInner

namespace SsrCache

/-- `SsrCache::with_ttl`. -/
def withTtl (maxColdEntries ttlSecs : Nat) : SsrCache where
  hotCache := fun _ => none
  coldCache := ColdCache.withTtl maxColdEntries ttlSecs
  ttlSecs := ttlSecs
  generation := 0
  metrics := ⟨0, 0, 0, 0, 0, 0, 0⟩

/-- `SsrCache::new`. -/
def new (maxColdEntries : Nat) : SsrCache := withTtl maxColdEntries 0

/-! ### The steps of the operations -/

/-- `get_or_init_hot_cache`: the thread's hot cache after it has been created if
absent and emptied if its generation is not the current one. -/
def syncedHot (cache : SsrCache) (thread : ThreadId) : HotCacheState :=
  match cache.hotCache thread with
  | none => ⟨cache.generation, HotCache.withTtl cache.ttlSecs⟩
  | some state =>
      if state.generation ≠ cache.generation then ⟨cache.generation, state.cache.clear⟩
      else state

def getOrInitHotCache (cache : SsrCache) (thread : ThreadId) : SsrCache :=
  { cache with
    hotCache := Function.update cache.hotCache thread (some (cache.syncedHot thread)) }

/-- `hot.borrow().cache.peek(url_hash)` on the thread's own hot cache. -/
def peekHot (cache : SsrCache) (thread : ThreadId) (urlHash : UInt64) (now : Nat) :
    Option String :=
  (cache.hotCache thread).bind fun state => state.cache.peek urlHash now

/-- `hot_ref.cache.insert(url_hash, html)` on the thread's own hot cache. -/
def insertHot (cache : SsrCache) (thread : ThreadId) (urlHash : UInt64) (html : String)
    (now : Nat) : SsrCache :=
  { cache with
    hotCache := Function.update cache.hotCache thread
      ((cache.hotCache thread).map fun state =>
        { state with cache := state.cache.insert urlHash html now }) }

def withCold (cache : SsrCache) (cold : ColdCache) : SsrCache := { cache with coldCache := cold }

/-- `generation.fetch_add(1)`. -/
def bumpGeneration (cache : SsrCache) : SsrCache :=
  { cache with generation := cache.generation + 1 }

def count (cache : SsrCache) (change : CacheMetricsInner → CacheMetricsInner) : SsrCache :=
  { cache with metrics := change cache.metrics }

/-! ### The operations -/

/-- The first steps of `try_get`: count the lookup, synchronise the hot cache. -/
def beginLookup (cache : SsrCache) (thread : ThreadId) : SsrCache :=
  (cache.count fun m => { m with lookups := m.lookups + 1 }).getOrInitHotCache thread

/-- The end of `try_get` on a hot hit. -/
def hotHit (cache : SsrCache) : SsrCache :=
  cache.count fun m => { m with hotHits := m.hotHits + 1 }

/-- The end of `try_get` on a cold hit, with the promotion to the hot cache. -/
def coldHit (cache : SsrCache) (thread : ThreadId) (urlHash : UInt64) (html : String)
    (now : Nat) : SsrCache :=
  (cache.insertHot thread urlHash html now).count fun m =>
    { m with coldHits := m.coldHits + 1, promotions := m.promotions + 1 }

/-- The end of `try_get` on a miss. -/
def missed (cache : SsrCache) : SsrCache :=
  cache.count fun m => { m with misses := m.misses + 1 }

section Operations

variable (hashUrl : String → UInt64)

/-- `try_get`. -/
def tryGet (cache : SsrCache) (thread : ThreadId) (url : String) (now : Nat) :
    Option String × SsrCache :=
  let urlHash := hashUrl url
  let synced := cache.beginLookup thread
  match synced.peekHot thread urlHash now with
  | some html => (some html, synced.hotHit)
  | none =>
      let cold := synced.coldCache.get urlHash now
      match cold.1 with
      | some html => (some html, (synced.withCold cold.2).coldHit thread urlHash html now)
      | none => (none, (synced.withCold cold.2).missed)

/-- `insert`. -/
def insert (cache : SsrCache) (thread : ThreadId) (order : ScanOrder) (url html : String)
    (now : Nat) : SsrCache :=
  let urlHash := hashUrl url
  let cold := cache.coldCache.insert order urlHash url html now
  (((cache.withCold cold.2).count fun m =>
      { m with insertions := m.insertions + 1, evictions := m.evictions + cold.1 }).getOrInitHotCache
    thread).insertHot thread urlHash html now

/-- `invalidate`. -/
def invalidate (cache : SsrCache) (url : String) : SsrCache :=
  let removed := cache.coldCache.remove (hashUrl url)
  if removed.1 then (cache.withCold removed.2).bumpGeneration else cache.withCold removed.2

/-- `invalidate_prefix`: the number of removed entries and the cache after it. -/
def invalidatePrefix (cache : SsrCache) (order : ScanOrder) (urlPrefix : String) :
    Nat × SsrCache :=
  let removed := cache.coldCache.removeByPrefix order urlPrefix
  (removed.1,
    if 0 < removed.1 then (cache.withCold removed.2).bumpGeneration
    else cache.withCold removed.2)

/-- `clear`, with its reset of the metrics. -/
def clear (cache : SsrCache) : SsrCache :=
  (cache.withCold cache.coldCache.clear).bumpGeneration.count fun _ => ⟨0, 0, 0, 0, 0, 0, 0⟩

/-- `metrics`, where no other step comes between its loads. -/
def cacheMetrics (cache : SsrCache) : CacheMetrics where
  lookups := cache.metrics.load .lookups
  hotHits := cache.metrics.load .hotHits
  coldHits := cache.metrics.load .coldHits
  misses := cache.metrics.load .misses
  promotions := cache.metrics.load .promotions
  insertions := cache.metrics.load .insertions
  evictions := cache.metrics.load .evictions
  coldSize := cache.coldCache.len
  coldCapacity := cache.coldCache.capacity

/-- An operation on the cache, with the thread that performs it where it uses a
hot cache, and the scan order where it scans. -/
inductive Op where
  | tryGet (thread : ThreadId) (url : String)
  | insert (thread : ThreadId) (order : ScanOrder) (url html : String)
  | invalidate (url : String)
  | invalidatePrefix (order : ScanOrder) (urlPrefix : String)
  | clear

/-- An operation and the clock reading it takes. -/
structure Event where
  now : Nat
  op : Op

def apply (cache : SsrCache) (event : Event) : SsrCache :=
  match event.op with
  | .tryGet thread url => (cache.tryGet hashUrl thread url event.now).2
  | .insert thread order url html => cache.insert hashUrl thread order url html event.now
  | .invalidate url => cache.invalidate hashUrl url
  | .invalidatePrefix order urlPrefix => (cache.invalidatePrefix order urlPrefix).2
  | .clear => cache.clear

/-- The state after a run of operations on a new cache. -/
def after (maxColdEntries ttlSecs : Nat) (events : List Event) : SsrCache :=
  Execution.run (apply hashUrl) (withTtl maxColdEntries ttlSecs) events

end Operations

end SsrCache

end RustySsr.Cache
