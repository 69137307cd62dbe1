import Mathlib.Algebra.Group.Nat.Defs
import RustySsr.Platform.Collections
import RustySsr.Platform.Time

/-!
Owns the shared cold cache of `src/cache/cold.rs` with each operation taken as
one step: the map, the access counter, the eviction flag, and the batch
eviction that keeps a bounded max-heap of the oldest stamps over one scan. The
order of every scan is a parameter. It does not own the interleavings inside an
operation.
-/

namespace RustySsr.Cache

open RustySsr.Platform

/-- Percentage of the capacity evicted per batch. -/
def evictBatchPercent : Nat := 2

/-- Smallest batch. -/
def evictBatchMin : Nat := 8

structure CacheEntry where
  url : String
  html : String
  lastAccess : UInt64
  createdAt : Nat
deriving DecidableEq, Repr

structure ColdCache where
  cache : HashMap UInt64 CacheEntry
  maxEntries : Nat
  accessCounter : UInt64
  evicting : Bool
  ttl : Option Nat

/-- The order in which one scan of the map meets its entries. -/
abbrev ScanOrder := VisitOrder (UInt64 × CacheEntry)

/-- `str::starts_with`. -/
def startsWith (url urlPrefix : String) : Bool := urlPrefix.toList.isPrefixOf url.toList

namespace ColdCache

/-- `ColdCache::with_ttl`. -/
def withTtl (maxEntries ttlSecs : Nat) : ColdCache where
  cache := ∅
  maxEntries := maxEntries
  accessCounter := 0
  evicting := false
  ttl := ttlOfSecs ttlSecs

/-- `get`: an expired entry is removed, a live one gets a fresh access stamp. -/
def get (cold : ColdCache) (urlHash : UInt64) (now : Nat) : Option String × ColdCache :=
  match cold.cache.lookup urlHash with
  | none => (none, cold)
  | some entry =>
      if outlived cold.ttl entry.createdAt now then
        (none, { cold with cache := cold.cache.erase urlHash })
      else
        (some entry.html,
          { cold with
            accessCounter := cold.accessCounter + 1
            cache := cold.cache.insert urlHash { entry with lastAccess := cold.accessCounter } })

/-- Number of entries evicted per batch; the product is taken in `usize`. -/
def batchSize (maxEntries : Nat) : Nat :=
  max (maxEntries * evictBatchPercent % 2 ^ 64 / 100) evictBatchMin

/-- One turn of the scan in `evict_batch`: fill the heap up to the batch size,
then swap in every entry older than the newest candidate. -/
def considerVictim (batch : Nat) (heap : BinaryHeap) (visited : UInt64 × CacheEntry) :
    BinaryHeap :=
  let access := visited.2.lastAccess
  if heap.length < batch then
    heap.push (access, visited.1)
  else
    match heap.peek with
    | some top => if access < top.1 then heap.pop.push (access, visited.1) else heap
    | none => heap

/-- The candidates left in the heap after the scan. -/
def victims (cold : ColdCache) (order : ScanOrder) : BinaryHeap :=
  (order.visit cold.cache.pairs).foldl (considerVictim (batchSize cold.maxEntries)) []

/-- `evict_batch`: the number of candidates and the cache without them. -/
def evictBatch (cold : ColdCache) (order : ScanOrder) : Nat × ColdCache :=
  if cold.evicting then
    (0, cold)
  else
    let heap := cold.victims order
    (heap.length,
      { cold with cache := cold.cache.eraseAll (heap.map Prod.snd), evicting := false })

/-- `insert`: the number of evicted entries and the cache with the page. -/
def insert (cold : ColdCache) (order : ScanOrder) (urlHash : UInt64) (url html : String)
    (now : Nat) : Nat × ColdCache :=
  let evicted :=
    if cold.maxEntries ≤ cold.cache.len then cold.evictBatch order else (0, cold)
  let newAccess := evicted.2.accessCounter
  (evicted.1,
    { evicted.2 with
      accessCounter := newAccess + 1
      cache := evicted.2.cache.insert urlHash ⟨url, html, newAccess, now⟩ })

/-- `remove`. -/
def remove (cold : ColdCache) (urlHash : UInt64) : Bool × ColdCache :=
  ((cold.cache.lookup urlHash).isSome, { cold with cache := cold.cache.erase urlHash })

/-- The keys that `remove_by_prefix` collects. -/
def keysWithPrefix (cold : ColdCache) (order : ScanOrder) (urlPrefix : String) : List UInt64 :=
  ((order.visit cold.cache.pairs).filter fun visited => startsWith visited.2.url urlPrefix).map
    Prod.fst

/-- `remove_by_prefix`. -/
def removeByPrefix (cold : ColdCache) (order : ScanOrder) (urlPrefix : String) :
    Nat × ColdCache :=
  let toRemove := cold.keysWithPrefix order urlPrefix
  (toRemove.length, { cold with cache := cold.cache.eraseAll toRemove })

/-- `clear`. -/
def clear (cold : ColdCache) : ColdCache := { cold with cache := ∅ }

/-- `len`. -/
def len (cold : ColdCache) : Nat := cold.cache.len

/-- `capacity`. -/
def capacity (cold : ColdCache) : Nat := cold.maxEntries

/-! ### Fields the operations keep -/

@[simp] theorem get_ttl (cold : ColdCache) (urlHash : UInt64) (now : Nat) :
    (cold.get urlHash now).2.ttl = cold.ttl := by
  unfold get
  split
  · rfl
  · split_ifs <;> rfl

@[simp] theorem evictBatch_ttl (cold : ColdCache) (order : ScanOrder) :
    (cold.evictBatch order).2.ttl = cold.ttl := by
  unfold evictBatch
  split_ifs <;> rfl

@[simp] theorem insert_ttl (cold : ColdCache) (order : ScanOrder) (urlHash : UInt64)
    (url html : String) (now : Nat) :
    (cold.insert order urlHash url html now).2.ttl = cold.ttl := by
  unfold insert
  dsimp only
  split_ifs <;> simp

end ColdCache

end RustySsr.Cache
