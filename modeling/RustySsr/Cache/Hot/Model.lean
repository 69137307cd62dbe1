import Mathlib.Data.List.ReduceOption
import Mathlib.Data.Vector.Basic
import RustySsr.Platform.Collections
import RustySsr.Platform.Time

/-!
Owns the thread-local hot cache of `src/cache/hot.rs`: the ring of eight
ultra-hot entries with its write index, the hot map with its order list, and
the operations on them. Every operation that reads the clock takes the reading
as `now`. It does not own what the cache guarantees.
-/

namespace RustySsr.Cache

open RustySsr.Platform

/-- Maximum entries in the ultra-hot array. -/
def ultraHotSize : Nat := 8

/-- Maximum entries in the hot map. -/
def hotMapCapacity : Nat := 128

structure HotEntry where
  urlHash : UInt64
  html : String
  createdAt : Nat
deriving DecidableEq, Repr

/-- The hot cache of one thread. The write index is below the ring size by its
type, as `% ULTRA_HOT_SIZE` keeps it in the source. -/
structure HotCache where
  ultraHot : Vector (Option HotEntry) ultraHotSize
  ultraHotNext : Fin ultraHotSize
  hotMap : HashMap UInt64 HotEntry
  accessOrder : List UInt64
  ttl : Option Nat

namespace HotCache

/-- `HotCache::with_ttl`. -/
def withTtl (ttlSecs : Nat) : HotCache where
  ultraHot := Vector.replicate ultraHotSize none
  ultraHotNext := ⟨0, by decide⟩
  hotMap := ∅
  accessOrder := []
  ttl := ttlOfSecs ttlSecs

/-- `HotCache::new`. -/
def new : HotCache := withTtl 0

/-- `is_expired`. -/
def isExpired (cache : HotCache) (entry : HotEntry) (now : Nat) : Bool :=
  outlived cache.ttl entry.createdAt now

/-- `ultra_hot.iter().flatten()`. -/
def ultraHotEntries (cache : HotCache) : List HotEntry :=
  cache.ultraHot.toList.reduceOption

/-- The entry at which the scan of the ultra-hot array returns: the first slot
by index that holds the key. -/
def firstUltraHot (cache : HotCache) (urlHash : UInt64) : Option HotEntry :=
  cache.ultraHotEntries.find? fun entry => entry.urlHash = urlHash

/-- `insert_to_hot_map`, with its eviction of the oldest key at capacity. -/
def insertToHotMap (cache : HotCache) (entry : HotEntry) : HotCache :=
  let trimmed :=
    if hotMapCapacity ≤ cache.hotMap.len then
      match cache.accessOrder with
      | oldestKey :: rest =>
          { cache with hotMap := cache.hotMap.erase oldestKey, accessOrder := rest }
      | [] => cache
    else cache
  { trimmed with
    accessOrder := trimmed.accessOrder ++ [entry.urlHash]
    hotMap := trimmed.hotMap.insert entry.urlHash entry }

/-- `self.ultra_hot[self.ultra_hot_next].take()` in `insert`: the entry found in
the slot about to be written moves to the hot map. -/
def displace (cache : HotCache) : HotCache :=
  let taken := { cache with ultraHot := cache.ultraHot.set cache.ultraHotNext none }
  match cache.ultraHot[cache.ultraHotNext] with
  | some evicted => taken.insertToHotMap evicted
  | none => taken

/-- `insert`. -/
def insert (cache : HotCache) (urlHash : UInt64) (html : String) (now : Nat) : HotCache :=
  { cache.displace with
    ultraHot := cache.displace.ultraHot.set cache.ultraHotNext (some ⟨urlHash, html, now⟩)
    ultraHotNext := ⟨(cache.ultraHotNext + 1) % ultraHotSize, Nat.mod_lt _ (by decide)⟩ }

/-- `promote_to_ultra_hot`. -/
def promoteToUltraHot (cache : HotCache) (urlHash : UInt64) (html : String) (now : Nat) :
    HotCache :=
  let removed :=
    { cache with
      hotMap := cache.hotMap.erase urlHash
      accessOrder := cache.accessOrder.erase urlHash }
  removed.insert urlHash html now

/-- `get`: ultra-hot array first, then the hot map, promoting a hit there. -/
def get (cache : HotCache) (urlHash : UInt64) (now : Nat) : Option String × HotCache :=
  match cache.firstUltraHot urlHash with
  | some entry =>
      if cache.isExpired entry now then (none, cache) else (some entry.html, cache)
  | none =>
      match cache.hotMap.lookup urlHash with
      | some entry =>
          if cache.isExpired entry now then
            (none, { cache with hotMap := cache.hotMap.erase urlHash })
          else
            (some entry.html, cache.promoteToUltraHot urlHash entry.html now)
      | none => (none, cache)

/-- `peek`: the same lookup without promotion or removal. -/
def peek (cache : HotCache) (urlHash : UInt64) (now : Nat) : Option String :=
  match cache.firstUltraHot urlHash with
  | some entry => if cache.isExpired entry now then none else some entry.html
  | none =>
      match cache.hotMap.lookup urlHash with
      | some entry => if cache.isExpired entry now then none else some entry.html
      | none => none

/-- `len`. -/
def len (cache : HotCache) : Nat := cache.ultraHotEntries.length + cache.hotMap.len

/-- `clear`. -/
def clear (cache : HotCache) : HotCache :=
  { cache with
    ultraHot := Vector.replicate ultraHotSize none
    ultraHotNext := ⟨0, by decide⟩
    hotMap := ∅
    accessOrder := [] }

/-! ### Fields the operations keep -/

@[simp] theorem insertToHotMap_ttl (cache : HotCache) (entry : HotEntry) :
    (cache.insertToHotMap entry).ttl = cache.ttl := by
  unfold insertToHotMap
  split_ifs
  · cases cache.accessOrder <;> rfl
  · rfl

@[simp] theorem insertToHotMap_ultraHot (cache : HotCache) (entry : HotEntry) :
    (cache.insertToHotMap entry).ultraHot = cache.ultraHot := by
  unfold insertToHotMap
  split_ifs
  · cases cache.accessOrder <;> rfl
  · rfl

@[simp] theorem displace_ttl (cache : HotCache) : cache.displace.ttl = cache.ttl := by
  unfold displace
  dsimp only
  split <;> simp

@[simp] theorem displace_ultraHot (cache : HotCache) :
    cache.displace.ultraHot = cache.ultraHot.set cache.ultraHotNext none := by
  unfold displace
  dsimp only
  split <;> simp

@[simp] theorem insert_ttl (cache : HotCache) (urlHash : UInt64) (html : String) (now : Nat) :
    (cache.insert urlHash html now).ttl = cache.ttl :=
  cache.displace_ttl

@[simp] theorem get_ttl (cache : HotCache) (urlHash : UInt64) (now : Nat) :
    (cache.get urlHash now).2.ttl = cache.ttl := by
  unfold get
  split
  · split_ifs <;> rfl
  · split
    · split_ifs
      · rfl
      · exact insert_ttl _ _ _ _
    · rfl

end HotCache

end RustySsr.Cache
