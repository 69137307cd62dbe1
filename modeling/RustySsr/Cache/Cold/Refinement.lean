import RustySsr.Cache.Cold.Victims
import RustySsr.Foundation.Execution
import RustySsr.Foundation.Recency

/-!
Owns the cold cache as a batch-LRU map. The access stamps of the entries are
distinct and fall along one list, the entries by last touch: a lookup that hits
or an insertion puts its entry in front, and an eviction takes the end.
`refinesBatchLru` states for every run, and for every order in which the scans
meet the entries, that the cache answers as that list does.
-/

namespace RustySsr.Cache

open RustySsr.Platform
open RustySsr.Foundation

/-- What an entry says apart from its access stamp. -/
structure Page where
  url : String
  html : String
  createdAt : Nat
deriving DecidableEq, Repr

def CacheEntry.page (entry : CacheEntry) : Page := ⟨entry.url, entry.html, entry.createdAt⟩

namespace ColdCache

/-! ### Runs -/

/-- An operation on the cold cache, with the scan order where it scans. -/
inductive Op where
  | get (urlHash : UInt64)
  | insert (order : ScanOrder) (urlHash : UInt64) (url html : String)
  | remove (urlHash : UInt64)
  | removeByPrefix (order : ScanOrder) (urlPrefix : String)
  | clear
  | len

inductive Answer where
  | found (html : Option String)
  | inserted (evicted : Nat)
  | removed (present : Bool)
  | removedByPrefix (count : Nat)
  | cleared
  | length (count : Nat)
deriving DecidableEq, Repr

/-- An operation and the clock reading it takes. -/
structure Event where
  now : Nat
  op : Op

def respond (cold : ColdCache) (event : Event) : Answer × ColdCache :=
  match event.op with
  | .get urlHash =>
      let got := cold.get urlHash event.now
      (.found got.1, got.2)
  | .insert order urlHash url html =>
      let inserted := cold.insert order urlHash url html event.now
      (.inserted inserted.1, inserted.2)
  | .remove urlHash =>
      let removed := cold.remove urlHash
      (.removed removed.1, removed.2)
  | .removeByPrefix order urlPrefix =>
      let removed := cold.removeByPrefix order urlPrefix
      (.removedByPrefix removed.1, removed.2)
  | .clear => (.cleared, cold.clear)
  | .len => (.length cold.len, cold)

end ColdCache

/-! ### The reference -/

/-- The pages by last touch, newest first, and the number of touches so far. -/
structure BatchLru where
  items : List (UInt64 × Page)
  touches : Nat

namespace BatchLru

def empty : BatchLru := ⟨[], 0⟩

/-- The page becomes the most recently touched one. -/
def touch (lru : BatchLru) (urlHash : UInt64) (page : Page) : BatchLru :=
  ⟨Recency.record lru.items urlHash page, lru.touches + 1⟩

section Operations

variable (maxEntries : Nat) (ttl : Option Nat) (lru : BatchLru)

def get (urlHash : UInt64) (now : Nat) : Option String × BatchLru :=
  match lru.items.lookup urlHash with
  | none => (none, lru)
  | some page =>
      if outlived ttl page.createdAt now then
        (none, { lru with items := Recency.forget lru.items urlHash })
      else (some page.html, lru.touch urlHash page)

/-- The size of the batch dropped by an insertion. -/
def batch : Nat :=
  if maxEntries ≤ lru.items.length then min (max (maxEntries * 2 / 100) 8) lru.items.length else 0

def insert (urlHash : UInt64) (page : Page) : Nat × BatchLru :=
  let evicted := lru.batch maxEntries
  let kept := { lru with items := lru.items.take (lru.items.length - evicted) }
  (evicted, kept.touch urlHash page)

def remove (urlHash : UInt64) : Bool × BatchLru :=
  ((lru.items.lookup urlHash).isSome, { lru with items := Recency.forget lru.items urlHash })

def removeByPrefix (urlPrefix : String) : Nat × BatchLru :=
  ((lru.items.filter fun item => startsWith item.2.url urlPrefix).length,
    { lru with items := lru.items.filter fun item => !startsWith item.2.url urlPrefix })

/-- The orders of the scans are not read. -/
def respond (event : ColdCache.Event) : ColdCache.Answer × BatchLru :=
  match event.op with
  | .get urlHash =>
      let got := lru.get ttl urlHash event.now
      (.found got.1, got.2)
  | .insert _ urlHash url html =>
      let inserted := lru.insert maxEntries urlHash ⟨url, html, event.now⟩
      (.inserted inserted.1, inserted.2)
  | .remove urlHash =>
      let removed := lru.remove urlHash
      (.removed removed.1, removed.2)
  | .removeByPrefix _ urlPrefix =>
      let removed := lru.removeByPrefix urlPrefix
      (.removedByPrefix removed.1, removed.2)
  | .clear => (.cleared, { lru with items := [] })
  | .len => (.length lru.items.length, lru)

end Operations

end BatchLru

namespace ColdCache

/-- The cache holds the pages of the list, under the same keys, and no others. -/
def HoldsItems (cold : ColdCache) (items : List (UInt64 × Page)) : Prop :=
  (∀ urlHash page, cold.HasPage urlHash page.url page.html page.createdAt ↔
      (urlHash, page) ∈ items) ∧
    cold.len = items.length

/-! ### Entries by last touch -/

/-- The entries of the cache in the order of their stamps, newest first. -/
structure Ordered (cold : ColdCache) (entries : List (UInt64 × CacheEntry)) : Prop where
  lookup : ∀ key entry, cold.cache.lookup key = some entry ↔ (key, entry) ∈ entries
  distinct : Recency.Distinct entries
  falling : entries.Pairwise fun newer older =>
    older.2.lastAccess.toNat < newer.2.lastAccess.toNat
  below : ∀ item ∈ entries, item.2.lastAccess.toNat < cold.accessCounter.toNat

namespace Ordered

variable {cold : ColdCache} {entries : List (UInt64 × CacheEntry)}

theorem sublist (ordered : Ordered cold entries) {fewer : List (UInt64 × CacheEntry)}
    {cache : HashMap UInt64 CacheEntry} (shorter : fewer.Sublist entries)
    (lookup : ∀ key entry, cache.lookup key = some entry ↔ (key, entry) ∈ fewer) :
    Ordered { cold with cache := cache } fewer where
  lookup := lookup
  distinct := ordered.distinct.sublist shorter
  falling := ordered.falling.sublist shorter
  below := fun item member => ordered.below item (shorter.subset member)

theorem mem_keys_iff (ordered : Ordered cold entries) (key : UInt64) :
    key ∈ cold.cache ↔ key ∈ entries.map Prod.fst := by
  rw [← AList.lookup_isSome, Option.isSome_iff_exists, List.mem_map]
  constructor
  · rintro ⟨entry, found⟩
    exact ⟨(key, entry), (ordered.lookup key entry).mp found, rfl⟩
  · rintro ⟨⟨_, entry⟩, member, rfl⟩
    exact ⟨entry, (ordered.lookup _ entry).mpr member⟩

theorem len_eq (ordered : Ordered cold entries) : cold.cache.len = entries.length := by
  rw [HashMap.len_eq_length ordered.distinct ordered.mem_keys_iff, List.length_map]

theorem pairs_perm (ordered : Ordered cold entries) : cold.cache.pairs.Perm entries := by
  have keysEq : cold.cache.pairs.map Prod.fst = cold.cache.keys := by
    simp [HashMap.pairs, AList.keys, List.keys]
  have nodup : cold.cache.pairs.Nodup := .of_map Prod.fst (keysEq ▸ cold.cache.keys_nodup)
  refine (List.perm_ext_iff_of_nodup nodup (.of_map Prod.fst ordered.distinct)).mpr ?_
  rintro ⟨key, entry⟩
  rw [HashMap.mem_pairs_iff, ordered.lookup]

theorem lookup_eq (ordered : Ordered cold entries) (key : UInt64) :
    cold.cache.lookup key = entries.lookup key :=
  Option.ext fun entry => by
    rw [ordered.lookup, Recency.lookup_eq_some_iff ordered.distinct]

/-- The cache without some keys. -/
theorem eraseAll (ordered : Ordered cold entries) (keys : List UInt64) :
    Ordered { cold with cache := cold.cache.eraseAll keys }
      (entries.filter fun item => item.1 ∉ keys) := by
  refine ordered.sublist List.filter_sublist fun key entry => ?_
  rw [HashMap.lookup_eraseAll_some_iff, ordered.lookup, List.mem_filter, and_comm]
  simp

theorem erase (ordered : Ordered cold entries) (key : UInt64) :
    Ordered { cold with cache := cold.cache.erase key } (Recency.forget entries key) := by
  refine ordered.sublist List.filter_sublist fun other entry => ?_
  rw [HashMap.lookup_erase_some_iff, ordered.lookup, Recency.mem_forget_iff, and_comm]

/-- Storing an entry with the next stamp. -/
theorem store (ordered : Ordered cold entries)
    (room : cold.accessCounter.toNat + 1 < 2 ^ 64) (key : UInt64) (page : Page) :
    Ordered { cold with
        accessCounter := cold.accessCounter + 1
        cache := cold.cache.insert key ⟨page.url, page.html, cold.accessCounter, page.createdAt⟩ }
      (Recency.record entries key ⟨page.url, page.html, cold.accessCounter, page.createdAt⟩) where
  lookup := fun other entry => by
    rw [HashMap.lookup_insert_some_iff, ordered.lookup, Recency.record, List.mem_cons,
      Recency.mem_forget_iff, Prod.mk.injEq, and_comm (a := other ≠ key)]
  distinct := ordered.distinct.record key _
  falling := by
    refine List.pairwise_cons.mpr ⟨fun item member => ?_, ?_⟩
    · exact ordered.below item (Recency.mem_forget_iff.mp member).1
    · exact ordered.falling.sublist List.filter_sublist
  below := fun item member => by
    have next : (cold.accessCounter + 1).toNat = cold.accessCounter.toNat + 1 := by
      rw [UInt64.toNat_add]
      exact Nat.mod_eq_of_lt room
    show item.2.lastAccess.toNat < (cold.accessCounter + 1).toNat
    rw [next]
    rcases List.mem_cons.mp member with rfl | old
    · exact Nat.lt_succ_self _
    · exact (ordered.below item (Recency.mem_forget_iff.mp old).1).trans (Nat.lt_succ_self _)

/-- The victims of an eviction are the end of the list. -/
theorem victims_perm (ordered : Ordered cold entries) (order : ScanOrder) :
    (cold.victims order).Perm
      ((entries.drop (entries.length - batchSize cold.maxEntries)).map candidate) := by
  have selects := (cold.victims_selects order).perm (ordered.pairs_perm.map candidate)
    (List.Perm.refl _)
  have falling : (entries.map candidate).Pairwise fun first second =>
      stamp second < stamp first := List.pairwise_map.mpr ordered.falling
  have perm := selects.perm_drop falling
  rwa [List.length_map, ← List.map_drop] at perm

/-- An eviction leaves the beginning of the list. -/
theorem evictBatch (ordered : Ordered cold entries) (idle : cold.evicting = false)
    (order : ScanOrder) :
    (cold.evictBatch order).1 = min (batchSize cold.maxEntries) entries.length ∧
      Ordered (cold.evictBatch order).2
        (entries.take (entries.length - batchSize cold.maxEntries)) := by
  have perm := ordered.victims_perm order
  have keys := perm.map Prod.snd
  rw [List.map_map] at keys
  unfold ColdCache.evictBatch
  rw [idle, if_neg Bool.false_ne_true]
  dsimp only
  constructor
  · rw [perm.length_eq, List.length_map, List.length_drop]
    omega
  · have left := ordered.eraseAll ((cold.victims order).map Prod.snd)
    have sameFilter : (entries.filter fun item => item.1 ∉ (cold.victims order).map Prod.snd) =
        entries.take (entries.length - batchSize cold.maxEntries) := by
      rw [← Recency.filter_notMem_drop ordered.distinct]
      refine List.filter_congr fun item _ => ?_
      rw [decide_eq_decide, keys.mem_iff]
      rfl
    rw [sameFilter] at left
    exact ⟨left.lookup, left.distinct, left.falling, left.below⟩

end Ordered

/-! ### One operation -/

/-- The cache and the reference are in step. -/
structure Models (maxEntries : Nat) (ttl : Option Nat) (cold : ColdCache) (lru : BatchLru) :
    Prop where
  ordered : ∃ entries, Ordered cold entries ∧
    lru.items = Recency.mapValues CacheEntry.page entries
  touches : lru.touches = cold.accessCounter.toNat
  idle : cold.evicting = false
  sameMax : cold.maxEntries = maxEntries
  sameTtl : cold.ttl = ttl

namespace Models

variable {maxEntries : Nat} {ttl : Option Nat} {cold : ColdCache} {lru : BatchLru}

/-- The entries are the items, but for their stamps. -/
theorem holdsItems (models : Models maxEntries ttl cold lru) : cold.HoldsItems lru.items := by
  obtain ⟨entries, ordered, items⟩ := models.ordered
  rw [items]
  refine ⟨fun key page => ?_, ?_⟩
  · rw [Recency.mapValues, List.mem_map]
    constructor
    · rintro ⟨lastAccess, found⟩
      exact ⟨(key, _), (ordered.lookup key _).mp found, rfl⟩
    · rintro ⟨⟨_, entry⟩, member, same⟩
      obtain ⟨rfl, rfl⟩ := Prod.mk.inj same
      exact hasPage_of_lookup ((ordered.lookup _ entry).mpr member)
  · rw [len, ordered.len_eq, Recency.length_mapValues]

/-- The cache with fewer entries. -/
theorem withEntries (models : Models maxEntries ttl cold lru)
    {cache : HashMap UInt64 CacheEntry} {entries : List (UInt64 × CacheEntry)}
    (ordered : Ordered { cold with cache := cache } entries) {items : List (UInt64 × Page)}
    (image : items = Recency.mapValues CacheEntry.page entries) :
    Models maxEntries ttl { cold with cache := cache } { lru with items := items } where
  ordered := ⟨entries, ordered, image⟩
  touches := models.touches
  idle := models.idle
  sameMax := models.sameMax
  sameTtl := models.sameTtl

/-- A touch stores the page with the next stamp. -/
theorem touch (models : Models maxEntries ttl cold lru) (room : lru.touches + 1 < 2 ^ 64)
    (key : UInt64) (page : Page) :
    Models maxEntries ttl
      { cold with
        accessCounter := cold.accessCounter + 1
        cache := cold.cache.insert key ⟨page.url, page.html, cold.accessCounter, page.createdAt⟩ }
      (lru.touch key page) where
  ordered := by
    obtain ⟨entries, ordered, items⟩ := models.ordered
    refine ⟨_, ordered.store (models.touches ▸ room) key page, ?_⟩
    rw [BatchLru.touch, items, ← Recency.record_mapValues]
    rfl
  touches := by
    show lru.touches + 1 = (cold.accessCounter + 1).toNat
    rw [UInt64.toNat_add, ← models.touches]
    exact (Nat.mod_eq_of_lt room).symm
  idle := models.idle
  sameMax := models.sameMax
  sameTtl := models.sameTtl

theorem lookup_items (models : Models maxEntries ttl cold lru) (key : UInt64) :
    lru.items.lookup key = (cold.cache.lookup key).map CacheEntry.page := by
  obtain ⟨entries, ordered, items⟩ := models.ordered
  rw [items, Recency.lookup_mapValues, ordered.lookup_eq]

theorem erase (models : Models maxEntries ttl cold lru) (key : UInt64) :
    Models maxEntries ttl { cold with cache := cold.cache.erase key }
      { lru with items := Recency.forget lru.items key } := by
  obtain ⟨entries, ordered, items⟩ := models.ordered
  exact models.withEntries (ordered.erase key) (by rw [items, Recency.forget_mapValues])

theorem get (models : Models maxEntries ttl cold lru) (key : UInt64) (now : Nat)
    (room : (lru.get ttl key now).2.touches < 2 ^ 64) :
    (cold.get key now).1 = (lru.get ttl key now).1 ∧
      Models maxEntries ttl (cold.get key now).2 (lru.get ttl key now).2 := by
  have sameTtl := models.sameTtl
  subst sameTtl
  unfold ColdCache.get BatchLru.get
  unfold BatchLru.get at room
  rw [models.lookup_items] at room ⊢
  cases found : cold.cache.lookup key with
  | none => exact ⟨rfl, models⟩
  | some entry =>
      rw [found] at room
      simp only [Option.map_some, CacheEntry.page] at room ⊢
      split_ifs at room ⊢ with expired
      · exact ⟨rfl, models.erase key⟩
      · exact ⟨rfl, models.touch room key ⟨entry.url, entry.html, entry.createdAt⟩⟩

theorem insert (models : Models maxEntries ttl cold lru)
    (representable : maxEntries * 2 < 2 ^ 64) (order : ScanOrder) (key : UInt64)
    (url html : String) (now : Nat)
    (room : (lru.insert maxEntries key ⟨url, html, now⟩).2.touches < 2 ^ 64) :
    (cold.insert order key url html now).1 = (lru.insert maxEntries key ⟨url, html, now⟩).1 ∧
      Models maxEntries ttl (cold.insert order key url html now).2
        (lru.insert maxEntries key ⟨url, html, now⟩).2 := by
  obtain ⟨entries, ordered, items⟩ := models.ordered
  have sameLength : lru.items.length = entries.length := by
    rw [items, Recency.length_mapValues]
  have size : batchSize cold.maxEntries = max (maxEntries * 2 / 100) 8 := by
    rw [models.sameMax, batchSize, evictBatchPercent, Nat.mod_eq_of_lt representable]
    rfl
  have evicted : ((if cold.maxEntries ≤ cold.cache.len then cold.evictBatch order
        else (0, cold)).1 = lru.batch maxEntries) ∧
      Models maxEntries ttl (if cold.maxEntries ≤ cold.cache.len then cold.evictBatch order
        else (0, cold)).2
        { lru with items := lru.items.take (lru.items.length - lru.batch maxEntries) } := by
    unfold BatchLru.batch
    rw [ordered.len_eq, models.sameMax, sameLength]
    split_ifs with full
    · obtain ⟨counted, kept⟩ := ordered.evictBatch models.idle order
      rw [size] at counted kept
      refine ⟨counted, ⟨⟨_, kept, ?_⟩, ?_, ?_, ?_, ?_⟩⟩
      · have sameCount : entries.length - min (max (maxEntries * 2 / 100) 8) entries.length =
            entries.length - max (maxEntries * 2 / 100) 8 := by omega
        rw [items, Recency.take_mapValues, sameCount]
      · rw [evictBatch_accessCounter]
        exact models.touches
      · unfold ColdCache.evictBatch
        rw [models.idle]
        rfl
      · unfold ColdCache.evictBatch
        split_ifs <;> exact models.sameMax
      · rw [evictBatch_ttl, models.sameTtl]
    · refine ⟨rfl, ?_⟩
      rw [Nat.sub_zero, ← sameLength, List.take_length]
      exact models
  obtain ⟨sameCount, kept⟩ := evicted
  exact ⟨sameCount, kept.touch room key ⟨url, html, now⟩⟩

theorem remove (models : Models maxEntries ttl cold lru) (key : UInt64) :
    (cold.remove key).1 = (lru.remove key).1 ∧
      Models maxEntries ttl (cold.remove key).2 (lru.remove key).2 := by
  refine ⟨?_, models.erase key⟩
  show (cold.cache.lookup key).isSome = (lru.items.lookup key).isSome
  rw [models.lookup_items, Option.isSome_map]

theorem removeByPrefix (models : Models maxEntries ttl cold lru) (order : ScanOrder)
    (urlPrefix : String) :
    (cold.removeByPrefix order urlPrefix).1 = (lru.removeByPrefix urlPrefix).1 ∧
      Models maxEntries ttl (cold.removeByPrefix order urlPrefix).2
        (lru.removeByPrefix urlPrefix).2 := by
  obtain ⟨entries, ordered, items⟩ := models.ordered
  have matching : (lru.items.filter fun item => startsWith item.2.url urlPrefix) =
      Recency.mapValues CacheEntry.page
        (entries.filter fun item => startsWith item.2.url urlPrefix) := by
    rw [items, Recency.mapValues, List.filter_map]
    rfl
  constructor
  · show (cold.keysWithPrefix order urlPrefix).length = _
    rw [keysWithPrefix, List.length_map, BatchLru.removeByPrefix, matching,
      Recency.length_mapValues]
    exact (((order.perm _).trans ordered.pairs_perm).filter _).length_eq
  · refine models.withEntries (ordered.eraseAll (cold.keysWithPrefix order urlPrefix)) ?_
    rw [items, Recency.mapValues, List.filter_map, Recency.mapValues]
    congr 1
    refine List.filter_congr fun item member => ?_
    have found := (ordered.lookup item.1 item.2).mpr member
    rw [Function.comp_apply, Bool.eq_iff_iff, decide_eq_true_iff, mem_keysWithPrefix_iff, found]
    simp [CacheEntry.page]

theorem clear (models : Models maxEntries ttl cold lru) :
    Models maxEntries ttl cold.clear { lru with items := [] } := by
  have ordered : Ordered { cold with cache := ∅ } [] :=
    ⟨by simp, List.nodup_nil, List.Pairwise.nil, by simp⟩
  exact models.withEntries ordered rfl

/-- An operation is answered alike and keeps the two in step. -/
theorem respond (models : Models maxEntries ttl cold lru)
    (representable : maxEntries * 2 < 2 ^ 64) (event : Event)
    (room : (lru.respond maxEntries ttl event).2.touches < 2 ^ 64) :
    (cold.respond event).1 = (lru.respond maxEntries ttl event).1 ∧
      Models maxEntries ttl (cold.respond event).2 (lru.respond maxEntries ttl event).2 := by
  obtain ⟨now, op⟩ := event
  cases op with
  | get key =>
      obtain ⟨same, kept⟩ := models.get key now room
      exact ⟨congrArg Answer.found same, kept⟩
  | insert order key url html =>
      obtain ⟨same, kept⟩ := models.insert representable order key url html now room
      exact ⟨congrArg Answer.inserted same, kept⟩
  | remove key =>
      obtain ⟨same, kept⟩ := models.remove key
      exact ⟨congrArg Answer.removed same, kept⟩
  | removeByPrefix order urlPrefix =>
      obtain ⟨same, kept⟩ := models.removeByPrefix order urlPrefix
      exact ⟨congrArg Answer.removedByPrefix same, kept⟩
  | clear => exact ⟨rfl, models.clear⟩
  | len => exact ⟨congrArg Answer.length models.holdsItems.2, models⟩

end Models

/-! ### Every run -/

theorem models_withTtl (maxEntries ttlSecs : Nat) :
    Models maxEntries (ttlOfSecs ttlSecs) (withTtl maxEntries ttlSecs) BatchLru.empty where
  ordered := ⟨[], ⟨by simp [withTtl], List.nodup_nil, List.Pairwise.nil, by simp⟩, rfl⟩
  touches := rfl
  idle := rfl
  sameMax := rfl
  sameTtl := rfl

/-- No operation takes a touch back. -/
theorem touches_le_respond (maxEntries : Nat) (ttl : Option Nat) (lru : BatchLru) (event : Event) :
    lru.touches ≤ (lru.respond maxEntries ttl event).2.touches := by
  obtain ⟨now, op⟩ := event
  cases op with
  | get key =>
      show lru.touches ≤ (lru.get ttl key now).2.touches
      unfold BatchLru.get
      split
      · exact Nat.le_refl _
      · split_ifs
        · exact Nat.le_refl _
        · exact Nat.le_succ _
  | insert order key url html => exact Nat.le_succ _
  | remove key => exact Nat.le_refl _
  | removeByPrefix order urlPrefix => exact Nat.le_refl _
  | clear => exact Nat.le_refl _
  | len => exact Nat.le_refl _

/-- **A cold cache is a batch-LRU map.** Over fewer than `2 ^ 64` touches it gives
the answers of the list that makes the same operations, and holds its pages,
whatever order the scans meet the entries in. -/
theorem refinesBatchLru {maxEntries : Nat} (representable : maxEntries * 2 < 2 ^ 64)
    (ttlSecs : Nat) {events : List Event}
    (room : (Execution.settle (BatchLru.respond maxEntries (ttlOfSecs ttlSecs)) BatchLru.empty
      events).touches < 2 ^ 64) :
    Execution.transcript respond (withTtl maxEntries ttlSecs) events =
        Execution.transcript (BatchLru.respond maxEntries (ttlOfSecs ttlSecs)) BatchLru.empty
          events ∧
      HoldsItems (Execution.settle respond (withTtl maxEntries ttlSecs) events)
        (Execution.settle (BatchLru.respond maxEntries (ttlOfSecs ttlSecs)) BatchLru.empty
          events).items := by
  have guarded : Execution.Guarded
      (fun lru event => (BatchLru.respond maxEntries (ttlOfSecs ttlSecs) lru event).2)
      (fun lru event =>
        (BatchLru.respond maxEntries (ttlOfSecs ttlSecs) lru event).2.touches < 2 ^ 64)
      BatchLru.empty events :=
    Execution.guarded_of_measure_run (touches_le_respond maxEntries (ttlOfSecs ttlSecs)) room
  have preserved : ∀ (cold : ColdCache) (lru : BatchLru) (event : Event),
      Models maxEntries (ttlOfSecs ttlSecs) cold lru →
        (lru.respond maxEntries (ttlOfSecs ttlSecs) event).2.touches < 2 ^ 64 →
          (cold.respond event).1 = (lru.respond maxEntries (ttlOfSecs ttlSecs) event).1 ∧
            Models maxEntries (ttlOfSecs ttlSecs) (cold.respond event).2
              (lru.respond maxEntries (ttlOfSecs ttlSecs) event).2 :=
    fun _ _ event models allowed => models.respond representable event allowed
  obtain ⟨sameAnswers, models⟩ :=
    Execution.simulates preserved (models_withTtl maxEntries ttlSecs) guarded
  exact ⟨sameAnswers, models.holdsItems⟩

/-- Two pages in a cache for one, with lookups before and after the eviction. -/
def evictingRun : List Event :=
  [⟨0, .insert VisitOrder.stored 1 "/a" "first"⟩, ⟨0, .get 1⟩,
    ⟨1, .insert VisitOrder.stored 2 "/b" "second"⟩, ⟨1, .get 1⟩, ⟨1, .len⟩]

theorem refinesBatchLru_evictingRun :
    Execution.transcript respond (withTtl 1 0) evictingRun =
        [.inserted 0, .found (some "first"), .inserted 1, .found none, .length 1] ∧
      HoldsItems (Execution.settle respond (withTtl 1 0) evictingRun)
        [(2, ⟨"/b", "second", 1⟩)] := by
  have bounded : (Execution.settle (BatchLru.respond 1 (ttlOfSecs 0)) BatchLru.empty
      evictingRun).touches < 2 ^ 64 := by decide
  exact refinesBatchLru (by decide) 0 bounded

end ColdCache

end RustySsr.Cache
