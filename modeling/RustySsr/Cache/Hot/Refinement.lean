import RustySsr.Cache.Hot.Capacity
import RustySsr.Foundation.Recency

/-!
Owns the hot cache as a recency list. As long as a key is inserted only after a
lookup has missed it, the ring and the order list together hold one list of
pages, oldest first, whose newest eight are in the ring. `refinesRecency` states
that without a time-to-live the cache answers as that list does.
-/

namespace RustySsr.Cache.HotCache

open RustySsr.Platform
open RustySsr.Foundation

/-! ### The reference -/

/-- Keys and values, newest first. -/
abbrev RecencyList := List (UInt64 × String)

namespace RecencyList

/-- A new item goes in front; the last one is dropped beyond the capacity. -/
def insert (items : RecencyList) (urlHash : UInt64) (html : String) : RecencyList :=
  ((urlHash, html) :: items).take (ultraHotSize + hotMapCapacity)

/-- A hit beyond the first eight items moves to the front. -/
def get (items : RecencyList) (urlHash : UInt64) : RecencyList :=
  if urlHash ∈ (items.take ultraHotSize).map Prod.fst then items
  else Recency.touch items urlHash

def apply (items : RecencyList) (event : Event) : RecencyList :=
  match event.op with
  | .insert urlHash html => items.insert urlHash html
  | .get urlHash => items.get urlHash
  | .peek _ => items
  | .clear => []

end RecencyList

/-- A key is inserted only when a lookup would miss it. -/
def InsertsMissed (cache : HotCache) (event : Event) : Prop :=
  match event.op with
  | .insert urlHash _ => cache.peek urlHash event.now = none
  | _ => True

/-- The cache answers as the list does, has as many entries, and loses none to a
lookup. -/
def AnswersAs (cache : HotCache) (items : RecencyList) : Prop :=
  (∀ urlHash now, cache.peek urlHash now = items.lookup urlHash ∧
      (cache.get urlHash now).1 = items.lookup urlHash) ∧
    cache.len = items.length ∧
    ∀ urlHash now other later, (cache.get urlHash now).2.peek other later = cache.peek other later

/-! ### The hot map and its order list -/

/-- Entries of the hot map, in the order of the order list. -/
def mapEntries (cache : HotCache) : List HotEntry :=
  cache.accessOrder.filterMap fun key => cache.hotMap.lookup key

/-- The order list holds the keys of the hot map, each once. -/
structure OrdersMap (cache : HotCache) : Prop where
  nodup : cache.accessOrder.Nodup
  sameKeys : ∀ key, key ∈ cache.hotMap ↔ key ∈ cache.accessOrder
  ownKey : ∀ {key entry}, cache.hotMap.lookup key = some entry → entry.urlHash = key

namespace OrdersMap

variable {cache : HotCache}

theorem exists_of_mem (orders : OrdersMap cache) {key : UInt64}
    (listed : key ∈ cache.accessOrder) :
    ∃ entry, cache.hotMap.lookup key = some entry ∧ entry.urlHash = key := by
  have present : (cache.hotMap.lookup key).isSome :=
    AList.lookup_isSome.mpr ((orders.sameKeys key).mpr listed)
  obtain ⟨entry, found⟩ := Option.isSome_iff_exists.mp present
  exact ⟨entry, found, orders.ownKey found⟩

theorem mapEntries_keys (orders : OrdersMap cache) :
    cache.mapEntries.map HotEntry.urlHash = cache.accessOrder := by
  rw [mapEntries, List.map_filterMap]
  have all : ∀ key ∈ cache.accessOrder,
      (cache.hotMap.lookup key).map HotEntry.urlHash = some key := by
    intro key listed
    obtain ⟨entry, found, sameKey⟩ := orders.exists_of_mem listed
    simp [found, sameKey]
  rw [List.filterMap_congr all, List.filterMap_some]

theorem mem_mapEntries_iff (orders : OrdersMap cache) {entry : HotEntry} :
    entry ∈ cache.mapEntries ↔ cache.hotMap.lookup entry.urlHash = some entry := by
  rw [mapEntries, List.mem_filterMap]
  constructor
  · rintro ⟨key, _, found⟩
    rwa [orders.ownKey found]
  · intro found
    have present : entry.urlHash ∈ cache.hotMap := AList.lookup_isSome.mp (by rw [found]; rfl)
    exact ⟨entry.urlHash, (orders.sameKeys _).mp present, found⟩

theorem len_eq (orders : OrdersMap cache) : cache.hotMap.len = cache.accessOrder.length :=
  HashMap.len_eq_length orders.nodup orders.sameKeys

theorem mapEntries_length (orders : OrdersMap cache) :
    cache.mapEntries.length = cache.accessOrder.length := by
  rw [← orders.mapEntries_keys, List.length_map]

/-- A key taken out of the map and out of the order list. -/
theorem erase (orders : OrdersMap cache) (key : UInt64) :
    OrdersMap { cache with
      hotMap := cache.hotMap.erase key, accessOrder := cache.accessOrder.erase key } where
  nodup := orders.nodup.erase key
  sameKeys := fun other => by
    rw [AList.mem_erase, orders.nodup.mem_erase_iff, orders.sameKeys]
  ownKey := fun found => orders.ownKey (HashMap.lookup_erase_some_iff.mp found).2

theorem mapEntries_erase (orders : OrdersMap cache) (key : UInt64) :
    mapEntries { cache with
      hotMap := cache.hotMap.erase key, accessOrder := cache.accessOrder.erase key } =
        cache.mapEntries.filter fun entry => entry.urlHash ≠ key := by
  rw [mapEntries, mapEntries, orders.nodup.erase_eq_filter, List.filterMap_filter,
    List.filter_filterMap]
  refine List.filterMap_congr fun other listed => ?_
  obtain ⟨entry, found, sameKey⟩ := orders.exists_of_mem listed
  by_cases same : other = key
  · subst same
    simp [found, sameKey, Option.filter]
  · simp [AList.lookup_erase_ne same, found, sameKey, same, Option.filter]

/-- A new key goes to the end of the order list. -/
theorem append (orders : OrdersMap cache) {entry : HotEntry}
    (absent : entry.urlHash ∉ cache.hotMap) :
    OrdersMap { cache with
      accessOrder := cache.accessOrder ++ [entry.urlHash]
      hotMap := cache.hotMap.insert entry.urlHash entry } where
  nodup := by
    have notListed : entry.urlHash ∉ cache.accessOrder := (orders.sameKeys _).not.mp absent
    rw [List.nodup_append]
    refine ⟨orders.nodup, List.nodup_singleton _, ?_⟩
    rintro key listed _ last rfl
    rw [List.mem_singleton] at last
    exact notListed (last ▸ listed)
  sameKeys := fun other => by
    rw [AList.mem_insert, List.mem_append, List.mem_singleton, orders.sameKeys, or_comm]
  ownKey := fun found => by
    rcases HashMap.lookup_insert_some_iff.mp found with ⟨rfl, rfl⟩ | ⟨_, old⟩
    · rfl
    · exact orders.ownKey old

theorem mapEntries_append (orders : OrdersMap cache) {entry : HotEntry}
    (absent : entry.urlHash ∉ cache.hotMap) :
    mapEntries { cache with
      accessOrder := cache.accessOrder ++ [entry.urlHash]
      hotMap := cache.hotMap.insert entry.urlHash entry } = cache.mapEntries ++ [entry] := by
  rw [mapEntries, mapEntries, List.filterMap_append]
  congr 1
  · refine List.filterMap_congr fun key listed => ?_
    have different : key ≠ entry.urlHash := by
      rintro rfl
      exact absent ((orders.sameKeys _).mpr listed)
    exact AList.lookup_insert_ne different
  · simp

/-- Without its oldest key the map holds its entries but the first. -/
theorem mapEntries_erase_oldest (orders : OrdersMap cache) {oldestKey : UInt64}
    {rest : List UInt64} (listed : cache.accessOrder = oldestKey :: rest) :
    (cache.mapEntries.filter fun entry => entry.urlHash ≠ oldestKey) =
      cache.mapEntries.drop 1 := by
  have keys := orders.mapEntries_keys
  have nodup := orders.nodup
  rw [listed] at keys nodup
  obtain ⟨oldest, others, split, sameKey, otherKeys⟩ := List.map_eq_cons_iff.mp keys
  rw [split, List.filter_cons_of_neg (by simp [sameKey]), List.drop_one, List.tail_cons,
    List.filter_eq_self]
  intro entry member
  have inRest : entry.urlHash ∈ rest := otherKeys ▸ List.mem_map_of_mem member
  simpa using fun same : entry.urlHash = oldestKey => (List.nodup_cons.mp nodup).1 (same ▸ inRest)

/-- The displaced entry goes to the end; at capacity the first one goes. -/
theorem insertToHotMap (orders : OrdersMap cache) {entry : HotEntry}
    (absent : entry.urlHash ∉ cache.hotMap)
    (bounded : cache.accessOrder.length ≤ hotMapCapacity) :
    OrdersMap (cache.insertToHotMap entry) ∧
      (cache.insertToHotMap entry).mapEntries =
        (cache.mapEntries ++ [entry]).drop (cache.accessOrder.length + 1 - hotMapCapacity) := by
  by_cases full : hotMapCapacity ≤ cache.hotMap.len
  · have exactly : cache.accessOrder.length = hotMapCapacity :=
      Nat.le_antisymm bounded (orders.len_eq ▸ full)
    have nonempty : 1 ≤ cache.mapEntries.length := by
      rw [orders.mapEntries_length, exactly]
      decide
    have positive : 0 < cache.accessOrder.length := by
      rw [exactly]
      decide
    obtain ⟨oldestKey, rest, listed⟩ := List.exists_cons_of_length_pos positive
    have trimmed := orders.erase oldestKey
    have stillAbsent : entry.urlHash ∉ cache.hotMap.erase oldestKey := fun member =>
      absent (AList.mem_erase.mp member).2
    rw [insertToHotMap_of_full full listed, exactly, Nat.add_sub_cancel_left,
      List.drop_append_of_le_length nonempty, ← orders.mapEntries_erase_oldest listed,
      ← orders.mapEntries_erase]
    exact ⟨trimmed.append stillAbsent, trimmed.mapEntries_append stillAbsent⟩
  · have room : cache.accessOrder.length + 1 - hotMapCapacity = 0 := by
      rw [orders.len_eq] at full
      omega
    rw [insertToHotMap_of_room full, room, List.drop_zero]
    exact ⟨orders.append absent, orders.mapEntries_append absent⟩

/-- A full map evicts a key that is there. -/
theorem capacityReady (orders : OrdersMap cache) (event : Event) : CapacityReady cache event := by
  unfold CapacityReady
  split
  · intro displaced _ full
    rw [orders.len_eq] at full
    have positive : 0 < cache.accessOrder.length := Nat.lt_of_lt_of_le (by decide) full
    obtain ⟨oldestKey, rest, listed⟩ := List.exists_cons_of_length_pos positive
    refine Or.inl ⟨oldestKey, by simp [listed], ?_⟩
    rw [orders.sameKeys, listed]
    exact List.mem_cons_self
  · trivial

end OrdersMap

/-! ### Both tiers as one list -/

/-- Every entry, oldest first: the hot map, then the ring. -/
def contents (cache : HotCache) : List HotEntry :=
  cache.mapEntries ++ (cache.olderEntries ++ cache.recentEntries)

/-- What the ring and the hot map keep when only missed keys are inserted. The
ring is full, or everything is in its slots below the write index. -/
structure Tidy (cache : HotCache) : Prop where
  orders : OrdersMap cache
  distinct : (cache.contents.map HotEntry.urlHash).Nodup
  bounded : cache.accessOrder.length ≤ hotMapCapacity
  filled : cache.ultraHotEntries.length = ultraHotSize ∨
    (cache.accessOrder = [] ∧ cache.olderEntries = [] ∧
      cache.recentEntries.length = cache.ultraHotNext)

/-- An insertion drops the displaced slot and adds its entry at the end. -/
theorem insert_ring (cache : HotCache) (urlHash : UInt64) (html : String) (now : Nat) :
    (cache.insert urlHash html now).olderEntries ++ (cache.insert urlHash html now).recentEntries =
      cache.remainingEntries ++ cache.recentEntries ++ [⟨urlHash, html, now⟩] := by
  rcases cache.insert_segments urlHash html now with ⟨recent, older, _⟩ | ⟨rest, recent, older, _⟩
  · rw [recent, older, List.append_assoc]
  · rw [recent, older, rest, List.append_nil, List.nil_append]

theorem ultraHotEntries_length (cache : HotCache) :
    cache.ultraHotEntries.length = (cache.olderEntries ++ cache.recentEntries).length := by
  rw [ultraHotEntries_eq, List.length_append, List.length_append, Nat.add_comm]

theorem mapEntries_of_same {cache other : HotCache} (sameMap : other.hotMap = cache.hotMap)
    (sameOrder : other.accessOrder = cache.accessOrder) : other.mapEntries = cache.mapEntries := by
  rw [mapEntries, mapEntries, sameMap, sameOrder]

/-- An insertion into an empty slot adds its entry. -/
theorem insert_contents_of_vacant {cache : HotCache} (slot : cache.displacedEntry = none)
    (urlHash : UInt64) (html : String) (now : Nat) :
    (cache.insert urlHash html now).contents = cache.contents ++ [⟨urlHash, html, now⟩] := by
  obtain ⟨sameMap, sameOrder⟩ := insert_of_vacant slot urlHash html now
  rw [contents, insert_ring, mapEntries_of_same sameMap sameOrder, contents, olderEntries_eq, slot]
  simp

theorem OrdersMap.of_same {cache other : HotCache} (orders : OrdersMap cache)
    (sameMap : other.hotMap = cache.hotMap) (sameOrder : other.accessOrder = cache.accessOrder) :
    OrdersMap other where
  nodup := sameOrder ▸ orders.nodup
  sameKeys := fun key => by rw [sameMap, sameOrder, orders.sameKeys]
  ownKey := fun found => orders.ownKey (sameMap ▸ found)

namespace Tidy

variable {cache : HotCache}

theorem contents_length (tidy : Tidy cache) :
    cache.contents.length = cache.accessOrder.length + cache.ultraHotEntries.length := by
  rw [contents, List.length_append, tidy.orders.mapEntries_length, ultraHotEntries_length]

/-- An empty slot is next only while the ring fills up for the first time. -/
theorem of_vacant (tidy : Tidy cache) (slot : cache.displacedEntry = none) :
    cache.accessOrder = [] ∧ cache.olderEntries = [] ∧
      cache.recentEntries.length = cache.ultraHotNext := by
  rcases tidy.filled with full | filling
  · have sameLength : cache.ultraHot.toList.reduceOption.length = cache.ultraHot.toList.length :=
      full.trans (by simp)
    have occupied := List.reduceOption_length_eq_iff.mp sameLength
    have member : cache.displacedEntry ∈ cache.ultraHot.toList :=
      List.mem_of_getElem? cache.ultraHot_displacedEntry
    have isSome := occupied _ member
    rw [slot] at isSome
    contradiction
  · exact filling

theorem of_displaced (tidy : Tidy cache) {displaced : HotEntry}
    (slot : cache.displacedEntry = some displaced) :
    cache.ultraHotEntries.length = ultraHotSize := by
  rcases tidy.filled with full | ⟨_, older, _⟩
  · exact full
  · rw [olderEntries_eq, slot] at older
    simp at older

/-- An insertion into an occupied slot moves that entry to the hot map. -/
theorem insert_contents_of_displaced (tidy : Tidy cache) {displaced : HotEntry}
    (slot : cache.displacedEntry = some displaced) (urlHash : UInt64) (html : String)
    (now : Nat) :
    OrdersMap (cache.insert urlHash html now) ∧
      (cache.insert urlHash html now).contents =
        List.drop (cache.accessOrder.length + 1 - hotMapCapacity)
          (cache.contents ++ [⟨urlHash, html, now⟩]) := by
  have absent : displaced.urlHash ∉ cache.hotMap := by
    intro present
    obtain ⟨entry, found, sameKey⟩ := tidy.orders.exists_of_mem
      ((tidy.orders.sameKeys _).mp present)
    have inMap : entry ∈ cache.mapEntries := tidy.orders.mem_mapEntries_iff.mpr (sameKey ▸ found)
    have inRing : displaced ∈ cache.olderEntries ++ cache.recentEntries := by
      simp [olderEntries_eq, slot]
    have distinct := tidy.distinct
    rw [contents, List.map_append, List.nodup_append] at distinct
    exact distinct.2.2 _ (List.mem_map_of_mem inMap) _ (List.mem_map_of_mem inRing) sameKey
  obtain ⟨sameMap, sameOrder⟩ := insert_of_displaced slot urlHash html now
  obtain ⟨orders, entries⟩ := tidy.orders.insertToHotMap absent tidy.bounded
  refine ⟨orders.of_same sameMap sameOrder, ?_⟩
  have short : cache.accessOrder.length + 1 - hotMapCapacity ≤
      (cache.mapEntries ++ [displaced]).length := by
    rw [List.length_append, tidy.orders.mapEntries_length, List.length_singleton]
    exact Nat.sub_le _ _
  rw [contents, insert_ring, mapEntries_of_same sameMap sameOrder, entries, contents,
    olderEntries_eq, slot, ← List.drop_append_of_le_length short]
  simp

/-- Inserting a missed key adds its entry and drops the oldest one beyond the
capacity. -/
theorem insert_contents (tidy : Tidy cache) (urlHash : UInt64) (html : String) (now : Nat) :
    (cache.insert urlHash html now).contents =
      List.drop (cache.contents.length + 1 - (ultraHotSize + hotMapCapacity))
        (cache.contents ++ [⟨urlHash, html, now⟩]) := by
  have bounded := tidy.bounded
  rw [tidy.contents_length]
  cases slot : cache.displacedEntry with
  | none =>
      have empty := (tidy.of_vacant slot).1
      have ring := cache.ultraHotEntries_length_le
      have room : cache.accessOrder.length + cache.ultraHotEntries.length + 1 -
          (ultraHotSize + hotMapCapacity) = 0 := by
        rw [empty, List.length_nil]
        simp only [ultraHotSize, hotMapCapacity] at *
        omega
      rw [insert_contents_of_vacant slot, room, List.drop_zero]
  | some displaced =>
      rw [(tidy.insert_contents_of_displaced slot urlHash html now).2, tidy.of_displaced slot]
      have same : cache.accessOrder.length + 1 - hotMapCapacity =
          cache.accessOrder.length + ultraHotSize + 1 - (ultraHotSize + hotMapCapacity) := by
        omega
      rw [same]

theorem insert_orders (tidy : Tidy cache) (urlHash : UInt64) (html : String) (now : Nat) :
    OrdersMap (cache.insert urlHash html now) := by
  cases slot : cache.displacedEntry with
  | none =>
      obtain ⟨sameMap, sameOrder⟩ := insert_of_vacant slot urlHash html now
      exact tidy.orders.of_same sameMap sameOrder
  | some displaced => exact (tidy.insert_contents_of_displaced slot urlHash html now).1

theorem insert_filled (tidy : Tidy cache) (urlHash : UInt64) (html : String) (now : Nat) :
    (cache.insert urlHash html now).ultraHotEntries.length = ultraHotSize ∨
      ((cache.insert urlHash html now).accessOrder = [] ∧
        (cache.insert urlHash html now).olderEntries = [] ∧
        (cache.insert urlHash html now).recentEntries.length =
          (cache.insert urlHash html now).ultraHotNext) := by
  have ring : (cache.insert urlHash html now).ultraHotEntries.length =
      cache.remainingEntries.length + cache.recentEntries.length + 1 := by
    rw [ultraHotEntries_length, insert_ring, List.length_append, List.length_append,
      List.length_singleton]
  cases slot : cache.displacedEntry with
  | none =>
      obtain ⟨order, older, counted⟩ := tidy.of_vacant slot
      have remaining : cache.remainingEntries = [] := by
        rwa [olderEntries_eq, slot] at older
      rcases cache.insert_segments urlHash html now with
        ⟨recent, newOlder, next⟩ | ⟨_, _, _, last⟩
      · refine Or.inr ⟨?_, newOlder.trans remaining, ?_⟩
        · rw [(insert_of_vacant slot urlHash html now).2, order]
        · rw [recent, next, List.length_append, counted, List.length_singleton]
      · refine Or.inl ?_
        rw [ring, remaining, List.length_nil, counted, Nat.zero_add, last]
  | some displaced =>
      have full := tidy.of_displaced slot
      rw [ultraHotEntries_length, olderEntries_eq, slot] at full
      simp only [Option.toList_some, List.cons_append, List.nil_append, List.length_cons,
        List.length_append] at full
      exact Or.inl (ring.trans full)

/-- Inserting a missed key keeps both tiers in step. -/
theorem insert (tidy : Tidy cache) {urlHash : UInt64}
    (absent : ∀ entry ∈ cache.contents, entry.urlHash ≠ urlHash) (html : String) (now : Nat) :
    Tidy (cache.insert urlHash html now) where
  orders := tidy.insert_orders urlHash html now
  distinct := by
    have extended : (List.map HotEntry.urlHash
        (cache.contents ++ [⟨urlHash, html, now⟩])).Nodup := by
      rw [List.map_append, List.nodup_append]
      refine ⟨tidy.distinct, List.nodup_singleton _, ?_⟩
      rintro key listed _ last rfl
      obtain ⟨entry, member, sameKey⟩ := List.mem_map.mp listed
      exact absent entry member (sameKey.trans (List.mem_singleton.mp last))
    rw [tidy.insert_contents]
    exact List.Nodup.sublist ((List.drop_sublist _ _).map _) extended
  bounded := by
    have ready := tidy.orders.capacityReady ⟨now, .insert urlHash html⟩
    rw [← (tidy.insert_orders urlHash html now).len_eq]
    exact (insert_len_le_iff urlHash html now (tidy.orders.len_eq.trans_le tidy.bounded)).mpr ready
  filled := tidy.insert_filled urlHash html now

/-- A key taken out of the hot map. -/
theorem erase (tidy : Tidy cache) (key : UInt64) :
    Tidy { cache with
      hotMap := cache.hotMap.erase key, accessOrder := cache.accessOrder.erase key } where
  orders := tidy.orders.erase key
  distinct := by
    rw [contents, tidy.orders.mapEntries_erase]
    exact List.Nodup.sublist ((List.filter_sublist.append_right _).map _) tidy.distinct
  bounded := List.length_erase_le.trans tidy.bounded
  filled := tidy.filled.imp id fun ⟨order, older, recent⟩ =>
    ⟨by simp [order], older, recent⟩

theorem contents_length_le (tidy : Tidy cache) :
    cache.contents.length ≤ ultraHotSize + hotMapCapacity := by
  have ring := cache.ultraHotEntries_length_le
  have map := tidy.bounded
  rw [tidy.contents_length]
  omega

/-- A promotion moves the entry of its key to the end. -/
theorem promoteToUltraHot (tidy : Tidy cache) {key : UInt64} (present : key ∈ cache.hotMap)
    (notInRing : ∀ entry ∈ cache.ultraHotEntries, entry.urlHash ≠ key) (html : String)
    (now : Nat) :
    Tidy (cache.promoteToUltraHot key html now) ∧
      (cache.promoteToUltraHot key html now).contents =
        cache.contents.filter (fun entry => entry.urlHash ≠ key) ++ [⟨key, html, now⟩] := by
  have erased := tidy.erase key
  have ring : (cache.olderEntries ++ cache.recentEntries).filter (fun entry => entry.urlHash ≠ key) =
      cache.olderEntries ++ cache.recentEntries := by
    rw [List.filter_eq_self]
    intro entry member
    rw [List.mem_append, or_comm, ← List.mem_append, ← ultraHotEntries_eq] at member
    simpa using notInRing entry member
  have contentsEq : contents { cache with
      hotMap := cache.hotMap.erase key, accessOrder := cache.accessOrder.erase key } =
        cache.contents.filter fun entry => entry.urlHash ≠ key := by
    rw [contents, contents, tidy.orders.mapEntries_erase, List.filter_append, ring]
    rfl
  have shorter : (cache.contents.filter fun entry => entry.urlHash ≠ key).length + 1 ≤
      cache.contents.length := by
    obtain ⟨entry, found, sameKey⟩ := tidy.orders.exists_of_mem
      ((tidy.orders.sameKeys key).mp present)
    have member : entry ∈ cache.contents := List.mem_append_left _
      (tidy.orders.mem_mapEntries_iff.mpr (sameKey ▸ found))
    exact List.length_filter_lt_length_iff_exists.mpr ⟨entry, member, by simp [sameKey]⟩
  have absent : ∀ entry ∈ contents { cache with
      hotMap := cache.hotMap.erase key, accessOrder := cache.accessOrder.erase key },
        entry.urlHash ≠ key := by
    intro entry member
    rw [contentsEq, List.mem_filter] at member
    simpa using member.2
  refine ⟨erased.insert absent html now, ?_⟩
  have room := tidy.contents_length_le
  have inserted := erased.insert_contents key html now
  rw [contentsEq, Nat.sub_eq_zero_of_le (shorter.trans room), List.drop_zero] at inserted
  exact inserted

end Tidy

/-! ### The list that a hot cache holds -/

/-- The key and the value of an entry. -/
def HotEntry.page (entry : HotEntry) : UInt64 × String := (entry.urlHash, entry.html)

/-- The contents as a recency list. -/
def toRecency (cache : HotCache) : RecencyList := (cache.contents.map HotEntry.page).reverse

namespace Tidy

variable {cache : HotCache}

theorem distinct_toRecency (tidy : Tidy cache) : Recency.Distinct cache.toRecency := by
  rw [Recency.Distinct, toRecency, List.map_reverse, List.map_map, List.nodup_reverse]
  exact tidy.distinct

theorem lookup_of_mem (tidy : Tidy cache) {entry : HotEntry} (member : entry ∈ cache.contents) :
    cache.toRecency.lookup entry.urlHash = some entry.html := by
  rw [Recency.lookup_eq_some_iff tidy.distinct_toRecency, toRecency, List.mem_reverse]
  exact List.mem_map_of_mem (f := HotEntry.page) member

theorem lookup_of_absent {key : UInt64}
    (absent : ∀ entry ∈ cache.contents, entry.urlHash ≠ key) :
    cache.toRecency.lookup key = none := by
  rw [List.lookup_eq_none_iff]
  intro item member
  rw [toRecency, List.mem_reverse] at member
  obtain ⟨entry, inContents, rfl⟩ := List.mem_map.mp member
  exact bne_iff_ne.mpr (absent entry inContents).symm

theorem mem_contents_iff (tidy : Tidy cache) {entry : HotEntry} :
    entry ∈ cache.contents ↔
      cache.hotMap.lookup entry.urlHash = some entry ∨ entry ∈ cache.ultraHotEntries := by
  rw [contents, List.mem_append, tidy.orders.mem_mapEntries_iff, ultraHotEntries_eq,
    List.mem_append, List.mem_append, or_comm (a := entry ∈ cache.olderEntries)]

/-- What a lookup without a time-to-live comes upon. -/
theorem lookup_cases (tidy : Tidy cache) (key : UInt64) :
    (∃ entry, cache.firstUltraHot key = some entry ∧ entry.urlHash = key ∧
        cache.toRecency.lookup key = some entry.html) ∨
      (cache.firstUltraHot key = none ∧ ∃ entry, cache.hotMap.lookup key = some entry ∧
        entry.urlHash = key ∧ cache.toRecency.lookup key = some entry.html) ∨
      (cache.firstUltraHot key = none ∧ cache.hotMap.lookup key = none ∧
        cache.toRecency.lookup key = none) := by
  cases first : cache.firstUltraHot key with
  | some entry =>
      have sameKey : entry.urlHash = key := by simpa using List.find?_some first
      have member : entry ∈ cache.contents :=
        tidy.mem_contents_iff.mpr (Or.inr (List.mem_of_find?_eq_some first))
      exact Or.inl ⟨entry, rfl, sameKey, sameKey ▸ tidy.lookup_of_mem member⟩
  | none =>
      cases found : cache.hotMap.lookup key with
      | some entry =>
          have sameKey := tidy.orders.ownKey found
          have member : entry ∈ cache.contents :=
            tidy.mem_contents_iff.mpr (Or.inl (sameKey.symm ▸ found))
          exact Or.inr (Or.inl ⟨rfl, entry, rfl, sameKey, sameKey ▸ tidy.lookup_of_mem member⟩)
      | none =>
          refine Or.inr (Or.inr ⟨rfl, rfl, lookup_of_absent ?_⟩)
          rintro entry member rfl
          rcases tidy.mem_contents_iff.mp member with inMap | inRing
          · rw [found] at inMap
            contradiction
          · exact firstUltraHot_none_iff.mp first entry inRing rfl

theorem peek_eq (tidy : Tidy cache) (noTtl : cache.ttl = none) (key : UInt64) (now : Nat) :
    cache.peek key now = cache.toRecency.lookup key := by
  unfold peek isExpired
  rw [noTtl]
  rcases tidy.lookup_cases key with ⟨entry, first, _, answer⟩ |
    ⟨first, entry, found, _, answer⟩ | ⟨first, found, answer⟩
  · simp [first, answer]
  · simp [first, found, answer]
  · simp [first, found, answer]

/-- The newest eight entries are those of the ring. -/
theorem take_toRecency (tidy : Tidy cache) :
    cache.toRecency.take ultraHotSize =
      ((cache.olderEntries ++ cache.recentEntries).map HotEntry.page).reverse := by
  have ring := cache.ultraHotEntries_length
  rw [toRecency, contents, List.map_append, List.reverse_append]
  rcases tidy.filled with full | ⟨order, _⟩
  · exact List.take_left' (by rw [List.length_reverse, List.length_map, ← ring, full])
  · have noMap : cache.mapEntries = [] := by simp [mapEntries, order]
    rw [noMap, List.map_nil, List.reverse_nil, List.append_nil]
    refine List.take_of_length_le ?_
    rw [List.length_reverse, List.length_map, ← ring]
    exact cache.ultraHotEntries_length_le

theorem mem_take_iff (tidy : Tidy cache) (key : UInt64) :
    key ∈ (cache.toRecency.take ultraHotSize).map Prod.fst ↔
      ∃ entry ∈ cache.ultraHotEntries, entry.urlHash = key := by
  rw [tidy.take_toRecency, List.map_reverse, List.mem_reverse, List.map_map, List.mem_map,
    ultraHotEntries_eq]
  simp only [List.mem_append, or_comm, Function.comp_apply, HotEntry.page]

/-- A lookup keeps the tiers in step and does to them what the list does. -/
theorem get (tidy : Tidy cache) (noTtl : cache.ttl = none) (key : UInt64) (now : Nat) :
    Tidy (cache.get key now).2 ∧ (cache.get key now).2.toRecency = cache.toRecency.get key := by
  unfold HotCache.get RecencyList.get isExpired
  rw [noTtl]
  rcases tidy.lookup_cases key with ⟨entry, first, sameKey, _⟩ |
    ⟨first, entry, found, _, answer⟩ | ⟨first, found, answer⟩
  · have inRing : key ∈ (cache.toRecency.take ultraHotSize).map Prod.fst :=
      (tidy.mem_take_iff key).mpr ⟨entry, List.mem_of_find?_eq_some first, sameKey⟩
    rw [if_pos inRing]
    simp [first, tidy]
  · have notInRing := firstUltraHot_none_iff.mp first
    have beyond : key ∉ (cache.toRecency.take ultraHotSize).map Prod.fst := fun inRing =>
      let ⟨other, member, same⟩ := (tidy.mem_take_iff key).mp inRing
      notInRing other member same
    have present : key ∈ cache.hotMap := AList.lookup_isSome.mp (by rw [found]; rfl)
    obtain ⟨promoted, contentsEq⟩ := tidy.promoteToUltraHot present notInRing entry.html now
    rw [if_neg beyond, Recency.touch, answer]
    simp only [first, found, outlived_none, Bool.false_eq_true, if_false]
    refine ⟨promoted, ?_⟩
    rw [toRecency, contentsEq, toRecency, Recency.record, Recency.forget, List.filter_reverse,
      List.filter_map, List.map_append, List.reverse_append]
    rfl
  · have notInRing := firstUltraHot_none_iff.mp first
    have beyond : key ∉ (cache.toRecency.take ultraHotSize).map Prod.fst := fun inRing =>
      let ⟨other, member, same⟩ := (tidy.mem_take_iff key).mp inRing
      notInRing other member same
    rw [if_neg beyond, Recency.touch, answer]
    simp [first, found, tidy]

theorem len_eq (tidy : Tidy cache) : cache.len = cache.toRecency.length := by
  rw [len, toRecency, List.length_reverse, List.length_map, tidy.contents_length,
    tidy.orders.len_eq, Nat.add_comm]

theorem insert_toRecency (tidy : Tidy cache) (key : UInt64) (html : String) (now : Nat) :
    (cache.insert key html now).toRecency = cache.toRecency.insert key html := by
  have extended : (key, html) :: cache.toRecency =
      (List.map HotEntry.page (cache.contents ++ [⟨key, html, now⟩])).reverse := by
    rw [List.map_append, List.reverse_append]
    rfl
  rw [toRecency, tidy.insert_contents, RecencyList.insert, extended, List.take_reverse,
    List.map_drop, List.length_map, List.length_append, List.length_singleton]

/-- An insertion that a lookup would have missed finds its key nowhere. -/
theorem absent_of_peek (tidy : Tidy cache) (noTtl : cache.ttl = none) {key : UInt64} {now : Nat}
    (missed : cache.peek key now = none) : ∀ entry ∈ cache.contents, entry.urlHash ≠ key := by
  rintro entry member rfl
  rw [tidy.peek_eq noTtl, tidy.lookup_of_mem member] at missed
  contradiction

theorem answersAs (tidy : Tidy cache) (noTtl : cache.ttl = none) :
    AnswersAs cache cache.toRecency := by
  refine ⟨fun key now => ?_, tidy.len_eq, fun key now other later => ?_⟩
  · rw [get_fst]
    exact ⟨tidy.peek_eq noTtl key now, tidy.peek_eq noTtl key now⟩
  · obtain ⟨kept, listed⟩ := tidy.get noTtl key now
    have stillNoTtl : (cache.get key now).2.ttl = none := by rw [get_ttl, noTtl]
    rw [kept.peek_eq stillNoTtl, tidy.peek_eq noTtl, listed]
    unfold RecencyList.get
    split_ifs
    · rfl
    · exact Recency.lookup_touch tidy.distinct_toRecency key other

end Tidy

theorem tidy_of_empty {cache : HotCache} (ring : cache.ultraHotEntries = [])
    (first : (cache.ultraHotNext : Nat) = 0) (map : cache.hotMap = ∅)
    (order : cache.accessOrder = []) : Tidy cache ∧ cache.toRecency = [] := by
  have segments := ring
  rw [ultraHotEntries_eq, List.append_eq_nil_iff] at segments
  have empty : cache.contents = [] := by simp [contents, mapEntries, order, segments]
  refine ⟨⟨⟨by simp [order], by simp [map, order], by simp [map]⟩, by simp [empty],
    by simp [order], Or.inr ⟨order, segments.2, by simp [segments, first]⟩⟩, ?_⟩
  simp [toRecency, empty]

/-! ### Every run -/

/-- The cache holds the list, and its entries never expire. -/
structure Represents (cache : HotCache) (items : RecencyList) : Prop where
  tidy : Tidy cache
  noTtl : cache.ttl = none
  listed : cache.toRecency = items

theorem Represents.apply {cache : HotCache} {items : RecencyList}
    (represents : Represents cache items) {event : Event} (missed : InsertsMissed cache event) :
    Represents (cache.apply event) (items.apply event) := by
  obtain ⟨tidy, noTtl, rfl⟩ := represents
  obtain ⟨now, op⟩ := event
  cases op with
  | insert key html =>
      exact ⟨tidy.insert (tidy.absent_of_peek noTtl missed) html now,
        (cache.insert_ttl key html now).trans noTtl, tidy.insert_toRecency key html now⟩
  | get key =>
      obtain ⟨kept, listed⟩ := tidy.get noTtl key now
      exact ⟨kept, (cache.get_ttl key now).trans noTtl, listed⟩
  | peek key => exact ⟨tidy, noTtl, rfl⟩
  | clear =>
      have empty : cache.clear.ultraHotEntries = [] := by
        simp [ultraHotEntries, clear, ultraHotSize, List.reduceOption]
      obtain ⟨kept, listed⟩ := tidy_of_empty empty rfl rfl rfl
      exact ⟨kept, noTtl, listed⟩

/-- **On miss-then-insert traffic a hot cache is a recency list.** Without a
time-to-live, and with every key inserted only when a lookup misses it, the
cache answers as the list that starts empty and makes the same operations. -/
theorem refinesRecency {events : List Event}
    (missed : Execution.Guarded apply InsertsMissed new events) :
    AnswersAs (Execution.run apply new events) (Execution.run RecencyList.apply [] events) := by
  have represents : Represents (Execution.run apply new events)
      (Execution.run RecencyList.apply [] events) := by
    refine Execution.run_invariant
      (fun history cache => Represents cache (Execution.run RecencyList.apply [] history)) ?_ ?_
      missed
    · have empty : new.ultraHotEntries = [] := by
        simp [ultraHotEntries, new, withTtl, ultraHotSize, List.reduceOption]
      obtain ⟨kept, listed⟩ := tidy_of_empty empty rfl rfl rfl
      exact ⟨kept, rfl, listed⟩
    · intro history current event represents allowed
      rw [Execution.run_snoc]
      exact represents.apply allowed
  have answers := represents.tidy.answersAs represents.noTtl
  rwa [represents.listed] at answers

/-- Nine keys, the first of which is looked up when it has left the ring. -/
def promotingRun : List Event :=
  ((List.range 9).map fun key => ⟨key, .insert (UInt64.ofNat key) "page"⟩) ++ [⟨9, .get 0⟩]

theorem refinesRecency_promotingRun :
    AnswersAs (Execution.run apply new promotingRun)
      ([0, 8, 7, 6, 5, 4, 3, 2, 1].map fun key => (key, "page")) :=
  refinesRecency (by
    unfold promotingRun
    simp only [Execution.guarded_cons_iff, List.range, List.range.loop, List.map, List.cons_append,
      List.nil_append, Execution.guarded_nil, and_true]
    exact ⟨rfl, rfl, rfl, rfl, rfl, rfl, rfl, rfl, rfl, trivial⟩)

end RustySsr.Cache.HotCache
