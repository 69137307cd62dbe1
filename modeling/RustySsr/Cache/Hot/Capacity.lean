import RustySsr.Cache.Hot.Latest

/-!
Owns how many entries a hot cache holds. The hot map evicts the front of its
order list, so an eviction frees a slot exactly when that key is still in the
map: a key displaced twice, or removed on expiry, leaves a front that frees
nothing. `withinCapacity_iff` states for every run when the bound holds.
-/

namespace RustySsr.Cache.HotCache

open RustySsr.Platform
open RustySsr.Foundation

/-- The hot map holds at most its capacity, and both tiers together at most the
sum of theirs. -/
def WithinCapacity (cache : HotCache) : Prop :=
  cache.hotMap.len ≤ hotMapCapacity ∧ cache.len ≤ ultraHotSize + hotMapCapacity

/-- The oldest key of the order list is in the hot map. -/
def OldestIsPresent (cache : HotCache) : Prop :=
  ∃ oldestKey ∈ cache.accessOrder.head?, oldestKey ∈ cache.hotMap

/-- If the event displaces an entry into a full hot map, its eviction frees a
slot or the displaced key is already in the map. -/
def CapacityReady (cache : HotCache) (event : Event) : Prop :=
  match event.op with
  | .insert _ _ =>
      ∀ displaced, cache.displacedEntry = some displaced → hotMapCapacity ≤ cache.hotMap.len →
        cache.OldestIsPresent ∨ displaced.urlHash ∈ cache.hotMap
  | _ => True

/-! ### The hot map after an insertion -/

theorem insertToHotMap_withRing (cache : HotCache)
    (ring : Vector (Option HotEntry) ultraHotSize) (entry : HotEntry) :
    insertToHotMap { cache with ultraHot := ring } entry =
      { cache.insertToHotMap entry with ultraHot := ring } := by
  obtain ⟨oldRing, ultraHotNext, hotMap, accessOrder, ttl⟩ := cache
  unfold insertToHotMap
  dsimp only
  split_ifs
  · cases accessOrder <;> rfl
  · rfl

theorem insertToHotMap_of_room {cache : HotCache} {entry : HotEntry}
    (room : ¬ hotMapCapacity ≤ cache.hotMap.len) :
    cache.insertToHotMap entry = { cache with
      accessOrder := cache.accessOrder ++ [entry.urlHash]
      hotMap := cache.hotMap.insert entry.urlHash entry } := by
  rw [HotCache.insertToHotMap, if_neg room]

theorem insertToHotMap_of_full {cache : HotCache} {entry : HotEntry} {oldestKey : UInt64}
    {rest : List UInt64}
    (full : hotMapCapacity ≤ cache.hotMap.len) (listed : cache.accessOrder = oldestKey :: rest) :
    cache.insertToHotMap entry = { cache with
      accessOrder := cache.accessOrder.erase oldestKey ++ [entry.urlHash]
      hotMap := (cache.hotMap.erase oldestKey).insert entry.urlHash entry } := by
  rw [HotCache.insertToHotMap, if_pos full]
  simp only [listed, List.erase_cons_head]

/-- An insertion that displaces an entry hands it to the hot map. -/
theorem insert_of_displaced {cache : HotCache} {displaced : HotEntry}
    (slot : cache.displacedEntry = some displaced) (urlHash : UInt64) (html : String) (now : Nat) :
    (cache.insert urlHash html now).hotMap = (cache.insertToHotMap displaced).hotMap ∧
      (cache.insert urlHash html now).accessOrder =
        (cache.insertToHotMap displaced).accessOrder := by
  have moved : cache.displace =
      insertToHotMap { cache with ultraHot := cache.ultraHot.set cache.ultraHotNext none }
        displaced := by
    change cache.ultraHot[cache.ultraHotNext] = some displaced at slot
    rw [displace, slot]
  rw [insertToHotMap_withRing] at moved
  simp only [insert, moved, and_self]

/-- An insertion into an empty slot leaves the hot map alone. -/
theorem insert_of_vacant {cache : HotCache} (slot : cache.displacedEntry = none)
    (urlHash : UInt64) (html : String) (now : Nat) :
    (cache.insert urlHash html now).hotMap = cache.hotMap ∧
      (cache.insert urlHash html now).accessOrder = cache.accessOrder := by
  change cache.ultraHot[cache.ultraHotNext] = none at slot
  simp only [insert, displace, slot, and_self]

theorem ultraHotEntries_length_le (cache : HotCache) :
    cache.ultraHotEntries.length ≤ ultraHotSize :=
  (List.reduceOption_length_le _).trans_eq (by simp)

/-- The two bounds are one: the ring cannot exceed its size. -/
theorem withinCapacity_of_hotMap {cache : HotCache}
    (bounded : cache.hotMap.len ≤ hotMapCapacity) : cache.WithinCapacity :=
  ⟨bounded, Nat.add_le_add cache.ultraHotEntries_length_le bounded⟩

/-- The hot map stays within its capacity exactly when it has room, its eviction
frees a slot, or the key is an old one. -/
theorem insertToHotMap_len_le_iff {cache : HotCache} (entry : HotEntry)
    (bounded : cache.hotMap.len ≤ hotMapCapacity) :
    (cache.insertToHotMap entry).hotMap.len ≤ hotMapCapacity ↔
      (hotMapCapacity ≤ cache.hotMap.len →
        cache.OldestIsPresent ∨ entry.urlHash ∈ cache.hotMap) := by
  unfold insertToHotMap OldestIsPresent
  by_cases full : hotMapCapacity ≤ cache.hotMap.len
  · have exactly : cache.hotMap.len = hotMapCapacity := Nat.le_antisymm bounded full
    rw [if_pos full]
    have overflows {map : HashMap UInt64 HotEntry} (filled : map.len = hotMapCapacity) :
        HashMap.len (map.insert entry.urlHash entry) ≤ hotMapCapacity ↔ entry.urlHash ∈ map := by
      by_cases member : entry.urlHash ∈ map
      · rw [HashMap.len_insert_of_mem member]
        exact iff_of_true filled.le member
      · rw [HashMap.len_insert_of_notMem member]
        exact iff_of_false (by omega) member
    cases order : cache.accessOrder with
    | nil => simpa [full, order] using overflows exactly
    | cons oldestKey rest =>
        by_cases present : oldestKey ∈ cache.hotMap
        · have freed := HashMap.len_erase_of_mem present
          have after := HashMap.len_erase_le (cache.hotMap.erase oldestKey) entry.urlHash
          simp only [HashMap.len_insert, List.head?_cons, Option.mem_def,
            Option.some.injEq, exists_eq_left', present, true_or, implies_true, iff_true]
          omega
        · have kept := HashMap.len_erase_of_notMem present
          have sameKeys : entry.urlHash ∈ cache.hotMap.erase oldestKey ↔
              entry.urlHash ∈ cache.hotMap := by
            rw [AList.mem_erase]
            exact and_iff_right_of_imp fun member same => present (same ▸ member)
          simpa [full, order, present, sameKeys] using overflows (kept.trans exactly)
  · have growth := HashMap.len_insert cache.hotMap entry.urlHash entry
    have shrunk := HashMap.len_erase_le cache.hotMap entry.urlHash
    rw [if_neg full]
    refine iff_of_true ?_ fun filled => absurd filled full
    show HashMap.len (cache.hotMap.insert entry.urlHash entry) ≤ hotMapCapacity
    omega

/-! ### One operation -/

theorem insert_len_le_iff {cache : HotCache} (urlHash : UInt64) (html : String) (now : Nat)
    (bounded : cache.hotMap.len ≤ hotMapCapacity) :
    (cache.insert urlHash html now).hotMap.len ≤ hotMapCapacity ↔
      CapacityReady cache ⟨now, .insert urlHash html⟩ := by
  unfold CapacityReady
  cases slot : cache.displacedEntry with
  | none =>
      rw [(insert_of_vacant slot urlHash html now).1]
      simpa using bounded
  | some displaced =>
      rw [(insert_of_displaced slot urlHash html now).1, insertToHotMap_len_le_iff _ bounded]
      simp

/-- A promotion takes its key out of the hot map first, so it has room. -/
theorem promoteToUltraHot_len_le {cache : HotCache} {urlHash : UInt64} (html : String) (now : Nat)
    (bounded : cache.hotMap.len ≤ hotMapCapacity) (present : urlHash ∈ cache.hotMap) :
    (cache.promoteToUltraHot urlHash html now).hotMap.len ≤ hotMapCapacity := by
  have freed := HashMap.len_erase_of_mem present
  refine (insert_len_le_iff urlHash html now ?_).mpr ?_
  · show HashMap.len (cache.hotMap.erase urlHash) ≤ hotMapCapacity
    omega
  · intro displaced _ full
    change hotMapCapacity ≤ HashMap.len (cache.hotMap.erase urlHash) at full
    omega

theorem get_len_le {cache : HotCache} (urlHash : UInt64) (now : Nat)
    (bounded : cache.hotMap.len ≤ hotMapCapacity) :
    (cache.get urlHash now).2.hotMap.len ≤ hotMapCapacity := by
  unfold get
  split
  · split_ifs <;> exact bounded
  · split
    · rename_i entry found
      split_ifs
      · exact (HashMap.len_erase_le _ _).trans bounded
      · have present : urlHash ∈ cache.hotMap := AList.lookup_isSome.mp (by rw [found]; rfl)
        exact promoteToUltraHot_len_le _ _ bounded present
    · exact bounded

/-- An operation keeps a hot cache within its capacity exactly when it is ready. -/
theorem apply_withinCapacity_iff {cache : HotCache} (event : Event)
    (within : cache.WithinCapacity) :
    (cache.apply event).WithinCapacity ↔ CapacityReady cache event := by
  obtain ⟨now, op⟩ := event
  cases op with
  | insert urlHash html =>
      rw [← insert_len_le_iff urlHash html now within.1]
      exact ⟨And.left, withinCapacity_of_hotMap⟩
  | get urlHash =>
      exact iff_of_true (withinCapacity_of_hotMap (get_len_le urlHash now within.1)) trivial
  | peek urlHash => exact iff_of_true within trivial
  | clear => exact iff_of_true (withinCapacity_of_hotMap (Nat.zero_le _)) trivial

/-! ### Every run -/

/-- A hot cache never exceeds its capacity in a run exactly when every insertion
of the run that displaces an entry into a full hot map evicts a key that is
there, or displaces one that is. -/
theorem withinCapacity_iff (ttlSecs : Nat) (events : List Event) :
    (∀ upTo, upTo <+: events → (Execution.run apply (withTtl ttlSecs) upTo).WithinCapacity) ↔
      Execution.Guarded apply CapacityReady (withTtl ttlSecs) events :=
  Execution.forall_run_iff_guarded (withinCapacity_of_hotMap (Nat.zero_le _))
    (fun _ event within => apply_withinCapacity_iff event within) events

/-- The key 0 twice, then the other keys below the number, once each. -/
def repeatedFirstKey (keys : Nat) : List Event :=
  (0 :: List.range keys).map fun key => ⟨0, .insert (UInt64.ofNat key) ""⟩

/-- A key inserted twice is evicted twice: the second eviction frees nothing. -/
theorem repeated_key_exceeds_capacity :
    ¬ ∀ (ttlSecs : Nat) (events : List Event),
      (Execution.run apply (withTtl ttlSecs) events).WithinCapacity := by
  intro within
  have bounded := (within 0 (repeatedFirstKey 138)).1
  revert bounded
  decide +kernel

end RustySsr.Cache.HotCache
