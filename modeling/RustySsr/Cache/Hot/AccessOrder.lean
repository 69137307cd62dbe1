import RustySsr.Cache.Hot.Capacity

/-!
Owns how the order list of the hot map relates to the map. Every key of the map
is in the list, whatever the list holds besides, so an eviction always finds a
front and every resident key moves towards it: `everyResident_evictable`. The
converse fails, since a key displaced twice is listed twice and an expired entry
leaves its key behind; `compact_iff` states for every run when the list is no
longer than the map.
-/

namespace RustySsr.Cache.HotCache

open RustySsr.Platform
open RustySsr.Foundation

/-! ### The call of `insert_to_hot_map` -/

/-- What a lookup finds in the hot map, after missing the ring. -/
def mapHit (cache : HotCache) (urlHash : UInt64) : Option HotEntry :=
  match cache.firstUltraHot urlHash with
  | some _ => none
  | none => cache.hotMap.lookup urlHash

/-- The cache once the event has removed what it removes by itself: an expired
entry from the map, a promoted one from the map and the list, or everything. -/
def settled (cache : HotCache) (event : Event) : HotCache :=
  match event.op with
  | .get urlHash =>
      match cache.mapHit urlHash with
      | some entry =>
          if cache.isExpired entry event.now then
            { cache with hotMap := cache.hotMap.erase urlHash }
          else
            { cache with
              hotMap := cache.hotMap.erase urlHash
              accessOrder := cache.accessOrder.erase urlHash }
      | none => cache
  | .clear => cache.clear
  | _ => cache

/-- The entry with which the event then calls `insert_to_hot_map`: the one in
the slot that an insertion or a promotion writes. -/
def overflow (cache : HotCache) (event : Event) : Option HotEntry :=
  match event.op with
  | .insert _ _ => cache.displacedEntry
  | .get urlHash =>
      match cache.mapHit urlHash with
      | some entry => if cache.isExpired entry event.now then none else cache.displacedEntry
      | none => none
  | _ => none

/-- The overflow of an event that finds the hot map at capacity. -/
def evicting (cache : HotCache) (event : Event) : List HotEntry :=
  if hotMapCapacity ≤ (cache.settled event).hotMap.len then (cache.overflow event).toList else []

/-- The overflow, if any, reaches the hot map. -/
def overflowed (cache : HotCache) (event : Event) : HotCache :=
  (cache.overflow event).elim (cache.settled event) (cache.settled event).insertToHotMap

/-! ### What is claimed of it -/

/-- Every key of the hot map is in the order list. -/
def ListsMap (cache : HotCache) : Prop :=
  ∀ key ∈ cache.hotMap, key ∈ cache.accessOrder

/-- Evictions always find a front and reach every resident entry: a key that
stays in the map without being displaced anew outlasts no more of them than
there are keys before it in the order list. -/
structure EvictsAll (cache : HotCache) : Prop where
  listed : cache.ListsMap
  front : ∀ event displaced, cache.overflow event = some displaced →
    hotMapCapacity ≤ (cache.settled event).hotMap.len → (cache.settled event).accessOrder ≠ []
  reached : ∀ key later, (∀ upTo, upTo <+: later → key ∈ (Execution.run apply cache upTo).hotMap) →
    Execution.Guarded apply
      (fun current event => ∀ displaced ∈ current.overflow event, displaced.urlHash ≠ key)
      cache later →
    (Execution.trace apply evicting cache later).length ≤ cache.accessOrder.idxOf key

/-- The order list has no duplicates and is no longer than the map, and so than
its capacity. -/
structure Compact (cache : HotCache) : Prop where
  nodup : cache.accessOrder.Nodup
  length_le : cache.accessOrder.length ≤ cache.hotMap.len
  bounded : cache.accessOrder.length ≤ hotMapCapacity

/-- An insertion displaces no key of the hot map, unless the map is full and
that key its oldest; a lookup that gets to the hot map finds a live entry there,
and its promotion displaces no key of the map. -/
def OrderReady (cache : HotCache) (event : Event) : Prop :=
  match event.op with
  | .insert _ _ =>
      ∀ displaced, cache.displacedEntry = some displaced → displaced.urlHash ∈ cache.hotMap →
        hotMapCapacity ≤ cache.hotMap.len ∧ cache.accessOrder.head? = some displaced.urlHash
  | .get urlHash =>
      ∀ entry, cache.mapHit urlHash = some entry →
        cache.isExpired entry event.now = false ∧
          ∀ displaced, cache.displacedEntry = some displaced → displaced.urlHash ∉ cache.hotMap
  | _ => True

/-! ### The hot map and its order list after an event -/

theorem insert_overflowed (cache : HotCache) (urlHash : UInt64) (html : String) (now : Nat) :
    (cache.insert urlHash html now).hotMap =
        (cache.displacedEntry.elim cache cache.insertToHotMap).hotMap ∧
      (cache.insert urlHash html now).accessOrder =
        (cache.displacedEntry.elim cache cache.insertToHotMap).accessOrder := by
  cases slot : cache.displacedEntry with
  | none => exact insert_of_vacant slot urlHash html now
  | some displaced => exact insert_of_displaced slot urlHash html now

/-- Every event settles and then overflows. -/
theorem apply_overflowed (cache : HotCache) (event : Event) :
    (cache.apply event).hotMap = (cache.overflowed event).hotMap ∧
      (cache.apply event).accessOrder = (cache.overflowed event).accessOrder := by
  obtain ⟨now, op⟩ := event
  cases op with
  | insert urlHash html => exact insert_overflowed cache urlHash html now
  | peek urlHash => exact ⟨rfl, rfl⟩
  | clear => exact ⟨rfl, rfl⟩
  | get urlHash =>
      unfold overflowed overflow settled mapHit apply get
      dsimp only
      cases cache.firstUltraHot urlHash with
      | some entry =>
          dsimp only
          split_ifs <;> exact ⟨rfl, rfl⟩
      | none =>
          cases cache.hotMap.lookup urlHash with
          | none => exact ⟨rfl, rfl⟩
          | some entry =>
              dsimp only
              split_ifs
              · exact ⟨rfl, rfl⟩
              · exact insert_overflowed _ urlHash entry.html now

/-- What an event removes by itself: nothing, everything, an expired key from the
map, or a promoted key from the map and the list. -/
theorem settled_cases (cache : HotCache) (event : Event) :
    cache.settled event = cache ∨ cache.settled event = cache.clear ∨
      (∃ key, cache.settled event = { cache with hotMap := cache.hotMap.erase key }) ∨
      ∃ key, cache.settled event = { cache with
        hotMap := cache.hotMap.erase key, accessOrder := cache.accessOrder.erase key } := by
  unfold settled
  cases event.op with
  | insert => exact Or.inl rfl
  | peek => exact Or.inl rfl
  | clear => exact Or.inr (Or.inl rfl)
  | get urlHash =>
      dsimp only
      cases cache.mapHit urlHash with
      | none => exact Or.inl rfl
      | some entry =>
          dsimp only
          split_ifs
          · exact Or.inr (Or.inr (Or.inl ⟨urlHash, rfl⟩))
          · exact Or.inr (Or.inr (Or.inr ⟨urlHash, rfl⟩))

theorem mapHit_mem {cache : HotCache} {urlHash : UInt64} {entry : HotEntry}
    (hit : cache.mapHit urlHash = some entry) : urlHash ∈ cache.hotMap := by
  unfold mapHit at hit
  split at hit
  · contradiction
  · exact AList.lookup_isSome.mp (by rw [hit]; rfl)

/-- A hit in the hot map is a miss in the ring. -/
theorem displaced_ne_of_mapHit {cache : HotCache} {urlHash : UInt64} {entry displaced : HotEntry}
    (hit : cache.mapHit urlHash = some entry) (slot : cache.displacedEntry = some displaced) :
    displaced.urlHash ≠ urlHash := by
  unfold mapHit at hit
  split at hit
  · contradiction
  · rename_i missed
    exact firstUltraHot_none_iff.mp missed displaced
      (mem_ultraHotEntries_iff.mpr (Or.inr (Or.inl slot)))

/-! ### The list holds every key of the map -/

namespace ListsMap

variable {cache : HotCache}

/-- A key may leave the map on its own. -/
theorem expire (lists : ListsMap cache) (key : UInt64) :
    ListsMap { cache with hotMap := cache.hotMap.erase key } :=
  fun other member => lists other (AList.mem_erase.mp member).2

/-- Where a key leaves the map, one occurrence of it may leave the list. -/
theorem erase (lists : ListsMap cache) (key : UInt64) :
    ListsMap { cache with
      hotMap := cache.hotMap.erase key, accessOrder := cache.accessOrder.erase key } := by
  intro other member
  obtain ⟨different, present⟩ := AList.mem_erase.mp member
  exact (List.mem_erase_of_ne different).mpr (lists other present)

theorem append (lists : ListsMap cache) (entry : HotEntry) :
    ListsMap { cache with
      accessOrder := cache.accessOrder ++ [entry.urlHash]
      hotMap := cache.hotMap.insert entry.urlHash entry } := by
  intro other member
  rcases (AList.mem_insert _).mp member with rfl | present
  · exact List.mem_append_right _ (List.mem_singleton_self _)
  · exact List.mem_append_left _ (lists other present)

/-- A map at capacity is not empty, so neither is the list. -/
theorem exists_front (lists : ListsMap cache) (full : hotMapCapacity ≤ cache.hotMap.len) :
    ∃ oldestKey rest, cache.accessOrder = oldestKey :: rest := by
  have positive : 0 < cache.hotMap.keys.length := by
    rw [← HashMap.len_eq_keys]
    exact Nat.lt_of_lt_of_le (by decide) full
  have listed := lists _ (AList.mem_keys.mpr (List.getElem_mem positive))
  exact List.exists_cons_of_ne_nil (List.ne_nil_of_mem listed)

theorem insertToHotMap (lists : ListsMap cache) (entry : HotEntry) :
    ListsMap (cache.insertToHotMap entry) := by
  by_cases full : hotMapCapacity ≤ cache.hotMap.len
  · obtain ⟨oldestKey, rest, listed⟩ := lists.exists_front full
    rw [insertToHotMap_of_full full listed]
    exact (lists.erase oldestKey).append entry
  · rw [insertToHotMap_of_room full]
    exact lists.append entry

theorem settled (lists : ListsMap cache) (event : Event) : ListsMap (cache.settled event) := by
  rcases cache.settled_cases event with same | cleared | ⟨key, expired⟩ | ⟨key, promoted⟩
  · rw [same]
    exact lists
  · rw [cleared]
    exact fun key member => absurd member (AList.notMem_empty key)
  · rw [expired]
    exact lists.expire key
  · rw [promoted]
    exact lists.erase key

theorem apply (lists : ListsMap cache) (event : Event) : ListsMap (cache.apply event) := by
  have overflowed : ListsMap (cache.overflowed event) := by
    unfold HotCache.overflowed
    cases cache.overflow event with
    | none => exact lists.settled event
    | some displaced => exact (lists.settled event).insertToHotMap displaced
  obtain ⟨sameMap, sameOrder⟩ := cache.apply_overflowed event
  intro key member
  rw [sameOrder]
  exact overflowed key (sameMap ▸ member)

theorem run (lists : ListsMap cache) (events : List Event) :
    ListsMap (Execution.run HotCache.apply cache events) :=
  Execution.run_invariant_always (fun _ current => ListsMap current) lists
    fun _ _ event current => current.apply event

end ListsMap

theorem listsMap_withTtl (ttlSecs : Nat) : ListsMap (withTtl ttlSecs) :=
  fun key member => absurd member (AList.notMem_empty key)

/-! ### Every resident key moves to the front -/

theorem idxOf_erase_le {keys : List UInt64} {key other : UInt64} (different : key ≠ other) :
    (keys.erase other).idxOf key ≤ keys.idxOf key := by
  induction keys with
  | nil => exact Nat.le_refl _
  | cons first rest inductionHypothesis =>
      by_cases isOther : first = other
      · subst isOther
        rw [List.erase_cons_head, List.idxOf_cons_ne _ different.symm]
        exact Nat.le_succ _
      · rw [List.erase_cons_tail (by simpa using isOther)]
        by_cases isKey : first = key
        · subst isKey
          rw [List.idxOf_cons_self, List.idxOf_cons_self]
        · rw [List.idxOf_cons_ne _ isKey, List.idxOf_cons_ne _ isKey]
          exact Nat.succ_le_succ inductionHypothesis

/-- A key that settles in the map has not lost an occurrence in the list. -/
theorem settled_idxOf_le {cache : HotCache} {event : Event} {key : UInt64}
    (resident : key ∈ (cache.settled event).hotMap) :
    key ∈ cache.hotMap ∧ (cache.settled event).accessOrder.idxOf key ≤
      cache.accessOrder.idxOf key := by
  rcases cache.settled_cases event with same | cleared | ⟨other, expired⟩ | ⟨other, promoted⟩
  · rw [same] at resident ⊢
    exact ⟨resident, Nat.le_refl _⟩
  · rw [cleared] at resident
    exact absurd resident (AList.notMem_empty key)
  · rw [expired] at resident ⊢
    exact ⟨(AList.mem_erase.mp resident).2, Nat.le_refl _⟩
  · rw [promoted] at resident ⊢
    obtain ⟨different, present⟩ := AList.mem_erase.mp resident
    exact ⟨present, idxOf_erase_le different⟩

/-- An entry under another key that reaches a full map takes a key before this
one out of the list; otherwise the list only grows at its end. -/
theorem insertToHotMap_idxOf {cache : HotCache} (lists : ListsMap cache) {entry : HotEntry}
    {key : UInt64} (different : entry.urlHash ≠ key)
    (resident : key ∈ (cache.insertToHotMap entry).hotMap) :
    key ∈ cache.hotMap ∧ (cache.insertToHotMap entry).accessOrder.idxOf key +
        (if hotMapCapacity ≤ cache.hotMap.len then 1 else 0) = cache.accessOrder.idxOf key := by
  by_cases full : hotMapCapacity ≤ cache.hotMap.len
  · obtain ⟨oldestKey, rest, listed⟩ := lists.exists_front full
    rw [insertToHotMap_of_full full listed] at resident ⊢
    obtain ⟨notOldest, present⟩ :=
      AList.mem_erase.mp (((AList.mem_insert _).mp resident).resolve_left different.symm)
    have inRest : key ∈ rest := by
      have inOrder := lists key present
      rw [listed] at inOrder
      exact (List.mem_cons.mp inOrder).resolve_left notOldest
    refine ⟨present, ?_⟩
    rw [if_pos full, listed, List.erase_cons_head, List.idxOf_append_of_mem inRest,
      List.idxOf_cons_ne _ notOldest.symm]
  · rw [insertToHotMap_of_room full] at resident ⊢
    have present := ((AList.mem_insert _).mp resident).resolve_left different.symm
    refine ⟨present, ?_⟩
    rw [if_neg full, List.idxOf_append_of_mem (lists key present), Nat.add_zero]

/-- One event: the key moves up by the evictions that the event makes. -/
theorem apply_idxOf_le {cache : HotCache} (lists : ListsMap cache) {event : Event} {key : UInt64}
    (undisplaced : ∀ displaced ∈ cache.overflow event, displaced.urlHash ≠ key)
    (resident : key ∈ (cache.apply event).hotMap) :
    (cache.apply event).accessOrder.idxOf key + (cache.evicting event).length ≤
      cache.accessOrder.idxOf key := by
  obtain ⟨sameMap, sameOrder⟩ := cache.apply_overflowed event
  rw [sameMap] at resident
  rw [sameOrder]
  unfold overflowed at resident ⊢
  unfold evicting
  cases overflows : cache.overflow event with
  | none =>
      rw [overflows] at resident
      have moved := (settled_idxOf_le resident).2
      simpa using moved
  | some displaced =>
      rw [overflows] at resident
      have different := undisplaced displaced overflows
      obtain ⟨stays, evicted⟩ :=
        insertToHotMap_idxOf (lists.settled event) different resident
      have moved := (settled_idxOf_le stays).2
      have counted :
          (if hotMapCapacity ≤ (cache.settled event).hotMap.len then
            (some displaced).toList else []).length =
          if hotMapCapacity ≤ (cache.settled event).hotMap.len then 1 else 0 := by
        split_ifs <;> rfl
      rw [counted]
      exact evicted.trans_le moved

theorem evicting_length_le {cache : HotCache} (lists : ListsMap cache) {key : UInt64}
    {later : List Event}
    (resident : ∀ upTo, upTo <+: later → key ∈ (Execution.run apply cache upTo).hotMap)
    (undisplaced : Execution.Guarded apply
      (fun current event => ∀ displaced ∈ current.overflow event, displaced.urlHash ≠ key)
      cache later) :
    (Execution.trace apply evicting cache later).length ≤ cache.accessOrder.idxOf key := by
  induction later generalizing cache with
  | nil => exact Nat.zero_le _
  | cons event later inductionHypothesis =>
      obtain ⟨first, rest⟩ := Execution.guarded_cons_iff.mp undisplaced
      have next : key ∈ (cache.apply event).hotMap := resident [event] ⟨later, rfl⟩
      have moved := apply_idxOf_le lists first next
      have counted := inductionHypothesis (lists.apply event)
        (fun upTo initial => resident (event :: upTo) (List.prefix_cons_inj event |>.mpr initial))
        rest
      rw [Execution.trace, List.length_append]
      omega

/-! ### The list holds nothing besides -/

/-- The order list holds the keys of the hot map, each once. -/
def InStep (cache : HotCache) : Prop :=
  cache.accessOrder.Perm cache.hotMap.keys ∧ cache.accessOrder.length ≤ hotMapCapacity

/-- As the list holds every key of the map, it is no longer than the map only if
it holds nothing else. -/
theorem ListsMap.compact_iff_inStep {cache : HotCache} (lists : ListsMap cache) :
    Compact cache ↔ InStep cache := by
  constructor
  · intro compact
    have short := compact.length_le
    rw [HashMap.len_eq_keys] at short
    have subset : cache.hotMap.keys ⊆ cache.accessOrder := fun key member =>
      lists key (AList.mem_keys.mpr member)
    have subperm := List.subperm_of_subset cache.hotMap.keys_nodup subset
    exact ⟨(subperm.perm_of_length_le short).symm, compact.bounded⟩
  · rintro ⟨perm, bounded⟩
    refine ⟨perm.nodup_iff.mpr cache.hotMap.keys_nodup, ?_, bounded⟩
    rw [HashMap.len_eq_keys, perm.length_eq]

namespace InStep

variable {cache : HotCache}

theorem mem_iff (inStep : InStep cache) {key : UInt64} :
    key ∈ cache.accessOrder ↔ key ∈ cache.hotMap :=
  inStep.1.mem_iff.trans AList.mem_keys.symm

theorem len_eq (inStep : InStep cache) : cache.hotMap.len = cache.accessOrder.length := by
  rw [HashMap.len_eq_keys, inStep.1.length_eq]

theorem len_le (inStep : InStep cache) : cache.hotMap.len ≤ hotMapCapacity :=
  inStep.len_eq.trans_le inStep.2

theorem erase (inStep : InStep cache) (key : UInt64) :
    InStep { cache with
      hotMap := cache.hotMap.erase key, accessOrder := cache.accessOrder.erase key } := by
  refine ⟨?_, List.length_erase_le.trans inStep.2⟩
  show (cache.accessOrder.erase key).Perm (cache.hotMap.erase key).keys
  rw [AList.keys_erase]
  exact inStep.1.erase key

/-- A key that leaves the map alone stays in the list. -/
theorem not_expire (inStep : InStep cache) {key : UInt64} (present : key ∈ cache.hotMap) :
    ¬ InStep { cache with hotMap := cache.hotMap.erase key } := by
  intro expired
  have absent := expired.mem_iff.mp (inStep.mem_iff.mpr present)
  exact (AList.mem_erase.mp absent).1 rfl

/-- A key pushed onto the list is new to it exactly if it is new to the map. -/
theorem append_iff (inStep : InStep cache) (entry : HotEntry)
    (room : cache.accessOrder.length < hotMapCapacity) :
    InStep { cache with
      accessOrder := cache.accessOrder ++ [entry.urlHash]
      hotMap := cache.hotMap.insert entry.urlHash entry } ↔ entry.urlHash ∉ cache.hotMap := by
  constructor
  · rintro ⟨perm, -⟩ present
    have nodup := perm.nodup_iff.mpr (AList.keys_nodup _)
    rw [List.nodup_append] at nodup
    exact nodup.2.2 _ (inStep.mem_iff.mpr present) _ (List.mem_singleton_self _) rfl
  · intro absent
    refine ⟨?_, ?_⟩
    · show (cache.accessOrder ++ [entry.urlHash]).Perm (cache.hotMap.insert entry.urlHash entry).keys
      have unlisted : entry.urlHash ∉ cache.hotMap.keys := fun member =>
        absent (AList.mem_keys.mpr member)
      rw [AList.keys_insert, List.erase_of_not_mem unlisted]
      exact (List.perm_append_singleton _ _).trans (inStep.1.cons _)
    · rw [List.length_append, List.length_singleton]
      exact room

theorem insertToHotMap_iff (inStep : InStep cache) (entry : HotEntry) :
    InStep (cache.insertToHotMap entry) ↔
      (entry.urlHash ∈ cache.hotMap →
        hotMapCapacity ≤ cache.hotMap.len ∧ cache.accessOrder.head? = some entry.urlHash) := by
  by_cases full : hotMapCapacity ≤ cache.hotMap.len
  · have positive : 0 < cache.accessOrder.length := by
      rw [← inStep.len_eq]
      exact Nat.lt_of_lt_of_le (by decide) full
    obtain ⟨oldestKey, rest, listed⟩ := List.exists_cons_of_length_pos positive
    have oldest : oldestKey ∈ cache.accessOrder := listed ▸ List.mem_cons_self
    have room : (cache.accessOrder.erase oldestKey).length < hotMapCapacity := by
      have bounded := inStep.2
      rw [List.length_erase_of_mem oldest]
      omega
    rw [insertToHotMap_of_full full listed,
      (inStep.erase oldestKey).append_iff entry room, AList.mem_erase, listed, List.head?_cons,
      Option.some.injEq]
    constructor
    · intro absent present
      exact ⟨full, by_contra fun different => absent ⟨Ne.symm different, present⟩⟩
    · rintro allowed ⟨different, present⟩
      exact different (allowed present).2.symm
  · have room : cache.accessOrder.length < hotMapCapacity := inStep.len_eq ▸ not_le.mp full
    rw [insertToHotMap_of_room full, inStep.append_iff entry room]
    exact ⟨fun absent present => absurd present absent,
      fun allowed present => full (allowed present).1⟩

/-- One event: list and map stay in step exactly if the event is ready. -/
theorem overflowed_iff (inStep : InStep cache) (event : Event) :
    InStep (cache.overflowed event) ↔ OrderReady cache event := by
  obtain ⟨now, op⟩ := event
  unfold overflowed overflow settled OrderReady
  cases op with
  | insert urlHash html =>
      dsimp only
      cases slot : cache.displacedEntry with
      | none => simpa using inStep
      | some displaced => simpa using inStep.insertToHotMap_iff displaced
  | peek urlHash => exact iff_of_true inStep trivial
  | clear => exact iff_of_true ⟨List.Perm.refl _, Nat.zero_le _⟩ trivial
  | get urlHash =>
      dsimp only
      cases hit : cache.mapHit urlHash with
      | none => exact iff_of_true inStep (by simp)
      | some entry =>
          have present := mapHit_mem hit
          dsimp only
          cases expired : cache.isExpired entry now with
          | true =>
              rw [if_pos rfl, if_pos rfl]
              exact iff_of_false (inStep.not_expire present) (by simp [expired])
          | false =>
              rw [if_neg Bool.false_ne_true, if_neg Bool.false_ne_true]
              -- The map has given up the promoted key, so it has room.
              have removed := inStep.erase urlHash
              have shrunk := HashMap.len_erase_of_mem present
              have room : ¬ hotMapCapacity ≤ HashMap.len (cache.hotMap.erase urlHash) := by
                have bounded := inStep.len_le
                omega
              cases slot : cache.displacedEntry with
              | none => exact iff_of_true removed (by simp [expired])
              | some displaced =>
                  have different := displaced_ne_of_mapHit hit slot
                  have exactly := removed.insertToHotMap_iff displaced
                  dsimp only at exactly
                  simpa [expired, room, different] using exactly

end InStep

/-! ### Every run -/

/-- In every reachable state the order list holds every key of the hot map, an
eviction finds a front, and evictions reach every resident entry. -/
theorem everyResident_evictable (ttlSecs : Nat) (events : List Event) :
    EvictsAll (Execution.run apply (withTtl ttlSecs) events) where
  listed := (listsMap_withTtl ttlSecs).run events
  front := by
    intro event displaced _ full
    have lists := (listsMap_withTtl ttlSecs).run events
    obtain ⟨oldestKey, rest, listed⟩ := (lists.settled event).exists_front full
    rw [listed]
    exact List.cons_ne_nil _ _
  reached := fun _ _ => evicting_length_le ((listsMap_withTtl ttlSecs).run events)

/-- A ready event, and no other, keeps the list in step with the map. -/
theorem apply_inStep_iff {cache : HotCache} (event : Event) (inStep : InStep cache) :
    InStep (cache.apply event) ↔ OrderReady cache event := by
  obtain ⟨sameMap, sameOrder⟩ := cache.apply_overflowed event
  rw [← inStep.overflowed_iff event, InStep, InStep, sameMap, sameOrder]

theorem inStep_withTtl (ttlSecs : Nat) : InStep (withTtl ttlSecs) :=
  ⟨List.Perm.refl _, Nat.zero_le _⟩

/-- In a run the order list never has a duplicate nor outgrows the hot map
exactly when no insertion or promotion displaces a key that stays in the map and
no lookup finds an expired entry there. -/
theorem compact_iff (ttlSecs : Nat) (events : List Event) :
    (∀ upTo, upTo <+: events → Compact (Execution.run apply (withTtl ttlSecs) upTo)) ↔
      Execution.Guarded apply OrderReady (withTtl ttlSecs) events := by
  rw [← Execution.forall_run_iff_guarded (inStep_withTtl ttlSecs)
    (fun _ event inStep => apply_inStep_iff event inStep) events]
  exact forall₂_congr fun upTo _ => ((listsMap_withTtl ttlSecs).run upTo).compact_iff_inStep

/-! ### One key over and over -/

/-- The key 0, inserted as often as the number says. -/
def repeatedInserts (count : Nat) : List Event :=
  List.replicate count ⟨0, .insert 0 ""⟩

/-- The ring holds nothing but the repeated entry, the map at most that. -/
def HoldsRepeated (cache : HotCache) : Prop :=
  cache.ultraHot = Vector.replicate ultraHotSize (some ⟨0, "", 0⟩) ∧
    ∀ key ∈ cache.hotMap, key = 0

/-- Each further insertion pushes the key once more: the map never fills up, so
nothing is ever taken out of the list. -/
theorem HoldsRepeated.insert {cache : HotCache} (holds : HoldsRepeated cache) :
    HoldsRepeated (cache.insert 0 "" 0) ∧
      (cache.insert 0 "" 0).accessOrder = cache.accessOrder ++ [0] := by
  obtain ⟨ring, keys⟩ := holds
  have slot : cache.displacedEntry = some ⟨0, "", 0⟩ := by
    rw [displacedEntry, ring]
    exact Vector.getElem_replicate cache.ultraHotNext.isLt
  have room : ¬ hotMapCapacity ≤ cache.hotMap.len := by
    have subset : cache.hotMap.keys ⊆ [0] := fun key member =>
      List.mem_singleton.mpr (keys key (AList.mem_keys.mpr member))
    have short := (List.subperm_of_subset cache.hotMap.keys_nodup subset).length_le
    rw [HashMap.len_eq_keys]
    exact fun full => absurd (full.trans short) (by decide)
  obtain ⟨sameMap, sameOrder⟩ := insert_of_displaced slot 0 "" 0
  rw [insertToHotMap_of_room room] at sameMap sameOrder
  refine ⟨⟨?_, ?_⟩, sameOrder⟩
  · apply Vector.toList_inj.mp
    rw [insert_ultraHot, ring, Vector.toList_replicate]
    exact List.set_replicate_self
  · intro key member
    rw [sameMap] at member
    exact ((AList.mem_insert _).mp member).elim id (keys key)

/-- Eight insertions fill the ring. -/
theorem holdsRepeated_filled :
    HoldsRepeated (Execution.run apply new (repeatedInserts ultraHotSize)) ∧
      (Execution.run apply new (repeatedInserts ultraHotSize)).accessOrder = [] := by
  have filled : (Execution.run apply new (repeatedInserts ultraHotSize)).ultraHot =
        Vector.replicate ultraHotSize (some ⟨0, "", 0⟩) ∧
      (Execution.run apply new (repeatedInserts ultraHotSize)).hotMap.keys = [] ∧
      (Execution.run apply new (repeatedInserts ultraHotSize)).accessOrder = [] := by
    decide +kernel
  obtain ⟨ring, keys, order⟩ := filled
  refine ⟨⟨ring, fun key member => ?_⟩, order⟩
  rw [AList.mem_keys, keys] at member
  contradiction

/-- One key is enough to make the list as long as the thread runs. -/
theorem repeatedInserts_accessOrder (count : Nat) :
    (Execution.run apply new (repeatedInserts (ultraHotSize + count))).accessOrder =
      List.replicate count 0 := by
  have grown : HoldsRepeated (Execution.run apply new (repeatedInserts (ultraHotSize + count))) ∧
      (Execution.run apply new (repeatedInserts (ultraHotSize + count))).accessOrder =
        List.replicate count 0 := by
    induction count with
    | zero => exact holdsRepeated_filled
    | succ count inductionHypothesis =>
        obtain ⟨holds, order⟩ := inductionHypothesis
        obtain ⟨stillHolds, pushed⟩ := holds.insert
        rw [← Nat.add_assoc, repeatedInserts, List.replicate_succ', Execution.run_snoc]
        refine ⟨stillHolds, pushed.trans ?_⟩
        rw [List.replicate_succ', order]
  exact grown.2

/-- A key displaced twice is listed twice. -/
theorem repeated_key_listed_twice :
    ¬ ∀ (ttlSecs : Nat) (events : List Event),
      Compact (Execution.run apply (withTtl ttlSecs) events) := by
  intro compact
  have nodup := (compact 0 (repeatedInserts (ultraHotSize + 2))).nodup
  have order : (Execution.run apply (withTtl 0) (repeatedInserts (ultraHotSize + 2))).accessOrder =
      [0, 0] := repeatedInserts_accessOrder 2
  rw [order] at nodup
  exact absurd nodup (by decide)

end RustySsr.Cache.HotCache
