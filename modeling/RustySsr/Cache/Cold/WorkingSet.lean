import Mathlib.Data.Finset.Card
import RustySsr.Cache.Cold.Capacity
import RustySsr.Cache.Cold.Refinement

/-!
Owns what becomes of a working set that fits into the cold cache. An insertion
looks at the size alone, so storing a page again while the cache is full evicts
a batch although no room is needed. `keepsWorkingSet_iff` states for every run
without a time-to-live that nothing is ever evicted exactly if no insertion does
that.
-/

namespace RustySsr.Cache.ColdCache

open RustySsr.Platform
open RustySsr.Foundation

/-- The URL and the HTML that each key should have. -/
abbrev Expected := UInt64 → Option (String × String)

/-- What an event does to the pages if nothing is evicted. -/
def expect (expected : Expected) (event : Event) : Expected :=
  match event.op with
  | .insert _ urlHash url html => Function.update expected urlHash (some (url, html))
  | .remove urlHash => Function.update expected urlHash none
  | .removeByPrefix _ urlPrefix =>
      fun key => (expected key).filter fun page => !startsWith page.1 urlPrefix
  | .clear => fun _ => none
  | .get _ => expected
  | .len => expected

/-- The latest page of each key, unless it was removed since. -/
def expectedAfter (events : List Event) : Expected :=
  Execution.run expect (fun _ => none) events

/-- No insertion of the run evicts, and a lookup after the run finds the latest
page of every key. -/
def KeepsWorkingSet (maxEntries : Nat) (events : List Event) : Prop :=
  (∀ evicted, .inserted evicted ∈ Execution.transcript respond (withTtl maxEntries 0) events →
      evicted = 0) ∧
    ∀ urlHash now, ((Execution.settle respond (withTtl maxEntries 0) events).get urlHash now).1 =
      (expectedAfter events urlHash).map Prod.snd

/-- The key of an insertion. -/
def Event.storedKey (event : Event) : Option UInt64 :=
  match event.op with
  | .insert _ urlHash _ _ => some urlHash
  | _ => none

/-- Every insertion is under one of the keys. -/
def InsertsKeys (keys : Finset UInt64) (events : List Event) : Prop :=
  ∀ event ∈ events, ∀ key ∈ event.storedKey, key ∈ keys

/-- The event stores no page again while the cache is full. -/
def StoresWithRoom (cold : ColdCache) (event : Event) : Prop :=
  ∀ key ∈ event.storedKey, key ∈ cold.cache → cold.len < cold.maxEntries

instance (cold : ColdCache) (event : Event) : Decidable (StoresWithRoom cold event) :=
  Option.decidableForallMem (p := fun key => key ∈ cold.cache → cold.len < cold.maxEntries)
    event.storedKey

/-! ### The pages of the cache -/

def CacheEntry.content (entry : CacheEntry) : String × String := (entry.url, entry.html)

/-- The URL and the HTML under each key. -/
def pages (cold : ColdCache) : Expected := fun key =>
  (cold.cache.lookup key).map CacheEntry.content

section Pages

variable {cold : ColdCache}

theorem mem_cache_iff {key : UInt64} : key ∈ cold.cache ↔ (cold.pages key).isSome := by
  rw [pages, Option.isSome_map, AList.lookup_isSome]

theorem get_pages (noTtl : cold.ttl = none) (urlHash : UInt64) (now : Nat) :
    (cold.get urlHash now).1 = (cold.pages urlHash).map Prod.snd ∧
      (cold.get urlHash now).2.pages = cold.pages := by
  unfold get pages
  cases found : cold.cache.lookup urlHash with
  | none => exact ⟨rfl, rfl⟩
  | some entry =>
      simp only [noTtl, outlived_none, Bool.false_eq_true, if_false]
      refine ⟨rfl, funext fun key => ?_⟩
      by_cases same : key = urlHash
      · subst same
        rw [AList.lookup_insert, found]
        rfl
      · rw [AList.lookup_insert_ne same]

theorem pages_of_erase (urlHash : UInt64) (key : UInt64) :
    (AList.lookup key (cold.cache.erase urlHash)).map CacheEntry.content =
      Function.update cold.pages urlHash none key := by
  by_cases same : key = urlHash
  · subst same
    simp [AList.lookup_erase]
  · simp [AList.lookup_erase_ne same, pages, same]

theorem removeByPrefix_pages (order : ScanOrder) (urlPrefix : String) :
    (cold.removeByPrefix order urlPrefix).2.pages =
      fun key => (cold.pages key).filter fun page => !startsWith page.1 urlPrefix := by
  funext key
  refine Option.ext fun page => ?_
  show Option.map _ (AList.lookup key (cold.cache.eraseAll (cold.keysWithPrefix order urlPrefix))) =
    some page ↔ _
  simp only [Option.map_eq_some_iff, HashMap.lookup_eraseAll_some_iff, mem_keysWithPrefix_iff, pages,
    Option.filter_eq_some_iff]
  constructor
  · rintro ⟨entry, ⟨notCollected, found⟩, rfl⟩
    refine ⟨⟨entry, found, rfl⟩, ?_⟩
    simpa [found, CacheEntry.content] using notCollected
  · rintro ⟨⟨entry, found, rfl⟩, kept⟩
    refine ⟨entry, ⟨?_, found⟩, rfl⟩
    simpa [found, CacheEntry.content] using kept

/-- Without an eviction an insertion changes the page of its key alone. -/
theorem insert_pages {order : ScanOrder} (room : cold.evictedKeys order = []) (urlHash : UInt64)
    (url html : String) (now : Nat) :
    (cold.insert order urlHash url html now).2.pages =
      Function.update cold.pages urlHash (some (url, html)) := by
  funext key
  show Option.map _ (AList.lookup key (cold.insert order urlHash url html now).2.cache) = _
  rw [insert_cache, room]
  by_cases same : key = urlHash
  · subst same
    rw [AList.lookup_insert, Function.update_self]
    rfl
  · rw [AList.lookup_insert_ne same, Function.update_of_ne same]
    rfl

end Pages

/-! ### One operation -/

/-- The cache holds the expected pages, all of them under the given keys. -/
structure Retains (maxEntries : Nat) (keys : Finset UInt64) (expected : Expected)
    (cold : ColdCache) : Prop where
  pages : cold.pages = expected
  within : ∀ key, (expected key).isSome → key ∈ keys
  idle : cold.evicting = false
  sameMax : cold.maxEntries = maxEntries
  noTtl : cold.ttl = none

namespace Retains

variable {maxEntries : Nat} {keys : Finset UInt64} {expected : Expected} {cold : ColdCache}

theorem withTtl (maxEntries : Nat) (keys : Finset UInt64) :
    Retains maxEntries keys (fun _ => none) (withTtl maxEntries 0) where
  pages := rfl
  within := fun _ absent => absurd absent (by simp)
  idle := rfl
  sameMax := rfl
  noTtl := rfl

theorem mem_keys (retains : Retains maxEntries keys expected cold) {key : UInt64}
    (present : key ∈ cold.cache) : key ∈ keys := by
  rw [mem_cache_iff, retains.pages] at present
  exact retains.within key present

/-- An insertion under a new key of the set finds room. -/
theorem len_lt_of_notMem (retains : Retains maxEntries keys expected cold)
    (fits : keys.card ≤ maxEntries) {urlHash : UInt64} (member : urlHash ∈ keys)
    (absent : urlHash ∉ cold.cache) : cold.len < maxEntries := by
  have counted : cold.len = cold.cache.keys.toFinset.card := by
    rw [List.toFinset_card_of_nodup cold.cache.keys_nodup]
    exact HashMap.len_eq_keys _
  have fewer : cold.cache.keys.toFinset ⊆ keys.erase urlHash := by
    intro key present
    have inCache := AList.mem_keys.mpr (List.mem_toFinset.mp present)
    exact Finset.mem_erase.mpr ⟨fun same => absent (same ▸ inCache), retains.mem_keys inCache⟩
  have bounded := Finset.card_le_card fewer
  have removed := Finset.card_erase_add_one member
  omega

theorem evictedKeys_eq_nil (retains : Retains maxEntries keys expected cold)
    (room : cold.len < maxEntries) (order : ScanOrder) : cold.evictedKeys order = [] := by
  have counted := evictedKeys_length retains.idle order
  rw [retains.sameMax, if_neg (Nat.not_le_of_lt room)] at counted
  exact List.length_eq_zero_iff.mp counted

theorem get (retains : Retains maxEntries keys expected cold) (urlHash : UInt64) (now : Nat) :
    Retains maxEntries keys expected (cold.get urlHash now).2 where
  pages := (get_pages retains.noTtl urlHash now).2.trans retains.pages
  within := retains.within
  idle := (get_evicting _ _ _).trans retains.idle
  sameMax := (get_maxEntries _ _ _).trans retains.sameMax
  noTtl := (get_ttl _ _ _).trans retains.noTtl

theorem insert (retains : Retains maxEntries keys expected cold) {urlHash : UInt64}
    (member : urlHash ∈ keys) (room : cold.len < maxEntries) (order : ScanOrder)
    (url html : String) (now : Nat) :
    Retains maxEntries keys (Function.update expected urlHash (some (url, html)))
      (cold.insert order urlHash url html now).2 where
  pages := by
    rw [insert_pages (retains.evictedKeys_eq_nil room order), retains.pages]
  within := by
    intro key present
    by_cases same : key = urlHash
    · exact same ▸ member
    · rw [Function.update_of_ne same] at present
      exact retains.within key present
  idle := (insert_evicting _ _ _ _ _ _).trans retains.idle
  sameMax := (insert_maxEntries _ _ _ _ _ _).trans retains.sameMax
  noTtl := (insert_ttl _ _ _ _ _ _).trans retains.noTtl

/-- Fewer expected pages, and the same ones in the cache. -/
theorem shrink (retains : Retains maxEntries keys expected cold) {cache : HashMap UInt64 CacheEntry}
    {next : Expected} (fewer : ∀ key, (next key).isSome → (expected key).isSome)
    (same : ColdCache.pages { cold with cache := cache } = next) :
    Retains maxEntries keys next { cold with cache := cache } where
  pages := same
  within := fun key present => retains.within key (fewer key present)
  idle := retains.idle
  sameMax := retains.sameMax
  noTtl := retains.noTtl

/-- Every event but an insertion keeps the expected pages. -/
theorem respond_of_not_insert (retains : Retains maxEntries keys expected cold) {event : Event}
    (stores : event.storedKey = none) :
    Retains maxEntries keys (expect expected event) (cold.respond event).2 := by
  obtain ⟨now, op⟩ := event
  cases op with
  | get urlHash => exact retains.get urlHash now
  | insert order urlHash url html => cases stores
  | remove urlHash =>
      refine retains.shrink (fun key present => ?_) ?_
      · change (Function.update expected urlHash none key).isSome at present
        by_cases same : key = urlHash
        · simp [same] at present
        · rwa [Function.update_of_ne same] at present
      · rw [expect, ← retains.pages]
        exact funext (pages_of_erase urlHash)
  | removeByPrefix order urlPrefix =>
      refine retains.shrink (fun key present => ?_) ?_
      · obtain ⟨page, kept⟩ := Option.isSome_iff_exists.mp present
        exact Option.isSome_iff_exists.mpr ⟨page, (Option.filter_eq_some_iff.mp kept).1⟩
      · rw [expect, ← retains.pages]
        exact removeByPrefix_pages order urlPrefix
  | clear =>
      refine retains.shrink (fun key present => ?_) rfl
      simp [expect] at present
  | len => exact retains

end Retains

/-! ### Every run -/

section Run

variable {maxEntries : Nat} {keys : Finset UInt64} {events : List Event}

theorem InsertsKeys.initial {first second : List Event}
    (within : InsertsKeys keys (first ++ second)) : InsertsKeys keys first :=
  fun event member => within event (List.mem_append_left _ member)

/-- An event that stores no page again in a full cache keeps the expected pages,
and evicts nothing. -/
theorem Retains.respond {expected : Expected} {cold : ColdCache} {event : Event}
    (retains : Retains maxEntries keys expected cold) (fits : keys.card ≤ maxEntries)
    (within : InsertsKeys keys [event]) (stores : StoresWithRoom cold event) :
    Retains maxEntries keys (expect expected event) (cold.respond event).2 ∧
      ∀ evicted, (cold.respond event).1 = .inserted evicted → evicted = 0 := by
  obtain ⟨now, op⟩ := event
  cases op with
  | insert order urlHash url html =>
      have member := within _ (List.mem_singleton_self _) urlHash rfl
      have room : cold.len < maxEntries := by
        by_cases present : urlHash ∈ cold.cache
        · exact retains.sameMax ▸ stores urlHash rfl present
        · exact retains.len_lt_of_notMem fits member present
      refine ⟨retains.insert member room order url html now, fun evicted answered => ?_⟩
      have counted := cold.insert_evicted order urlHash url html now
      rw [retains.evictedKeys_eq_nil room] at counted
      exact (Answer.inserted.inj answered).symm.trans counted
  | get urlHash => exact ⟨retains.respond_of_not_insert rfl, fun _ other => by cases other⟩
  | remove urlHash => exact ⟨retains.respond_of_not_insert rfl, fun _ other => by cases other⟩
  | removeByPrefix order urlPrefix =>
      exact ⟨retains.respond_of_not_insert rfl, fun _ other => by cases other⟩
  | clear => exact ⟨retains.respond_of_not_insert rfl, fun _ other => by cases other⟩
  | len => exact ⟨retains.respond_of_not_insert rfl, fun _ other => by cases other⟩

theorem retains_settle (fits : keys.card ≤ maxEntries) (within : InsertsKeys keys events)
    (stores : Execution.Guarded (fun current event => (ColdCache.respond current event).2)
      StoresWithRoom (withTtl maxEntries 0) events) :
    Retains maxEntries keys (expectedAfter events)
      (Execution.settle ColdCache.respond (withTtl maxEntries 0) events) := by
  refine Execution.run_invariant (fun history current => InsertsKeys keys history →
    Retains maxEntries keys (expectedAfter history) current) (fun _ => .withTtl _ _) ?_ stores within
  intro history current event retains stores within
  rw [expectedAfter, Execution.run_snoc]
  have last : InsertsKeys keys [event] := fun other member =>
    within other (List.mem_append_right _ member)
  exact ((retains within.initial).respond fits last stores).1

theorem respond_evicting (cold : ColdCache) (event : Event) :
    (cold.respond event).2.evicting = cold.evicting := by
  obtain ⟨now, op⟩ := event
  cases op with
  | get urlHash => exact get_evicting cold urlHash now
  | insert order urlHash url html => exact insert_evicting cold order urlHash url html now
  | _ => rfl

theorem settle_evicting (events : List Event) :
    (Execution.settle ColdCache.respond (withTtl maxEntries 0) events).evicting = false :=
  Execution.run_invariant_always (fun _ current => current.evicting = false) rfl
    fun _ current event idle => (respond_evicting current event).trans idle

/-- A page that is stored again in a full cache evicts. -/
theorem insert_evicts {cold : ColdCache} (idle : cold.evicting = false) {urlHash : UInt64}
    (present : urlHash ∈ cold.cache) (full : cold.maxEntries ≤ cold.len) (order : ScanOrder)
    (url html : String) (now : Nat) : 0 < (cold.insert order urlHash url html now).1 := by
  have nonempty : 0 < cold.len := by
    show 0 < cold.cache.len
    rw [HashMap.len_eq_keys]
    exact List.length_pos_of_mem (AList.mem_keys.mp present)
  have enough := le_batchSize cold.maxEntries
  rw [insert_evicted, evictedKeys_length idle, if_pos full]
  omega

/-- **A working set that fits is never evicted, exactly if no insertion stores a
page again while the cache is full.** -/
theorem keepsWorkingSet_iff (fits : keys.card ≤ maxEntries) (within : InsertsKeys keys events) :
    (∀ upTo, upTo <+: events → KeepsWorkingSet maxEntries upTo) ↔
      Execution.Guarded (fun current event => (ColdCache.respond current event).2) StoresWithRoom
        (withTtl maxEntries 0) events := by
  constructor
  · rintro keeps earlier ⟨now, op⟩ later rfl urlHash stores present
    by_contra noRoom
    cases op with
    | insert order key url html =>
        obtain rfl := Option.some.inj stores
        have evicts := insert_evicts (settle_evicting earlier) present (Nat.le_of_not_lt noRoom)
          order url html now
        have answered := (keeps _ (List.prefix_refl _)).1 _
          (Execution.mem_transcript_iff.mpr ⟨earlier, _, later, rfl, rfl⟩)
        exact Nat.ne_of_gt evicts answered
    | _ => cases stores
  · rintro stores upTo ⟨rest, rfl⟩
    have retains := retains_settle fits within.initial stores.initial
    refine ⟨fun evicted answered => ?_, fun urlHash now => ?_⟩
    · obtain ⟨earlier, event, later, rfl, response⟩ := Execution.mem_transcript_iff.mp answered
      have before : Retains maxEntries keys (expectedAfter earlier)
          (Execution.settle ColdCache.respond (withTtl maxEntries 0) earlier) :=
        retains_settle fits within.initial.initial stores.initial.initial
      have last : InsertsKeys keys [event] := fun other member =>
        within other (List.mem_append_left _ (List.mem_append_right _
          (List.mem_cons.mpr (Or.inl (List.mem_singleton.mp member)))))
      exact (before.respond fits last (stores earlier event (later ++ rest) (by simp))).2 evicted
        response
    · rw [(get_pages retains.noTtl urlHash now).1, retains.pages]

end Run

/-- Three pages, of which one is stored again before the third fills the cache. -/
def renewedRun : List Event :=
  [⟨0, .insert VisitOrder.stored 1 "/a" "old"⟩, ⟨0, .insert VisitOrder.stored 2 "/b" "b"⟩,
    ⟨1, .insert VisitOrder.stored 1 "/a" "new"⟩, ⟨2, .insert VisitOrder.stored 3 "/c" "c"⟩]

theorem keepsWorkingSet_renewedRun : KeepsWorkingSet 3 renewedRun := by
  have fits : ({1, 2, 3} : Finset UInt64).card ≤ 3 := by decide
  refine (keepsWorkingSet_iff fits ?_).mpr ?_ renewedRun (List.prefix_refl renewedRun)
  · simp [InsertsKeys, Event.storedKey, renewedRun]
  · decide

/-- Storing the first of three pages again loses the other two. -/
theorem restore_evicts_working_set :
    ¬ ∀ maxEntries (keys : Finset UInt64) events, 1 ≤ maxEntries → keys.card ≤ maxEntries →
      InsertsKeys keys events → KeepsWorkingSet maxEntries events := by
  intro keeps
  have lost := (keeps 3 {1, 2, 3} (renewedRun ++ [⟨3, .insert VisitOrder.stored 1 "/a" "newest"⟩])
    (by decide) (by decide) (by simp [InsertsKeys, Event.storedKey, renewedRun])).2 2 4
  revert lost
  decide

end RustySsr.Cache.ColdCache
