import RustySsr.Cache.Cold.Contents
import RustySsr.Foundation.Staged

/-!
Owns the steps that other threads can see of the operations on the cold cache
that take more than one: a lookup drops its guard before it removes an expired
entry, an insertion tests the length, takes the eviction flag and removes its
victims one by one, and a prefix removal collects its keys before it removes
them one by one. One pass over the map is one step. Without interruption the
steps are the operations of the cold cache.
-/

namespace RustySsr.Cache.ColdCache

open RustySsr.Platform
open RustySsr.Foundation.Staged

/-- The orders that one pass over the map and one over the heap follow. -/
structure Orders where
  scan : ScanOrder
  heap : VisitOrder (UInt64 × UInt64)

inductive GetStage where
  | read
  | removeExpired
deriving DecidableEq, Repr

inductive InsertStage where
  | checkLength
  | takeFlag
  | scan
  | evict (keys : List UInt64) (evicted : Nat)
  | stamp (evicted : Nat)
  | create (evicted : Nat) (newAccess : UInt64)
  | store (evicted : Nat) (newAccess : UInt64) (createdAt : Nat)
deriving DecidableEq, Repr

inductive PrefixStage where
  | scan
  | remove (toRemove : List UInt64) (count : Nat)
deriving DecidableEq, Repr

/-- A step of `get`. -/
def getStep (cold : ColdCache) (urlHash : UInt64) (now : Nat) :
    GetStage → ColdCache × Outcome GetStage (Option String)
  | .read =>
      match cold.cache.lookup urlHash with
      | none => (cold, .returns none)
      | some entry =>
          if outlived cold.ttl entry.createdAt now then (cold, .continues .removeExpired)
          else
            ({ cold with
                accessCounter := cold.accessCounter + 1
                cache := cold.cache.insert urlHash
                  { entry with lastAccess := cold.accessCounter } },
              .returns (some entry.html))
  | .removeExpired => ({ cold with cache := cold.cache.erase urlHash }, .returns none)

/-- A step of `insert`, with those of `evict_batch` inside it. The entry has its
time before the map takes it. -/
def insertStep (cold : ColdCache) (orders : Orders) (urlHash : UInt64) (url html : String)
    (now : Nat) : InsertStage → ColdCache × Outcome InsertStage Nat
  | .checkLength =>
      (cold, .continues (if cold.maxEntries ≤ cold.cache.len then .takeFlag else .stamp 0))
  | .takeFlag =>
      if cold.evicting then (cold, .continues (.stamp 0))
      else ({ cold with evicting := true }, .continues .scan)
  | .scan =>
      let heap := orders.heap.visit (cold.victims orders.scan)
      (cold, .continues (.evict (heap.map Prod.snd) heap.length))
  | .evict (key :: rest) evicted =>
      ({ cold with cache := cold.cache.erase key }, .continues (.evict rest evicted))
  | .evict [] evicted => ({ cold with evicting := false }, .continues (.stamp evicted))
  | .stamp evicted =>
      ({ cold with accessCounter := cold.accessCounter + 1 },
        .continues (.create evicted cold.accessCounter))
  | .create evicted newAccess => (cold, .continues (.store evicted newAccess now))
  | .store evicted newAccess createdAt =>
      ({ cold with cache := cold.cache.insert urlHash ⟨url, html, newAccess, createdAt⟩ },
        .returns evicted)

/-- A step of `remove_by_prefix`. -/
def removeByPrefixStep (cold : ColdCache) (order : ScanOrder) (urlPrefix : String) :
    PrefixStage → ColdCache × Outcome PrefixStage Nat
  | .scan =>
      let toRemove := cold.keysWithPrefix order urlPrefix
      (cold, .continues (.remove toRemove toRemove.length))
  | .remove (key :: rest) count =>
      ({ cold with cache := cold.cache.erase key }, .continues (.remove rest count))
  | .remove [] count => (cold, .returns count)

/-! ### Pages -/

theorem hasPage_erase {cold : ColdCache} {erased key : UInt64} {url html : String}
    {createdAt : Nat}
    (page : HasPage { cold with cache := cold.cache.erase erased } key url html createdAt) :
    key ≠ erased ∧ cold.HasPage key url html createdAt :=
  hasPage_remove page

/-- A step of a lookup adds no page. -/
theorem hasPage_getStep {cold : ColdCache} {urlHash key : UInt64} {now createdAt : Nat}
    {stage : GetStage} {url html : String}
    (page : (cold.getStep urlHash now stage).1.HasPage key url html createdAt) :
    cold.HasPage key url html createdAt := by
  cases stage with
  | read =>
      rw [getStep] at page
      split at page
      · exact page
      · rename_i entry present
        split_ifs at page
        · exact page
        · obtain ⟨lastAccess, found⟩ := page
          rcases HashMap.lookup_insert_some_iff.mp found with ⟨rfl, same⟩ | ⟨_, old⟩
          · simp only [CacheEntry.mk.injEq] at same
            obtain ⟨rfl, rfl, _, rfl⟩ := same
            exact hasPage_of_lookup present
          · exact ⟨lastAccess, old⟩
  | removeExpired => exact (hasPage_erase page).2

/-- A lookup that answers found a page under its key. -/
theorem getStep_returns_some {cold : ColdCache} {urlHash : UInt64} {now : Nat} {stage : GetStage}
    {html : String} (answer : (cold.getStep urlHash now stage).2 = .returns (some html)) :
    ∃ url createdAt, cold.HasPage urlHash url html createdAt := by
  cases stage with
  | read =>
      rw [getStep] at answer
      split at answer
      · simp at answer
      · rename_i entry present
        split_ifs at answer
        obtain rfl : entry.html = html := by simpa using answer
        exact ⟨entry.url, entry.createdAt, hasPage_of_lookup present⟩
  | removeExpired => simp [getStep] at answer

/-- A step of an insertion adds no page but its own. -/
theorem hasPage_insertStep {cold : ColdCache} {orders : Orders} {urlHash key : UInt64}
    {url html pageUrl pageHtml : String} {now createdAt : Nat} {stage : InsertStage}
    (page : (cold.insertStep orders urlHash url html now stage).1.HasPage key pageUrl pageHtml
      createdAt) :
    (key = urlHash ∧ pageUrl = url ∧ pageHtml = html) ∨
      cold.HasPage key pageUrl pageHtml createdAt := by
  cases stage with
  | takeFlag =>
      rw [insertStep] at page
      split_ifs at page <;> exact Or.inr page
  | evict keys evicted =>
      cases keys with
      | nil => exact Or.inr page
      | cons erased rest => exact Or.inr (hasPage_erase page).2
  | store evicted newAccess stored =>
      obtain ⟨lastAccess, found⟩ := page
      rcases HashMap.lookup_insert_some_iff.mp found with ⟨rfl, same⟩ | ⟨_, old⟩
      · simp only [CacheEntry.mk.injEq] at same
        exact Or.inl ⟨rfl, same.1, same.2.1⟩
      · exact Or.inr ⟨lastAccess, old⟩
  | checkLength => exact Or.inr page
  | scan => exact Or.inr page
  | stamp evicted => exact Or.inr page
  | create evicted newAccess => exact Or.inr page

/-- A step of a prefix removal adds no page. -/
theorem hasPage_removeByPrefixStep {cold : ColdCache} {order : ScanOrder} {urlPrefix : String}
    {key : UInt64} {url html : String} {createdAt : Nat} {stage : PrefixStage}
    (page : (cold.removeByPrefixStep order urlPrefix stage).1.HasPage key url html createdAt) :
    cold.HasPage key url html createdAt := by
  cases stage with
  | scan => exact page
  | remove keys count =>
      cases keys with
      | nil => exact page
      | cons erased rest => exact (hasPage_erase page).2

/-! ### Who leaves the eviction flag alone -/

theorem getStep_evicting (cold : ColdCache) (urlHash : UInt64) (now : Nat)
    (stage : GetStage) :
    (cold.getStep urlHash now stage).1.evicting = cold.evicting := by
  cases stage with
  | read =>
      rw [getStep]
      split
      · rfl
      · split_ifs <;> rfl
  | removeExpired => rfl

theorem removeByPrefixStep_evicting (cold : ColdCache) (order : ScanOrder) (urlPrefix : String)
    (stage : PrefixStage) :
    (cold.removeByPrefixStep order urlPrefix stage).1.evicting = cold.evicting := by
  cases stage with
  | scan => rfl
  | remove keys count => cases keys <;> rfl

/-! ### The steps without interruption -/

theorem completes_get (cold : ColdCache) (urlHash : UInt64) (now : Nat) :
    Completes (fun current => current.getStep urlHash now) cold .read (cold.get urlHash now).1
      (cold.get urlHash now).2 := by
  unfold get
  split
  · rename_i absent
    exact .returns (by simp [getStep, absent])
  · rename_i entry present
    split_ifs with expired
    · have stepped : cold.getStep urlHash now .read = (cold, .continues .removeExpired) := by
        simp [getStep, present, expired]
      exact .continues stepped (.returns rfl)
    · exact .returns (by simp [getStep, present, expired])

theorem completes_eraseAll {orders : Orders} {urlHash : UInt64} {url html : String} {now : Nat}
    (keys : List UInt64) (evicted : Nat) {cold final : ColdCache} {result : Nat}
    (rest : Completes (fun current => current.insertStep orders urlHash url html now)
      { cold with cache := cold.cache.eraseAll keys, evicting := false } (.stamp evicted) result
      final) :
    Completes (fun current => current.insertStep orders urlHash url html now) cold
      (.evict keys evicted) result final := by
  induction keys generalizing cold with
  | nil => exact .continues rfl rest
  | cons key keys inductionHypothesis => exact .continues rfl (inductionHypothesis rest)

theorem completes_store {orders : Orders} {urlHash : UInt64} {url html : String} {now : Nat}
    (evicted : Nat) (cold : ColdCache) :
    Completes (fun current => current.insertStep orders urlHash url html now) cold (.stamp evicted)
      evicted
      { cold with
        accessCounter := cold.accessCounter + 1
        cache := cold.cache.insert urlHash ⟨url, html, cold.accessCounter, now⟩ } :=
  .continues rfl (.continues rfl (.returns rfl))

theorem completes_insert (cold : ColdCache) (order : ScanOrder) (urlHash : UInt64)
    (url html : String) (now : Nat) :
    Completes (fun current => current.insertStep ⟨order, VisitOrder.stored⟩ urlHash url html now)
      cold .checkLength (cold.insert order urlHash url html now).1
      (cold.insert order urlHash url html now).2 := by
  unfold insert
  dsimp only
  split_ifs with full
  · refine .continues (by rw [insertStep, if_pos full]) ?_
    unfold evictBatch
    split_ifs with flag
    · refine .continues (by rw [insertStep, if_pos flag]) ?_
      exact completes_store 0 cold
    · refine .continues (by rw [insertStep, if_neg flag]) ?_
      refine .continues rfl ?_
      exact completes_eraseAll _ _ (completes_store _ _)
  · refine .continues (by rw [insertStep, if_neg full]) ?_
    exact completes_store 0 cold

theorem completes_removeByPrefix (cold : ColdCache) (order : ScanOrder) (urlPrefix : String) :
    Completes (fun current => current.removeByPrefixStep order urlPrefix) cold .scan
      (cold.removeByPrefix order urlPrefix).1 (cold.removeByPrefix order urlPrefix).2 := by
  have removes : ∀ (keys : List UInt64) (count : Nat) (current : ColdCache),
      Completes (fun current => current.removeByPrefixStep order urlPrefix) current
        (.remove keys count) count { current with cache := current.cache.eraseAll keys } := by
    intro keys count
    induction keys with
    | nil => exact fun current => .returns rfl
    | cons key keys inductionHypothesis =>
        exact fun current => .continues rfl (inductionHypothesis _)
  exact .continues rfl (removes _ _ cold)

end RustySsr.Cache.ColdCache
