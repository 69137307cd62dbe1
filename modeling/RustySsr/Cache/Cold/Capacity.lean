import RustySsr.Cache.Cold.Victims
import RustySsr.Foundation.Execution

/-!
Owns the size of the cold cache under insertions without contention. The cache
may hold anything before, also far more than its maximum, as threads that insert
at the same time can leave it, and with any stamps. `restoresCapacity` states
what one insertion does to it, and that as many insertions as there are entries
too many bring it back to its maximum.
-/

namespace RustySsr.Cache.ColdCache

open RustySsr.Platform
open RustySsr.Foundation

/-- A call of `insert`, with the order of its scan and its reading of the clock. -/
structure Insertion where
  order : ScanOrder
  urlHash : UInt64
  url : String
  html : String
  now : Nat

/-- The number of evicted entries, and the cache with the page. -/
def insertion (cold : ColdCache) (page : Insertion) : Nat × ColdCache :=
  cold.insert page.order page.urlHash page.url page.html page.now

/-- What one insertion does to the size and to the entries. -/
structure Restores (cold : ColdCache) (page : Insertion) : Prop where
  fits : cold.len ≤ cold.maxEntries → (cold.insertion page).2.len ≤ cold.maxEntries
  shrinks : cold.maxEntries < cold.len → (cold.insertion page).2.len ≤ max 1 (cold.len - 7)
  /-- The removed keys are a batch at most; the other entries are unchanged. -/
  removes : ∃ removed : List UInt64, removed.length ≤ max (cold.maxEntries * 2 / 100) 8 ∧
    (∀ key ∈ removed, key ∈ cold.cache) ∧
      ∀ key, key ≠ page.urlHash → (cold.insertion page).2.cache.lookup key =
        if key ∈ removed then none else cold.cache.lookup key
  stores : (cold.insertion page).2.HasPage page.urlHash page.url page.html page.now
  released : (cold.insertion page).2.evicting = false

section OneInsertion

variable {cold : ColdCache}

theorem batchSize_eq {maxEntries : Nat} (representable : maxEntries * 2 < 2 ^ 64) :
    batchSize maxEntries = max (maxEntries * 2 / 100) 8 := by
  rw [batchSize, evictBatchPercent, Nat.mod_eq_of_lt representable]
  rfl

theorem le_batchSize (maxEntries : Nat) : 8 ≤ batchSize maxEntries := Nat.le_max_right _ _

/-- A full cache evicts a batch, or all of its entries if they are fewer. -/
theorem evictedKeys_length (idle : cold.evicting = false) (order : ScanOrder) :
    (cold.evictedKeys order).length =
      if cold.maxEntries ≤ cold.len then min (batchSize cold.maxEntries) cold.len else 0 := by
  unfold evictedKeys
  by_cases full : cold.maxEntries ≤ cold.len
  · rw [if_pos ⟨full, idle⟩, if_pos full, List.length_map, victims_length]
  · rw [if_neg full, if_neg fun both => full both.1]
    rfl

theorem evictedKeys_keys (cold : ColdCache) (order : ScanOrder) :
    (cold.evictedKeys order).Nodup ∧ ∀ key ∈ cold.evictedKeys order, key ∈ cold.cache := by
  unfold evictedKeys
  split_ifs
  · exact cold.victims_keys order
  · exact ⟨List.nodup_nil, List.forall_mem_nil _⟩

/-- An insertion adds one entry at most to those that its eviction leaves. -/
theorem len_insert_le (cold : ColdCache) (page : Insertion) :
    (cold.insertion page).2.len + (cold.evictedKeys page.order).length ≤ cold.len + 1 := by
  obtain ⟨nodup, present⟩ := cold.evictedKeys_keys page.order
  have evicted := HashMap.len_eraseAll nodup present
  have shrunk := HashMap.len_erase_le (cold.cache.eraseAll (cold.evictedKeys page.order))
    page.urlHash
  have stored : (cold.insertion page).2.len =
      HashMap.len (AList.erase page.urlHash (cold.cache.eraseAll (cold.evictedKeys page.order))) +
        1 := by
    show HashMap.len (cold.insertion page).2.cache = _
    rw [insertion, insert_cache, HashMap.len_insert]
  have before : cold.len = cold.cache.len := rfl
  omega

theorem restores (positive : 1 ≤ cold.maxEntries) (representable : cold.maxEntries * 2 < 2 ^ 64)
    (idle : cold.evicting = false) (page : Insertion) : Restores cold page where
  fits := by
    intro within
    have grown := cold.len_insert_le page
    have evicted := evictedKeys_length idle page.order
    have enough := le_batchSize cold.maxEntries
    split_ifs at evicted <;> omega
  shrinks := by
    intro tooMany
    have grown := cold.len_insert_le page
    have evicted := evictedKeys_length idle page.order
    have enough := le_batchSize cold.maxEntries
    rw [if_pos tooMany.le] at evicted
    omega
  removes := by
    refine ⟨cold.evictedKeys page.order, ?_, (cold.evictedKeys_keys page.order).2, ?_⟩
    · rw [evictedKeys_length idle, batchSize_eq representable]
      split_ifs
      · exact Nat.min_le_left _ _
      · exact Nat.zero_le _
    · exact fun key different => insert_lookup_of_ne different
  stores := hasPage_of_lookup (insert_lookup_iff.mpr (Or.inl ⟨rfl, rfl⟩))
  released := (insert_evicting _ _ _ _ _ _).trans idle

end OneInsertion

/-! ### Runs -/

def store (cold : ColdCache) (page : Insertion) : ColdCache := (cold.insertion page).2

/-- **An insertion without contention restores the capacity.** From any contents
it keeps a cache that fits within its maximum, takes at least seven entries off
one that does not while there are so many, and leaves whatever it does not evict
alone. After as many insertions as there are entries too many the cache fits. -/
theorem restoresCapacity {cold : ColdCache} (positive : 1 ≤ cold.maxEntries)
    (representable : cold.maxEntries * 2 < 2 ^ 64) (idle : cold.evicting = false) :
    (∀ page, Restores cold page) ∧
      ∀ pages, cold.len ≤ cold.maxEntries + pages.length →
        (Execution.run store cold pages).len ≤ cold.maxEntries := by
  refine ⟨restores positive representable idle, fun pages => ?_⟩
  induction pages generalizing cold with
  | nil => exact id
  | cons page pages inductionHypothesis =>
      intro tooMany
      have sameMax : (cold.store page).maxEntries = cold.maxEntries :=
        insert_maxEntries _ _ _ _ _ _
      have restored := restores positive representable idle page
      have next : (cold.store page).len ≤ (cold.store page).maxEntries + pages.length →
          (Execution.run store (cold.store page) pages).len ≤ (cold.store page).maxEntries :=
        inductionHypothesis (sameMax ▸ positive) (sameMax ▸ representable) restored.released
      rw [sameMax] at next
      refine next ?_
      rw [List.length_cons] at tooMany
      by_cases within : cold.len ≤ cold.maxEntries
      · exact (restored.fits within).trans (Nat.le_add_right _ _)
      · have shrunk := restored.shrinks (Nat.lt_of_not_le within)
        show (cold.insertion page).2.len ≤ cold.maxEntries + pages.length
        omega

/-- A cache for two entries that holds twelve with the same stamp. -/
def overfull : ColdCache where
  cache := (List.range 12).foldl
    (fun map key => AList.insert (UInt64.ofNat key) ⟨"/", "page", 0, 0⟩ map) ∅
  maxEntries := 2
  accessCounter := 0
  evicting := false
  ttl := none

/-- Ten entries too many are gone after ten insertions of the same page. -/
theorem restoresCapacity_overfull :
    overfull.len = 12 ∧ Restores overfull ⟨VisitOrder.stored, 3, "/a", "new", 1⟩ ∧
      (Execution.run store overfull
        (List.replicate 10 ⟨VisitOrder.stored, 3, "/a", "new", 1⟩)).len ≤ 2 := by
  have twelve : overfull.len = 12 := by decide
  have positive : 1 ≤ overfull.maxEntries := by decide
  have both := restoresCapacity positive (by decide) rfl
  exact ⟨twelve, both.1 _, both.2 _ (by decide)⟩

end RustySsr.Cache.ColdCache
