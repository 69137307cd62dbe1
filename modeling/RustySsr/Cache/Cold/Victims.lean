import RustySsr.Cache.Cold.Contents
import RustySsr.Foundation.Selection

/-!
Owns which entries a batch eviction picks. One pass over the map in any order
leaves a selection of the entries with the lowest access stamps in the heap, so
where the stamps are distinct the batch is the least recently touched end of
the entries.
-/

namespace RustySsr.Platform

theorem heapBefore_iff {left right : UInt64 × UInt64} :
    heapBefore left right ↔ right.1.toNat < left.1.toNat ∨
      (right.1.toNat = left.1.toNat ∧ right.2.toNat ≤ left.2.toNat) := by
  rw [heapBefore, UInt64.lt_iff_toNat_lt, UInt64.le_iff_toNat_le, UInt64.toNat_inj]

instance : Std.Total heapBefore where
  total left right := by
    rw [heapBefore_iff, heapBefore_iff]
    omega

instance : IsTrans (UInt64 × UInt64) heapBefore where
  trans first second third := by
    rw [heapBefore_iff, heapBefore_iff, heapBefore_iff]
    omega

end RustySsr.Platform

namespace RustySsr.Cache.ColdCache

open RustySsr.Platform
open RustySsr.Foundation

/-- What the scan takes from a visited entry. -/
def candidate (visited : UInt64 × CacheEntry) : UInt64 × UInt64 :=
  (visited.2.lastAccess, visited.1)

/-- The rank of a candidate: its access stamp. -/
def stamp (item : UInt64 × UInt64) : Nat := item.1.toNat

theorem stamp_le_of_heapBefore {left right : UInt64 × UInt64} (before : heapBefore left right) :
    stamp right ≤ stamp left := by
  unfold stamp
  rw [heapBefore_iff] at before
  omega

/-- The heap is listed from the newest candidate down and holds a selection of
the oldest entries met so far. -/
structure HoldsOldest (batch : Nat) (met : List (UInt64 × UInt64)) (heap : BinaryHeap) : Prop where
  sorted : heap.Pairwise heapBefore
  selects : Selects stamp batch met heap

namespace HoldsOldest

variable {batch : Nat} {met : List (UInt64 × UInt64)} {heap : BinaryHeap}

theorem push {fewer : List (UInt64 × UInt64)} (sorted : fewer.Pairwise heapBefore)
    {item : UInt64 × UInt64} (selects : Selects stamp batch met (item :: fewer)) :
    HoldsOldest batch met (BinaryHeap.push fewer item) where
  sorted := sorted.orderedInsert item fewer
  selects := selects.perm (List.Perm.refl _) (List.perm_orderedInsert _ item fewer).symm

/-- One turn of the scan keeps the selection. -/
theorem considerVictim (holds : HoldsOldest batch met heap) (visited : UInt64 × CacheEntry) :
    HoldsOldest batch (candidate visited :: met) (considerVictim batch heap visited) := by
  unfold ColdCache.considerVictim
  dsimp only
  by_cases room : heap.length < batch
  · rw [if_pos room]
    exact push holds.sorted (holds.selects.add room (candidate visited))
  · rw [if_neg room]
    have full : batch ≤ heap.length := Nat.le_of_not_lt room
    cases heap with
    | nil => exact ⟨holds.sorted, holds.selects.skip full (by simp)⟩
    | cons top rest =>
        obtain ⟨topFirst, restSorted⟩ := List.pairwise_cons.mp holds.sorted
        have highest : ∀ low ∈ rest, stamp low ≤ stamp top := fun low member =>
          stamp_le_of_heapBefore (topFirst low member)
        show HoldsOldest batch _ (if visited.2.lastAccess < top.1 then _ else _)
        split_ifs with below
        · exact push restSorted (holds.selects.swap full highest below)
        · refine ⟨holds.sorted, holds.selects.skip full fun low member => ?_⟩
          have underTop : stamp low ≤ stamp top := by
            rcases List.mem_cons.mp member with rfl | old
            · exact Nat.le_refl _
            · exact highest low old
          exact underTop.trans (Nat.le_of_not_lt below)

/-- A whole scan. -/
theorem foldl (holds : HoldsOldest batch met heap) (scanned : List (UInt64 × CacheEntry)) :
    HoldsOldest batch ((scanned.map candidate).reverse ++ met)
      (scanned.foldl (ColdCache.considerVictim batch) heap) := by
  induction scanned generalizing met heap with
  | nil => exact holds
  | cons visited rest inductionHypothesis =>
      rw [List.map_cons, List.reverse_cons, List.append_assoc]
      exact inductionHypothesis (holds.considerVictim visited)

end HoldsOldest

/-- The heap after the scan selects the oldest entries of the map. -/
theorem victims_selects (cold : ColdCache) (order : ScanOrder) :
    Selects stamp (batchSize cold.maxEntries) (cold.cache.pairs.map candidate)
      (cold.victims order) := by
  have holds : HoldsOldest (batchSize cold.maxEntries) [] [] := ⟨List.Pairwise.nil, .nil _ _⟩
  have scanned := (holds.foldl (order.visit cold.cache.pairs)).selects
  rw [List.append_nil] at scanned
  refine scanned.perm ?_ (List.Perm.refl _)
  exact (List.reverse_perm _).trans ((order.perm _).map candidate)

theorem victims_length (cold : ColdCache) (order : ScanOrder) :
    (cold.victims order).length = min (batchSize cold.maxEntries) cold.len := by
  rw [(cold.victims_selects order).length, List.length_map]
  simp [HashMap.pairs, len, HashMap.len]

/-- The victims are distinct keys of the map. -/
theorem victims_keys (cold : ColdCache) (order : ScanOrder) :
    ((cold.victims order).map Prod.snd).Nodup ∧
      ∀ key ∈ (cold.victims order).map Prod.snd, key ∈ cold.cache := by
  obtain ⟨others, split, _⟩ := (cold.victims_selects order).lowest
  have sameKeys : (cold.cache.pairs.map candidate).map Prod.snd = cold.cache.keys := by
    simp [HashMap.pairs, AList.keys, List.keys, candidate]
  have keysSplit := split.map Prod.snd
  rw [sameKeys, List.map_append] at keysSplit
  constructor
  · exact (keysSplit.nodup_iff.mp cold.cache.keys_nodup).of_append_left
  · intro key member
    exact AList.mem_keys.mpr (keysSplit.mem_iff.mpr (List.mem_append_left _ member))

end RustySsr.Cache.ColdCache
