import Mathlib.Data.List.AList
import Mathlib.Data.List.Sort

/-!
Owns the standard collections the cache is built on: a hash map without an
order, an arbitrary iteration order over its entries, and the max-heap of
`(stamp, key)` pairs. It does not own any cache policy.
-/

namespace RustySsr.Platform

universe u v

/-- A hash map. The position of an entry in the association list carries no
meaning: every scan goes through a `VisitOrder`. -/
abbrev HashMap (κ : Type u) (ν : Type v) := AList (fun _ : κ => ν)

namespace HashMap

variable {κ : Type u} {ν : Type v}

/-- `len()`. -/
def len (map : HashMap κ ν) : Nat := map.entries.length

/-- The `(key, value)` pairs, in the order of the association list. -/
def pairs (map : HashMap κ ν) : List (κ × ν) :=
  map.entries.map fun entry => (entry.1, entry.2)

theorem mem_pairs_iff [DecidableEq κ] {map : HashMap κ ν} {key : κ} {value : ν} :
    (key, value) ∈ pairs map ↔ map.lookup key = some value := by
  rw [pairs, List.mem_map]
  constructor
  · rintro ⟨⟨candidate, found⟩, member, same⟩
    obtain ⟨rfl, rfl⟩ := Prod.mk.inj same
    exact AList.mem_lookup_iff.mpr member
  · intro found
    exact ⟨⟨key, value⟩, AList.mem_lookup_iff.mp found, rfl⟩

/-- Looking up after an insertion: the new value, or an old one elsewhere. -/
theorem lookup_insert_some_iff [DecidableEq κ] {map : HashMap κ ν} {key other : κ}
    {value found : ν} :
    AList.lookup other (AList.insert key value map) = some found ↔
      (other = key ∧ found = value) ∨ (other ≠ key ∧ map.lookup other = some found) := by
  by_cases same : other = key
  · subst same
    simp [AList.lookup_insert, eq_comm]
  · simp [AList.lookup_insert_ne same, same]

/-- Looking up after a removal: an old value under another key. -/
theorem lookup_erase_some_iff [DecidableEq κ] {map : HashMap κ ν} {key other : κ}
    {found : ν} :
    AList.lookup other (AList.erase key map) = some found ↔
      other ≠ key ∧ map.lookup other = some found := by
  by_cases same : other = key
  · subst same
    simp [AList.lookup_erase]
  · simp [AList.lookup_erase_ne same, same]

/-! ### Number of entries -/

theorem len_eq_keys (map : HashMap κ ν) : map.len = map.keys.length :=
  (List.length_map _).symm

/-- The entries are as many as any list of the keys without repetitions. -/
theorem len_eq_length [DecidableEq κ] {map : HashMap κ ν} {keys : List κ} (nodup : keys.Nodup)
    (sameKeys : ∀ key, key ∈ map ↔ key ∈ keys) : map.len = keys.length := by
  rw [len_eq_keys]
  exact ((List.perm_ext_iff_of_nodup map.keys_nodup nodup).mpr sameKeys).length_eq

theorem len_erase_of_mem [DecidableEq κ] {map : HashMap κ ν} {key : κ} (member : key ∈ map) :
    len (AList.erase key map) + 1 = map.len := by
  rw [len_eq_keys, len_eq_keys, AList.keys_erase, List.length_erase_of_mem member]
  exact Nat.succ_pred_eq_of_pos (List.length_pos_of_mem member)

theorem len_erase_of_notMem [DecidableEq κ] {map : HashMap κ ν} {key : κ} (absent : key ∉ map) :
    len (AList.erase key map) = map.len := by
  rw [len_eq_keys, len_eq_keys, AList.keys_erase, List.erase_of_not_mem absent]

theorem len_erase_le [DecidableEq κ] (map : HashMap κ ν) (key : κ) :
    len (AList.erase key map) ≤ map.len := by
  rw [len_eq_keys, len_eq_keys, AList.keys_erase]
  exact List.length_erase_le

theorem len_insert [DecidableEq κ] (map : HashMap κ ν) (key : κ) (value : ν) :
    len (AList.insert key value map) = len (AList.erase key map) + 1 := by
  rw [len_eq_keys, len_eq_keys, AList.keys_insert, AList.keys_erase, List.length_cons]

theorem len_insert_of_mem [DecidableEq κ] {map : HashMap κ ν} {key : κ} (member : key ∈ map)
    (value : ν) : len (AList.insert key value map) = map.len := by
  rw [len_insert, len_erase_of_mem member]

theorem len_insert_of_notMem [DecidableEq κ] {map : HashMap κ ν} {key : κ} (absent : key ∉ map)
    (value : ν) : len (AList.insert key value map) = map.len + 1 := by
  rw [len_insert, len_erase_of_notMem absent]

/-- Remove every listed key. -/
def eraseAll [DecidableEq κ] (map : HashMap κ ν) (keys : List κ) : HashMap κ ν :=
  keys.foldl (fun rest key => AList.erase key rest) map

theorem lookup_eraseAll_some_iff [DecidableEq κ] {keys : List κ} {map : HashMap κ ν}
    {other : κ} {found : ν} :
    (eraseAll map keys).lookup other = some found ↔
      other ∉ keys ∧ map.lookup other = some found := by
  induction keys generalizing map with
  | nil => simp [eraseAll]
  | cons key rest inductionHypothesis =>
      have unfolded : eraseAll map (key :: rest) = eraseAll (AList.erase key map) rest := rfl
      rw [unfolded, inductionHypothesis, lookup_erase_some_iff]
      simp only [List.mem_cons, not_or]
      tauto

/-- Removing distinct keys of the map removes as many entries. -/
theorem len_eraseAll [DecidableEq κ] {keys : List κ} {map : HashMap κ ν} (nodup : keys.Nodup)
    (present : ∀ key ∈ keys, key ∈ map) : len (eraseAll map keys) + keys.length = map.len := by
  induction keys generalizing map with
  | nil => rfl
  | cons key rest inductionHypothesis =>
      obtain ⟨fresh, restNodup⟩ := List.nodup_cons.mp nodup
      obtain ⟨first, others⟩ := List.forall_mem_cons.mp present
      have stillPresent : ∀ other ∈ rest, other ∈ AList.erase key map := fun other member =>
        AList.mem_erase.mpr ⟨fun same => fresh (same ▸ member), others other member⟩
      have counted := inductionHypothesis restNodup stillPresent
      have erased := len_erase_of_mem first
      show len (eraseAll (AList.erase key map) rest) + (rest.length + 1) = _
      omega

end HashMap

/-- An iteration order: any rearrangement of the entries being visited. -/
structure VisitOrder (α : Type u) where
  visit : List α → List α
  perm : ∀ entries, (visit entries).Perm entries

namespace VisitOrder

variable {α : Type u}

/-- The order in which the entries are stored. -/
def stored : VisitOrder α where
  visit := id
  perm := fun _ => List.Perm.refl _

theorem mem_visit_iff (order : VisitOrder α) {entries : List α} {entry : α} :
    entry ∈ order.visit entries ↔ entry ∈ entries :=
  (order.perm entries).mem_iff

end VisitOrder

/-- The order of a max-heap of `(stamp, key)` pairs: lexicographic, largest
first. -/
def heapBefore (left right : UInt64 × UInt64) : Prop :=
  right.1 < left.1 ∨ (right.1 = left.1 ∧ right.2 ≤ left.2)

instance : DecidableRel heapBefore := fun _ _ => inferInstanceAs (Decidable (_ ∨ _))

/-- `BinaryHeap<(u64, u64)>`, listed from the largest element down. -/
abbrev BinaryHeap := List (UInt64 × UInt64)

namespace BinaryHeap

def push (heap : BinaryHeap) (item : UInt64 × UInt64) : BinaryHeap :=
  heap.orderedInsert heapBefore item

def peek (heap : BinaryHeap) : Option (UInt64 × UInt64) := heap.head?

/-- `pop()`, dropping the largest element. -/
def pop (heap : BinaryHeap) : BinaryHeap := heap.tail

end BinaryHeap

end RustySsr.Platform
