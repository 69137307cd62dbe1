import RustySsr.Cache.Hot.Model

/-!
Owns what a hot cache contains. The ring is read as two segments split at the
write index: the slots written since the index last wrapped, then the older
ones, whose first is the next to be displaced. `Exposes` names the entries that
some lookup of a key may still reach, and each operation is described by the
entries it exposes.
-/

namespace RustySsr.Cache.HotCache

open RustySsr.Platform

/-! ### The ring in two segments -/

/-- Entries in the slots below the write index. -/
def recentEntries (cache : HotCache) : List HotEntry :=
  (cache.ultraHot.toList.take cache.ultraHotNext).reduceOption

/-- Entries in the slots from the write index on. -/
def olderEntries (cache : HotCache) : List HotEntry :=
  (cache.ultraHot.toList.drop cache.ultraHotNext).reduceOption

/-- Entries in the slots after the write index. -/
def remainingEntries (cache : HotCache) : List HotEntry :=
  (cache.ultraHot.toList.drop (cache.ultraHotNext + 1)).reduceOption

/-- The entry in the slot that the next insertion writes. -/
def displacedEntry (cache : HotCache) : Option HotEntry :=
  cache.ultraHot.get cache.ultraHotNext

theorem ultraHot_displacedEntry (cache : HotCache) :
    cache.ultraHot.toList[(cache.ultraHotNext : Nat)]? = some cache.displacedEntry := by
  simp [displacedEntry, Vector.get]

theorem ultraHotEntries_eq (cache : HotCache) :
    cache.ultraHotEntries = cache.recentEntries ++ cache.olderEntries := by
  unfold ultraHotEntries recentEntries olderEntries
  rw [← List.reduceOption_append, List.take_append_drop]

theorem olderEntries_eq (cache : HotCache) :
    cache.olderEntries = cache.displacedEntry.toList ++ cache.remainingEntries := by
  obtain ⟨inside, slot⟩ := List.getElem?_eq_some_iff.mp cache.ultraHot_displacedEntry
  unfold olderEntries remainingEntries
  rw [List.drop_eq_getElem_cons inside, slot]
  cases cache.displacedEntry <;> simp

theorem mem_ultraHotEntries_iff {cache : HotCache} {entry : HotEntry} :
    entry ∈ cache.ultraHotEntries ↔
      entry ∈ cache.recentEntries ∨ cache.displacedEntry = some entry ∨
        entry ∈ cache.remainingEntries := by
  rw [ultraHotEntries_eq, olderEntries_eq]
  simp

theorem insert_ultraHot (cache : HotCache) (urlHash : UInt64) (html : String) (now : Nat) :
    (cache.insert urlHash html now).ultraHot.toList =
      cache.ultraHot.toList.set cache.ultraHotNext (some ⟨urlHash, html, now⟩) := by
  show (cache.displace.ultraHot.set _ _).toList = _
  rw [displace_ultraHot, Vector.set_set, Vector.toList_set]

theorem insert_ultraHotNext (cache : HotCache) (urlHash : UInt64) (html : String) (now : Nat) :
    ((cache.insert urlHash html now).ultraHotNext : Nat) =
      (cache.ultraHotNext + 1) % ultraHotSize := rfl

/-- An insertion extends the recent segment, or completes it and starts over. -/
theorem insert_segments (cache : HotCache) (urlHash : UInt64) (html : String) (now : Nat) :
    ((cache.insert urlHash html now).recentEntries =
          cache.recentEntries ++ [⟨urlHash, html, now⟩] ∧
        (cache.insert urlHash html now).olderEntries = cache.remainingEntries ∧
        ((cache.insert urlHash html now).ultraHotNext : Nat) = cache.ultraHotNext + 1) ∨
      (cache.remainingEntries = [] ∧
        (cache.insert urlHash html now).recentEntries = [] ∧
        (cache.insert urlHash html now).olderEntries =
          cache.recentEntries ++ [⟨urlHash, html, now⟩] ∧
        (cache.ultraHotNext : Nat) + 1 = ultraHotSize) := by
  have length : cache.ultraHot.toList.length = ultraHotSize := by simp
  have inside := cache.ultraHotNext.isLt
  have written : (cache.ultraHot.toList.set cache.ultraHotNext (some ⟨urlHash, html, now⟩)).take
      (cache.ultraHotNext + 1) =
        cache.ultraHot.toList.take cache.ultraHotNext ++ [some ⟨urlHash, html, now⟩] := by
    rw [List.take_add_one, List.take_set_of_le (Nat.le_refl _)]
    simp [length, inside]
  unfold recentEntries olderEntries remainingEntries
  rw [insert_ultraHotNext, insert_ultraHot]
  by_cases wraps : (cache.ultraHotNext : Nat) + 1 = ultraHotSize
  · right
    rw [wraps, Nat.mod_self]
    have complete : cache.ultraHot.toList.set cache.ultraHotNext (some ⟨urlHash, html, now⟩) =
        cache.ultraHot.toList.take cache.ultraHotNext ++ [some ⟨urlHash, html, now⟩] := by
      rw [← written, List.take_of_length_le (by simp [wraps])]
    refine ⟨by simp [List.drop_of_length_le], by simp, ?_, rfl⟩
    rw [List.drop_zero, complete, List.reduceOption_append]
    simp
  · left
    rw [Nat.mod_eq_of_lt (by omega)]
    refine ⟨?_, ?_, rfl⟩
    · rw [written, List.reduceOption_append]
      simp
    · rw [List.drop_set_of_lt (by omega)]

/-! ### The hot map -/

theorem insertToHotMap_lookup {cache : HotCache} {entry found : HotEntry} {key : UInt64}
    (lookup : (cache.insertToHotMap entry).hotMap.lookup key = some found) :
    (key = entry.urlHash ∧ found = entry) ∨
      (key ≠ entry.urlHash ∧ cache.hotMap.lookup key = some found) := by
  unfold insertToHotMap at lookup
  rw [HashMap.lookup_insert_some_iff] at lookup
  rcases lookup with new | ⟨different, old⟩
  · exact Or.inl new
  · refine Or.inr ⟨different, ?_⟩
    split_ifs at old
    · cases order : cache.accessOrder with
      | nil => simpa [order] using old
      | cons oldestKey rest =>
          simp only [order] at old
          exact (HashMap.lookup_erase_some_iff.mp old).2
    · exact old

/-- After an insertion the hot map holds the displaced entry under its own key
and, elsewhere, nothing it did not hold before. -/
theorem insert_lookup {cache : HotCache} {urlHash key : UInt64} {html : String} {now : Nat}
    {found : HotEntry}
    (lookup : (cache.insert urlHash html now).hotMap.lookup key = some found) :
    (cache.displacedEntry = some found ∧ found.urlHash = key) ∨
      ((∀ displaced, cache.displacedEntry = some displaced → displaced.urlHash ≠ key) ∧
        cache.hotMap.lookup key = some found) := by
  change cache.displace.hotMap.lookup key = some found at lookup
  unfold displace at lookup
  dsimp only at lookup
  split at lookup
  · rename_i displaced slot
    change cache.displacedEntry = some displaced at slot
    rcases insertToHotMap_lookup lookup with ⟨rfl, rfl⟩ | ⟨different, old⟩
    · exact Or.inl ⟨slot, rfl⟩
    · refine Or.inr ⟨fun other same => ?_, old⟩
      rw [slot, Option.some.injEq] at same
      subst same
      exact different.symm
  · rename_i slot
    change cache.displacedEntry = none at slot
    exact Or.inr ⟨fun other same => by simp [slot] at same, lookup⟩

/-! ### What a key can reach -/

/-- Some lookup of the key may reach the entry without a further insertion of
the key. Recent copies are displaced last, so they hide the older ones for
good; a displaced copy overwrites the hot map, so the ring hides the map. -/
inductive Exposes (cache : HotCache) (key : UInt64) (entry : HotEntry) : Prop where
  | recent (member : entry ∈ cache.recentEntries) (sameKey : entry.urlHash = key)
  | older (member : entry ∈ cache.olderEntries) (sameKey : entry.urlHash = key)
      (noRecent : ∀ other ∈ cache.recentEntries, other.urlHash ≠ key)
  | map (found : cache.hotMap.lookup key = some entry)
      (noCopy : ∀ other ∈ cache.ultraHotEntries, other.urlHash ≠ key)

theorem not_exposes_of_empty {cache : HotCache} (ring : cache.ultraHotEntries = [])
    (map : cache.hotMap = ∅) (key : UInt64) (entry : HotEntry) : ¬ cache.Exposes key entry := by
  rw [ultraHotEntries_eq, List.append_eq_nil_iff] at ring
  rintro (⟨member, _⟩ | ⟨member, _, _⟩ | ⟨found, _⟩)
  · simp [ring.1] at member
  · simp [ring.2] at member
  · simp [map] at found

theorem not_exposes_withTtl (ttlSecs : Nat) (key : UInt64) (entry : HotEntry) :
    ¬ (withTtl ttlSecs).Exposes key entry :=
  not_exposes_of_empty (by simp [ultraHotEntries, withTtl, ultraHotSize, List.reduceOption]) rfl
    key entry

theorem not_exposes_clear (cache : HotCache) (key : UInt64) (entry : HotEntry) :
    ¬ cache.clear.Exposes key entry :=
  not_exposes_of_empty (by simp [ultraHotEntries, clear, ultraHotSize, List.reduceOption]) rfl
    key entry

theorem mem_insert_ultraHotEntries {cache : HotCache} {urlHash : UInt64} {html : String}
    {now : Nat} {entry : HotEntry} :
    entry ∈ (cache.insert urlHash html now).ultraHotEntries ↔
      entry ∈ cache.recentEntries ++ [⟨urlHash, html, now⟩] ∨ entry ∈ cache.remainingEntries := by
  rw [ultraHotEntries_eq]
  rcases cache.insert_segments urlHash html now with ⟨recent, older, _⟩ | ⟨rest, recent, older, _⟩
  · rw [recent, older, List.mem_append]
  · rw [recent, older, rest]
    simp

/-- An insertion exposes its own entry and the recent copies of its key; under
the other keys it exposes nothing new. -/
theorem exposes_insert {cache : HotCache} {urlHash key : UInt64} {html : String} {now : Nat}
    {entry : HotEntry} (exposed : (cache.insert urlHash html now).Exposes key entry) :
    (key = urlHash ∧ (entry = ⟨urlHash, html, now⟩ ∨
        (entry ∈ cache.recentEntries ∧ entry.urlHash = urlHash))) ∨
      (key ≠ urlHash ∧ cache.Exposes key entry) := by
  have extended (member : entry ∈ cache.recentEntries ++ [⟨urlHash, html, now⟩])
      (sameKey : entry.urlHash = key) :
      (key = urlHash ∧ (entry = ⟨urlHash, html, now⟩ ∨
        (entry ∈ cache.recentEntries ∧ entry.urlHash = urlHash))) ∨
      (key ≠ urlHash ∧ cache.Exposes key entry) := by
    subst sameKey
    rw [List.mem_append, List.mem_singleton] at member
    by_cases same : entry.urlHash = urlHash
    · exact Or.inl ⟨same, member.symm.imp id fun old => ⟨old, same⟩⟩
    · rcases member with old | rfl
      · exact Or.inr ⟨same, .recent old rfl⟩
      · exact absurd rfl same
  rcases exposed with ⟨member, sameKey⟩ | ⟨member, sameKey, noRecent⟩ | ⟨found, noCopy⟩
  · rcases cache.insert_segments urlHash html now with ⟨recent, _⟩ | ⟨_, recent, _⟩
    · rw [recent] at member
      exact extended member sameKey
    · simp [recent] at member
  · rcases cache.insert_segments urlHash html now with ⟨recent, older, _⟩ | ⟨_, _, older, _⟩
    · rw [recent] at noRecent
      rw [older] at member
      refine Or.inr ⟨fun same => noRecent ⟨urlHash, html, now⟩ (by simp) same.symm,
        .older ?_ sameKey ?_⟩
      · rw [olderEntries_eq]
        exact List.mem_append_right _ member
      · exact fun other old => noRecent other (List.mem_append_left _ old)
    · rw [older] at member
      exact extended member sameKey
  · simp only [mem_insert_ultraHotEntries] at noCopy
    have noRecent : ∀ other ∈ cache.recentEntries, other.urlHash ≠ key := fun other old =>
      noCopy other (Or.inl (List.mem_append_left _ old))
    refine Or.inr ⟨fun same => noCopy ⟨urlHash, html, now⟩ (Or.inl (by simp)) same.symm, ?_⟩
    rcases insert_lookup found with ⟨displaced, sameKey⟩ | ⟨notDisplaced, old⟩
    · refine .older ?_ sameKey noRecent
      rw [olderEntries_eq, displaced]
      simp
    · refine .map old fun other member => ?_
      rcases mem_ultraHotEntries_iff.mp member with inRecent | displaced | inRemaining
      · exact noRecent other inRecent
      · exact notDisplaced other displaced
      · exact noCopy other (Or.inr inRemaining)

theorem insert_exposes_self (cache : HotCache) (urlHash : UInt64) (html : String) (now : Nat) :
    (cache.insert urlHash html now).Exposes urlHash ⟨urlHash, html, now⟩ := by
  rcases cache.insert_segments urlHash html now with ⟨recent, _⟩ | ⟨_, recent, older, _⟩
  · exact .recent (by simp [recent]) rfl
  · exact .older (by simp [older]) rfl (by simp [recent])

/-- Dropping a key of the hot map exposes nothing. -/
theorem exposes_erase {cache : HotCache} {urlHash key : UInt64} {order : List UInt64}
    {entry : HotEntry}
    (exposed : Exposes
      { cache with hotMap := cache.hotMap.erase urlHash, accessOrder := order } key entry) :
    cache.Exposes key entry := by
  rcases exposed with ⟨member, sameKey⟩ | ⟨member, sameKey, noRecent⟩ | ⟨found, noCopy⟩
  · exact .recent member sameKey
  · exact .older member sameKey noRecent
  · exact .map (HashMap.lookup_erase_some_iff.mp found).2 noCopy

/-- A promotion of a key without a ring copy exposes the promoted entry only. -/
theorem exposes_promoteToUltraHot {cache : HotCache} {urlHash key : UInt64} {html : String}
    {now : Nat} {entry : HotEntry}
    (absent : ∀ other ∈ cache.ultraHotEntries, other.urlHash ≠ urlHash)
    (exposed : (cache.promoteToUltraHot urlHash html now).Exposes key entry) :
    (key = urlHash ∧ entry = ⟨urlHash, html, now⟩) ∨ cache.Exposes key entry := by
  rcases exposes_insert exposed with ⟨same, new | ⟨member, sameKey⟩⟩ | ⟨_, old⟩
  · exact Or.inl ⟨same, new⟩
  · exact absurd sameKey (absent entry (mem_ultraHotEntries_iff.mpr (Or.inl member)))
  · exact Or.inr (exposes_erase old)

/-! ### What a lookup reaches -/

/-- The scan meets the recent segment before the older one. -/
theorem firstUltraHot_eq (cache : HotCache) (urlHash : UInt64) :
    cache.firstUltraHot urlHash =
      (cache.recentEntries.find? fun entry => entry.urlHash = urlHash).or
        (cache.olderEntries.find? fun entry => entry.urlHash = urlHash) := by
  rw [firstUltraHot, ultraHotEntries_eq, List.find?_append]

theorem firstUltraHot_none_iff {cache : HotCache} {key : UInt64} :
    cache.firstUltraHot key = none ↔
      ∀ entry ∈ cache.ultraHotEntries, entry.urlHash ≠ key := by
  simp [firstUltraHot]

theorem exposes_of_firstUltraHot {cache : HotCache} {key : UInt64} {entry : HotEntry}
    (found : cache.firstUltraHot key = some entry) : cache.Exposes key entry := by
  have sameKey : entry.urlHash = key := by simpa using List.find?_some found
  rw [firstUltraHot_eq] at found
  cases recent : cache.recentEntries.find? (fun other => other.urlHash = key) with
  | some first =>
      rw [recent, Option.some_or] at found
      obtain rfl := Option.some.inj found
      exact .recent (List.mem_of_find?_eq_some recent) sameKey
  | none =>
      rw [recent, Option.none_or] at found
      exact .older (List.mem_of_find?_eq_some found) sameKey (by simpa using recent)

/-- The first ring slot holding the key after an insertion of it. -/
theorem insert_firstUltraHot (cache : HotCache) (urlHash : UInt64) (html : String) (now : Nat) :
    (cache.insert urlHash html now).firstUltraHot urlHash =
      some ((cache.recentEntries.find? fun entry => entry.urlHash = urlHash).getD
        ⟨urlHash, html, now⟩) := by
  rw [firstUltraHot_eq]
  rcases cache.insert_segments urlHash html now with ⟨recent, _⟩ | ⟨_, recent, older, _⟩
  · rw [recent, List.find?_append]
    cases cache.recentEntries.find? (fun entry => entry.urlHash = urlHash) <;> simp
  · rw [recent, older, List.find?_append]
    cases cache.recentEntries.find? (fun entry => entry.urlHash = urlHash) <;> simp

/-- Without a recent copy of its key, an insertion is answered at once. -/
theorem insert_peek {cache : HotCache} {urlHash : UInt64} {html : String} {now : Nat}
    (noRecent : ∀ other ∈ cache.recentEntries, other.urlHash ≠ urlHash) :
    (cache.insert urlHash html now).peek urlHash now = some html := by
  have first : cache.recentEntries.find? (fun entry => entry.urlHash = urlHash) = none := by
    simpa using noRecent
  rw [peek, insert_firstUltraHot, first]
  simp [isExpired]

/-- A peek that answers returns an exposed entry still within its time. -/
theorem peek_some {cache : HotCache} {key : UInt64} {now : Nat} {html : String}
    (answer : cache.peek key now = some html) :
    ∃ entry, cache.Exposes key entry ∧ entry.html = html ∧
      outlived cache.ttl entry.createdAt now = false := by
  unfold peek at answer
  split at answer
  · rename_i entry found
    split_ifs at answer with expired
    exact ⟨entry, exposes_of_firstUltraHot found, Option.some.inj answer,
      Bool.eq_false_iff.mpr expired⟩
  · rename_i absent
    split at answer
    · rename_i entry found
      split_ifs at answer with expired
      exact ⟨entry, .map found (firstUltraHot_none_iff.mp absent), Option.some.inj answer,
        Bool.eq_false_iff.mpr expired⟩
    · contradiction

end RustySsr.Cache.HotCache
