import RustySsr.Cache.Hot.Contents

/-!
Owns the converse of `peek_some`: an exposed entry within its time is answered
as soon as enough insertions of another key have displaced what hides it. So
`Exposes` names no entry that every future lookup of the key misses.
-/

namespace RustySsr.Cache.HotCache

open RustySsr.Platform

/-- The hot cache after a number of insertions of one page. -/
def insertTimes (cache : HotCache) (urlHash : UInt64) (html : String) (now : Nat) :
    Nat → HotCache
  | 0 => cache
  | count + 1 => (cache.insert urlHash html now).insertTimes urlHash html now count

@[simp] theorem insertTimes_ttl (cache : HotCache) (urlHash : UInt64) (html : String)
    (now count : Nat) : (cache.insertTimes urlHash html now count).ttl = cache.ttl := by
  induction count generalizing cache with
  | zero => rfl
  | succ count inductionHypothesis => rw [insertTimes, inductionHypothesis, insert_ttl]

/-- The entry is in the ring slot of this index. -/
def InSlot (cache : HotCache) (index : Nat) (entry : HotEntry) : Prop :=
  cache.ultraHot.toList[index]? = some (some entry)

theorem InSlot.lt {cache : HotCache} {index : Nat} {entry : HotEntry}
    (slot : cache.InSlot index entry) : index < ultraHotSize := by
  obtain ⟨inside, _⟩ := List.getElem?_eq_some_iff.mp slot
  simpa using inside

theorem InSlot.insert {cache : HotCache} {index : Nat} {entry : HotEntry}
    (slot : cache.InSlot index entry) (kept : index ≠ cache.ultraHotNext) (urlHash : UInt64)
    (html : String) (now : Nat) : (cache.insert urlHash html now).InSlot index entry := by
  rw [InSlot, insert_ultraHot, List.getElem?_set_ne kept.symm]
  exact slot

theorem mem_recentEntries_iff {cache : HotCache} {entry : HotEntry} :
    entry ∈ cache.recentEntries ↔ ∃ index < cache.ultraHotNext.val, cache.InSlot index entry := by
  rw [recentEntries, List.reduceOption_mem_iff, List.mem_take_iff_getElem]
  constructor
  · rintro ⟨index, inside, slot⟩
    exact ⟨index, by omega, List.getElem?_eq_some_iff.mpr ⟨by omega, slot⟩⟩
  · rintro ⟨index, below, slot⟩
    obtain ⟨inside, slotEq⟩ := List.getElem?_eq_some_iff.mp slot
    exact ⟨index, by omega, slotEq⟩

theorem mem_olderEntries_iff {cache : HotCache} {entry : HotEntry} :
    entry ∈ cache.olderEntries ↔ ∃ index, cache.ultraHotNext.val ≤ index ∧
      cache.InSlot index entry := by
  rw [olderEntries, List.reduceOption_mem_iff, List.mem_drop_iff_getElem]
  constructor
  · rintro ⟨offset, inside, slot⟩
    exact ⟨cache.ultraHotNext + offset, by omega, List.getElem?_eq_some_iff.mpr ⟨by omega, slot⟩⟩
  · rintro ⟨index, above, slot⟩
    obtain ⟨inside, slotEq⟩ := List.getElem?_eq_some_iff.mp slot
    refine ⟨index - cache.ultraHotNext, by omega, ?_⟩
    simpa [Nat.add_sub_cancel' above] using slotEq

/-- An insertion of another key leaves no new recent copy of the key. -/
theorem insert_noRecent {cache : HotCache} {key urlHash : UInt64} {html : String} {now : Nat}
    (noRecent : ∀ other ∈ cache.recentEntries, other.urlHash ≠ key) (different : urlHash ≠ key) :
    ∀ other ∈ (cache.insert urlHash html now).recentEntries, other.urlHash ≠ key := by
  intro other member
  rcases cache.insert_segments urlHash html now with ⟨recent, _⟩ | ⟨_, recent, _⟩
  · rw [recent, List.mem_append, List.mem_singleton] at member
    rcases member with old | rfl
    · exact noRecent other old
    · exact different
  · simp [recent] at member

/-- An older copy becomes the first one when the write index reaches its slot. -/
theorem older_becomes_first {cache : HotCache} {key urlHash : UInt64} {html : String}
    {now index : Nat} {entry : HotEntry} (slot : cache.InSlot index entry)
    (above : cache.ultraHotNext.val ≤ index) (sameKey : entry.urlHash = key)
    (noRecent : ∀ other ∈ cache.recentEntries, other.urlHash ≠ key) (different : urlHash ≠ key) :
    ∃ count, (cache.insertTimes urlHash html now count).firstUltraHot key = some entry := by
  obtain ⟨distance, indexEq⟩ := Nat.exists_eq_add_of_le above
  induction distance generalizing cache with
  | zero =>
      refine ⟨0, ?_⟩
      have displaced : cache.displacedEntry = some entry := by
        rw [InSlot, indexEq, Nat.add_zero, ultraHot_displacedEntry] at slot
        exact Option.some.inj slot
      have absent : cache.recentEntries.find? (fun other => other.urlHash = key) = none := by
        simpa using noRecent
      rw [insertTimes, firstUltraHot_eq, absent, olderEntries_eq, displaced]
      simp [sameKey]
  | succ distance inductionHypothesis =>
      have inside := slot.lt
      have next :
          ((cache.insert urlHash html now).ultraHotNext : Nat) = cache.ultraHotNext + 1 := by
        rw [insert_ultraHotNext, Nat.mod_eq_of_lt (by omega)]
      obtain ⟨count, first⟩ := inductionHypothesis (slot.insert (by omega) urlHash html now)
        (by omega) (insert_noRecent noRecent different) (by omega)
      exact ⟨count + 1, first⟩

/-- A recent copy becomes the first one in the next turn of the ring. -/
theorem recent_becomes_first {cache : HotCache} {key urlHash : UInt64} {html : String}
    {now index : Nat} {entry : HotEntry} (slot : cache.InSlot index entry)
    (below : index < cache.ultraHotNext.val) (sameKey : entry.urlHash = key)
    (different : urlHash ≠ key) :
    ∃ count, (cache.insertTimes urlHash html now count).firstUltraHot key = some entry := by
  have inside := cache.ultraHotNext.isLt
  obtain ⟨distance, sizeEq⟩ := Nat.exists_eq_add_of_le' (Nat.succ_le_of_lt inside)
  induction distance generalizing cache with
  | zero =>
      have next : ((cache.insert urlHash html now).ultraHotNext : Nat) = 0 := by
        have last : (cache.ultraHotNext : Nat) + 1 = ultraHotSize := by omega
        rw [insert_ultraHotNext, last, Nat.mod_self]
      have noRecent : (cache.insert urlHash html now).recentEntries = [] := by
        simp [recentEntries, next]
      obtain ⟨count, first⟩ := older_becomes_first (slot.insert (by omega) urlHash html now)
        (by omega) sameKey (by simp [noRecent]) different
      exact ⟨count + 1, first⟩
  | succ distance inductionHypothesis =>
      have next :
          ((cache.insert urlHash html now).ultraHotNext : Nat) = cache.ultraHotNext + 1 := by
        rw [insert_ultraHotNext, Nat.mod_eq_of_lt (by omega)]
      obtain ⟨count, first⟩ := inductionHypothesis (slot.insert (by omega) urlHash html now)
        (by omega) (by omega) (by omega)
      exact ⟨count + 1, first⟩

/-- An exposed entry within its time is answered after some insertions of any
other key. -/
theorem exposes_becomes_visible {cache : HotCache} {key : UInt64} {entry : HotEntry} {now : Nat}
    (exposed : cache.Exposes key entry) (live : outlived cache.ttl entry.createdAt now = false)
    {urlHash : UInt64} (different : urlHash ≠ key) (html : String) :
    ∃ count, (cache.insertTimes urlHash html now count).peek key now = some entry.html := by
  have visible : ∀ {count}, (cache.insertTimes urlHash html now count).firstUltraHot key =
      some entry → (cache.insertTimes urlHash html now count).peek key now = some entry.html := by
    intro count first
    rw [peek, first]
    simp [isExpired, live]
  rcases exposed with ⟨member, sameKey⟩ | ⟨member, sameKey, noRecent⟩ | ⟨found, noCopy⟩
  · obtain ⟨index, below, slot⟩ := mem_recentEntries_iff.mp member
    obtain ⟨count, first⟩ := recent_becomes_first slot below sameKey different
    exact ⟨count, visible first⟩
  · obtain ⟨index, above, slot⟩ := mem_olderEntries_iff.mp member
    obtain ⟨count, first⟩ := older_becomes_first slot above sameKey noRecent different
    exact ⟨count, visible first⟩
  · refine ⟨0, ?_⟩
    rw [insertTimes, peek, firstUltraHot_none_iff.mpr noCopy, found]
    simp [isExpired, live]

end RustySsr.Cache.HotCache
