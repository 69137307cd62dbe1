import RustySsr.Cache.Ssr.Pages

/-!
Owns which insertion every copy of a page comes from. A hot cache may hold
several copies of one key, so its origins are kept for each slot of the ring and
for each key of the hot map, and move with the entries; a promotion hands on the
origin of the cold entry. `Agree` ties the origins to the copies themselves: an
answer comes from the insertion that they name.
-/

namespace RustySsr.Cache

open RustySsr.Platform

/-- The origins of the copies in one hot cache. -/
structure HotOrigins (Origin : Type) where
  ultraHot : Fin ultraHotSize → Option Origin
  hotMap : UInt64 → Option Origin

namespace HotCache

/-- The slot at which the scan of the ultra-hot array returns. -/
def firstSlot (cache : HotCache) (urlHash : UInt64) : Option (Fin ultraHotSize) :=
  cache.ultraHot.findFinIdx? fun slot => slot.any fun entry => entry.urlHash = urlHash

theorem find?_slot (cache : HotCache) (urlHash : UInt64) :
    cache.ultraHot.toList.find? (fun slot => slot.any fun entry => entry.urlHash = urlHash) =
      (cache.firstSlot urlHash).map cache.ultraHot.get := by
  rw [Vector.find?_toList, Vector.find?_eq_map_findFinIdx?_getElem]
  rfl

theorem firstUltraHot_eq_firstSlot (cache : HotCache) (urlHash : UInt64) :
    cache.firstUltraHot urlHash = (cache.firstSlot urlHash).bind cache.ultraHot.get := by
  have filtered : cache.firstUltraHot urlHash = (cache.ultraHot.toList.find?
      (fun slot => slot.any fun entry => entry.urlHash = urlHash)).bind id :=
    List.find?_filterMap
  rw [filtered, find?_slot]
  cases cache.firstSlot urlHash <;> rfl

/-- The slot holds a copy of the key. -/
theorem firstSlot_some {cache : HotCache} {urlHash : UInt64} {slot : Fin ultraHotSize}
    (first : cache.firstSlot urlHash = some slot) :
    ∃ entry, cache.ultraHot.get slot = some entry ∧ entry.urlHash = urlHash := by
  have found := cache.find?_slot urlHash
  rw [first, Option.map_some] at found
  obtain ⟨entry, held, sameKey⟩ := (Option.any_eq_true _ _).mp (List.find?_some found)
  exact ⟨entry, held, of_decide_eq_true sameKey⟩

theorem insert_ultraHot_get (cache : HotCache) (urlHash : UInt64) (html : String) (now : Nat)
    (slot : Fin ultraHotSize) :
    (cache.insert urlHash html now).ultraHot.get slot =
      if slot = cache.ultraHotNext then some ⟨urlHash, html, now⟩
      else cache.ultraHot.get slot := by
  show (cache.displace.ultraHot.set cache.ultraHotNext (some ⟨urlHash, html, now⟩))[slot] = _
  rw [displace_ultraHot, Vector.set_set, Fin.getElem_fin, Vector.getElem_set]
  simp [Fin.ext_iff, eq_comm, Vector.get]

end HotCache

namespace HotOrigins

variable {Origin : Type}

def empty : HotOrigins Origin := ⟨fun _ => none, fun _ => none⟩

/-- `insert`: the origin of the displaced entry moves to the hot map with it. -/
def insert (origins : HotOrigins Origin) (cache : HotCache) (origin : Option Origin) :
    HotOrigins Origin where
  ultraHot := Function.update origins.ultraHot cache.ultraHotNext origin
  hotMap := match cache.displacedEntry with
    | some displaced => Function.update origins.hotMap displaced.urlHash
        (origins.ultraHot cache.ultraHotNext)
    | none => origins.hotMap

/-- The origin of the copy that `peek` returns. -/
def find (origins : HotOrigins Origin) (cache : HotCache) (urlHash : UInt64) : Option Origin :=
  match cache.firstSlot urlHash with
  | some slot => origins.ultraHot slot
  | none => origins.hotMap urlHash

/-- Every copy has an origin that wrote its page under its key. -/
structure Agree (Wrote : Origin → UInt64 → String → Prop) (origins : HotOrigins Origin)
    (cache : HotCache) : Prop where
  ultraHot : ∀ {slot entry}, cache.ultraHot.get slot = some entry →
    ∃ origin, origins.ultraHot slot = some origin ∧ Wrote origin entry.urlHash entry.html
  hotMap : ∀ {key entry}, cache.hotMap.lookup key = some entry →
    ∃ origin, origins.hotMap key = some origin ∧ Wrote origin key entry.html

section Operations

variable {Wrote : Origin → UInt64 → String → Prop} {origins : HotOrigins Origin}
  {cache : HotCache}

theorem agree_of_empty (ring : ∀ slot, cache.ultraHot.get slot = none) (map : cache.hotMap = ∅) :
    Agree Wrote origins cache where
  ultraHot := fun found => by simp [ring] at found
  hotMap := fun found => by simp [map] at found

theorem agree_withTtl (Wrote : Origin → UInt64 → String → Prop) (origins : HotOrigins Origin)
    (ttlSecs : Nat) : Agree Wrote origins (HotCache.withTtl ttlSecs) :=
  agree_of_empty (fun slot => by simp [HotCache.withTtl, Vector.get]) rfl

theorem agree_clear (Wrote : Origin → UInt64 → String → Prop) (origins : HotOrigins Origin)
    (cache : HotCache) : Agree Wrote origins cache.clear :=
  agree_of_empty (fun slot => by simp [HotCache.clear, Vector.get]) rfl

theorem Agree.mono {Wrote' : Origin → UInt64 → String → Prop} (agree : Agree Wrote origins cache)
    (implies : ∀ {origin key html}, Wrote origin key html → Wrote' origin key html) :
    Agree Wrote' origins cache where
  ultraHot := fun found =>
    let ⟨origin, same, wrote⟩ := agree.ultraHot found
    ⟨origin, same, implies wrote⟩
  hotMap := fun found =>
    let ⟨origin, same, wrote⟩ := agree.hotMap found
    ⟨origin, same, implies wrote⟩

/-- A written slot has the new origin, and the map the displaced one. -/
theorem Agree.insert (agree : Agree Wrote origins cache) {origin : Origin} {urlHash : UInt64}
    {html : String} (wrote : Wrote origin urlHash html) (now : Nat) :
    Agree Wrote (origins.insert cache (some origin)) (cache.insert urlHash html now) where
  ultraHot := by
    intro slot entry found
    rw [HotCache.insert_ultraHot_get] at found
    split_ifs at found with written
    · obtain rfl := Option.some.inj found
      exact ⟨origin, by simp [HotOrigins.insert, written], wrote⟩
    · obtain ⟨old, same, oldWrote⟩ := agree.ultraHot found
      exact ⟨old, by simp [HotOrigins.insert, written, same], oldWrote⟩
  hotMap := by
    intro key entry found
    rcases HotCache.insert_lookup found with ⟨displaced, rfl⟩ | ⟨different, old⟩
    · obtain ⟨moved, same, movedWrote⟩ := agree.ultraHot displaced
      exact ⟨moved, by simp [HotOrigins.insert, displaced, same], movedWrote⟩
    · obtain ⟨kept, same, keptWrote⟩ := agree.hotMap old
      refine ⟨kept, ?_, keptWrote⟩
      rw [← same]
      cases slot : cache.displacedEntry with
      | none => simp [HotOrigins.insert, slot]
      | some displaced => simp [HotOrigins.insert, slot, (different displaced slot).symm]

/-- A visible page was written by the origin that is found for it. -/
theorem Agree.find_of_peek (agree : Agree Wrote origins cache) {urlHash : UInt64} {html : String}
    {now : Nat} (peeked : cache.peek urlHash now = some html) :
    ∃ origin, origins.find cache urlHash = some origin ∧ Wrote origin urlHash html := by
  unfold HotCache.peek at peeked
  rw [HotCache.firstUltraHot_eq_firstSlot] at peeked
  unfold find
  cases first : cache.firstSlot urlHash with
  | none =>
      simp only [first, Option.bind_none] at peeked
      split at peeked
      · rename_i entry found
        split_ifs at peeked
        obtain rfl := Option.some.inj peeked
        exact agree.hotMap found
      · contradiction
  | some slot =>
      obtain ⟨entry, found, rfl⟩ := HotCache.firstSlot_some first
      simp only [first, Option.bind_some, found] at peeked
      split_ifs at peeked
      obtain rfl := Option.some.inj peeked
      exact agree.ultraHot found

end Operations

end HotOrigins

namespace SsrCache

/-- The origins of the copies in every tier. -/
structure Origins (Origin : Type) where
  hot : ThreadId → HotOrigins Origin
  cold : UInt64 → Option Origin

namespace Origins

variable {Origin : Type}

def empty : Origins Origin := ⟨fun _ => .empty, fun _ => none⟩

def insertHot (origins : Origins Origin) (cache : SsrCache) (thread : ThreadId)
    (origin : Option Origin) : Origins Origin :=
  { origins with
    hot := Function.update origins.hot thread
      ((origins.hot thread).insert (cache.syncedHot thread).cache origin) }

@[simp] theorem insertHot_hot_self (origins : Origins Origin) (cache : SsrCache)
    (thread : ThreadId) (origin : Option Origin) :
    (origins.insertHot cache thread origin).hot thread =
      (origins.hot thread).insert (cache.syncedHot thread).cache origin :=
  Function.update_self _ _ _

theorem insertHot_hot_other (origins : Origins Origin) (cache : SsrCache)
    {thread other : ThreadId} (different : other ≠ thread) (origin : Option Origin) :
    (origins.insertHot cache thread origin).hot other = origins.hot other :=
  Function.update_of_ne different _ _

section Operations

variable (hashUrl : String → UInt64)

/-- `try_get`: a promoted copy has the origin of the cold entry. -/
def tryGet (origins : Origins Origin) (cache : SsrCache) (thread : ThreadId) (url : String)
    (now : Nat) : Origins Origin :=
  match (cache.syncedHot thread).cache.peek (hashUrl url) now with
  | some _ => origins
  | none =>
      match (cache.coldCache.get (hashUrl url) now).1 with
      | some _ => origins.insertHot cache thread (origins.cold (hashUrl url))
      | none => origins

/-- `insert`: both new copies have the given origin. -/
def insert (origins : Origins Origin) (cache : SsrCache) (thread : ThreadId) (url : String)
    (origin : Origin) : Origins Origin :=
  { origins.insertHot cache thread (some origin) with
    cold := Function.update origins.cold (hashUrl url) (some origin) }

/-- The origin of the copy that `try_get` answers with. -/
def answering (origins : Origins Origin) (cache : SsrCache) (thread : ThreadId) (url : String)
    (now : Nat) : Option Origin :=
  match (cache.syncedHot thread).cache.peek (hashUrl url) now with
  | some _ => (origins.hot thread).find (cache.syncedHot thread).cache (hashUrl url)
  | none =>
      match (cache.coldCache.get (hashUrl url) now).1 with
      | some _ => origins.cold (hashUrl url)
      | none => none

end Operations

/-- Every copy in a tier has an origin that wrote its page under its key. -/
structure Agree (Wrote : Origin → UInt64 → String → Prop) (origins : Origins Origin)
    (cache : SsrCache) : Prop where
  cold : ∀ {key url html createdAt}, cache.coldCache.HasPage key url html createdAt →
    ∃ origin, origins.cold key = some origin ∧ Wrote origin key html
  hot : ∀ {thread state}, cache.hotCache thread = some state →
    (origins.hot thread).Agree Wrote state.cache

section Steps

variable {hashUrl : String → UInt64} {Wrote : Origin → UInt64 → String → Prop}
  {origins : Origins Origin} {cache next : SsrCache} {thread : ThreadId} {url html : String}
  {now : Nat}

theorem agree_withTtl (Wrote : Origin → UInt64 → String → Prop) (origins : Origins Origin)
    (maxColdEntries ttlSecs : Nat) : Agree Wrote origins (withTtl maxColdEntries ttlSecs) where
  cold := fun page => absurd page (ColdCache.not_hasPage_withTtl _ _ _ _ _ _)
  hot := fun absent => by simp [withTtl] at absent

theorem Agree.mono {Wrote' : Origin → UInt64 → String → Prop} (agree : Agree Wrote origins cache)
    (implies : ∀ {origin key html}, Wrote origin key html → Wrote' origin key html) :
    Agree Wrote' origins cache where
  cold := fun page =>
    let ⟨origin, same, wrote⟩ := agree.cold page
    ⟨origin, same, implies wrote⟩
  hot := fun present => (agree.hot present).mono implies

theorem Agree.syncedHot (agree : Agree Wrote origins cache) (thread : ThreadId) :
    (origins.hot thread).Agree Wrote (cache.syncedHot thread).cache := by
  unfold SsrCache.syncedHot
  split
  · exact HotOrigins.agree_withTtl _ _ _
  · rename_i state present
    split_ifs
    · exact HotOrigins.agree_clear _ _ _
    · exact agree.hot present

theorem Agree.getOrInitHotCache (agree : Agree Wrote origins cache) (thread : ThreadId) :
    Agree Wrote origins (cache.getOrInitHotCache thread) where
  cold := agree.cold
  hot := by
    intro other state present
    by_cases same : other = thread
    · subst same
      rw [getOrInitHotCache_self, Option.some.injEq] at present
      exact present ▸ agree.syncedHot other
    · rw [getOrInitHotCache_other cache same] at present
      exact agree.hot present

/-- Where no tier gains a copy, the origins stay true. -/
theorem Agree.of_kept (agree : Agree Wrote origins cache) (sameHot : next.hotCache = cache.hotCache)
    (kept : ∀ {key url html createdAt}, next.coldCache.HasPage key url html createdAt →
      cache.coldCache.HasPage key url html createdAt) : Agree Wrote origins next where
  cold := fun page => agree.cold (kept page)
  hot := fun present => agree.hot (sameHot ▸ present)

/-- A copy written to one hot cache has its origin there. -/
theorem Agree.hot_insertHot (agree : Agree Wrote origins cache) {origin : Origin} {urlHash : UInt64}
    {generation : UInt64} (wrote : Wrote origin urlHash html)
    (written : next.hotCache = Function.update cache.hotCache thread
      (some ⟨generation, (cache.syncedHot thread).cache.insert urlHash html now⟩))
    {other : ThreadId} {state : HotCacheState} (present : next.hotCache other = some state) :
    ((origins.insertHot cache thread (some origin)).hot other).Agree Wrote state.cache := by
  rw [written] at present
  by_cases same : other = thread
  · subst same
    rw [Function.update_self, Option.some.injEq] at present
    subst present
    rw [insertHot_hot_self]
    exact (agree.syncedHot other).insert wrote now
  · rw [Function.update_of_ne same] at present
    rw [insertHot_hot_other origins cache same]
    exact agree.hot present

theorem Agree.tryGet (agree : Agree Wrote origins cache) (thread : ThreadId) (url : String)
    (now : Nat) :
    Agree Wrote (origins.tryGet hashUrl cache thread url now)
      (cache.tryGet hashUrl thread url now).2 := by
  have synced : Agree Wrote origins (cache.beginLookup thread) := by
    refine Agree.getOrInitHotCache ?_ thread
    exact agree.of_kept rfl id
  unfold Origins.tryGet
  rcases tryGet_cases hashUrl cache thread url now with
    ⟨_, peeked, result⟩ | ⟨peeked, ⟨html, answer, result⟩ | ⟨answer, result⟩⟩
  · rw [peeked, result]
    exact synced.of_kept rfl id
  · rw [peeked, answer, result]
    obtain ⟨pageUrl, createdAt, page, _⟩ := ColdCache.get_some answer
    obtain ⟨origin, same, wrote⟩ := agree.cold page
    dsimp only
    rw [same]
    constructor
    · exact fun later => agree.cold (ColdCache.hasPage_get later)
    · exact agree.hot_insertHot wrote (getOrInitHotCache_insertHot _ thread (hashUrl url) html now)
  · rw [peeked, answer, result]
    exact synced.of_kept rfl ColdCache.hasPage_get

theorem Agree.insert (agree : Agree Wrote origins cache) {origin : Origin}
    (wrote : Wrote origin (hashUrl url) html) (thread : ThreadId) (order : ScanOrder) (now : Nat) :
    Agree Wrote (origins.insert hashUrl cache thread url origin)
      (cache.insert hashUrl thread order url html now) where
  cold := by
    intro key pageUrl pageHtml createdAt page
    rcases ColdCache.hasPage_insert page with ⟨rfl, -, rfl, -⟩ | ⟨different, old⟩
    · exact ⟨origin, Function.update_self _ _ _, wrote⟩
    · obtain ⟨kept, same, keptWrote⟩ := agree.cold old
      exact ⟨kept, (Function.update_of_ne different _ _).trans same, keptWrote⟩
  hot := agree.hot_insertHot wrote (insert_hotCache hashUrl cache thread order url html now)

theorem Agree.invalidate (agree : Agree Wrote origins cache) (url : String) :
    Agree Wrote origins (cache.invalidate hashUrl url) :=
  agree.of_kept (invalidate_hotCache hashUrl cache url) fun page =>
    (ColdCache.hasPage_remove (invalidate_coldCache hashUrl cache url ▸ page)).2

theorem Agree.invalidatePrefix (agree : Agree Wrote origins cache) (order : ScanOrder)
    (urlPrefix : String) : Agree Wrote origins (cache.invalidatePrefix order urlPrefix).2 :=
  agree.of_kept (invalidatePrefix_hotCache cache order urlPrefix) fun page =>
    (ColdCache.hasPage_removeByPrefix (invalidatePrefix_coldCache cache order urlPrefix ▸ page)).2

theorem Agree.clear (agree : Agree Wrote origins cache) : Agree Wrote origins cache.clear :=
  agree.of_kept rfl fun page => absurd page (ColdCache.not_hasPage_clear _ _ _ _ _)

/-- Every answer comes from the origin that is found for it. -/
theorem Agree.answering (agree : Agree Wrote origins cache)
    (answer : (cache.tryGet hashUrl thread url now).1 = some html) :
    ∃ origin, origins.answering hashUrl cache thread url now = some origin ∧
      Wrote origin (hashUrl url) html := by
  unfold Origins.answering
  rcases tryGet_cases hashUrl cache thread url now with
    ⟨found, peeked, result⟩ | ⟨peeked, ⟨found, cold, result⟩ | ⟨_, result⟩⟩
  · rw [result] at answer
    obtain rfl := Option.some.inj answer
    rw [peeked]
    exact (agree.syncedHot thread).find_of_peek peeked
  · rw [result] at answer
    obtain rfl := Option.some.inj answer
    rw [peeked, cold]
    obtain ⟨pageUrl, createdAt, page, _⟩ := ColdCache.get_some cold
    exact agree.cold page
  · rw [result] at answer
    contradiction

/-- An origin is found for answers only. -/
theorem answer_of_answering {origin : Origin}
    (answers : origins.answering hashUrl cache thread url now = some origin) :
    ∃ html, (cache.tryGet hashUrl thread url now).1 = some html := by
  unfold Origins.answering at answers
  rcases tryGet_cases hashUrl cache thread url now with
    ⟨html, _, result⟩ | ⟨peeked, ⟨html, _, result⟩ | ⟨cold, _⟩⟩
  · exact ⟨html, congrArg Prod.fst result⟩
  · exact ⟨html, congrArg Prod.fst result⟩
  · rw [peeked, cold] at answers
    contradiction

/-- A page that was just inserted answers a thread without a hot cache, by its
own origin. -/
theorem answering_insert_newThread (origins : Origins Origin) (origin : Origin) {order : ScanOrder}
    {other : ThreadId}
    (new : (cache.insert hashUrl thread order url html now).hotCache other = none) :
    (origins.insert hashUrl cache thread url origin).answering hashUrl
      (cache.insert hashUrl thread order url html now) other url now = some origin := by
  have missed : ((cache.insert hashUrl thread order url html now).syncedHot other).cache.peek
      (hashUrl url) now = none := by
    rw [SsrCache.syncedHot, new]
    refine Option.eq_none_iff_forall_ne_some.mpr fun page answer => ?_
    obtain ⟨entry, exposed, _⟩ := HotCache.peek_some answer
    exact HotCache.not_exposes_withTtl _ _ _ exposed
  have page : (cache.insert hashUrl thread order url html now).coldCache.HasPage (hashUrl url) url
      html now :=
    ColdCache.hasPage_of_lookup (ColdCache.insert_lookup_iff.mpr (Or.inl ⟨rfl, rfl⟩))
  rw [Origins.answering, missed, ColdCache.get_of_hasPage page (outlived_self _ now)]
  exact Function.update_self _ _ _

end Steps

end Origins

end SsrCache

end RustySsr.Cache
