import RustySsr.Cache.Hot.Exposure
import RustySsr.Cache.Ssr.Model

/-!
Owns the pages of the multi-tier cache. `Pages` bounds what the cold cache and
every thread's hot cache exposes: a predicate on cold pages, and one on hot
entries that may depend on the thread and on the generation its hot cache was
synchronised with. A step keeps both predicates as soon as the page it adds
meets them, and an answer always comes from a page that meets one of them. The
properties of the cache are instances of this invariant.
-/

namespace RustySsr.Cache.SsrCache

open RustySsr.Platform
open RustySsr.Foundation

/-- A predicate on the key, URL, HTML and creation time of cold pages. -/
abbrev ColdPredicate := UInt64 → String → String → Nat → Prop

/-- A predicate on a thread, the generation of its hot cache, a key and an entry. -/
abbrev HotPredicate := ThreadId → UInt64 → UInt64 → HotEntry → Prop

structure Pages (C : ColdPredicate) (H : HotPredicate) (cache : SsrCache) : Prop where
  cold : ∀ {key url html createdAt},
    cache.coldCache.HasPage key url html createdAt → C key url html createdAt
  hot : ∀ {thread state key entry}, cache.hotCache thread = some state →
    state.cache.Exposes key entry → H thread state.generation key entry

theorem pages_withTtl (C : ColdPredicate) (H : HotPredicate) (maxColdEntries ttlSecs : Nat) :
    Pages C H (withTtl maxColdEntries ttlSecs) where
  cold := fun page => absurd page (ColdCache.not_hasPage_withTtl _ _ _ _ _ _)
  hot := fun absent => by simp [withTtl] at absent

theorem Pages.mono {C C' : ColdPredicate} {H H' : HotPredicate} {cache : SsrCache}
    (pages : Pages C H cache)
    (coldImplies : ∀ {key url html createdAt}, C key url html createdAt → C' key url html createdAt)
    (hotImplies : ∀ {thread generation key entry},
      H thread generation key entry → H' thread generation key entry) :
    Pages C' H' cache where
  cold := fun page => coldImplies (pages.cold page)
  hot := fun present exposed => hotImplies (pages.hot present exposed)

/-! ### Synchronising a hot cache -/

@[simp] theorem syncedHot_generation (cache : SsrCache) (thread : ThreadId) :
    (cache.syncedHot thread).generation = cache.generation := by
  unfold syncedHot
  split
  · rfl
  · split_ifs with stale
    · rfl
    · exact not_not.mp stale

/-- A synchronised hot cache holds only entries of the same generation. -/
theorem syncedHot_exposes {cache : SsrCache} {thread : ThreadId} {key : UInt64} {entry : HotEntry}
    (exposed : (cache.syncedHot thread).cache.Exposes key entry) :
    ∃ state, cache.hotCache thread = some state ∧ state.generation = cache.generation ∧
      state.cache.Exposes key entry := by
  unfold syncedHot at exposed
  split at exposed
  · exact absurd exposed (HotCache.not_exposes_withTtl _ _ _)
  · rename_i state present
    split_ifs at exposed with stale
    · exact absurd exposed (HotCache.not_exposes_clear _ _ _)
    · exact ⟨state, present, not_not.mp stale, exposed⟩

theorem syncedHot_of_current {cache : SsrCache} {thread : ThreadId} {state : HotCacheState}
    (present : cache.hotCache thread = some state)
    (current : state.generation = cache.generation) : cache.syncedHot thread = state := by
  rw [syncedHot, present]
  simp [current]

theorem getOrInitHotCache_self (cache : SsrCache) (thread : ThreadId) :
    (cache.getOrInitHotCache thread).hotCache thread = some (cache.syncedHot thread) := by
  simp [getOrInitHotCache]

theorem getOrInitHotCache_other (cache : SsrCache) {thread other : ThreadId}
    (different : other ≠ thread) :
    (cache.getOrInitHotCache thread).hotCache other = cache.hotCache other := by
  simp [getOrInitHotCache, different]

theorem getOrInitHotCache_insertHot (cache : SsrCache) (thread : ThreadId) (urlHash : UInt64)
    (html : String) (now : Nat) :
    ((cache.getOrInitHotCache thread).insertHot thread urlHash html now).hotCache =
      Function.update cache.hotCache thread (some ⟨cache.generation,
        (cache.syncedHot thread).cache.insert urlHash html now⟩) := by
  rw [insertHot, getOrInitHotCache_self, Option.map_some, ← syncedHot_generation cache thread]
  exact Function.update_idem _ _ _

section Steps

variable {C : ColdPredicate} {H : HotPredicate} {cache : SsrCache}

theorem Pages.getOrInitHotCache (pages : Pages C H cache) (thread : ThreadId) :
    Pages C H (cache.getOrInitHotCache thread) where
  cold := pages.cold
  hot := by
    intro other state key entry present exposed
    by_cases same : other = thread
    · subst same
      rw [getOrInitHotCache_self, Option.some.injEq] at present
      subst present
      obtain ⟨old, oldPresent, sameGeneration, oldExposed⟩ := syncedHot_exposes exposed
      rw [syncedHot_generation, ← sameGeneration]
      exact pages.hot oldPresent oldExposed
    · rw [getOrInitHotCache_other cache same] at present
      exact pages.hot present exposed

theorem Pages.insertHot (pages : Pages C H cache) {thread : ThreadId} {urlHash : UInt64}
    {html : String} {now : Nat}
    (added : ∀ state, cache.hotCache thread = some state →
      H thread state.generation urlHash ⟨urlHash, html, now⟩) :
    Pages C H (cache.insertHot thread urlHash html now) where
  cold := pages.cold
  hot := by
    intro other state key entry present exposed
    by_cases same : other = thread
    · subst same
      simp only [SsrCache.insertHot, Function.update_self, Option.map_eq_some_iff] at present
      obtain ⟨old, oldPresent, stateEq⟩ := present
      subst stateEq
      show H other old.generation key entry
      rcases HotCache.exposes_insert exposed with ⟨rfl, rfl | ⟨member, sameKey⟩⟩ | ⟨_, oldExposed⟩
      · exact added old oldPresent
      · exact pages.hot oldPresent (.recent member sameKey)
      · exact pages.hot oldPresent oldExposed
    · simp only [SsrCache.insertHot, Function.update_of_ne same] at present
      exact pages.hot present exposed

theorem Pages.withCold {C' : ColdPredicate} (pages : Pages C H cache) {cold : ColdCache}
    (kept : ∀ {key url html createdAt},
      cold.HasPage key url html createdAt → C' key url html createdAt) :
    Pages C' H (cache.withCold cold) where
  cold := kept
  hot := pages.hot

theorem Pages.bumpGeneration (pages : Pages C H cache) : Pages C H cache.bumpGeneration where
  cold := pages.cold
  hot := pages.hot

theorem Pages.count (pages : Pages C H cache) (change : CacheMetricsInner → CacheMetricsInner) :
    Pages C H (cache.count change) where
  cold := pages.cold
  hot := pages.hot

theorem Pages.beginLookup (pages : Pages C H cache) (thread : ThreadId) :
    Pages C H (cache.beginLookup thread) :=
  (pages.count _).getOrInitHotCache thread

theorem Pages.hotHit (pages : Pages C H cache) : Pages C H cache.hotHit := pages.count _

theorem Pages.missed (pages : Pages C H cache) : Pages C H cache.missed := pages.count _

theorem Pages.coldHit (pages : Pages C H cache) {thread : ThreadId} {urlHash : UInt64}
    {html : String} {now : Nat}
    (added : ∀ state, cache.hotCache thread = some state →
      H thread state.generation urlHash ⟨urlHash, html, now⟩) :
    Pages C H (cache.coldHit thread urlHash html now) :=
  (pages.insertHot added).count _

end Steps

/-! ### What each operation does to the tiers -/

section Tiers

variable (hashUrl : String → UInt64) (cache : SsrCache)

theorem invalidate_coldCache (url : String) :
    (cache.invalidate hashUrl url).coldCache = (cache.coldCache.remove (hashUrl url)).2 := by
  unfold invalidate
  dsimp only
  split_ifs <;> rfl

theorem invalidate_hotCache (url : String) :
    (cache.invalidate hashUrl url).hotCache = cache.hotCache := by
  unfold invalidate
  dsimp only
  split_ifs <;> rfl

theorem invalidatePrefix_coldCache (order : ScanOrder) (urlPrefix : String) :
    (cache.invalidatePrefix order urlPrefix).2.coldCache =
      (cache.coldCache.removeByPrefix order urlPrefix).2 := by
  unfold invalidatePrefix
  dsimp only
  split_ifs <;> rfl

theorem invalidatePrefix_hotCache (order : ScanOrder) (urlPrefix : String) :
    (cache.invalidatePrefix order urlPrefix).2.hotCache = cache.hotCache := by
  unfold invalidatePrefix
  dsimp only
  split_ifs <;> rfl

/-- An insertion synchronises its thread's hot cache and inserts there too. -/
theorem insert_hotCache (thread : ThreadId) (order : ScanOrder) (url html : String) (now : Nat) :
    (cache.insert hashUrl thread order url html now).hotCache =
      Function.update cache.hotCache thread (some ⟨cache.generation,
        (cache.syncedHot thread).cache.insert (hashUrl url) html now⟩) :=
  getOrInitHotCache_insertHot cache thread (hashUrl url) html now

theorem insert_syncedHot (thread : ThreadId) (order : ScanOrder) (url html : String) (now : Nat) :
    (cache.insert hashUrl thread order url html now).syncedHot thread =
      ⟨cache.generation, (cache.syncedHot thread).cache.insert (hashUrl url) html now⟩ := by
  have generationEq : (cache.insert hashUrl thread order url html now).generation =
      cache.generation := rfl
  rw [syncedHot, insert_hotCache, Function.update_self, generationEq]
  simp

end Tiers

/-! ### What each operation does to the pages -/

section Operations

variable {hashUrl : String → UInt64} {C : ColdPredicate} {H : HotPredicate} {cache : SsrCache}

/-- A lookup over its synchronised hot cache. -/
theorem tryGet_eq (hashUrl : String → UInt64) (cache : SsrCache) (thread : ThreadId)
    (url : String) (now : Nat) :
    cache.tryGet hashUrl thread url now =
      match (cache.syncedHot thread).cache.peek (hashUrl url) now with
      | some html => (some html, (cache.beginLookup thread).hotHit)
      | none =>
          match (cache.coldCache.get (hashUrl url) now).1 with
          | some html => (some html, ((cache.beginLookup thread).withCold
              (cache.coldCache.get (hashUrl url) now).2).coldHit thread (hashUrl url) html now)
          | none => (none, ((cache.beginLookup thread).withCold
              (cache.coldCache.get (hashUrl url) now).2).missed) := by
  have peekEq : (cache.beginLookup thread).peekHot thread (hashUrl url) now =
      (cache.syncedHot thread).cache.peek (hashUrl url) now := by
    rw [beginLookup, peekHot, getOrInitHotCache_self]
    rfl
  unfold SsrCache.tryGet
  dsimp only
  rw [peekEq]
  rfl

/-- Everything a lookup can do: answer from the synchronised hot cache, answer
from the cold cache and promote the page, or miss in both. -/
theorem tryGet_cases (hashUrl : String → UInt64) (cache : SsrCache) (thread : ThreadId)
    (url : String) (now : Nat) :
    (∃ html, (cache.syncedHot thread).cache.peek (hashUrl url) now = some html ∧
        cache.tryGet hashUrl thread url now = (some html, (cache.beginLookup thread).hotHit)) ∨
      (cache.syncedHot thread).cache.peek (hashUrl url) now = none ∧
        ((∃ html, (cache.coldCache.get (hashUrl url) now).1 = some html ∧
            cache.tryGet hashUrl thread url now =
              (some html, ((cache.beginLookup thread).withCold
                (cache.coldCache.get (hashUrl url) now).2).coldHit thread (hashUrl url) html now)) ∨
          ((cache.coldCache.get (hashUrl url) now).1 = none ∧
            cache.tryGet hashUrl thread url now =
              (none, ((cache.beginLookup thread).withCold
                (cache.coldCache.get (hashUrl url) now).2).missed))) := by
  rw [tryGet_eq]
  cases (cache.syncedHot thread).cache.peek (hashUrl url) now with
  | some html => exact Or.inl ⟨html, rfl, rfl⟩
  | none =>
      cases answer : (cache.coldCache.get (hashUrl url) now).1 with
      | some html => exact Or.inr ⟨rfl, Or.inl ⟨html, rfl, rfl⟩⟩
      | none => exact Or.inr ⟨rfl, Or.inr ⟨rfl, rfl⟩⟩

/-- A lookup adds at most the promoted page to its own thread's hot cache. -/
theorem Pages.tryGet (pages : Pages C H cache) {thread : ThreadId} {url : String} {now : Nat}
    (promoted : ∀ {pageUrl html createdAt}, C (hashUrl url) pageUrl html createdAt →
      outlived cache.coldCache.ttl createdAt now = false →
      (cache.syncedHot thread).cache.peek (hashUrl url) now = none →
      (cache.coldCache.get (hashUrl url) now).1 = some html →
      H thread cache.generation (hashUrl url) ⟨hashUrl url, html, now⟩) :
    Pages C H (cache.tryGet hashUrl thread url now).2 := by
  have synced := pages.beginLookup thread
  have kept : Pages C H
      ((cache.beginLookup thread).withCold (cache.coldCache.get (hashUrl url) now).2) :=
    synced.withCold fun page => pages.cold (ColdCache.hasPage_get page)
  rcases tryGet_cases hashUrl cache thread url now with
    ⟨html, _, result⟩ | ⟨peeked, ⟨html, answer, result⟩ | ⟨_, result⟩⟩
  · rw [result]
    exact synced.hotHit
  · rw [result]
    refine kept.coldHit fun state present => ?_
    obtain ⟨pageUrl, createdAt, page, live⟩ := ColdCache.get_some answer
    change (cache.beginLookup thread).hotCache thread = some state at present
    rw [SsrCache.beginLookup, getOrInitHotCache_self, Option.some.injEq] at present
    subst present
    rw [syncedHot_generation]
    exact promoted (pages.cold page) live peeked answer
  · rw [result]
    exact kept.missed

/-- An insertion puts its page in the place of the cold page under its key, and
into one hot cache. -/
theorem Pages.insert {C' : ColdPredicate} (pages : Pages C H cache) {thread : ThreadId}
    {order : ScanOrder} {url html : String} {now : Nat} (newCold : C' (hashUrl url) url html now)
    (keptCold : ∀ {key pageUrl pageHtml createdAt}, key ≠ hashUrl url →
      C key pageUrl pageHtml createdAt → C' key pageUrl pageHtml createdAt)
    (newHot : H thread cache.generation (hashUrl url) ⟨hashUrl url, html, now⟩) :
    Pages C' H (cache.insert hashUrl thread order url html now) := by
  refine (((pages.withCold fun page => ?_).count _).getOrInitHotCache thread).insertHot
    fun state present => ?_
  · rcases ColdCache.hasPage_insert page with ⟨rfl, rfl, rfl, rfl⟩ | ⟨different, old⟩
    · exact newCold
    · exact keptCold different (pages.cold old)
  · rw [getOrInitHotCache_self, Option.some.injEq] at present
    subst present
    rw [syncedHot_generation]
    exact newHot

/-- An invalidation leaves no cold page under the key of its URL. -/
theorem Pages.invalidate (pages : Pages C H cache) (url : String) :
    Pages (fun key pageUrl html createdAt => key ≠ hashUrl url ∧ C key pageUrl html createdAt) H
      (cache.invalidate hashUrl url) := by
  have removed : Pages (fun key pageUrl html createdAt =>
      key ≠ hashUrl url ∧ C key pageUrl html createdAt) H
      (cache.withCold (cache.coldCache.remove (hashUrl url)).2) :=
    pages.withCold fun page =>
      let ⟨different, old⟩ := ColdCache.hasPage_remove page
      ⟨different, pages.cold old⟩
  unfold SsrCache.invalidate
  dsimp only
  split_ifs
  · exact removed.bumpGeneration
  · exact removed

/-- A prefix invalidation leaves no cold page whose URL has the prefix. -/
theorem Pages.invalidatePrefix (pages : Pages C H cache) (order : ScanOrder)
    (urlPrefix : String) :
    Pages (fun key pageUrl html createdAt =>
        startsWith pageUrl urlPrefix = false ∧ C key pageUrl html createdAt) H
      (cache.invalidatePrefix order urlPrefix).2 := by
  have removed : Pages (fun key pageUrl html createdAt =>
      startsWith pageUrl urlPrefix = false ∧ C key pageUrl html createdAt) H
      (cache.withCold (cache.coldCache.removeByPrefix order urlPrefix).2) :=
    pages.withCold fun page =>
      let ⟨different, old⟩ := ColdCache.hasPage_removeByPrefix page
      ⟨different, pages.cold old⟩
  unfold SsrCache.invalidatePrefix
  dsimp only
  split_ifs
  · exact removed.bumpGeneration
  · exact removed

/-- A clear leaves no cold page at all. -/
theorem Pages.clear (pages : Pages C H cache) :
    Pages (fun _ _ _ _ => False) H cache.clear :=
  ((pages.withCold fun page => ColdCache.not_hasPage_clear _ _ _ _ _ page).bumpGeneration).count _

/-- The pages after an event, when the page it promotes or inserts is allowed. -/
theorem Pages.apply (pages : Pages C H cache) {event : Event}
    (promoted : ∀ thread url, event.op = .tryGet thread url →
      ∀ {pageUrl html createdAt}, C (hashUrl url) pageUrl html createdAt →
        outlived cache.coldCache.ttl createdAt event.now = false →
        (cache.syncedHot thread).cache.peek (hashUrl url) event.now = none →
        (cache.coldCache.get (hashUrl url) event.now).1 = some html →
        H thread cache.generation (hashUrl url) ⟨hashUrl url, html, event.now⟩)
    (inserted : ∀ thread order url html, event.op = .insert thread order url html →
      C (hashUrl url) url html event.now ∧
        H thread cache.generation (hashUrl url) ⟨hashUrl url, html, event.now⟩) :
    Pages C H (cache.apply hashUrl event) := by
  obtain ⟨now, op⟩ := event
  cases op with
  | tryGet thread url => exact pages.tryGet (promoted thread url rfl)
  | insert thread order url html =>
      obtain ⟨newCold, newHot⟩ := inserted thread order url html rfl
      exact pages.insert newCold (fun _ old => old) newHot
  | invalidate url => exact (pages.invalidate url).mono And.right id
  | invalidatePrefix order urlPrefix =>
      exact (pages.invalidatePrefix order urlPrefix).mono And.right id
  | clear => exact pages.clear.mono False.elim id

/-- A lookup that answers returns a live entry of its synchronised hot cache or
a live page of the cold cache. -/
theorem tryGet_some {thread : ThreadId} {url html : String} {now : Nat}
    (answer : (cache.tryGet hashUrl thread url now).1 = some html) :
    (∃ entry, (cache.syncedHot thread).cache.Exposes (hashUrl url) entry ∧ entry.html = html ∧
        outlived (cache.syncedHot thread).cache.ttl entry.createdAt now = false) ∨
      ∃ pageUrl createdAt, cache.coldCache.HasPage (hashUrl url) pageUrl html createdAt ∧
        outlived cache.coldCache.ttl createdAt now = false := by
  rcases tryGet_cases hashUrl cache thread url now with
    ⟨found, peeked, result⟩ | ⟨_, ⟨found, cold, result⟩ | ⟨_, result⟩⟩
  · rw [result] at answer
    obtain rfl := Option.some.inj answer
    exact Or.inl (HotCache.peek_some peeked)
  · rw [result] at answer
    obtain rfl := Option.some.inj answer
    exact Or.inr (ColdCache.get_some cold)
  · rw [result] at answer
    contradiction

/-- A visible hot entry answers a lookup whatever the cold cache holds. -/
theorem tryGet_of_peek {thread : ThreadId} {url html : String} {now : Nat}
    (visible : (cache.syncedHot thread).cache.peek (hashUrl url) now = some html) :
    (cache.tryGet hashUrl thread url now).1 = some html := by
  rcases tryGet_cases hashUrl cache thread url now with
    ⟨found, peeked, result⟩ | ⟨peeked, _⟩
  · rw [result, ← visible, peeked]
  · rw [peeked] at visible
    contradiction

/-- A lookup answered by the cold cache inserts the page into its hot cache. -/
theorem tryGet_promotes {thread : ThreadId} {url html : String} {now : Nat}
    (missed : (cache.syncedHot thread).cache.peek (hashUrl url) now = none)
    (found : (cache.coldCache.get (hashUrl url) now).1 = some html) :
    (cache.tryGet hashUrl thread url now).2.syncedHot thread =
      ⟨cache.generation, (cache.syncedHot thread).cache.insert (hashUrl url) html now⟩ := by
  rcases tryGet_cases hashUrl cache thread url now with
    ⟨_, peeked, _⟩ | ⟨_, ⟨page, cold, result⟩ | ⟨cold, _⟩⟩
  · rw [missed] at peeked
    contradiction
  · obtain rfl : html = page := Option.some.inj (found.symm.trans cold)
    have hotEq : (cache.tryGet hashUrl thread url now).2.hotCache = Function.update cache.hotCache
        thread (some ⟨cache.generation,
          (cache.syncedHot thread).cache.insert (hashUrl url) html now⟩) := by
      rw [result]
      exact getOrInitHotCache_insertHot _ thread (hashUrl url) html now
    have generationEq : (cache.tryGet hashUrl thread url now).2.generation = cache.generation := by
      rw [result]
      rfl
    refine syncedHot_of_current ?_ generationEq.symm
    rw [hotEq, Function.update_self]
  · rw [found] at cold
    contradiction

/-- Every answer meets the predicate of the tier it came from. -/
theorem Pages.tryGet_some (pages : Pages C H cache) {thread : ThreadId} {url html : String}
    {now : Nat} (answer : (cache.tryGet hashUrl thread url now).1 = some html) :
    (∃ entry, H thread cache.generation (hashUrl url) entry ∧ entry.html = html ∧
        outlived (cache.syncedHot thread).cache.ttl entry.createdAt now = false) ∨
      ∃ pageUrl createdAt, C (hashUrl url) pageUrl html createdAt ∧
        outlived cache.coldCache.ttl createdAt now = false := by
  rcases SsrCache.tryGet_some answer with ⟨entry, exposed, sameHtml, live⟩ |
    ⟨pageUrl, createdAt, page, live⟩
  · obtain ⟨state, present, sameGeneration, oldExposed⟩ := syncedHot_exposes exposed
    exact Or.inl ⟨entry, sameGeneration ▸ pages.hot present oldExposed, sameHtml, live⟩
  · exact Or.inr ⟨pageUrl, createdAt, pages.cold page, live⟩

/-! ### What is exposed is served in the end -/

/-- Insertions of one page by one thread repeat in its hot cache. -/
theorem run_inserts_syncedHot (cache : SsrCache) (thread : ThreadId) (order : ScanOrder)
    (url html : String) (now count : Nat) :
    ((Execution.run (apply hashUrl) cache
        (List.replicate count ⟨now, .insert thread order url html⟩)).syncedHot thread).cache =
      (cache.syncedHot thread).cache.insertTimes (hashUrl url) html now count := by
  induction count generalizing cache with
  | zero => rfl
  | succ count inductionHypothesis =>
      rw [List.replicate_succ, HotCache.insertTimes]
      have inserted := insert_syncedHot hashUrl cache thread order url html now
      have rest := inductionHypothesis (cache.insert hashUrl thread order url html now)
      rw [inserted] at rest
      exact rest

/-- An exposed entry within its time is returned by a lookup after its thread
has inserted another page often enough. -/
theorem exposes_becomes_hit {cache : SsrCache} {thread : ThreadId} {url other : String}
    {entry : HotEntry} {now : Nat}
    (exposed : (cache.syncedHot thread).cache.Exposes (hashUrl url) entry)
    (live : outlived (cache.syncedHot thread).cache.ttl entry.createdAt now = false)
    (different : hashUrl other ≠ hashUrl url) (order : ScanOrder) (html : String) :
    ∃ count, ((Execution.run (SsrCache.apply hashUrl) cache
        (List.replicate count ⟨now, .insert thread order other html⟩)).tryGet hashUrl thread url
          now).1 = some entry.html := by
  obtain ⟨count, visible⟩ := HotCache.exposes_becomes_visible exposed live different html
  refine ⟨count, tryGet_of_peek ?_⟩
  rw [run_inserts_syncedHot]
  exact visible

/-- On a cache without pages an insertion is answered at once. -/
theorem Pages.tryGet_insert {cache : SsrCache}
    (empty : Pages (fun _ _ _ _ => False) (fun _ _ _ _ => False) cache)
    (hashUrl : String → UInt64) (thread : ThreadId) (order : ScanOrder) (url html : String)
    (now : Nat) :
    ((cache.insert hashUrl thread order url html now).tryGet hashUrl thread url now).1 =
      some html := by
  have noRecent : ∀ other ∈ (cache.syncedHot thread).cache.recentEntries,
      other.urlHash ≠ hashUrl url := by
    intro other member sameKey
    obtain ⟨state, present, _, exposed⟩ := syncedHot_exposes (.recent member sameKey)
    exact empty.hot present exposed
  refine tryGet_of_peek ?_
  rw [insert_syncedHot]
  exact HotCache.insert_peek noRecent

end Operations

/-! ### The other threads -/

section OtherThreads

variable {hashUrl : String → UInt64} {cache : SsrCache}

theorem tryGet_hotCache_other {thread other : ThreadId} {url : String} {now : Nat}
    (different : other ≠ thread) :
    (cache.tryGet hashUrl thread url now).2.hotCache other = cache.hotCache other := by
  have synced := getOrInitHotCache_other cache different
  rcases tryGet_cases hashUrl cache thread url now with
    ⟨_, _, result⟩ | ⟨_, ⟨page, _, result⟩ | ⟨_, result⟩⟩
  · rw [result]
    exact synced
  · rw [result]
    exact (Function.update_of_ne different _ _).trans synced
  · rw [result]
    exact synced

/-- An operation touches the hot cache of one thread at most. -/
theorem apply_hotCache_other (event : Event) :
    ∃ thread, ∀ other, other ≠ thread →
      (cache.apply hashUrl event).hotCache other = cache.hotCache other := by
  obtain ⟨time, op⟩ := event
  cases op with
  | tryGet thread target => exact ⟨thread, fun _ different => tryGet_hotCache_other different⟩
  | insert thread order target page =>
      refine ⟨thread, fun other different => ?_⟩
      show (cache.insert hashUrl thread order target page time).hotCache other = _
      rw [insert_hotCache, Function.update_of_ne different]
  | invalidate target => exact ⟨0, fun _ _ => congrFun (invalidate_hotCache _ _ target) _⟩
  | invalidatePrefix order urlPrefix =>
      exact ⟨0, fun _ _ => congrFun (invalidatePrefix_hotCache _ order urlPrefix) _⟩
  | clear => exact ⟨0, fun _ _ => rfl⟩

end OtherThreads

end RustySsr.Cache.SsrCache
