import Mathlib.Data.Set.Finite.Basic
import RustySsr.Cache.Cold.WorkingSet
import RustySsr.Cache.Ssr.Provenance

/-!
Owns what the multi-tier cache is for: a directory that holds the page of each
URL until it is invalidated. While the stored URLs fit into the cold cache, no
page expires, and pages are only stored where the directory has none, the cache
is such a directory, on whatever threads its operations run. Then the cold cache
holds every page, so an invalidation that concerns one always reaches it.
-/

namespace RustySsr.Cache.SsrCache

open RustySsr.Platform
open RustySsr.Foundation

/-- The page of each URL. -/
abbrev Directory := String → Option String

/-- The directory with the pages of some URLs only. -/
def Directory.keep (pages : Directory) (keeps : String → Bool) : Directory :=
  fun url => (pages url).filter fun _ => keeps url

inductive Answer where
  | found (html : Option String)
  | inserted
  | invalidated
  | removed (count : Nat)
  | cleared
deriving DecidableEq, Repr

section Machines

variable (hashUrl : String → UInt64)

/-- What an operation answers, and the cache after it. -/
def respond (cache : SsrCache) (event : Event) : Answer × SsrCache :=
  (match event.op with
    | .tryGet thread url => .found (cache.tryGet hashUrl thread url event.now).1
    | .insert _ _ _ _ => .inserted
    | .invalidate _ => .invalidated
    | .invalidatePrefix order urlPrefix => .removed (cache.invalidatePrefix order urlPrefix).1
    | .clear => .cleared,
    cache.apply hashUrl event)

/-- What a directory of pages of the given URLs answers, and the directory after
the operation. -/
def Directory.respond (working : Finset String) (pages : Directory) (event : Event) :
    Answer × Directory :=
  match event.op with
  | .tryGet _ url => (.found (pages url), pages)
  | .insert _ _ url html => (.inserted, Function.update pages url (some html))
  | .invalidate url => (.invalidated, pages.keep fun other => other ≠ url)
  | .invalidatePrefix _ urlPrefix =>
      (.removed
        (working.filter fun url => (pages url).isSome ∧ startsWith url urlPrefix = true).card,
        pages.keep fun url => !startsWith url urlPrefix)
  | .clear => (.cleared, pages.keep fun _ => false)

/-- The operation uses a known URL, and stores a page of the working set only if
there is none. -/
def StoresMissing (urls : Set String) (working : Finset String) (pages : Directory)
    (event : Event) : Prop :=
  match event.op with
  | .tryGet _ url => url ∈ urls
  | .insert _ _ url _ => url ∈ working ∧ pages url = none
  | .invalidate url => url ∈ urls
  | _ => True

/-- The directory has this page under the key. -/
def Files (pages : Directory) (key : UInt64) (html : String) : Prop :=
  ∃ url, hashUrl url = key ∧ pages url = some html

/-- The cold cache holds exactly the pages of the directory, and the hot caches
of the current generation hold pages of it only. -/
structure Represents (urls : Set String) (working : Finset String) (maxColdEntries : Nat)
    (pages : Directory) (cache : SsrCache) : Prop where
  within : ∀ url html, pages url = some html → url ∈ working
  known : ∀ url ∈ working, url ∈ urls
  cold : ColdCache.Retains maxColdEntries (working.image hashUrl) cache.coldCache.pages
    cache.coldCache
  filed : ∀ key url html, cache.coldCache.pages key = some (url, html) ↔
    hashUrl url = key ∧ pages url = some html
  hot : Pages (fun _ _ _ _ => True) (fun _ generation key entry =>
    generation = cache.generation → Files hashUrl pages key entry.html) cache
  same : SameTtl 0 cache
  behind : HotAll (fun generation _ => generation.toNat ≤ cache.generation.toNat) cache

end Machines

section Steps

variable {hashUrl : String → UInt64} {urls : Set String} {working : Finset String}
  {maxColdEntries : Nat} {pages : Directory} {cache : SsrCache}

/-! ### What the tiers say about a URL -/

theorem Represents.url_eq (represents : Represents hashUrl urls working maxColdEntries pages cache)
    (distinct : Set.InjOn hashUrl urls) {url other html : String} (known : url ∈ urls)
    (sameHash : hashUrl other = hashUrl url) (page : pages other = some html) : other = url :=
  distinct (represents.known other (represents.within other html page)) known sameHash

theorem Represents.cold_pages
    (represents : Represents hashUrl urls working maxColdEntries pages cache)
    (distinct : Set.InjOn hashUrl urls) {url : String} (known : url ∈ urls) :
    (cache.coldCache.pages (hashUrl url)).map Prod.snd = pages url := by
  cases cold : cache.coldCache.pages (hashUrl url) with
  | none =>
      cases page : pages url with
      | none => rfl
      | some html =>
          rw [(represents.filed _ url html).mpr ⟨rfl, page⟩] at cold
          contradiction
  | some stored =>
      obtain ⟨other, html⟩ := stored
      obtain ⟨sameHash, page⟩ := (represents.filed _ other html).mp cold
      obtain rfl := represents.url_eq distinct known sameHash page
      exact page.symm

theorem Represents.tryGet_answer
    (represents : Represents hashUrl urls working maxColdEntries pages cache)
    (distinct : Set.InjOn hashUrl urls) (thread : ThreadId) {url : String} (known : url ∈ urls)
    (now : Nat) : (cache.tryGet hashUrl thread url now).1 = pages url := by
  have coldAnswer := (ColdCache.get_pages represents.cold.noTtl (hashUrl url) now).1
  rw [represents.cold_pages distinct known] at coldAnswer
  rcases tryGet_cases hashUrl cache thread url now with
    ⟨html, peeked, result⟩ | ⟨_, ⟨html, found, result⟩ | ⟨missed, result⟩⟩
  · rw [result]
    obtain ⟨entry, exposed, rfl, _⟩ := HotCache.peek_some peeked
    obtain ⟨state, present, current, hotExposed⟩ := syncedHot_exposes exposed
    obtain ⟨other, sameHash, page⟩ := represents.hot.hot present hotExposed current
    obtain rfl := represents.url_eq distinct known sameHash page
    exact page.symm
  · rw [result, ← coldAnswer, found]
  · rw [result, ← coldAnswer, missed]

/-! ### One operation -/

/-- What every operation keeps of the hot caches' headers. -/
theorem headers_apply (hashUrl : String → UInt64) (same : SameTtl 0 cache)
    (behind : HotAll (fun generation _ => generation.toNat ≤ cache.generation.toNat) cache)
    (event : Event) (room : cache.generation.toNat + bumps [event] < 2 ^ 64) :
    SameTtl 0 (cache.apply hashUrl event) ∧
      HotAll (fun generation _ => generation.toNat ≤
        (cache.apply hashUrl event).generation.toNat) (cache.apply hashUrl event) :=
  ⟨same.apply event, (@run_generation_mono hashUrl cache [event] room behind).2⟩

theorem tryGet_coldCache (hashUrl : String → UInt64) (cache : SsrCache) (thread : ThreadId)
    (url : String) (now : Nat) :
    (cache.tryGet hashUrl thread url now).2.coldCache = cache.coldCache ∨
      (cache.tryGet hashUrl thread url now).2.coldCache =
        (cache.coldCache.get (hashUrl url) now).2 := by
  rcases tryGet_cases hashUrl cache thread url now with
    ⟨html, _, result⟩ | ⟨_, ⟨html, _, result⟩ | ⟨_, result⟩⟩
  · rw [result]
    exact Or.inl rfl
  · rw [result]
    exact Or.inr rfl
  · rw [result]
    exact Or.inr rfl

theorem tryGet_generation (hashUrl : String → UInt64) (cache : SsrCache) (thread : ThreadId)
    (url : String) (now : Nat) :
    (cache.tryGet hashUrl thread url now).2.generation = cache.generation :=
  (apply_generation hashUrl cache ⟨now, .tryGet thread url⟩).resolve_right (by simp [Event.mayBump])

theorem Represents.tryGet
    (represents : Represents hashUrl urls working maxColdEntries pages cache)
    (distinct : Set.InjOn hashUrl urls) (thread : ThreadId) {url : String} (known : url ∈ urls)
    (now : Nat) :
    Represents hashUrl urls working maxColdEntries pages
      (cache.tryGet hashUrl thread url now).2 := by
  obtain ⟨same, behind⟩ := headers_apply hashUrl represents.same represents.behind
    ⟨now, .tryGet thread url⟩ cache.generation.toNat_lt
  have samePages := (ColdCache.get_pages represents.cold.noTtl (hashUrl url) now).2
  have coldPages : (cache.tryGet hashUrl thread url now).2.coldCache.pages =
      cache.coldCache.pages := by
    rcases tryGet_coldCache hashUrl cache thread url now with unchanged | read
    · rw [unchanged]
    · rw [read, samePages]
  have generation := tryGet_generation hashUrl cache thread url now
  refine
    { within := represents.within
      known := represents.known
      cold := ?_
      filed := by rw [coldPages]; exact represents.filed
      hot := ?_
      same := same
      behind := behind }
  · rw [coldPages]
    rcases tryGet_coldCache hashUrl cache thread url now with unchanged | read
    · rw [unchanged]
      exact represents.cold
    · rw [read]
      exact represents.cold.get (hashUrl url) now
  · rw [generation]
    refine represents.hot.tryGet fun _ _ _ found => ?_
    intro _
    have page := (ColdCache.get_pages represents.cold.noTtl (hashUrl url) now).1
    rw [found, represents.cold_pages distinct known] at page
    exact ⟨url, rfl, page.symm⟩

/-- A page of the working set that is not stored finds room. -/
theorem Represents.insert
    (represents : Represents hashUrl urls working maxColdEntries pages cache)
    (distinct : Set.InjOn hashUrl urls) (fits : working.card ≤ maxColdEntries)
    (thread : ThreadId) (order : ScanOrder) {url : String} (stored : url ∈ working)
    (missing : pages url = none) (html : String) (now : Nat) :
    Represents hashUrl urls working maxColdEntries (Function.update pages url (some html))
      (cache.insert hashUrl thread order url html now) := by
  obtain ⟨same, behind⟩ := headers_apply hashUrl represents.same represents.behind
    ⟨now, .insert thread order url html⟩ cache.generation.toNat_lt
  have known := represents.known url stored
  have coldMissing := represents.cold_pages distinct known
  rw [missing, Option.map_eq_none_iff] at coldMissing
  have absent : hashUrl url ∉ cache.coldCache.cache := by
    rw [ColdCache.mem_cache_iff, coldMissing]
    simp
  have free := represents.cold.len_lt_of_notMem (Finset.card_image_le.trans fits)
    (Finset.mem_image_of_mem hashUrl stored) absent
  have inserted := represents.cold.insert (Finset.mem_image_of_mem hashUrl stored) free order url
    html now
  -- The new page is under a key of its own, so the other pages stay as they are.
  have others : ∀ {other page}, pages other = some page →
      Function.update pages url (some html) other = some page := by
    intro other page present
    rw [Function.update_of_ne]
    · exact present
    · rintro rfl
      rw [missing] at present
      contradiction
  refine
    { within := ?_
      known := represents.known
      cold := inserted.pages.symm ▸ inserted
      filed := ?_
      hot := ?_
      same := same
      behind := behind }
  · intro other page present
    by_cases here : other = url
    · exact here ▸ stored
    · rw [Function.update_of_ne here] at present
      exact represents.within other page present
  · intro key other page
    change (cache.coldCache.insert order (hashUrl url) url html now).2.pages key = _ ↔ _
    rw [inserted.pages]
    by_cases here : key = hashUrl url
    · subst here
      rw [Function.update_self, Option.some.injEq, Prod.mk.injEq]
      constructor
      · rintro ⟨rfl, rfl⟩
        exact ⟨rfl, Function.update_self _ _ _⟩
      · rintro ⟨sameHash, present⟩
        by_cases sameUrl : other = url
        · subst sameUrl
          rw [Function.update_self, Option.some.injEq] at present
          exact ⟨rfl, present⟩
        · rw [Function.update_of_ne sameUrl] at present
          exact absurd (represents.url_eq distinct known sameHash present) sameUrl
    · rw [Function.update_of_ne here, represents.filed]
      constructor
      · rintro ⟨sameHash, present⟩
        exact ⟨sameHash, others present⟩
      · rintro ⟨rfl, present⟩
        rw [Function.update_of_ne (fun sameUrl => here (congrArg hashUrl sameUrl))] at present
        exact ⟨rfl, present⟩
  · refine Pages.insert (C := fun _ _ _ _ => True) (represents.hot.mono id ?_) trivial
      (fun _ _ => trivial) fun _ => ⟨url, rfl, Function.update_self _ _ _⟩
    intro _ generation key entry files current
    obtain ⟨other, sameHash, present⟩ := files current
    exact ⟨other, sameHash, others present⟩

theorem Directory.keep_some_iff {keeps : String → Bool} {url html : String} :
    pages.keep keeps url = some html ↔ pages url = some html ∧ keeps url = true :=
  Option.filter_eq_some_iff

/-- Pages are dropped from the cold cache. The hot caches are left behind by a
bump, unless there was no such page. -/
theorem Represents.dropped
    (represents : Represents hashUrl urls working maxColdEntries pages cache)
    (keeps : String → Bool) {next : SsrCache}
    (cold : ColdCache.Retains maxColdEntries (working.image hashUrl) next.coldCache.pages
      next.coldCache)
    (coldPages : ∀ key page, next.coldCache.pages key = some page ↔
      cache.coldCache.pages key = some page ∧ keeps page.1 = true)
    (hotCache : next.hotCache = cache.hotCache)
    (changed : (next.generation = cache.generation + 1 ∧ cache.generation.toNat + 1 < 2 ^ 64) ∨
      (next.generation = cache.generation ∧ ∀ url html, pages url = some html → keeps url = true))
    (same : SameTtl 0 next)
    (behind : HotAll (fun generation _ => generation.toNat ≤ next.generation.toNat) next) :
    Represents hashUrl urls working maxColdEntries (pages.keep keeps) next where
  within := fun url html page => represents.within url html (Directory.keep_some_iff.mp page).1
  known := represents.known
  cold := cold
  filed := by
    intro key url html
    rw [coldPages, represents.filed, Directory.keep_some_iff, and_assoc]
  hot :=
    { cold := fun _ => trivial
      hot := by
        intro thread state key entry present exposed current
        rw [hotCache] at present
        rcases changed with ⟨bumped, room⟩ | ⟨unchanged, all⟩
        · have notAhead := represents.behind thread state present
          rw [current, bumped, toNat_add_one room] at notAhead
          omega
        · obtain ⟨url, sameHash, page⟩ :=
            represents.hot.hot present exposed (current.trans unchanged)
          exact ⟨url, sameHash, Directory.keep_some_iff.mpr ⟨page, all url _ page⟩⟩ }
  same := same
  behind := behind

theorem Represents.invalidate
    (represents : Represents hashUrl urls working maxColdEntries pages cache)
    (distinct : Set.InjOn hashUrl urls) {url : String} (known : url ∈ urls)
    (room : cache.generation.toNat + 1 < 2 ^ 64) :
    Represents hashUrl urls working maxColdEntries (pages.keep fun other => other ≠ url)
      (cache.invalidate hashUrl url) := by
  obtain ⟨same, behind⟩ := headers_apply hashUrl represents.same represents.behind
    ⟨0, .invalidate url⟩ room
  have coldEq := invalidate_coldCache hashUrl cache url
  have removed : ColdCache.Retains maxColdEntries (working.image hashUrl)
      (Function.update cache.coldCache.pages (hashUrl url) none)
      (cache.coldCache.remove (hashUrl url)).2 :=
    represents.cold.respond_of_not_insert (show ColdCache.Event.storedKey ⟨0, .remove _⟩ = none
      from rfl)
  have generation := invalidate_generation hashUrl cache url
  refine represents.dropped _ (by rw [coldEq, removed.pages]; exact removed) ?_ ?_ ?_ same behind
  · rintro key ⟨other, html⟩
    rw [coldEq, removed.pages, decide_eq_true_iff]
    by_cases here : key = hashUrl url
    · subst here
      rw [Function.update_self]
      refine iff_of_false (by simp) ?_
      rintro ⟨filed, different⟩
      obtain ⟨sameHash, page⟩ := (represents.filed _ other html).mp filed
      exact different (represents.url_eq distinct known sameHash page)
    · rw [Function.update_of_ne here]
      refine ⟨fun filed => ⟨filed, ?_⟩, And.left⟩
      rintro rfl
      exact here ((represents.filed _ other html).mp filed).1.symm
  · unfold SsrCache.invalidate
    dsimp only
    split_ifs <;> rfl
  · split_ifs at generation with found
    · exact Or.inl ⟨generation, room⟩
    · refine Or.inr ⟨generation, fun other html page => ?_⟩
      rw [decide_eq_true_iff]
      rintro rfl
      have filed := (represents.filed _ other html).mpr ⟨rfl, page⟩
      simp only [ColdCache.remove, Bool.not_eq_true, Option.isSome_eq_false_iff,
        Option.isNone_iff_eq_none] at found
      rw [ColdCache.pages, found] at filed
      contradiction

/-- A prefix removal collects the keys of the pages with the prefix. -/
theorem Represents.mem_keysWithPrefix_iff
    (represents : Represents hashUrl urls working maxColdEntries pages cache) (order : ScanOrder)
    (urlPrefix : String) {key : UInt64} :
    key ∈ cache.coldCache.keysWithPrefix order urlPrefix ↔
      ∃ url html, hashUrl url = key ∧ pages url = some html ∧ startsWith url urlPrefix = true := by
  rw [ColdCache.mem_keysWithPrefix_iff]
  constructor
  · rintro ⟨entry, present, matched⟩
    have filed : cache.coldCache.pages key = some (entry.url, entry.html) := by
      rw [ColdCache.pages, present]
      rfl
    obtain ⟨sameHash, page⟩ := (represents.filed _ _ _).mp filed
    exact ⟨entry.url, entry.html, sameHash, page, matched⟩
  · rintro ⟨url, html, sameHash, page, matched⟩
    obtain ⟨entry, present, content⟩ := Option.map_eq_some_iff.mp
      ((represents.filed key url html).mpr ⟨sameHash, page⟩)
    obtain ⟨sameUrl, _⟩ := Prod.mk.inj content
    exact ⟨entry, present, sameUrl ▸ matched⟩

/-- It counts each page once, since its pages have keys of their own. -/
theorem Represents.invalidatePrefix_count
    (represents : Represents hashUrl urls working maxColdEntries pages cache)
    (distinct : Set.InjOn hashUrl urls) (order : ScanOrder) (urlPrefix : String) :
    (cache.invalidatePrefix order urlPrefix).1 =
      (working.filter fun url => (pages url).isSome ∧ startsWith url urlPrefix = true).card := by
  have sameKeys : (cache.coldCache.keysWithPrefix order urlPrefix).toFinset =
      (working.filter fun url =>
        (pages url).isSome ∧ startsWith url urlPrefix = true).image hashUrl := by
    ext key
    rw [List.mem_toFinset, represents.mem_keysWithPrefix_iff order urlPrefix, Finset.mem_image]
    constructor
    · rintro ⟨url, html, sameHash, page, matched⟩
      exact ⟨url, Finset.mem_filter.mpr ⟨represents.within url html page, page ▸ rfl, matched⟩,
        sameHash⟩
    · rintro ⟨url, member, sameHash⟩
      obtain ⟨_, stored, matched⟩ := Finset.mem_filter.mp member
      obtain ⟨html, page⟩ := Option.isSome_iff_exists.mp stored
      exact ⟨url, html, sameHash, page, matched⟩
  have apart : Set.InjOn hashUrl (working.filter fun url =>
      (pages url).isSome ∧ startsWith url urlPrefix = true : Finset String) :=
    distinct.mono fun url member => represents.known url (Finset.mem_of_mem_filter url member)
  calc (cache.coldCache.keysWithPrefix order urlPrefix).length
      = (cache.coldCache.keysWithPrefix order urlPrefix).toFinset.card :=
        (List.toFinset_card_of_nodup (ColdCache.nodup_keysWithPrefix _ order urlPrefix)).symm
    _ = _ := by rw [sameKeys, Finset.card_image_of_injOn apart]

theorem Represents.invalidatePrefix
    (represents : Represents hashUrl urls working maxColdEntries pages cache) (order : ScanOrder)
    (urlPrefix : String) (room : cache.generation.toNat + 1 < 2 ^ 64) :
    Represents hashUrl urls working maxColdEntries
      (pages.keep fun url => !startsWith url urlPrefix)
      (cache.invalidatePrefix order urlPrefix).2 := by
  obtain ⟨same, behind⟩ := headers_apply hashUrl represents.same represents.behind
    ⟨0, .invalidatePrefix order urlPrefix⟩ room
  have coldEq : (cache.invalidatePrefix order urlPrefix).2.coldCache =
      (cache.coldCache.removeByPrefix order urlPrefix).2 := by
    unfold SsrCache.invalidatePrefix
    dsimp only
    split_ifs <;> rfl
  have removed : ColdCache.Retains maxColdEntries (working.image hashUrl)
      (fun key => (cache.coldCache.pages key).filter fun page => !startsWith page.1 urlPrefix)
      (cache.coldCache.removeByPrefix order urlPrefix).2 :=
    represents.cold.respond_of_not_insert
      (show ColdCache.Event.storedKey ⟨0, .removeByPrefix order urlPrefix⟩ = none from rfl)
  have generation := invalidatePrefix_generation cache order urlPrefix
  refine represents.dropped _ (by rw [coldEq, removed.pages]; exact removed) ?_ ?_ ?_ same behind
  · intro key page
    rw [coldEq, removed.pages]
    exact Option.filter_eq_some_iff
  · unfold SsrCache.invalidatePrefix
    dsimp only
    split_ifs <;> rfl
  · split_ifs at generation with found
    · exact Or.inl ⟨generation, room⟩
    · refine Or.inr ⟨generation, fun url html page => ?_⟩
      by_contra matched
      rw [Bool.not_eq_true', Bool.not_eq_false] at matched
      have collected := (represents.mem_keysWithPrefix_iff order urlPrefix).mpr
        ⟨url, html, rfl, page, matched⟩
      exact found (List.length_pos_of_mem collected)

theorem Represents.clear
    (represents : Represents hashUrl urls working maxColdEntries pages cache)
    (room : cache.generation.toNat + 1 < 2 ^ 64) :
    Represents hashUrl urls working maxColdEntries (pages.keep fun _ => false) cache.clear := by
  obtain ⟨same, behind⟩ := headers_apply hashUrl represents.same represents.behind ⟨0, .clear⟩ room
  have cleared : ColdCache.Retains maxColdEntries (working.image hashUrl) (fun _ => none)
      cache.coldCache.clear :=
    represents.cold.respond_of_not_insert (show ColdCache.Event.storedKey ⟨0, .clear⟩ = none
      from rfl)
  refine represents.dropped _ ?_ ?_ rfl (Or.inl ⟨rfl, room⟩) same behind
  · exact cleared.pages.symm ▸ cleared
  · intro key page
    have none : cache.clear.coldCache.pages = fun _ => Option.none := cleared.pages
    simp [none]

/-- The cache and the directory are in step. -/
theorem Represents.respond
    (represents : Represents hashUrl urls working maxColdEntries pages cache)
    (distinct : Set.InjOn hashUrl urls) (fits : working.card ≤ maxColdEntries) {event : Event}
    (allowed : StoresMissing urls working pages event)
    (room : cache.generation.toNat + bumps [event] < 2 ^ 64) :
    (cache.respond hashUrl event).1 = (pages.respond working event).1 ∧
      Represents hashUrl urls working maxColdEntries (pages.respond working event).2
        (cache.respond hashUrl event).2 := by
  obtain ⟨now, op⟩ := event
  cases op with
  | tryGet thread url =>
      exact ⟨congrArg Answer.found (represents.tryGet_answer distinct thread allowed now),
        represents.tryGet distinct thread allowed now⟩
  | insert thread order url html =>
      exact ⟨rfl, represents.insert distinct fits thread order allowed.1 allowed.2 html now⟩
  | invalidate url => exact ⟨rfl, represents.invalidate distinct allowed room⟩
  | invalidatePrefix order urlPrefix =>
      exact ⟨congrArg Answer.removed
        (represents.invalidatePrefix_count distinct order urlPrefix),
        represents.invalidatePrefix order urlPrefix room⟩
  | clear => exact ⟨rfl, represents.clear room⟩

end Steps

/-! ### Every run -/

section Runs

variable {hashUrl : String → UInt64} {urls : Set String} {working : Finset String}
  {maxColdEntries : Nat}

theorem represents_withTtl (known : ∀ url ∈ working, url ∈ urls) :
    Represents hashUrl urls working maxColdEntries (fun _ => none) (withTtl maxColdEntries 0) where
  within := fun _ _ page => by cases page
  known := known
  cold := .withTtl _ _
  filed := fun _ _ _ => iff_of_false (by simp [withTtl, ColdCache.pages, ColdCache.withTtl])
    (fun page => by cases page.2)
  hot := pages_withTtl _ _ _ _
  same := sameTtl_withTtl _ _
  behind := fun _ _ absent => by simp [withTtl] at absent

/-- The cache and the directory are in step, and the counter has not wrapped
around. -/
def InStep (hashUrl : String → UInt64) (urls : Set String) (working : Finset String)
    (maxColdEntries : Nat) (history : List Event) (cache : SsrCache) (pages : Directory) : Prop :=
  Represents hashUrl urls working maxColdEntries pages cache ∧
    cache.generation.toNat ≤ bumps history

theorem InStep.respond {events earlier later : List Event} {event : Event} {cache : SsrCache}
    {pages : Directory} (distinct : Set.InjOn hashUrl urls) (fits : working.card ≤ maxColdEntries)
    (room : bumps events < 2 ^ 64) (split : events = earlier ++ event :: later)
    (inStep : InStep hashUrl urls working maxColdEntries earlier cache pages)
    (allowed : StoresMissing urls working pages event) :
    (cache.respond hashUrl event).1 = (pages.respond working event).1 ∧
      InStep hashUrl urls working maxColdEntries (earlier ++ [event])
        (cache.respond hashUrl event).2 (pages.respond working event).2 := by
  obtain ⟨represents, bounded⟩ := inStep
  rw [split, List.append_cons, bumps_append, bumps_append] at room
  obtain ⟨sameAnswer, next⟩ := represents.respond distinct fits allowed (by omega)
  refine ⟨sameAnswer, next, ?_⟩
  have advanced := run_generation_le hashUrl cache [event]
  rw [bumps_append]
  change (cache.apply hashUrl event).generation.toNat ≤ _ at advanced
  show (cache.apply hashUrl event).generation.toNat ≤ _
  omega

/-- **While its pages fit, the cache is a directory.** A run that stores only
missing pages of a working set no larger than the cold cache is answered as by a
map from URLs to pages, down to the number of pages that a prefix removes. -/
theorem refinesDirectory (distinct : Set.InjOn hashUrl urls) (known : ∀ url ∈ working, url ∈ urls)
    (fits : working.card ≤ maxColdEntries) {events : List Event} (room : bumps events < 2 ^ 64)
    (stores : Execution.Guarded (fun pages event => (Directory.respond working pages event).2)
      (StoresMissing urls working) (fun _ => none) events) :
    Execution.transcript (respond hashUrl) (withTtl maxColdEntries 0) events =
      Execution.transcript (Directory.respond working) (fun _ => none) events := by
  have preserved : ∀ earlier event later cache pages, events = earlier ++ event :: later →
      InStep hashUrl urls working maxColdEntries earlier cache pages →
      StoresMissing urls working pages event →
      (cache.respond hashUrl event).1 = (Directory.respond working pages event).1 ∧
        InStep hashUrl urls working maxColdEntries (earlier ++ [event])
          (cache.respond hashUrl event).2 (Directory.respond working pages event).2 :=
    fun _ _ _ _ _ split inStep allowed => inStep.respond distinct fits room split allowed
  exact (Execution.simulates_within preserved ⟨represents_withTtl known, Nat.le_refl _⟩ stores).1

/-- Two pages and two threads, with an invalidation of each kind. -/
def twoPages : List Event :=
  [⟨0, .insert 0 VisitOrder.stored "/a" "first"⟩, ⟨1, .tryGet 1 "/a"⟩,
    ⟨2, .insert 1 VisitOrder.stored "/b" "second"⟩, ⟨3, .invalidate "/a"⟩, ⟨4, .tryGet 0 "/a"⟩,
    ⟨5, .invalidatePrefix VisitOrder.stored "/"⟩, ⟨6, .tryGet 1 "/b"⟩]

theorem refinesDirectory_twoPages :
    Execution.transcript (respond hashOfTwo) (withTtl 2 0) twoPages =
      [.inserted, .found (some "first"), .inserted, .invalidated, .found none, .removed 1,
        .found none] := by
  have known : ∀ url ∈ ({"/a", "/b"} : Finset String), url ∈ twoUrls := by simp [twoUrls]
  refine (refinesDirectory hashOfTwo_injOn known (by decide) (by decide) ?_).trans (by decide)
  simp [twoPages, Execution.guarded_cons_iff, Execution.guarded_nil, StoresMissing, twoUrls,
    Directory.respond]

end Runs

end RustySsr.Cache.SsrCache
