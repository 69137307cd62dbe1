import Mathlib.Data.Fintype.EquivFin
import Mathlib.Data.Fintype.Pigeonhole
import Mathlib.Data.Set.Subsingleton
import RustySsr.Cache.Ssr.Generation

/-!
Owns where the pages of the multi-tier cache come from. Every page in either
tier was given to an insertion of the run, under a URL with the key's hash:
`servedByHash` states this for the answers, together with what an operation on
a URL with another hash does to a cold entry. No tier compares the stored URL,
so for every hash there are two URLs of which one is served for the other.
-/

namespace RustySsr.Cache.SsrCache

open RustySsr.Platform
open RustySsr.Foundation

/-- The event inserts this page. -/
def Event.Inserts (event : Event) (url html : String) : Prop :=
  ∃ thread order, event.op = .insert thread order url html

/-- Some event of the history inserts this page. -/
def Inserted (events : List Event) (url html : String) : Prop :=
  ∃ event ∈ events, event.Inserts url html

/-- Some event of the history inserts this page at this time. -/
def InsertedAt (events : List Event) (url html : String) (time : Nat) : Prop :=
  ∃ event ∈ events, event.Inserts url html ∧ event.now = time

/-- Every inserted URL belongs to the set. -/
def InsertsWithin (urls : Set String) (events : List Event) : Prop :=
  ∀ url html, Inserted events url html → url ∈ urls

@[simp] theorem inserts_insert {now : Nat} {thread : ThreadId} {order : ScanOrder}
    {url html pageUrl pageHtml : String} :
    Event.Inserts ⟨now, .insert thread order url html⟩ pageUrl pageHtml ↔
      pageUrl = url ∧ pageHtml = html := by
  constructor
  · rintro ⟨_, _, insertion⟩
    cases insertion
    exact ⟨rfl, rfl⟩
  · rintro ⟨rfl, rfl⟩
    exact ⟨thread, order, rfl⟩

@[simp] theorem not_inserts_tryGet (now : Nat) (thread : ThreadId) (url pageUrl html : String) :
    ¬ Event.Inserts ⟨now, .tryGet thread url⟩ pageUrl html := by
  simp [Event.Inserts]

@[simp] theorem not_inserts_invalidate (now : Nat) (url pageUrl html : String) :
    ¬ Event.Inserts ⟨now, .invalidate url⟩ pageUrl html := by
  simp [Event.Inserts]

@[simp] theorem not_inserts_invalidatePrefix (now : Nat) (order : ScanOrder)
    (urlPrefix pageUrl html : String) :
    ¬ Event.Inserts ⟨now, .invalidatePrefix order urlPrefix⟩ pageUrl html := by
  simp [Event.Inserts]

@[simp] theorem not_inserts_clear (now : Nat) (pageUrl html : String) :
    ¬ Event.Inserts ⟨now, .clear⟩ pageUrl html := by
  simp [Event.Inserts]

@[simp] theorem not_inserted_nil (url html : String) : ¬ Inserted [] url html := by
  simp [Inserted]

@[simp] theorem inserted_cons_iff {event : Event} {events : List Event} {url html : String} :
    Inserted (event :: events) url html ↔ event.Inserts url html ∨ Inserted events url html := by
  simp [Inserted]

@[simp] theorem insertsWithin_nil (urls : Set String) : InsertsWithin urls [] := by
  simp [InsertsWithin]

@[simp] theorem insertsWithin_cons_iff {urls : Set String} {event : Event} {events : List Event} :
    InsertsWithin urls (event :: events) ↔
      (∀ url html, event.Inserts url html → url ∈ urls) ∧ InsertsWithin urls events := by
  simp only [InsertsWithin, inserted_cons_iff]
  exact ⟨fun within => ⟨fun url html head => within url html (Or.inl head),
      fun url html tail => within url html (Or.inr tail)⟩,
    fun within url html => Or.rec (within.1 url html) (within.2 url html)⟩

theorem inserted_replicate {count now : Nat} {thread : ThreadId} {order : ScanOrder}
    {url html pageUrl pageHtml : String}
    (insertion : Inserted (List.replicate count ⟨now, .insert thread order url html⟩)
      pageUrl pageHtml) : pageUrl = url ∧ pageHtml = html := by
  obtain ⟨event, member, inserts⟩ := insertion
  rwa [List.eq_of_mem_replicate member, inserts_insert] at inserts

theorem InsertedAt.inserted {events : List Event} {url html : String} {time : Nat}
    (insertion : InsertedAt events url html time) : Inserted events url html :=
  let ⟨event, member, inserts, _⟩ := insertion
  ⟨event, member, inserts⟩

theorem Inserted.mono {events longer : List Event} {url html : String}
    (subset : events ⊆ longer) (insertion : Inserted events url html) :
    Inserted longer url html :=
  let ⟨event, member, inserts⟩ := insertion
  ⟨event, subset member, inserts⟩

theorem InsertedAt.mono {events longer : List Event} {url html : String} {time : Nat}
    (subset : events ⊆ longer) (insertion : InsertedAt events url html time) :
    InsertedAt longer url html time :=
  let ⟨event, member, inserts⟩ := insertion
  ⟨event, subset member, inserts⟩

theorem InsertsWithin.of_subset {urls : Set String} {events shorter : List Event}
    (within : InsertsWithin urls events) (subset : shorter ⊆ events) :
    InsertsWithin urls shorter :=
  fun url html insertion => within url html (insertion.mono subset)

theorem InsertsWithin.append {urls : Set String} {first second : List Event}
    (left : InsertsWithin urls first) (right : InsertsWithin urls second) :
    InsertsWithin urls (first ++ second) := by
  rintro url html ⟨event, member, inserts⟩
  rcases List.mem_append.mp member with inFirst | inSecond
  · exact left url html ⟨event, inFirst, inserts⟩
  · exact right url html ⟨event, inSecond, inserts⟩

/-- A hash that tells the two URLs of the concrete runs apart. -/
def hashOfTwo (url : String) : UInt64 := if url = "/a" then 1 else 2

def twoUrls : Set String := {"/a", "/b"}

theorem twoUrls_nontrivial : twoUrls.Nontrivial :=
  ⟨"/a", Or.inl rfl, "/b", Or.inr rfl, by decide⟩

theorem hashOfTwo_injOn : Set.InjOn hashOfTwo twoUrls := by
  rintro _ (rfl | rfl) _ (rfl | rfl) sameHash
  · rfl
  · exact absurd sameHash (by decide)
  · exact absurd sameHash (by decide)
  · rfl

/-! ### Every page was inserted -/

/-- A cold page was inserted under its own URL at its creation time, and a hot
entry holds a page inserted under some URL with the key's hash. -/
abbrev FromHistory (hashUrl : String → UInt64) (events : List Event) (cache : SsrCache) : Prop :=
  Pages (fun key url html createdAt => key = hashUrl url ∧ InsertedAt events url html createdAt)
    (fun _ _ key entry => ∃ url, hashUrl url = key ∧ Inserted events url entry.html) cache

theorem fromHistory_after (hashUrl : String → UInt64) (maxColdEntries ttlSecs : Nat)
    (events : List Event) :
    FromHistory hashUrl events (after hashUrl maxColdEntries ttlSecs events) := by
  refine Execution.run_invariant_always (FromHistory hashUrl) (pages_withTtl _ _ _ _) ?_
  intro history current event pages
  have earlier : history ⊆ history ++ [event] := List.subset_append_left _ _
  have last : event ∈ history ++ [event] := List.mem_append_right _ (List.mem_singleton_self _)
  refine (pages.mono ?_ ?_).apply ?_ ?_
  · exact fun page => ⟨page.1, page.2.mono earlier⟩
  · rintro _ _ _ _ ⟨url, sameHash, insertion⟩
    exact ⟨url, sameHash, insertion.mono earlier⟩
  · rintro thread url _ pageUrl html createdAt ⟨sameHash, insertion⟩ _ _ _
    exact ⟨pageUrl, sameHash.symm, insertion.inserted⟩
  · intro thread order url html insertion
    have inserts : event.Inserts url html := ⟨thread, order, insertion⟩
    exact ⟨⟨rfl, event, last, inserts, rfl⟩, url, rfl, event, last, inserts⟩

/-! ### Served by hash -/

/-- A hit returns a page inserted under a URL of the same hash, and inserting or
invalidating a URL of another hash leaves a cold entry as it is unless the
insertion evicts it. -/
theorem servedByHash (hashUrl : String → UInt64) (maxColdEntries ttlSecs : Nat)
    (events : List Event) :
    (∀ thread url html now,
        ((after hashUrl maxColdEntries ttlSecs events).tryGet hashUrl thread url now).1 =
            some html →
          ∃ source, hashUrl source = hashUrl url ∧ Inserted events source html) ∧
      ∀ url other, hashUrl other ≠ hashUrl url →
        (∀ thread order html now,
          ((after hashUrl maxColdEntries ttlSecs events).insert hashUrl thread order other html
              now).coldCache.cache.lookup (hashUrl url) =
            if hashUrl url ∈ (after hashUrl maxColdEntries ttlSecs events).coldCache.evictedKeys
                order then none
            else (after hashUrl maxColdEntries ttlSecs events).coldCache.cache.lookup
              (hashUrl url)) ∧
        ((after hashUrl maxColdEntries ttlSecs events).invalidate hashUrl
            other).coldCache.cache.lookup (hashUrl url) =
          (after hashUrl maxColdEntries ttlSecs events).coldCache.cache.lookup (hashUrl url) := by
  refine ⟨?_, ?_⟩
  · intro thread url html now answer
    rcases (fromHistory_after hashUrl _ _ events).tryGet_some answer with
      ⟨entry, ⟨source, sameHash, insertion⟩, rfl, _⟩ | ⟨pageUrl, _, ⟨sameHash, insertion⟩, _⟩
    · exact ⟨source, sameHash, insertion⟩
    · exact ⟨pageUrl, sameHash.symm, insertion.inserted⟩
  · intro url other different
    refine ⟨fun thread order html now => ?_, ?_⟩
    · exact ColdCache.insert_lookup_of_ne different.symm
    · rw [invalidate_coldCache]
      exact AList.lookup_erase_ne different.symm

/-- Whatever the hash, some URL is served a page that only another URL was given. -/
theorem served_for_another_url :
    ¬ ∃ hashUrl : String → UInt64, ∀ maxColdEntries ttlSecs events thread url html now,
      ((after hashUrl maxColdEntries ttlSecs events).tryGet hashUrl thread url now).1 =
          some html →
        Inserted events url html := by
  rintro ⟨hashUrl, served⟩
  have finite : Finite UInt64 := Finite.of_injective UInt64.toFin fun _ _ => UInt64.toFin_inj.mp
  obtain ⟨url, other, different, sameHash⟩ := Finite.exists_ne_map_eq_of_infinite hashUrl
  have visible : (((withTtl 1 0).insert hashUrl 0 VisitOrder.stored other "page" 0).syncedHot
      0).cache.peek (hashUrl url) 0 = some "page" := by
    have noRecent : ((withTtl 1 0).syncedHot 0).cache.recentEntries = [] := rfl
    rw [insert_syncedHot, sameHash]
    exact HotCache.insert_peek (by simp [noRecent])
  have hit := served 1 0 [⟨0, .insert 0 VisitOrder.stored other "page"⟩] 0 url "page" 0
    (tryGet_of_peek visible)
  obtain ⟨event, member, thread, order, inserts⟩ := hit
  obtain rfl := List.mem_singleton.mp member
  cases inserts
  exact different rfl

end RustySsr.Cache.SsrCache
