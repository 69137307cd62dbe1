import Mathlib.Logic.Function.Basic
import RustySsr.Cache.Hot.Contents
import RustySsr.Foundation.Execution

/-!
Owns which value a hot cache returns for a key that was inserted more than
once. A lookup takes the first ring slot by index, so the answer is the latest
value exactly when no insertion leaves an older copy of its key in a slot below
the write index. `returnsLatest_iff` states this for every run; it does not
bound the age or the number of entries.
-/

namespace RustySsr.Cache.HotCache

open RustySsr.Platform
open RustySsr.Foundation

/-- The operations a thread applies to its hot cache. -/
inductive Op where
  | insert (urlHash : UInt64) (html : String)
  | get (urlHash : UInt64)
  | peek (urlHash : UInt64)
  | clear
deriving DecidableEq, Repr

/-- An operation and the clock reading it takes. -/
structure Event where
  now : Nat
  op : Op
deriving DecidableEq, Repr

def apply (cache : HotCache) (event : Event) : HotCache :=
  match event.op with
  | .insert urlHash html => cache.insert urlHash html event.now
  | .get urlHash => (cache.get urlHash event.now).2
  | .peek _ => cache
  | .clear => cache.clear

/-- The value of the most recent insertion of each key since the last clear. -/
def recordLatest (latest : UInt64 → Option String) (event : Event) : UInt64 → Option String :=
  match event.op with
  | .insert urlHash html => Function.update latest urlHash (some html)
  | .clear => fun _ => none
  | _ => latest

def latestInsert (events : List Event) : UInt64 → Option String :=
  Execution.run recordLatest (fun _ => none) events

/-- After the events, an insertion made last is answered by both lookups, and
every answer at any time is the latest value of its key. -/
def ReturnsLatest (ttlSecs : Nat) (events : List Event) : Prop :=
  (∀ earlier urlHash html now, events = earlier ++ [⟨now, .insert urlHash html⟩] →
    (Execution.run apply (withTtl ttlSecs) events).peek urlHash now = some html ∧
      ((Execution.run apply (withTtl ttlSecs) events).get urlHash now).1 = some html) ∧
  ∀ urlHash html now,
    (Execution.run apply (withTtl ttlSecs) events).peek urlHash now = some html ∨
      ((Execution.run apply (withTtl ttlSecs) events).get urlHash now).1 = some html →
    latestInsert events urlHash = some html

/-- The first copy of the key below the write index, if any, is live and already
holds the inserted value. -/
def InsertReady (cache : HotCache) (event : Event) : Prop :=
  match event.op with
  | .insert urlHash html =>
      ∀ copy, cache.recentEntries.find? (fun entry => entry.urlHash = urlHash) = some copy →
        copy.html = html ∧ cache.isExpired copy event.now = false
  | _ => True

/-! ### Both lookups agree -/

theorem get_fst (cache : HotCache) (urlHash : UInt64) (now : Nat) :
    (cache.get urlHash now).1 = cache.peek urlHash now := by
  unfold get peek
  split
  · split_ifs <;> rfl
  · split
    · split_ifs <;> rfl
    · rfl

/-! ### Every exposed copy is the latest -/

/-- Every entry that a lookup may reach holds the latest value of its key. -/
def ExposesLatest (latest : UInt64 → Option String) (cache : HotCache) : Prop :=
  ∀ key entry, cache.Exposes key entry → latest key = some entry.html

/-- Under the invariant every answer is the latest value. -/
theorem ExposesLatest.peek {latest : UInt64 → Option String} {cache : HotCache}
    (agrees : ExposesLatest latest cache) {urlHash : UInt64} {now : Nat} {html : String}
    (answer : cache.peek urlHash now = some html) : latest urlHash = some html := by
  obtain ⟨entry, exposed, rfl, _⟩ := peek_some answer
  exact agrees urlHash entry exposed

/-- A ready insertion makes its value the latest and keeps the invariant. -/
theorem ExposesLatest.insert {latest : UInt64 → Option String} {cache : HotCache}
    (agrees : ExposesLatest latest cache) {urlHash : UInt64} {html : String} {now : Nat}
    (ready : ∀ copy, cache.recentEntries.find? (fun entry => entry.urlHash = urlHash) = some copy →
      copy.html = html) :
    ExposesLatest (Function.update latest urlHash (some html)) (cache.insert urlHash html now) := by
  intro key entry exposed
  rcases exposes_insert exposed with ⟨rfl, rfl | ⟨member, sameKey⟩⟩ | ⟨different, old⟩
  · rw [Function.update_self]
  · rw [Function.update_self]
    -- Every recent copy is the latest, so this one has the value of the first.
    cases first : cache.recentEntries.find? (fun other => other.urlHash = key) with
    | none =>
        have absent := List.find?_eq_none.mp first entry member
        simp [sameKey] at absent
    | some copy =>
        have copyKey : copy.urlHash = key := by simpa using List.find?_some first
        have copyLatest := agrees key copy (.recent (List.mem_of_find?_eq_some first) copyKey)
        rw [← agrees key entry (.recent member sameKey), copyLatest, ready copy first]
  · rw [Function.update_of_ne different]
    exact agrees key entry old

theorem ExposesLatest.get {latest : UInt64 → Option String} {cache : HotCache}
    (agrees : ExposesLatest latest cache) (urlHash : UInt64) (now : Nat) :
    ExposesLatest latest (cache.get urlHash now).2 := by
  unfold HotCache.get
  split
  · split_ifs <;> exact agrees
  · rename_i absent
    split
    · rename_i entry found
      split_ifs
      · exact fun key other exposed => agrees key other (exposes_erase exposed)
      · exact fun key other exposed => by
          rcases exposes_promoteToUltraHot (firstUltraHot_none_iff.mp absent) exposed with
            ⟨rfl, rfl⟩ | old
          · exact agrees _ entry (.map found (firstUltraHot_none_iff.mp absent))
          · exact agrees key other old
    · exact agrees

theorem ExposesLatest.apply {latest : UInt64 → Option String} {cache : HotCache} {event : Event}
    (agrees : ExposesLatest latest cache) (ready : InsertReady cache event) :
    ExposesLatest (recordLatest latest event) (cache.apply event) := by
  obtain ⟨now, op⟩ := event
  cases op with
  | insert urlHash html => exact agrees.insert fun copy first => (ready copy first).1
  | get urlHash => exact agrees.get urlHash now
  | peek urlHash => exact agrees
  | clear => exact fun key entry exposed => absurd exposed (cache.not_exposes_clear key entry)

/-- Every run whose insertions are ready exposes only latest values. -/
theorem exposesLatest_run {ttlSecs : Nat} {events : List Event}
    (ready : Execution.Guarded apply InsertReady (withTtl ttlSecs) events) :
    ExposesLatest (latestInsert events) (Execution.run apply (withTtl ttlSecs) events) := by
  refine Execution.run_invariant (fun history cache => ExposesLatest (latestInsert history) cache)
    (fun key entry exposed => absurd exposed (not_exposes_withTtl ttlSecs key entry)) ?_ ready
  intro history current event agrees guard
  rw [latestInsert, Execution.run_snoc]
  exact agrees.apply guard

/-! ### The value just inserted -/

/-- The inserted value is answered at once exactly when the insertion was ready. -/
theorem insert_peek_iff (cache : HotCache) (urlHash : UInt64) (html : String) (now : Nat) :
    (cache.insert urlHash html now).peek urlHash now = some html ↔
      InsertReady cache ⟨now, .insert urlHash html⟩ := by
  unfold peek InsertReady
  dsimp only
  rw [insert_firstUltraHot]
  cases first : cache.recentEntries.find? (fun entry => entry.urlHash = urlHash) with
  | none => simp [isExpired]
  | some copy =>
      simp only [Option.getD_some, isExpired, insert_ttl, Option.some.injEq, forall_eq']
      cases outlived cache.ttl copy.createdAt now <;> simp

/-- A hot cache returns the latest value throughout a run exactly when every
insertion of the run finds no copy of its key below the write index, or finds
there a live copy of the very value. -/
theorem returnsLatest_iff (ttlSecs : Nat) (events : List Event) :
    (∀ upTo, upTo <+: events → ReturnsLatest ttlSecs upTo) ↔
      Execution.Guarded apply InsertReady (withTtl ttlSecs) events := by
  constructor
  · intro latest earlier event later split
    obtain ⟨now, op⟩ := event
    cases op with
    | insert urlHash html =>
        have upTo : earlier ++ [⟨now, .insert urlHash html⟩] <+: events :=
          ⟨later, by simp [split]⟩
        have immediate := ((latest _ upTo).1 earlier urlHash html now rfl).1
        rw [Execution.run_snoc] at immediate
        exact (insert_peek_iff _ urlHash html now).mp immediate
    | get urlHash => trivial
    | peek urlHash => trivial
    | clear => trivial
  · rintro ready upTo ⟨rest, rfl⟩
    have readyUpTo := ready.initial
    refine ⟨?_, ?_⟩
    · rintro earlier urlHash html now rfl
      have immediate := (insert_peek_iff _ urlHash html now).mpr readyUpTo.last
      rw [get_fst, Execution.run_snoc]
      exact ⟨immediate, immediate⟩
    · intro urlHash html now answer
      rw [get_fst, or_self] at answer
      exact (exposesLatest_run readyUpTo).peek answer

/-- Two insertions of one key: the scan still returns the first value. -/
theorem reinsert_returns_old :
    ¬ ∀ (ttlSecs : Nat) (events : List Event),
      events.Pairwise (fun first second => first.now ≤ second.now) →
        ReturnsLatest ttlSecs events := by
  intro latest
  have immediate := ((latest 0 [⟨0, .insert 1 "old"⟩, ⟨1, .insert 1 "new"⟩] (by decide)).1
    [⟨0, .insert 1 "old"⟩] 1 "new" 1 rfl).1
  revert immediate
  decide

end RustySsr.Cache.HotCache
