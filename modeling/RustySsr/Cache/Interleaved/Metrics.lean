import Mathlib.Data.Multiset.Basic
import Mathlib.Data.Rat.Defs
import RustySsr.Cache.Interleaved.Consistency

/-!
Owns `metrics` among the interleaved calls: a snapshot loads the counters one by
one while lookups count and clears reset them. `resets`, `lookups` and `current`,
and what a snapshot records when it loads `lookups`, are history: no step reads
them. They say which lookups a counter stands for, and so when a snapshot is
whole.
-/

namespace RustySsr.Cache

open RustySsr.Foundation
open RustySsr.Foundation.Staged

/-- The counters in the order in which `metrics` loads them. -/
def Counter.loadOrder : List Counter :=
  [.lookups, .hotHits, .coldHits, .misses, .promotions, .insertions, .evictions]

/-- The counters of which a lookup counts exactly one. -/
def Counter.outcomes : List Counter := [.hotHits, .coldHits, .misses]

/-- `hit_rate`, the hit rate percentage, without rounding. -/
def CacheMetrics.hitRate (metrics : CacheMetrics) : ℚ :=
  if 0 < metrics.lookups then
    ((metrics.hotHits + metrics.coldHits : Nat) : ℚ) / metrics.lookups * 100
  else 0

/-- The counters that the thread's next step counts, of those about lookups. -/
def Control.counting : Control → Option Counter
  | .tryGet _ _ .countLookup => some .lookups
  | .tryGet _ _ (.countHotHit _) => some .hotHits
  | .tryGet _ _ (.countColdHit _) => some .coldHits
  | .tryGet _ _ .countMiss => some .misses
  | .tryGet _ _ (.countPromotion _) => some .promotions
  | _ => none

/-- The counters that the thread's clear has still to reset. -/
def Control.toReset : Control → List Counter
  | .clear _ (.reset counters) => counters
  | _ => []

/-- A lookup that has been counted: the clears that had reset `lookups` before,
one mention of the thread for each, and the counters it is counted in so far. -/
structure LookupRecord where
  epoch : Multiset ThreadId
  counted : List Counter

/-- The lookup is counted in one more counter. -/
def LookupRecord.count (counter : Counter) (record : LookupRecord) : LookupRecord :=
  { record with counted := record.counted ++ [counter] }

/-- A call of `metrics` that has not returned, with the clears and the number of
lookups counted before it loaded `lookups`. -/
structure MetricsCall where
  loaded : Counter → Nat
  rest : List Counter
  epoch : Multiset ThreadId
  before : Nat

/-- The call has loaded `lookups` and not yet this counter. -/
def MetricsCall.Awaits (call : MetricsCall) (counter : Counter) : Prop :=
  .lookups ∉ call.rest ∧ counter ∈ call.rest

abbrev CallerId := Nat

/-- The interleaved cache with calls of `metrics` and what they have returned. -/
structure Metered where
  base : Interleaved
  callers : CallerId → Option MetricsCall
  snapshots : List CacheMetrics
  resets : Counter → Multiset ThreadId
  lookups : List LookupRecord
  current : ThreadId → Nat

namespace Metered

def initial (maxColdEntries ttlSecs : Nat) : Metered where
  base := .initial maxColdEntries ttlSecs
  callers := fun _ => none
  snapshots := []
  resets := fun _ => 0
  lookups := []
  current := fun _ => 0

inductive Event where
  | cache (event : Interleaved.Event)
  | call (caller : CallerId)
  | load (caller : CallerId)

/-- The history after the thread's next step. -/
def recording (state : Metered) (thread : ThreadId) : Metered :=
  match (state.base.threads thread).counting with
  | some .lookups =>
      { state with
        lookups := state.lookups ++ [⟨state.resets .lookups, [.lookups]⟩]
        current := Function.update state.current thread state.lookups.length }
  | some counter =>
      { state with
        lookups := state.lookups.modify (state.current thread) (LookupRecord.count counter) }
  | none =>
      match (state.base.threads thread).toReset with
      | counter :: _ =>
          { state with
            resets := Function.update state.resets counter (thread ::ₘ state.resets counter) }
      | [] => state

/-- A step of `metrics`: the next counter, or at last the size and the answer. -/
def loadStep (state : Metered) (caller : CallerId) (call : MetricsCall) : Metered :=
  let metrics := state.base.cache.metrics
  match call.rest with
  | .lookups :: rest =>
      { state with
        callers := Function.update state.callers caller
          (some ⟨Function.update call.loaded .lookups (metrics.load .lookups), rest,
            state.resets .lookups, state.lookups.length⟩) }
  | counter :: rest =>
      { state with
        callers := Function.update state.callers caller
          (some { call with
            loaded := Function.update call.loaded counter (metrics.load counter)
            rest := rest }) }
  | [] =>
      { state with
        callers := Function.update state.callers caller none
        snapshots := state.snapshots ++
          [⟨call.loaded .lookups, call.loaded .hotHits, call.loaded .coldHits,
            call.loaded .misses, call.loaded .promotions, call.loaded .insertions,
            call.loaded .evictions, state.base.cache.coldCache.len,
            state.base.cache.coldCache.capacity⟩] }

def step (hashUrl : String → UInt64) (state : Metered) : Event → Option Metered
  | .cache event =>
      (state.base.step hashUrl event).map fun following =>
        match event with
        | .start _ _ => { state with base := following }
        | .advance thread _ _ => { state.recording thread with base := following }
  | .call caller =>
      match state.callers caller with
      | none =>
          some { state with
            callers := Function.update state.callers caller
              (some ⟨fun _ => 0, Counter.loadOrder, 0, 0⟩) }
      | some _ => none
  | .load caller => (state.callers caller).map (state.loadStep caller)

/-- A call of `metrics` between whose loads nothing happens reads the cache as it is. -/
theorem metrics_uninterrupted {hashUrl : String → UInt64} {state : Metered} {caller : CallerId}
    (idle : state.callers caller = none) :
    Execution.exec (step hashUrl) state (.call caller :: List.replicate 8 (.load caller)) =
      some { state with snapshots := state.snapshots ++ [state.base.cache.cacheMetrics] } := by
  have called : state.step hashUrl (.call caller) = some { state with
      callers := Function.update state.callers caller
        (some ⟨fun _ => 0, Counter.loadOrder, 0, 0⟩) } := by
    simp [step, idle]
  have returned : Function.update state.callers caller none = state.callers := by
    rw [← idle, Function.update_eq_self]
  simp only [Execution.exec, List.replicate, List.foldlM_cons, called]
  simp [step, loadStep, Counter.loadOrder, returned, SsrCache.cacheMetrics]

/-- The event cuts no lookup and no snapshot in two. A counter is counted for a
lookup after the same clears as `lookups` was; a snapshot loads an outcome after
the same clears as `lookups`; and it loads `lookups` after every lookup whose
outcome is counted before it loads that outcome. -/
def Uncut (state : Metered) : Event → Prop
  | .cache (.advance thread _ _) =>
      match (state.base.threads thread).counting with
      | some .lookups => state.base.cache.metrics.lookups + 1 < 2 ^ 64
      | some counter =>
          (∀ record ∈ state.lookups[state.current thread]?,
              record.epoch = state.resets counter) ∧
            (counter ∈ Counter.outcomes → ∀ caller, ∀ call ∈ state.callers caller,
              call.Awaits counter → state.current thread < call.before)
      | none => True
  | .load caller =>
      ∀ call ∈ state.callers caller, ∀ counter ∈ call.rest.head?, counter ∈ Counter.outcomes →
        state.resets counter = call.epoch
  | _ => True

/-- The outcomes of a snapshot are at most its lookups. -/
def Conserved (snapshot : CacheMetrics) : Prop :=
  snapshot.hotHits + snapshot.coldHits + snapshot.misses ≤ snapshot.lookups

instance : DecidablePred Conserved := fun _ => inferInstanceAs (Decidable (_ ≤ _))

/-- No `try_get`, `clear` or `metrics` call is in flight. -/
def Quiet (state : Metered) : Prop :=
  (∀ thread op url stage, state.base.threads thread ≠ .tryGet op url stage) ∧
    (∀ thread op stage, state.base.threads thread ≠ .clear op stage) ∧
    ∀ caller, state.callers caller = none

/-- The counters say that every lookup had one outcome, and that every cold hit
was promoted. -/
def Settled (state : Metered) : Prop :=
  let metrics := state.base.cache.metrics
  metrics.load .lookups = metrics.load .hotHits + metrics.load .coldHits + metrics.load .misses ∧
    metrics.load .promotions = metrics.load .coldHits

end Metered

end RustySsr.Cache
