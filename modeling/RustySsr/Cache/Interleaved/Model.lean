import RustySsr.Cache.Cold.Steps
import RustySsr.Cache.Ssr.Model

/-!
Owns the multi-tier cache with its operations interleaved. Each operation is
the sequence of its steps on the shared state: the metric counters, the
generation counter, and the steps of the cold cache. A thread's own hot cache
is touched by that thread alone; loading the generation and synchronising the
hot cache with it is one step. `calls` and `bumped` only record history: no
step reads them.
-/

namespace RustySsr.Cache

open RustySsr.Platform
open RustySsr.Foundation
open RustySsr.Foundation.Staged

/-- The counters in the order in which `reset_metrics` stores zero in them. -/
def Counter.resetOrder : List Counter :=
  [.lookups, .hotHits, .coldHits, .misses, .promotions, .insertions, .evictions]

/-- `fetch_add`. -/
def CacheMetricsInner.add (metrics : CacheMetricsInner) (amount : Nat) :
    Counter → CacheMetricsInner
  | .lookups => { metrics with lookups := metrics.lookups + amount }
  | .hotHits => { metrics with hotHits := metrics.hotHits + amount }
  | .coldHits => { metrics with coldHits := metrics.coldHits + amount }
  | .misses => { metrics with misses := metrics.misses + amount }
  | .promotions => { metrics with promotions := metrics.promotions + amount }
  | .insertions => { metrics with insertions := metrics.insertions + amount }
  | .evictions => { metrics with evictions := metrics.evictions + amount }

/-- `store(0)`. -/
def CacheMetricsInner.reset (metrics : CacheMetricsInner) : Counter → CacheMetricsInner
  | .lookups => { metrics with lookups := 0 }
  | .hotHits => { metrics with hotHits := 0 }
  | .coldHits => { metrics with coldHits := 0 }
  | .misses => { metrics with misses := 0 }
  | .promotions => { metrics with promotions := 0 }
  | .insertions => { metrics with insertions := 0 }
  | .evictions => { metrics with evictions := 0 }

inductive LookupStage where
  | countLookup
  | sync
  | peek
  | countHotHit (html : String)
  | cold (stage : ColdCache.GetStage)
  | countColdHit (html : String)
  | promote (html : String)
  | countPromotion (html : String)
  | countMiss

inductive InsertStage where
  | cold (stage : ColdCache.InsertStage)
  | countInsertion (evicted : Nat)
  | countEvictions (evicted : Nat)
  | sync
  | hot

inductive InvalidateStage where
  | cold
  | bump

inductive PrefixStage where
  | cold (stage : ColdCache.PrefixStage)
  | bump (removed : Nat)

inductive ClearStage where
  | cold
  | bump
  | reset (counters : List Counter)

namespace SsrCache

def add (cache : SsrCache) (counter : Counter) (amount : Nat) : SsrCache :=
  cache.count fun metrics => metrics.add amount counter

section Steps

variable (hashUrl : String → UInt64) (cache : SsrCache)

/-- A step of `try_get`. -/
def tryGetStep (thread : ThreadId) (url : String) (now : Nat) :
    LookupStage → SsrCache × Outcome LookupStage (Option String)
  | .countLookup => (cache.add .lookups 1, .continues .sync)
  | .sync => (cache.getOrInitHotCache thread, .continues .peek)
  | .peek =>
      match cache.peekHot thread (hashUrl url) now with
      | some html => (cache, .continues (.countHotHit html))
      | none => (cache, .continues (.cold .read))
  | .countHotHit html => (cache.add .hotHits 1, .returns (some html))
  | .cold stage =>
      let stepped := cache.coldCache.getStep (hashUrl url) now stage
      (cache.withCold stepped.1, stepped.2.bind .cold fun
        | some html => .continues (.countColdHit html)
        | none => .continues .countMiss)
  | .countColdHit html => (cache.add .coldHits 1, .continues (.promote html))
  | .promote html =>
      (cache.insertHot thread (hashUrl url) html now, .continues (.countPromotion html))
  | .countPromotion html => (cache.add .promotions 1, .returns (some html))
  | .countMiss => (cache.add .misses 1, .returns none)

/-- A step of `insert`. -/
def insertStep (thread : ThreadId) (orders : ColdCache.Orders) (url html : String) (now : Nat) :
    InsertStage → SsrCache × Outcome InsertStage Unit
  | .cold stage =>
      let stepped := cache.coldCache.insertStep orders (hashUrl url) url html now stage
      (cache.withCold stepped.1,
        stepped.2.bind .cold fun evicted => .continues (.countInsertion evicted))
  | .countInsertion evicted =>
      (cache.add .insertions 1,
        .continues (if 0 < evicted then .countEvictions evicted else .sync))
  | .countEvictions evicted => (cache.add .evictions evicted, .continues .sync)
  | .sync => (cache.getOrInitHotCache thread, .continues .hot)
  | .hot => (cache.insertHot thread (hashUrl url) html now, .returns ())

/-- A step of `invalidate`, which answers whether its removal found an entry. -/
def invalidateStep (url : String) : InvalidateStage → SsrCache × Outcome InvalidateStage Bool
  | .cold =>
      let removed := cache.coldCache.remove (hashUrl url)
      (cache.withCold removed.2, if removed.1 then .continues .bump else .returns false)
  | .bump => (cache.bumpGeneration, .returns true)

/-- A step of `invalidate_prefix`. -/
def invalidatePrefixStep (order : ScanOrder) (urlPrefix : String) :
    PrefixStage → SsrCache × Outcome PrefixStage Nat
  | .cold stage =>
      let stepped := cache.coldCache.removeByPrefixStep order urlPrefix stage
      (cache.withCold stepped.1, stepped.2.bind .cold fun removed =>
        if 0 < removed then .continues (.bump removed) else .returns removed)
  | .bump removed => (cache.bumpGeneration, .returns removed)

/-- A step of `clear`. -/
def clearStep : ClearStage → SsrCache × Outcome ClearStage Unit
  | .cold => (cache.withCold cache.coldCache.clear, .continues .bump)
  | .bump => (cache.bumpGeneration, .continues (.reset Counter.resetOrder))
  | .reset (counter :: rest) =>
      (cache.count fun metrics => metrics.reset counter, .continues (.reset rest))
  | .reset [] => (cache, .returns ())

end Steps

end SsrCache

/-! ### The machine -/

/-- A call on the cache. -/
inductive CacheCall where
  | tryGet (url : String)
  | insert (url html : String)
  | invalidate (url : String)
  | invalidatePrefix (urlPrefix : String)
  | clear
deriving DecidableEq, Repr

/-- The URL that a call is about. -/
def CacheCall.url : CacheCall → Option String
  | .tryGet url => some url
  | .insert url _ => some url
  | .invalidate url => some url
  | _ => none

/-- What a call has returned; for `invalidate`, whether its removal found an
entry. -/
inductive CacheAnswer where
  | found (html : Option String)
  | inserted
  | invalidated (removed : Bool)
  | invalidatedPrefix (removed : Nat)
  | cleared
deriving DecidableEq, Repr

/-- Calls are numbered in the order in which they start. -/
abbrev OpId := Nat

structure CallRecord where
  call : CacheCall
  answer : Option CacheAnswer
deriving DecidableEq, Repr

/-- What a thread is doing. -/
inductive Control where
  | idle
  | tryGet (op : OpId) (url : String) (stage : LookupStage)
  | insert (op : OpId) (url html : String) (stage : InsertStage)
  | invalidate (op : OpId) (url : String) (stage : InvalidateStage)
  | invalidatePrefix (op : OpId) (urlPrefix : String) (stage : PrefixStage)
  | clear (op : OpId) (stage : ClearStage)

/-- The call a thread is in, at its first step. -/
def CacheCall.start (op : OpId) : CacheCall → Control
  | .tryGet url => .tryGet op url .countLookup
  | .insert url html => .insert op url html (.cold .checkLength)
  | .invalidate url => .invalidate op url .cold
  | .invalidatePrefix urlPrefix => .invalidatePrefix op urlPrefix (.cold .scan)
  | .clear => .clear op .cold

/-- The call a thread is in. -/
def Control.running : Control → Option (OpId × CacheCall)
  | .idle => none
  | .tryGet op url _ => some (op, .tryGet url)
  | .insert op url html _ => some (op, .insert url html)
  | .invalidate op url _ => some (op, .invalidate url)
  | .invalidatePrefix op urlPrefix _ => some (op, .invalidatePrefix urlPrefix)
  | .clear op _ => some (op, .clear)

/-- How often the thread's next step bumps the generation. -/
def Control.bumps : Control → Nat
  | .invalidate _ _ .bump => 1
  | .invalidatePrefix _ _ (.bump _) => 1
  | .clear _ .bump => 1
  | _ => 0

/-- The cache and its threads, every call so far, and the number of bumps. -/
structure Interleaved where
  cache : SsrCache
  threads : ThreadId → Control
  calls : OpId → Option CallRecord
  nextOp : OpId
  bumped : Nat

namespace Interleaved

def initial (maxColdEntries ttlSecs : Nat) : Interleaved where
  cache := SsrCache.withTtl maxColdEntries ttlSecs
  threads := fun _ => .idle
  calls := fun _ => none
  nextOp := 0
  bumped := 0

/-- The state with a call of the thread begun. -/
def enter (state : Interleaved) (thread : ThreadId) (call : CacheCall) : Interleaved :=
  { state with
    threads := Function.update state.threads thread (call.start state.nextOp)
    calls := Function.update state.calls state.nextOp (some ⟨call, none⟩)
    nextOp := state.nextOp + 1 }

/-- An idle thread starts a call. -/
def start (state : Interleaved) (thread : ThreadId) (call : CacheCall) : Option Interleaved :=
  match state.threads thread with
  | .idle => some (state.enter thread call)
  | _ => none

/-- A step of a thread's call, by what it does to the cache and what it leaves. -/
def next (hashUrl : String → UInt64) (cache : SsrCache) (thread : ThreadId)
    (orders : ColdCache.Orders) (now : Nat) :
    Control → Option (SsrCache × OpId × Outcome Control CacheAnswer)
  | .idle => none
  | .tryGet op url stage =>
      let stepped := cache.tryGetStep hashUrl thread url now stage
      some (stepped.1, op, stepped.2.bind (.tryGet op url) fun html => .returns (.found html))
  | .insert op url html stage =>
      let stepped := cache.insertStep hashUrl thread orders url html now stage
      some (stepped.1, op, stepped.2.bind (.insert op url html) fun _ => .returns .inserted)
  | .invalidate op url stage =>
      let stepped := cache.invalidateStep hashUrl url stage
      some (stepped.1, op,
        stepped.2.bind (.invalidate op url) fun removed => .returns (.invalidated removed))
  | .invalidatePrefix op urlPrefix stage =>
      let stepped := cache.invalidatePrefixStep orders.scan urlPrefix stage
      some (stepped.1, op, stepped.2.bind (.invalidatePrefix op urlPrefix) fun removed =>
        .returns (.invalidatedPrefix removed))
  | .clear op stage =>
      let stepped := cache.clearStep stage
      some (stepped.1, op, stepped.2.bind (.clear op) fun _ => .returns .cleared)

/-- The state after a step of a thread's call. -/
def leave (state : Interleaved) (thread : ThreadId) (op : OpId) (cache : SsrCache) :
    Outcome Control CacheAnswer → Interleaved
  | .continues control =>
      { state with
        cache := cache
        threads := Function.update state.threads thread control
        bumped := state.bumped + (state.threads thread).bumps }
  | .returns answer =>
      { state with
        cache := cache
        threads := Function.update state.threads thread .idle
        calls := Function.update state.calls op
          ((state.calls op).map fun record => { record with answer := some answer })
        bumped := state.bumped + (state.threads thread).bumps }

inductive Event where
  | start (thread : ThreadId) (call : CacheCall)
  | advance (thread : ThreadId) (orders : ColdCache.Orders) (now : Nat)

def step (hashUrl : String → UInt64) (state : Interleaved) : Event → Option Interleaved
  | .start thread call => state.start thread call
  | .advance thread orders now =>
      (next hashUrl state.cache thread orders now (state.threads thread)).map fun stepped =>
        state.leave thread stepped.2.1 stepped.1 stepped.2.2

end Interleaved

end RustySsr.Cache
