import Mathlib.Data.Nat.ModEq
import RustySsr.Engine.ServiceGuarantees
import RustySsr.Engine.ServiceOutcome
import RustySsr.Foundation.Census

/-!
Owns what the metrics of a serving engine say about its calls. Lookups, hits and
misses are counted when a call begins, insertions when its page is stored, and
all of them start again when the cache is cleared, also for calls that are under
way. Between two clears each figure grows by the calls that it stands for, modulo
`2 ^ 64` as the counters wrap, and exactly while fewer calls have begun.
-/

namespace RustySsr.Engine

open RustySsr.Cache
open RustySsr.Platform
open RustySsr.V8Pool
open RustySsr.Foundation

def Stage.isCached : Stage → Bool
  | .cached _ => true
  | _ => false

/-- The call has stored its page. -/
def Stage.isStored : Stage → Bool
  | .returned (.ok _) => true
  | _ => false

/-- The call has gone to the pool and ended without a page. -/
def Stage.isAbandoned (stage : Stage) : Bool :=
  !stage.isCached && !stage.running && !stage.isStored

/-- What the metrics tell of the calls. -/
inductive Figure where
  | lookups
  | hits
  | misses
  | insertions

/-- The figure, as `cache_metrics` returns it. -/
def Figure.read (metrics : CacheMetrics) : Figure → Nat
  | .lookups => metrics.lookups
  | .hits => metrics.hotHits + metrics.coldHits
  | .misses => metrics.misses
  | .insertions => metrics.insertions

/-- How often the counters behind the figure have counted, which they hold modulo
`2 ^ 64`. -/
def Figure.counted (metrics : CacheMetricsInner) : Figure → Nat
  | .lookups => metrics.lookups
  | .hits => metrics.hotHits + metrics.coldHits
  | .misses => metrics.misses
  | .insertions => metrics.insertions

/-- The calls that the figure is meant to count. -/
def Figure.counts : Figure → Stage → Bool
  | .lookups => fun _ => true
  | .hits => Stage.isCached
  | .misses => fun stage => !stage.isCached
  | .insertions => Stage.isStored

namespace Service

variable {n : Nat}

/-- The calls of `render_with_data` whose stage is counted. -/
def tally (state : Service n) (counted : Stage → Bool) : Nat :=
  ∑ id ∈ Finset.range state.nextCall,
    (state.calls id).elim 0 fun call => (counted call.stage).toNat

/-! ### What a step counts -/

section Steps

variable {hashUrl : String → UInt64} {config : V8PoolConfig} {state next : Service n}
  {event : Event n}

/-- A lookup counts itself, and a hit or a miss. -/
theorem counted_tryGet (hashUrl : String → UInt64) (cache : SsrCache) (thread : ThreadId)
    (url : String) (now : Nat) {stage : Stage}
    (answer : (∃ html, stage = .cached html ∧ (cache.tryGet hashUrl thread url now).1 = some html) ∨
      (stage = .missed ∧ (cache.tryGet hashUrl thread url now).1 = none)) (figure : Figure) :
    figure.counted (cache.tryGet hashUrl thread url now).2.metrics =
      figure.counted cache.metrics + (figure.counts stage).toNat := by
  revert answer
  simp only [SsrCache.tryGet]
  split
  · rintro (⟨html, rfl, _⟩ | ⟨_, _⟩)
    · cases figure <;>
        simp [Figure.counted, Figure.counts, Stage.isCached, Stage.isStored, SsrCache.hotHit,
          SsrCache.beginLookup, SsrCache.getOrInitHotCache, SsrCache.count, Nat.add_right_comm]
    · contradiction
  · split
    · rintro (⟨html, rfl, _⟩ | ⟨_, _⟩)
      · cases figure <;>
          simp [Figure.counted, Figure.counts, Stage.isCached, Stage.isStored, SsrCache.coldHit,
            SsrCache.insertHot, SsrCache.withCold, SsrCache.beginLookup,
            SsrCache.getOrInitHotCache, SsrCache.count, Nat.add_assoc]
      · contradiction
    · rintro (⟨html, rfl, _⟩ | ⟨rfl, _⟩)
      · contradiction
      · cases figure <;>
          simp [Figure.counted, Figure.counts, Stage.isCached, Stage.isStored, SsrCache.missed,
            SsrCache.withCold, SsrCache.beginLookup, SsrCache.getOrInitHotCache, SsrCache.count]

/-- An insertion counts itself only. -/
theorem counted_insert (hashUrl : String → UInt64) (cache : SsrCache) (thread : ThreadId)
    (order : ScanOrder) (url html : String) (now : Nat) (figure : Figure) :
    figure.counted (cache.insert hashUrl thread order url html now).metrics +
        (figure.counts (.pooled 0)).toNat =
      figure.counted cache.metrics + (figure.counts (.returned (.ok html))).toNat := by
  cases figure <;>
    simp [Figure.counted, Figure.counts, Stage.isCached, Stage.isStored, SsrCache.insert,
      SsrCache.insertHot, SsrCache.withCold, SsrCache.getOrInitHotCache, SsrCache.count]

/-- A new call adds to what counts it. -/
theorem tally_looks (state : Service n) (call : ServiceCall) (counted : Stage → Bool)
    {next : Service n}
    (calls : next.calls = Function.update state.calls state.nextCall (some call))
    (nextCall : next.nextCall = state.nextCall + 1) :
    next.tally counted = state.tally counted + (counted call.stage).toNat := by
  have old : ∑ id ∈ Finset.range state.nextCall,
        (next.calls id).elim 0 (fun call => (counted call.stage).toNat) = state.tally counted :=
    Finset.sum_congr rfl fun id member => by
      rw [calls, Function.update_of_ne (Finset.mem_range.mp member).ne]
  rw [tally, nextCall, Finset.sum_range_succ, old, calls, Function.update_self, Option.elim_some]

/-- A call that goes on counts by what it is now, in place of what it was. -/
theorem tally_setStage (state : Service n)
    (unused : ∀ id, state.nextCall ≤ id → state.calls id = none)
    {id : CallId} {call : ServiceCall} (present : state.calls id = some call) (stage : Stage)
    (counted : Stage → Bool) :
    (state.setStage id stage).tally counted + (counted call.stage).toNat =
      state.tally counted + (counted stage).toNat := by
  have known : id ∈ Finset.range state.nextCall := by
    rw [Finset.mem_range]
    by_contra beyond
    rw [unused id (not_lt.mp beyond)] at present
    contradiction
  have exchanged := sum_weight_update known
    (fun entry : Option ServiceCall => entry.elim 0 fun call => (counted call.stage).toNat)
    state.calls ((state.calls id).map fun call => { call with stage := stage })
  rw [present] at exchanged
  unfold tally setStage
  rw [present]
  exact exchanged

/-- What a step does to the calls and to the metrics. -/
inductive Books (state next : Service n) : Prop where
  | begins (stage : Stage)
      (calls : ∀ counted, next.tally counted = state.tally counted + (counted stage).toNat)
      (metrics : ∀ figure : Figure, figure.counted next.cache.metrics =
        figure.counted state.cache.metrics + (figure.counts stage).toNat)
  | moves (old new : Stage) (running : old.running = true)
      (calls : ∀ counted, next.tally counted + (counted old).toNat =
        state.tally counted + (counted new).toNat)
      (metrics : ∀ figure : Figure,
        figure.counted next.cache.metrics + (figure.counts old).toNat =
          figure.counted state.cache.metrics + (figure.counts new).toNat)
  | rests (calls : ∀ counted, next.tally counted = state.tally counted)
      (metrics : next.cache.metrics = state.cache.metrics)

/-- An invalidation that is no clear leaves the metrics alone. -/
theorem metrics_of_invalidation {action : InFlight.Action} {cache : SsrCache} {now : Nat}
    (same : event.action.invalidation? = some action) (uncleared : event.action ≠ .clearCache)
    (acted : ∀ model : InFlight, model.cache = state.cache →
      model.act hashUrl now action = some { model with cache := cache }) :
    cache.metrics = state.cache.metrics := by
  have replaced := acted ⟨state.cache, fun _ => none, 0, 0, []⟩ rfl
  cases taken : event.action with
  | invalidate url =>
      rw [taken] at same
      obtain rfl := Option.some.inj same
      have after : state.cache.invalidate hashUrl url = cache :=
        congrArg InFlight.cache (Option.some.inj replaced)
      rw [← after]
      dsimp only [SsrCache.invalidate]
      split_ifs <;> rfl
  | invalidatePrefix order urlPrefix =>
      rw [taken] at same
      obtain rfl := Option.some.inj same
      have after : (state.cache.invalidatePrefix order urlPrefix).2 = cache :=
        congrArg InFlight.cache (Option.some.inj replaced)
      rw [← after]
      dsimp only [SsrCache.invalidatePrefix]
      split_ifs <;> rfl
  | clearCache => exact absurd taken uncleared
  | _ =>
      rw [taken] at same
      contradiction

/-- Every step but a clear is booked. -/
theorem Transition.books (step : Transition hashUrl config state event next)
    (unused : ∀ id, state.nextCall ≤ id → state.calls id = none)
    (uncleared : event.action ≠ .clearCache) : Books state next := by
  cases step with
  | looks action answer =>
      exact .begins _ (fun counted => tally_looks state _ counted rfl rfl)
        (counted_tryGet hashUrl state.cache _ _ event.now answer)
  | enters action missed called =>
      refine .moves .missed (.pooled state.pool.nextCall) rfl
        (tally_setStage { state with clock := event.now } unused missed _) fun figure => ?_
      cases figure <;> rfl
  | stores action pooled served =>
      rename_i id poolCall url data html thread order
      refine .moves (.pooled poolCall) (.returned (.ok html)) rfl
        (tally_setStage { state with clock := event.now } unused pooled _)
        fun figure => ?_
      have inserted := counted_insert hashUrl state.cache thread order url html event.now figure
      cases figure <;> exact inserted
  | fails action pooled failed =>
      refine .moves _ _ rfl
        (tally_setStage { state with clock := event.now } unused pooled _)
        fun figure => ?_
      cases figure <;> rfl
  | cancels action pooled cancelled =>
      refine .moves _ .cancelled rfl
        (tally_setStage { state with clock := event.now } unused pooled _)
        fun figure => ?_
      cases figure <;> rfl
  | invalidates same acted =>
      exact .rests (fun _ => rfl) (metrics_of_invalidation same uncleared acted)
  | _ => exact .rests (fun _ => rfl) rfl

theorem metrics_of_clear (step : Transition hashUrl config state event next)
    (cleared : event.action = .clearCache) : next.cache.metrics = ⟨0, 0, 0, 0, 0, 0, 0⟩ := by
  cases step with
  | invalidates same acted =>
      rw [cleared] at same
      obtain rfl := Option.some.inj same
      have after := congrArg InFlight.cache
        (Option.some.inj (acted ⟨state.cache, fun _ => none, 0, 0, []⟩ rfl))
      exact congrArg SsrCache.metrics after.symm
  | looks action => exact absurd (action.symm.trans cleared) nofun
  | enters action => exact absurd (action.symm.trans cleared) nofun
  | stores action => exact absurd (action.symm.trans cleared) nofun
  | fails action => exact absurd (action.symm.trans cleared) nofun
  | cancels action => exact absurd (action.symm.trans cleared) nofun
  | entersUncached action => exact absurd (action.symm.trans cleared) nofun
  | finishesUncached action => exact absurd (action.symm.trans cleared) nofun
  | cancelsUncached action => exact absurd (action.symm.trans cleared) nofun
  | works action => exact absurd (action.symm.trans cleared) nofun
  | drops action => exact absurd (action.symm.trans cleared) nofun

/-- No figure has counted more than the calls that it stands for. -/
def Covered (state : Service n) : Prop :=
  ∀ figure : Figure, figure.counted state.cache.metrics ≤ state.tally figure.counts

theorem Covered.step (covered : Covered state) (step : Transition hashUrl config state event next)
    (unused : ∀ id, state.nextCall ≤ id → state.calls id = none) : Covered next := by
  intro figure
  have before := covered figure
  by_cases cleared : event.action = .clearCache
  · rw [metrics_of_clear step cleared]
    cases figure <;> exact Nat.zero_le _
  · cases step.books unused cleared with
    | begins stage calls metrics =>
        rw [calls, metrics]
        exact Nat.add_le_add_right before _
    | moves old new running calls metrics =>
        have counted := calls figure.counts
        have grown := metrics figure
        omega
    | rests calls metrics =>
        rw [calls, metrics]
        exact before

/-- Each figure counts the calls that it stands for, and no call that was given
up comes back. -/
structure Follows (before after : Service n) : Prop where
  figures : ∀ figure : Figure, figure.counted after.cache.metrics + before.tally figure.counts =
    figure.counted before.cache.metrics + after.tally figure.counts
  abandoned : before.tally Stage.isAbandoned ≤ after.tally Stage.isAbandoned

theorem Follows.refl (state : Service n) : Follows state state := ⟨fun _ => rfl, Nat.le_refl _⟩

theorem Follows.trans {middle : Service n} (first : Follows state middle)
    (second : Follows middle next) : Follows state next where
  figures := fun figure => by
    have early := first.figures figure
    have late := second.figures figure
    omega
  abandoned := first.abandoned.trans second.abandoned

theorem Books.follows (books : Books state next) : Follows state next := by
  cases books with
  | begins stage calls metrics =>
      refine ⟨fun figure => ?_, ?_⟩
      · rw [calls, metrics]
        omega
      · rw [calls]
        exact Nat.le_add_right _ _
  | moves old new running calls metrics =>
      refine ⟨fun figure => ?_, ?_⟩
      · have counted := calls figure.counts
        have read := metrics figure
        omega
      · have counted := calls Stage.isAbandoned
        have wasRunning : old.isAbandoned = false := by simp [Stage.isAbandoned, running]
        rw [wasRunning, Bool.toNat_false] at counted
        omega
  | rests calls metrics =>
      refine ⟨fun figure => ?_, ?_⟩
      · rw [calls, metrics]
      · rw [calls]

end Steps

end Service

end RustySsr.Engine
