import RustySsr.Cache.Interleaved.BarrierSteps
import RustySsr.Cache.Ssr.Provenance

/-!
Owns the guarantee of the generation counter under interleaving: a lookup that
starts after a barrier has returned synchronises its hot cache with a
generation from the barrier on, so it is answered only with pages whose
insertion had not returned when the barrier started.
-/

namespace RustySsr.Cache.Interleaved

open RustySsr.Platform
open RustySsr.Foundation
open RustySsr.Foundation.Staged
open RustySsr.Cache.SsrCache

section Statements

variable (hashUrl : String → UInt64) (before : Interleaved) (url : String)

/-- The lookups that start after the middle state have hot caches of the
generation, and return fresh pages. -/
structure Late (middle : Interleaved) (generation : Nat) (state : Interleaved) : Prop where
  synced : ∀ {thread op target stage}, state.threads thread = .tryGet op target stage →
    middle.calls op = none → stage.synced = true →
      ∃ hot, state.cache.hotCache thread = some hot ∧ generation ≤ hot.generation.toNat
  answers : ∀ {op target html}, middle.calls op = none →
    state.calls op = some ⟨.tryGet target, some (.found (some html))⟩ →
      hashUrl target = hashUrl url → Fresh hashUrl before url state html

end Statements

variable {hashUrl : String → UInt64} {before state following : Interleaved} {url : String}
  {event : Event}

/-! ### Lookups that start later -/

/-- Synchronising brings a hot cache to the number of bumps, and nothing takes
it back. -/
theorem Late.step_synced {middle : Interleaved} {generation : Nat}
    (late : Late hashUrl before url middle generation state) (counted : Counted state)
    (reached : generation ≤ state.bumped) (stepped : state.step hashUrl event = some following)
    {thread : ThreadId} {op : OpId} {target : String} {stage : LookupStage}
    (flying : following.threads thread = .tryGet op target stage)
    (unstarted : middle.calls op = none) (synced : stage.synced = true) :
    ∃ hot, following.cache.hotCache thread = some hot ∧ generation ≤ hot.generation.toNat := by
  rcases step_flying stepped flying with rfl | ⟨flew, sameHot⟩ |
    ⟨now, earlier, flew, moved, change⟩
  · contradiction
  · rw [sameHot]
    exact late.synced flew unstarted synced
  · rcases tryGetStep_synced (congrArg Prod.snd moved) synced with rfl | syncedBefore
    · have loaded : state.cache.getOrInitHotCache thread = following.cache :=
        congrArg Prod.fst moved
      rw [← loaded]
      refine ⟨_, getOrInitHotCache_self _ _, ?_⟩
      rw [syncedHot_generation, counted.generation]
      exact reached
    · obtain ⟨hot, present, notBelow⟩ := late.synced flew unstarted syncedBefore
      rcases change.hotGeneration_own with kept | ⟨_, current⟩
      · rw [present, Option.map_some, Option.map_eq_some_iff] at kept
        obtain ⟨new, newPresent, sameGeneration⟩ := kept
        exact ⟨new, newPresent, sameGeneration ▸ notBelow⟩
      · obtain ⟨new, newPresent, sameGeneration⟩ := Option.map_eq_some_iff.mp current
        refine ⟨new, newPresent, ?_⟩
        rw [sameGeneration, counted.generation]
        exact reached

theorem Late.step {middle : Interleaved} {generation : Nat}
    (late : Late hashUrl before url middle generation state)
    (barred : Barred hashUrl before url generation state) (registered : Registered state)
    (counted : Counted state) (stepped : state.step hashUrl event = some following) :
    Late hashUrl before url middle generation following where
  synced := late.step_synced counted barred.reached stepped
  answers := by
    intro op target html unstarted answered sameHash
    rcases step_answers registered stepped answered with
      answeredBefore | ⟨thread, _, now, cache, runs, advanced, _⟩
    · exact (late.answers unstarted answeredBefore sameHash).step registered stepped
    · obtain ⟨ranTarget, stage, control, moved⟩ := next_returns_found advanced
      rw [control] at runs
      obtain ⟨_, rfl⟩ : op = op ∧ ranTarget = target := by simpa [Control.running] using runs
      have holds := tryGetStep_returns (congrArg Prod.snd moved)
      rcases barred.flights control sameHash holds with fresh | behind
      · exact fresh.step registered stepped
      · obtain ⟨hot, present, notBelow⟩ :=
          late.synced control unstarted (LookupStage.synced_of_held holds)
        exact absurd (behind hot present) (not_lt.mpr notBelow)

theorem late_of_unstarted {generation : Nat} (registered : Registered state) :
    Late hashUrl before url state generation state where
  synced := fun flying unstarted => by
    have present := registered.current (congrArg Control.running flying)
    simp [unstarted] at present
  answers := fun unstarted answered => by simp [unstarted] at answered

/-- **The generation counter is a barrier under interleaving.** If a clear, or
an invalidation of the URL that removed something, starts after `before` and
has returned in `middle`, then a lookup of the URL that starts after `middle`
returns only HTML that some insertion of the URL was given that had not
returned in `before`. -/
theorem barrier_holds {maxColdEntries ttlSecs : Nat} {first second third : List Event}
    {middle final : Interleaved} {barrier lookup : OpId} {call : CacheCall} {answer : CacheAnswer}
    {html : String}
    (reached : Execution.exec (step hashUrl) (initial maxColdEntries ttlSecs) first = some before)
    (finished : Execution.exec (step hashUrl) before second = some middle)
    (continued : Execution.exec (step hashUrl) middle third = some final)
    (room : final.bumped < 2 ^ 64) (distinct : Set.InjOn hashUrl final.urls)
    (notStarted : before.calls barrier = none)
    (returned : middle.calls barrier = some ⟨call, some answer⟩)
    (effective : call.Effective url answer) (later : middle.calls lookup = none)
    (hit : final.calls lookup = some ⟨.tryGet url, some (.found (some html))⟩) :
    ∃ op result, final.calls op = some ⟨.insert url html, result⟩ ∧ ¬ before.Returned op := by
  have consistent := consistent_of_exec reached
  have registered := consistent.registered
  have known : url ∈ final.urls := ⟨lookup, _, hit, rfl⟩
  obtain ⟨consistentMiddle, since⟩ := exec_since registered consistent registered.since finished
  have grown := exec_grows consistentMiddle.registered continued
  -- up to `middle`: the barrier bars the URL
  have bars := exec_within (Bars hashUrl before url barrier) registered consistent
    registered.since (bars_of_unstarted registered notStarted)
    (fun consistent since room inside bars =>
      bars.step consistent since room distinct inside known)
    finished (grown.1.trans_lt room) grown.2
  obtain ⟨generation, barred⟩ := bars.returned returned effective
  -- from `middle` on: it stays barred, and later lookups are in step with it
  obtain ⟨_, late⟩ := exec_within
    (fun state => Barred hashUrl before url generation state ∧
      Late hashUrl before url middle generation state)
    registered consistentMiddle since
    ⟨barred, late_of_unstarted consistentMiddle.registered⟩
    (fun consistent since room _ ⟨barred, late⟩ stepped =>
      ⟨barred.step consistent.registered since stepped,
        late.step barred consistent.registered (consistent.counted room) stepped⟩)
    continued room (Set.Subset.refl _)
  obtain ⟨op, source, result, sameHash, inserted, notReturned⟩ := late.answers later hit rfl
  obtain rfl : source = url := distinct ⟨op, _, inserted, rfl⟩ known sameHash
  exact ⟨op, result, inserted, notReturned⟩

/-- The thread's next steps, at clock reading zero. -/
def advances (thread : ThreadId) (count : Nat) : List Event :=
  List.replicate count (.advance thread ⟨VisitOrder.stored, VisitOrder.stored⟩ 0)

/-- Thread 1 has read the old page from the cold cache and not yet promoted it. -/
def beforeClear : List Event :=
  .start 0 (.insert "/a" "old") :: advances 0 7 ++ .start 1 (.tryGet "/a") :: advances 1 4

def clearAndPromotion : List Event := .start 0 .clear :: advances 0 10 ++ advances 1 3

def afterClear : List Event :=
  .start 0 (.insert "/a" "new") :: advances 0 7 ++ .start 1 (.tryGet "/a") :: advances 1 7

/-- A promotion in flight during the clear does not bring the old page back. -/
theorem clear_overtakes_promotion :
    ∃ before final op result,
      Execution.exec (step hashOfTwo) (initial 4 60) beforeClear = some before ∧
      Execution.exec (step hashOfTwo) before (clearAndPromotion ++ afterClear) = some final ∧
      final.calls 1 = some ⟨.tryGet "/a", some (.found (some "old"))⟩ ∧
      final.calls 4 = some ⟨.tryGet "/a", some (.found (some "new"))⟩ ∧
      final.calls op = some ⟨.insert "/a" "new", result⟩ ∧ ¬ before.Returned op := by
  obtain ⟨final, executed, ended⟩ := Option.map_eq_some_iff.mp
    (show (Execution.exec (step hashOfTwo) (initial 4 60)
        (beforeClear ++ (clearAndPromotion ++ afterClear))).map
          (fun state => (state.bumped, state.nextOp, (List.range 5).map state.calls)) =
        some (1, 5, [some ⟨.insert "/a" "old", some .inserted⟩,
          some ⟨.tryGet "/a", some (.found (some "old"))⟩, some ⟨.clear, some .cleared⟩,
          some ⟨.insert "/a" "new", some .inserted⟩,
          some ⟨.tryGet "/a", some (.found (some "new"))⟩]) by decide +kernel)
  obtain ⟨bumped, nextOp, table⟩ := by simpa only [Prod.mk.injEq] using ended
  obtain ⟨_, found, _, _, foundAgain, _⟩ := by
    simpa only [List.range, List.range.loop, List.map, List.cons.injEq] using table
  obtain ⟨before, reached, resumed⟩ := (Execution.exec_append_some_iff _).mp executed
  obtain ⟨middle, finished, continued⟩ := (Execution.exec_append_some_iff _).mp resumed
  have started : (Execution.exec (step hashOfTwo) (initial 4 60) beforeClear).map
      (fun state => state.calls 2) = some none := by decide
  have barred : (Execution.exec (step hashOfTwo) (initial 4 60)
      (beforeClear ++ clearAndPromotion)).map (fun state => (state.calls 2, state.calls 4)) =
        some (some ⟨.clear, some .cleared⟩, none) := by decide
  rw [reached, Option.map_some, Option.some.injEq] at started
  rw [Execution.exec_append, reached, Option.bind_some, finished, Option.map_some,
    Option.some.injEq, Prod.mk.injEq] at barred
  have used : final.urls ⊆ twoUrls := by
    rintro url ⟨op, record, present, uses⟩
    have below : op < 5 := nextOp ▸ (consistent_of_exec executed).registered.below present
    have member : some record ∈ (List.range 5).map final.calls :=
      present ▸ List.mem_map_of_mem (List.mem_range.mpr below)
    simp only [table, List.mem_cons, Option.some.injEq, List.not_mem_nil, or_false] at member
    rcases member with rfl | rfl | rfl | rfl | rfl <;>
      simp only [CacheCall.url, Option.some.injEq, reduceCtorEq] at uses <;>
      exact Or.inl uses.symm
  obtain ⟨op, result, again, notReturned⟩ := barrier_holds reached finished continued
    (by rw [bumped]; decide) (hashOfTwo_injOn.mono used) started barred.1 trivial barred.2
    foundAgain
  exact ⟨before, final, op, result, reached, resumed, found, foundAgain, again, notReturned⟩

end RustySsr.Cache.Interleaved
