import RustySsr.Engine.Renewal
import RustySsr.Engine.ServiceRefinement

/-!
Owns what the refinement gives the callers of the engine with its pool. Its runs
are runs of the engine in flight, so a page that answers a call from the cache
was rendered by a worker, and after an invalidation that leaves nothing behind by
a render that finished since.
-/

namespace RustySsr.Engine

open RustySsr.Cache
open RustySsr.Platform
open RustySsr.V8Pool
open RustySsr.Foundation

namespace InFlight

section Run

variable {hashUrl : String → UInt64} {config : SsrConfig} {events : List Event}
  {final : InFlight}

/-- Since the start of a run, every page of a URL has been rendered. -/
theorem renewed_of_exec
    (executed : Execution.exec (step hashUrl) (initial config) events = some final)
    (url : String) :
    Renewed hashUrl url 0 (ttlOfSecs ((config.cacheTtl.map asSecs).getD 0)) 0 0 0
      (fun _ => False) final := by
  have kept := Execution.exec_invariant_always (fun _ (current : InFlight) =>
    SsrCache.SameTtl ((config.cacheTtl.map asSecs).getD 0) current.cache ∧
      Renewed hashUrl url 0 (ttlOfSecs ((config.cacheTtl.map asSecs).getD 0)) 0 0 0
        (fun _ => False) current) ⟨(headers_initial config).same, ?_⟩ ?_ executed
  · exact kept.2
  · exact
      { pages := SsrCache.pages_withTtl _ _ _ _
        pending := fun present => by contradiction
        answers := fun _ present => by contradiction
        ordered := Nat.le_refl 0
        grown := Nat.le_refl 0 }
  · rintro _ current event next ⟨same, renewed⟩ stepped
    obtain ⟨cacheEvents, cacheEq, _⟩ := step_cache stepped
    refine ⟨?_, renewed.step same (Nat.zero_le _) (fun _ _ _ _ _ _ => not_false) stepped⟩
    rw [cacheEq]
    exact same.run cacheEvents

end Run

end InFlight

namespace Service

/-! ### Runs of the engine in flight -/

theorem related_initial (config : SsrConfig) (coreIds : Option (List Nat)) :
    Related (SsrEngine.poolConfig config) 0 0 (initial config coreIds)
      (InFlight.initial config) where
  served := served_initial config coreIds
  cache := rfl
  nextCall := rfl
  clock := Nat.le_refl 0
  calls := fun _ => rfl
  grown := ⟨Nat.le_refl 0, Nat.le_refl 0⟩
  renders := fun _ member => absurd member List.not_mem_nil

section Run

variable {hashUrl : String → UInt64} {config : SsrConfig} {coreIds : Option (List Nat)}
  {events : List (Event (SsrEngine.poolConfig config).numThreads)}
  {final : Service (SsrEngine.poolConfig config).numThreads}

/-- The coarse run of a run. -/
theorem exists_related
    (executed : Execution.exec (step hashUrl (SsrEngine.poolConfig config))
      (initial config coreIds) events = some final) :
    ∃ model, Execution.exec (InFlight.step hashUrl) (InFlight.initial config)
        (Execution.translation (step hashUrl (SsrEngine.poolConfig config)) translate
          (initial config coreIds) events) = some model ∧
      Related (SsrEngine.poolConfig config) 0 0 final model :=
  (simulates hashUrl _ 0 0).exec (related_initial config coreIds) executed

/-- **Every run of the engine with its pool is a run of the engine in flight.**
Both end with the same cache and with calls that look the same, and every page
that the coarse run has rendered was completed by a worker for its URL. -/
theorem refines
    (executed : Execution.exec (step hashUrl (SsrEngine.poolConfig config))
      (initial config coreIds) events = some final) :
    ∃ model, Execution.exec (InFlight.step hashUrl) (InFlight.initial config)
        (Execution.translation (step hashUrl (SsrEngine.poolConfig config)) translate
          (initial config coreIds) events) = some model ∧
      model.cache = final.cache ∧
      (∀ id, model.calls id = (final.calls id).map (view final.pool)) ∧
      ∀ page ∈ model.renders, ∃ rendering ∈ final.pool.finished,
        rendering.request.url = page.1 ∧ rendering.outcome = .completed (.ok page.2) := by
  obtain ⟨model, ran, related⟩ := exists_related executed
  exact ⟨model, ran, related.cache, related.calls, related.renders⟩

/-- A page that answered a call is that of its coarse call. -/
theorem Related.cached {n : Nat} {poolConfig : V8PoolConfig} {earlier earlierFinished : Nat}
    {state : Service n} {model : InFlight}
    (related : Related poolConfig earlier earlierFinished state model) {id : CallId}
    {call : ServiceCall} {html : String} (present : state.calls id = some call)
    (cached : call.stage = .cached html) :
    model.calls id = some ⟨call.url, call.data, .cached html⟩ := by
  rw [related.calls, present]
  simp [view, progressOf, cached]

/-- **A page that the cache answers with was rendered by a worker**, for a URL
with the same hash. -/
theorem rendering_of_cached
    (executed : Execution.exec (step hashUrl (SsrEngine.poolConfig config))
      (initial config coreIds) events = some final)
    {id : CallId} {call : ServiceCall} {html : String} (present : final.calls id = some call)
    (cached : call.stage = .cached html) :
    ∃ rendering ∈ final.pool.finished, hashUrl rendering.request.url = hashUrl call.url ∧
      rendering.outcome = .completed (.ok html) := by
  obtain ⟨model, ran, related⟩ := exists_related executed
  obtain ⟨source, sameHash, member⟩ := (InFlight.renewed_of_exec ran call.url).answers
    (Nat.zero_le id) (related.cached present cached) rfl rfl
  obtain ⟨rendering, finished, urlEq, outcome⟩ := related.renders _ member
  exact ⟨rendering, finished, by rw [urlEq]; exact sameHash, outcome⟩

end Run

/-! ### Invalidation -/

section Statements

variable {n : Nat} (hashUrl : String → UInt64)

/-- No call for the URL waits with a page that a worker has rendered for it. -/
def NothingToStore (state : Service n) (url : String) : Prop :=
  ∀ id call poolCall, state.calls id = some call → hashUrl call.url = hashUrl url →
    call.stage = .pooled poolCall → state.pool.renderedHtml poolCall = none

/-- No call begun after the first state is answered from the cache with a page
that had been rendered by then. -/
def KeepsInvalid (before final : Service n) (url : String) : Prop :=
  ∀ id call html, before.nextCall ≤ id → final.calls id = some call → call.url = url →
    call.stage = .cached html →
      ∃ rendering ∈ final.pool.finished.drop before.pool.finished.length,
        hashUrl rendering.request.url = hashUrl url ∧ rendering.outcome = .completed (.ok html)

/-- An upper bound on the generation bumps of a run. -/
def bumps (events : List (Event n)) : Nat :=
  events.countP fun event => event.action.invalidation?.isSome

end Statements

section Invalidation

variable {n : Nat} {hashUrl : String → UInt64} {state : Service n} {url : String}

theorem bumps_append (first second : List (Event n)) :
    bumps (first ++ second) = bumps first + bumps second :=
  List.countP_append

/-- Only an invalidation looks like one. -/
theorem visible_eq_some {action : Action n} {coarse : InFlight.Action}
    (seen : visible state action = some coarse) :
    action.invalidation? = some coarse ∨ ∀ now, InFlight.Event.mayBump ⟨now, coarse⟩ = false := by
  cases action with
  | lookup thread url data =>
      obtain rfl := Option.some.inj seen
      exact Or.inr fun _ => rfl
  | finish id thread order =>
      refine Or.inr fun now => ?_
      simp only [visible, Option.bind_eq_some_iff] at seen
      obtain ⟨call, _, seen⟩ := seen
      split at seen
      · obtain ⟨result, _, rfl⟩ := Option.map_eq_some_iff.mp seen
        cases result <;> rfl
      · contradiction
  | cancel id =>
      obtain rfl := Option.some.inj seen
      exact Or.inr fun _ => rfl
  | pool poolEvent =>
      refine Or.inr fun now => ?_
      simp only [visible, Option.bind_eq_some_iff, Option.map_eq_some_iff] at seen
      obtain ⟨page, _, id, _, rfl⟩ := seen
      rfl
  | _ => exact Or.inl seen

theorem bumps_translate (state : Service n) (event : Event n) :
    InFlight.bumps (translate state event) ≤ bumps [event] := by
  unfold translate
  cases seen : visible state event.action with
  | none => exact Nat.zero_le _
  | some coarse =>
      rcases visible_eq_some seen with invalidates | calm
      · have counted : bumps [event] = 1 := by simp [bumps, invalidates]
        rw [counted]
        exact List.countP_le_length
      · simp [InFlight.bumps, calm]

theorem bumps_translation (hashUrl : String → UInt64) (config : V8PoolConfig) (state : Service n)
    (events : List (Event n)) :
    InFlight.bumps (Execution.translation (step hashUrl config) translate state events) ≤
      bumps events := by
  induction events generalizing state with
  | nil => exact Nat.le_refl 0
  | cons event events inductionHypothesis =>
      have rest : InFlight.bumps ((step hashUrl config state event).elim [] fun next =>
          Execution.translation (step hashUrl config) translate next events) ≤ bumps events := by
        cases state.step hashUrl config event with
        | none => exact Nat.zero_le _
        | some next => exact inductionHypothesis next
      rw [Execution.translation, InFlight.bumps_append]
      have first := bumps_translate state event
      have split : bumps (event :: events) = bumps [event] + bumps events :=
        bumps_append [event] events
      omega

end Invalidation

section Run

variable {hashUrl : String → UInt64} {config : SsrConfig} {coreIds : Option (List Nat)}
  {earlier later : List (Event (SsrEngine.poolConfig config).numThreads)}
  {invalidation : Event (SsrEngine.poolConfig config).numThreads}
  {before final : Service (SsrEngine.poolConfig config).numThreads} {url : String}

/-- A relation holds as well for what has been rendered from now on. -/
theorem Related.from_now {n : Nat} {poolConfig : V8PoolConfig} {earlier earlierFinished : Nat}
    {state : Service n} {model : InFlight}
    (related : Related poolConfig earlier earlierFinished state model) :
    Related poolConfig model.renders.length state.pool.finished.length state model :=
  { related with
    grown := ⟨Nat.le_refl _, Nat.le_refl _⟩
    renders := fun page member => by simp at member }

theorem Related.not_holdsPage {n : Nat} {poolConfig : V8PoolConfig}
    {earlier earlierFinished : Nat} {state : Service n} {model : InFlight}
    (related : Related poolConfig earlier earlierFinished state model)
    (nothing : NothingToStore hashUrl state url) (id : CallId) :
    ¬ InFlight.HoldsPage hashUrl model url id := by
  rintro ⟨call, html, present, sameHash, holding⟩
  rw [related.calls, Option.map_eq_some_iff] at present
  obtain ⟨⟨callUrl, data, stage⟩, pooled, rfl⟩ := present
  cases stage with
  | pooled poolCall =>
      have none := nothing id _ poolCall pooled sameHash rfl
      simp [view, progressOf, none] at holding
  | _ => contradiction

/-- **After an invalidation that leaves nothing behind, callers get pages that
were rendered since.** When no call waits with a page of the URL and no live copy
stays in reach, every later call that the cache answers gets a page that a worker
completed after the invalidation. -/
theorem keepsInvalid_of_exec
    (room : bumps earlier + 1 + bumps later < 2 ^ 64)
    (reached : Execution.exec (step hashUrl (SsrEngine.poolConfig config))
      (initial config coreIds) earlier = some before)
    (executed : Execution.exec (step hashUrl (SsrEngine.poolConfig config)) before
      (invalidation :: later) = some final)
    {action : InFlight.Action} (same : invalidation.action.invalidation? = some action)
    (invalidates : action.Invalidates url) (nothing : NothingToStore hashUrl before url)
    (reaches : InFlight.ReachesCopies hashUrl before.cache ⟨invalidation.now, action⟩ url) :
    KeepsInvalid hashUrl before final url := by
  obtain ⟨model, ran, related⟩ := exists_related reached
  obtain ⟨after, stepped, executedLater⟩ := (Execution.exec_cons_some_iff _).mp executed
  obtain ⟨modelAfter, matched, relatedAfter⟩ :=
    simulates hashUrl _ _ _ before model invalidation after related.from_now stepped
  obtain ⟨modelFinal, ranLater, relatedFinal⟩ :=
    (simulates hashUrl _ _ _).exec relatedAfter executedLater
  rw [translate, visible_of_invalidation same] at matched
  obtain ⟨middle, modelStepped, ended⟩ := (Execution.exec_cons_some_iff _).mp matched
  obtain rfl : middle = modelAfter := Option.some.inj ended
  have fewer := bumps_translation hashUrl (SsrEngine.poolConfig config) (initial config coreIds)
    earlier
  have fewerLater := bumps_translation hashUrl (SsrEngine.poolConfig config) after later
  have kept := InFlight.keepsInvalid_of_reaches (by omega) ran modelStepped ranLater invalidates
    (by rw [related.cache]; exact reaches) fun _ _ id _ _ _ => related.not_holdsPage nothing id
  intro id call html isLater present sameUrl cached
  obtain ⟨source, sameHash, member⟩ := kept id _ html (related.nextCall.trans_le isLater)
    (relatedFinal.cached present cached) sameUrl rfl
  obtain ⟨rendering, finished, urlEq, outcome⟩ := relatedFinal.renders _ member
  exact ⟨rendering, finished, by rw [urlEq]; exact sameHash, outcome⟩

end Run

/-! ### A run of one worker -/

/-- The steps of one worker and one call from the lookup of "/a" until its page
is stored. -/
def servedCall {n : Nat} (worker : Fin n) (id : CallId) (now : Nat) (html : String) :
    List (Event n) :=
  [⟨now, .lookup 0 "/a" "\x7b\x7d"⟩, ⟨now, .enter id⟩, ⟨now, .pool (.trySend id now)⟩,
    ⟨now, .pool (.lock worker)⟩, ⟨now, .pool (.recv worker)⟩,
    ⟨now, .pool (.render worker (.completed (.ok html)))⟩, ⟨now, .pool (.reply worker)⟩,
    ⟨now, .pool (.receiveResponse id)⟩, ⟨now, .finish id 0 VisitOrder.stored⟩]

/-- The page of a first call is stored. -/
def storedEvents {n : Nat} (worker : Fin n) : List (Event n) :=
  [⟨0, .pool (.pin worker)⟩, ⟨0, .pool (.initRuntime worker .ok)⟩] ++ servedCall worker 0 1 "old"

/-- It is invalidated, a second call stores a page, and a third finds it. -/
def renewedEvents {n : Nat} (worker : Fin n) : List (Event n) :=
  [⟨2, .invalidate "/a"⟩] ++ servedCall worker 1 3 "new" ++ [⟨4, .lookup 1 "/a" "\x7b\x7d"⟩]

theorem refines_of_renewed :
    ∃ (model : InFlight) (final : Service 1),
      Execution.exec (step SsrCache.hashOfTwo (SsrEngine.poolConfig SsrEngine.smallConfig))
        (initial SsrEngine.smallConfig none)
        (storedEvents (0 : Fin 1) ++ renewedEvents (0 : Fin 1)) = some final ∧
      model.cache = final.cache := by
  obtain ⟨final, executed⟩ : ∃ final : Service 1,
      Execution.exec (step SsrCache.hashOfTwo (SsrEngine.poolConfig SsrEngine.smallConfig))
        (initial SsrEngine.smallConfig none)
        (storedEvents (0 : Fin 1) ++ renewedEvents (0 : Fin 1)) = some final :=
    ⟨_, rfl⟩
  obtain ⟨model, _, sameCache, _⟩ := refines executed
  exact ⟨model, final, executed, sameCache⟩

theorem rendering_of_renewed :
    ∃ final : Service 1,
      Execution.exec (step SsrCache.hashOfTwo (SsrEngine.poolConfig SsrEngine.smallConfig))
        (initial SsrEngine.smallConfig none)
        (storedEvents (0 : Fin 1) ++ renewedEvents (0 : Fin 1)) = some final ∧
      ∃ rendering ∈ final.pool.finished, rendering.outcome = .completed (.ok "new") := by
  obtain ⟨final, executed, present⟩ : ∃ final : Service 1,
      Execution.exec (step SsrCache.hashOfTwo (SsrEngine.poolConfig SsrEngine.smallConfig))
        (initial SsrEngine.smallConfig none)
        (storedEvents (0 : Fin 1) ++ renewedEvents (0 : Fin 1)) = some final ∧
      final.calls 2 = some ⟨"/a", "\x7b\x7d", .cached "new"⟩ :=
    ⟨_, rfl, rfl⟩
  obtain ⟨rendering, finished, _, outcome⟩ := rendering_of_cached executed present rfl
  exact ⟨final, executed, rendering, finished, outcome⟩

theorem keepsInvalid_of_renewed :
    ∃ before final : Service 1,
      Execution.exec (step SsrCache.hashOfTwo (SsrEngine.poolConfig SsrEngine.smallConfig))
        (initial SsrEngine.smallConfig none) (storedEvents (0 : Fin 1)) = some before ∧
      Execution.exec (step SsrCache.hashOfTwo (SsrEngine.poolConfig SsrEngine.smallConfig)) before
        (renewedEvents (0 : Fin 1)) = some final ∧
      KeepsInvalid SsrCache.hashOfTwo before final "/a" := by
  obtain ⟨before, final, reached, executed, present, nextCall, cold⟩ : ∃ before final : Service 1,
      Execution.exec (step SsrCache.hashOfTwo (SsrEngine.poolConfig SsrEngine.smallConfig))
        (initial SsrEngine.smallConfig none) (storedEvents (0 : Fin 1)) = some before ∧
      Execution.exec (step SsrCache.hashOfTwo (SsrEngine.poolConfig SsrEngine.smallConfig)) before
        (renewedEvents (0 : Fin 1)) = some final ∧
      before.calls 0 = some ⟨"/a", "\x7b\x7d", .returned (.ok "old")⟩ ∧ before.nextCall = 1 ∧
      InFlight.ReachesCopies SsrCache.hashOfTwo before.cache ⟨2, .invalidate "/a"⟩ "/a" :=
    ⟨_, _, rfl, rfl, rfl, rfl, Or.inl ⟨⟨"/a", "old", 0, 1⟩, by decide⟩⟩
  refine ⟨before, final, reached, executed, keepsInvalid_of_exec (by decide) reached executed rfl
    rfl ?_ cold⟩
  intro id call poolCall pooled _ waits
  obtain ⟨_, _, related⟩ := exists_related reached
  cases id with
  | zero =>
      obtain rfl := Option.some.inj (present.symm.trans pooled)
      contradiction
  | succ id =>
      rw [related.served.unused (id + 1) (nextCall.trans_le (Nat.succ_le_succ (Nat.zero_le id)))]
        at pooled
      contradiction

end Service

end RustySsr.Engine
