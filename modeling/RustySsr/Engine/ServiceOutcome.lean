import RustySsr.Engine.ServiceInvariant
import RustySsr.Foundation.Simulation
import RustySsr.V8Pool.Refusals

/-!
Owns what the calls on the engine return. The pool of a running engine is a pool
that runs by itself, so what holds of every run of the pool holds inside the
engine. A call that has gone through the pool returns what a pool call of its
own, made for its URL and data, has returned; `Reason` reads from this what a
worker or the channel did for each result.
-/

namespace RustySsr.Engine.Service

open RustySsr.Cache
open RustySsr.Platform
open RustySsr.V8Pool
open RustySsr.Foundation

variable {n : Nat}

/-! ### The pool on its own -/

/-- The pool call that the call waits for. -/
def ServiceCall.poolCall? (call : ServiceCall) : Option CallId :=
  match call.stage with
  | .pooled poolCall => some poolCall
  | _ => none

/-- What the step of the engine is for its pool. -/
def poolEvents (state : Service n) (event : Event n) : List (Pool.Event n) :=
  match event.action with
  | .enter id =>
      ((state.calls id).map fun call => .call call.url call.data event.now).toList
  | .cancel id => (((state.calls id).bind ServiceCall.poolCall?).map .cancel).toList
  | .renderUncached url data => [.call url data event.now]
  | .cancelUncached id => (((state.uncached id).bind ServiceCall.poolCall?).map .cancel).toList
  | .pool poolEvent => [poolEvent]
  | .drop => [.drop]
  | _ => []

section Steps

variable {hashUrl : String → UInt64} {config : V8PoolConfig} {state next : Service n}
  {event : Event n}

theorem exec_single {pool after : Pool n} {poolEvent : Pool.Event n}
    (stepped : pool.step config poolEvent = some after) :
    Execution.exec (Pool.step config) pool [poolEvent] = some after :=
  (Execution.exec_cons_some_iff _).mpr ⟨after, stepped, rfl⟩

/-- The pool of the engine takes the steps of a pool. -/
theorem pool_simulates (hashUrl : String → UInt64) (config : V8PoolConfig) :
    Execution.Simulates (step (n := n) hashUrl config) (Pool.step config) poolEvents
      (fun state pool => pool = state.pool) := by
  rintro state _ event next rfl stepped
  refine ⟨next.pool, ?_, rfl⟩
  unfold poolEvents
  cases step_transition stepped with
  | looks action answer => rw [action]; rfl
  | enters action missed called =>
      rw [action]
      dsimp only
      rw [missed]
      exact exec_single called
  | stores action pooled served => rw [action]; rfl
  | fails action pooled failed => rw [action]; rfl
  | cancels action pooled cancelled =>
      rw [action]
      dsimp only
      rw [pooled]
      exact exec_single cancelled
  | entersUncached action called => rw [action]; exact exec_single called
  | finishesUncached action pooled returned => rw [action]; rfl
  | cancelsUncached action pooled cancelled =>
      rw [action]
      dsimp only
      rw [pooled]
      exact exec_single cancelled
  | works action inner poolStep => rw [action]; exact exec_single poolStep
  | invalidates same acted => cases action : event.action <;> simp_all [Action.invalidation?]
  | drops action unborrowed dropped => rw [action]; exact exec_single dropped

/-! ### A result comes from the pool -/

/-- A pool call for the URL and data of the call has returned the result. -/
def Explained (state : Service n) (call : ServiceCall) (result : Except SsrError String) : Prop :=
  ∃ poolCall pooled outcome, state.pool.calls poolCall = some pooled ∧ pooled.url = call.url ∧
    pooled.data = call.data ∧ pooled.phase = .returned outcome ∧
      result = outcome.mapError SsrEngine.mapPoolError

theorem returned_of_setStage (state : Service n) {id : CallId} {name : CallId ⊕ CallId}
    {stage : Stage} {call : ServiceCall} {result : Except SsrError String}
    (present : (state.setStage id stage).entry name = some call)
    (returned : call.stage = .returned result) :
    state.entry name = some call ∨ (stage = .returned result ∧
      ∃ old, state.calls id = some old ∧ old.url = call.url ∧ old.data = call.data) := by
  rcases setStage_entry state present with old | ⟨_, old, oldPresent, rfl⟩
  · exact Or.inl old
  · exact Or.inr ⟨returned, old, oldPresent, rfl, rfl⟩

theorem returned_of_setUncached (state : Service n) {id : CallId} {name : CallId ⊕ CallId}
    {stage : Stage} {call : ServiceCall} {result : Except SsrError String}
    (present : (state.setUncached id stage).entry name = some call)
    (returned : call.stage = .returned result) :
    state.entry name = some call ∨ (stage = .returned result ∧
      ∃ old, state.uncached id = some old ∧ old.url = call.url ∧ old.data = call.data) := by
  rcases setUncached_entry state present with old | ⟨_, old, oldPresent, rfl⟩
  · exact Or.inl old
  · exact Or.inr ⟨returned, old, oldPresent, rfl, rfl⟩

/-- A call that waits has the result that its pool call returns. -/
theorem Served.explained (served : Served config state) (name : CallId ⊕ CallId)
    {poolCall : CallId} {url data : String} {call : ServiceCall}
    (waits : state.entry name = some ⟨url, data, .pooled poolCall⟩)
    (sameUrl : url = call.url) (sameData : data = call.data)
    {outcome : Except PoolError String} (returned : poolResult state.pool poolCall = some outcome) :
    Explained state call (outcome.mapError SsrEngine.mapPoolError) := by
  obtain ⟨pooled, present, ownUrl, ownData⟩ := served.owned name _ _ poolCall waits
  obtain ⟨again, againPresent, phase⟩ := poolResult_eq_some_iff.mp returned
  obtain rfl := Option.some.inj (present.symm.trans againPresent)
  exact ⟨poolCall, pooled, outcome, present, ownUrl.trans sameUrl, ownData.trans sameData, phase,
    rfl⟩

/-- What a pool call has returned does not change. -/
theorem Served.explained_later (served : Served config state)
    (step : Transition hashUrl config state event next) {call : ServiceCall}
    {result : Except SsrError String} (explained : Explained state call result) :
    Explained next call result := by
  obtain ⟨poolCall, pooled, outcome, present, url, data, phase, rfl⟩ := explained
  rcases step.pool_step with same | ⟨poolEvent, stepped⟩
  · exact ⟨poolCall, pooled, outcome, by rw [same]; exact present, url, data, phase, rfl⟩
  · obtain ⟨after, afterPresent, goesOn⟩ :=
      served.sound.goesOn (Pool.step_transition stepped) present
    exact ⟨poolCall, after, outcome, afterPresent, goesOn.same.1.trans url,
      goesOn.same.2.trans data,
      (goesOn.ended (by rw [Call.inFlight, phase])).trans phase, rfl⟩

/-- Every result is explained by the pool. -/
def AllExplained (state : Service n) : Prop :=
  ∀ name call result, state.entry name = some call → call.stage = .returned result →
    Explained state call result

theorem AllExplained.transition (all : AllExplained state) (served : Served config state)
    (step : Transition hashUrl config state event next) : AllExplained next := by
  intro name call result present returned
  have kept (before : state.entry name = some call) : Explained next call result :=
    served.explained_later step (all name call result before returned)
  cases step with
  | @looks thread url data stage action answer =>
      cases name with
      | inr other => exact kept present
      | inl other =>
          change Function.update state.calls state.nextCall _ other = some call at present
          by_cases new : other = state.nextCall
          · rw [new, Function.update_self, Option.some.injEq] at present
            subst present
            dsimp only at returned
            rcases answer with ⟨html, rfl, _⟩ | ⟨rfl, _⟩ <;> contradiction
          · rw [Function.update_of_ne new] at present
            exact kept present
  | enters action missed called =>
      rcases returned_of_setStage { state with clock := event.now } present returned with
        before | ⟨other, _⟩
      · exact kept before
      · contradiction
  | @stores id poolCall url data html thread order action pooled answered =>
      rcases returned_of_setStage { state with clock := event.now } present returned with
        before | ⟨same, old, oldPresent, sameUrl, sameData⟩
      · exact kept before
      · obtain rfl := Stage.returned.inj same
        obtain rfl := Option.some.inj (pooled.symm.trans oldPresent)
        exact served.explained (.inl id) pooled sameUrl sameData answered
  | @fails id poolCall url data error thread order action pooled failed =>
      rcases returned_of_setStage { state with clock := event.now } present returned with
        before | ⟨same, old, oldPresent, sameUrl, sameData⟩
      · exact kept before
      · obtain rfl := Stage.returned.inj same
        obtain rfl := Option.some.inj (pooled.symm.trans oldPresent)
        exact served.explained (.inl id) pooled sameUrl sameData failed
  | cancels action pooled cancelled =>
      rcases returned_of_setStage { state with clock := event.now } present returned with
        before | ⟨other, _⟩
      · exact kept before
      · contradiction
  | @entersUncached url data pool action called =>
      cases name with
      | inl other => exact kept present
      | inr other =>
          change Function.update state.uncached state.nextUncached _ other = some call at present
          by_cases new : other = state.nextUncached
          · rw [new, Function.update_self, Option.some.injEq] at present
            subst present
            contradiction
          · rw [Function.update_of_ne new] at present
            exact kept present
  | @finishesUncached id poolCall url data outcome action pooled answered =>
      rcases returned_of_setUncached { state with clock := event.now } present returned with
        before | ⟨same, old, oldPresent, sameUrl, sameData⟩
      · exact kept before
      · obtain rfl := Stage.returned.inj same
        obtain rfl := Option.some.inj (pooled.symm.trans oldPresent)
        exact served.explained (.inr id) pooled sameUrl sameData answered
  | cancelsUncached action pooled cancelled =>
      rcases returned_of_setUncached { state with clock := event.now } present returned with
        before | ⟨other, _⟩
      · exact kept before
      · contradiction
  | works action inner stepped => exact kept present
  | invalidates same acted => exact kept present
  | drops action unborrowed dropped => exact kept present

end Steps

/-! ### What the result says about the pool -/

/-- A worker has ended a render for the URL and data of the call in this way. -/
def RenderedFor (pool : Pool n) (call : ServiceCall) (outcome : RenderOutcome) : Prop :=
  ∃ worker request, ⟨worker, request, outcome⟩ ∈ pool.finished ∧ request.url = call.url ∧
    request.data = call.data

/-- A request for the URL and data of the call found the channel full when its
time was over, and no worker has it. -/
def RefusedFor (config : V8PoolConfig) (start : Pool n) (events : List (Pool.Event n))
    (pool : Pool n) (call : ServiceCall) : Prop :=
  ∃ poolCall pooled began, pool.calls poolCall = some pooled ∧ pooled.url = call.url ∧
    pooled.data = call.data ∧
    Execution.ExecOccurs (Pool.step config) (Pool.Begins poolCall began) start events ∧
    Execution.ExecOccurs (Pool.step config) (Pool.TimedOut config began poolCall) start events ∧
    ∀ worker request, (worker, request) ∈ pool.started → request.responseTx ≠ poolCall

/-- Why a call that has gone through the pool has its result, after a run of the
pool. There is no reason for `PoolFull`. -/
inductive Reason (config : V8PoolConfig) (start : Pool n) (events : List (Pool.Event n))
    (pool : Pool n) (call : ServiceCall) : Except SsrError String → Prop
  | page {html : String} (rendered : RenderedFor pool call (.completed (.ok html))) :
      Reason config start events pool call (.ok html)
  | failed {message : String} (rendered : RenderedFor pool call (.completed (.error message))) :
      Reason config start events pool call (.error (.jsExecution message))
  | crashed (rendered : RenderedFor pool call .panicked) :
      Reason config start events pool call (.error (.jsExecution "V8 worker crashed"))
  | timedOut (refused : RefusedFor config start events pool call) :
      Reason config start events pool call (.error .timeout)

theorem Explained.reason {config : V8PoolConfig} {coreAffinity : Option (List Nat)}
    {events : List (Pool.Event n)} {state : Service n} {call : ServiceCall}
    {result : Except SsrError String} (explained : Explained state call result)
    (executed : Execution.exec (Pool.step config) (Pool.initial n coreAffinity) events =
      some state.pool) :
    Reason config (Pool.initial n coreAffinity) events state.pool call result := by
  obtain ⟨poolCall, pooled, outcome, present, url, data, phase, rfl⟩ := explained
  have accounted := (Pool.sound_of_exec executed).accounted
  have honest := Pool.honest_of_exec executed
  cases outcome with
  | ok html =>
      obtain ⟨worker, member⟩ := accounted.okOwn poolCall pooled html present phase
      exact .page ⟨worker, _, member, url, data⟩
  | error error =>
      cases error with
      | render message =>
          obtain ⟨worker, member⟩ := accounted.errOwn poolCall pooled message present phase
          exact .failed ⟨worker, _, member, url, data⟩
      | workerCrashed =>
          obtain ⟨worker, member, _⟩ := accounted.crashedOwn poolCall pooled present phase
          exact .crashed ⟨worker, _, member, url, data⟩
      | timeout =>
          obtain ⟨began, begun, gaveUp⟩ := honest.timedOut poolCall pooled present phase
          exact .timedOut ⟨poolCall, pooled, began, present, url, data, begun, gaveUp,
            accounted.refusedNotRendered poolCall pooled present (Or.inl phase)⟩
      | disconnected => exact absurd phase (honest.connected poolCall pooled present)

section Run

variable {hashUrl : String → UInt64} {config : SsrConfig} {coreIds : Option (List Nat)}
  {events : List (Event (SsrEngine.poolConfig config).numThreads)}
  {final : Service (SsrEngine.poolConfig config).numThreads}

/-- In a run, the pool of the engine is the pool of the run of its own steps. -/
theorem pool_of_exec
    (executed : Execution.exec (step hashUrl (SsrEngine.poolConfig config))
      (initial config coreIds) events = some final) :
    Execution.exec (Pool.step (SsrEngine.poolConfig config))
      (Pool.new (SsrEngine.poolConfig config) coreIds)
      (Execution.translation (step hashUrl (SsrEngine.poolConfig config)) poolEvents
        (initial config coreIds) events) = some final.pool := by
  obtain ⟨pool, ran, rfl⟩ := (pool_simulates hashUrl _).exec
    (show (initial config coreIds).pool = (initial config coreIds).pool from rfl) executed
  exact ran

/-- What holds of the engine and its pool after every run. -/
theorem served_of_exec
    (executed : Execution.exec (step hashUrl (SsrEngine.poolConfig config))
      (initial config coreIds) events = some final) :
    Served (SsrEngine.poolConfig config) final ∧ AllExplained final := by
  refine Execution.exec_invariant_always
    (fun _ (state : Service (SsrEngine.poolConfig config).numThreads) =>
      Served (SsrEngine.poolConfig config) state ∧ AllExplained state)
    ⟨served_initial config coreIds, ?_⟩ ?_ executed
  · rintro (id | id) call result present <;> contradiction
  · rintro _ state event next ⟨served, explained⟩ stepped
    have transition := step_transition stepped
    exact ⟨served.transition transition, explained.transition served transition⟩

/-- **Every result that a call brings from the pool is true.** In every run of
the engine, a call of either kind that has gone through the pool has a page or an
error that a worker produced for its own URL and data, or its request met a full
channel when its time was over. `PoolFull` never occurs. -/
theorem reason_of_exec
    (executed : Execution.exec (step hashUrl (SsrEngine.poolConfig config))
      (initial config coreIds) events = some final)
    {name : CallId ⊕ CallId} {call : ServiceCall} {result : Except SsrError String}
    (present : final.entry name = some call) (returned : call.stage = .returned result) :
    Reason (SsrEngine.poolConfig config) (Pool.new (SsrEngine.poolConfig config) coreIds)
      (Execution.translation (step hashUrl (SsrEngine.poolConfig config)) poolEvents
        (initial config coreIds) events) final.pool call result :=
  ((served_of_exec executed).2 name call result present returned).reason
    (pool_of_exec executed)

end Run

/-- One worker serves two calls of different kinds for one URL. The page of the
first is stored. -/
def servedEvents (worker : Fin n) : List (Event n) :=
  [⟨0, .lookup 0 "/a" "\x7b\x7d"⟩, ⟨0, .enter 0⟩, ⟨0, .pool (.trySend 0 0)⟩,
    ⟨1, .pool (.pin worker)⟩, ⟨1, .pool (.initRuntime worker .ok)⟩, ⟨1, .pool (.lock worker)⟩,
    ⟨1, .pool (.recv worker)⟩, ⟨2, .pool (.render worker (.completed (.ok "page")))⟩,
    ⟨2, .pool (.reply worker)⟩, ⟨2, .pool (.receiveResponse 0)⟩, ⟨3, .finish 0 0 VisitOrder.stored⟩,
    ⟨4, .renderUncached "/a" "\x7b\x7d"⟩, ⟨4, .pool (.trySend 1 4)⟩, ⟨4, .pool (.lock worker)⟩,
    ⟨4, .pool (.recv worker)⟩, ⟨5, .pool (.render worker (.completed (.error "error")))⟩,
    ⟨5, .pool (.reply worker)⟩, ⟨5, .pool (.receiveResponse 1)⟩, ⟨6, .finishUncached 0⟩]

theorem reason_of_served_calls :
    ∃ final : Service 1,
      Execution.exec (step SsrCache.hashOfTwo (SsrEngine.poolConfig SsrEngine.smallConfig))
        (initial SsrEngine.smallConfig none) (servedEvents (0 : Fin 1)) = some final ∧
      RenderedFor final.pool ⟨"/a", "\x7b\x7d", .returned (.ok "page")⟩
        (.completed (.ok "page")) := by
  obtain ⟨final, executed, present⟩ : ∃ final : Service 1,
      Execution.exec (step SsrCache.hashOfTwo (SsrEngine.poolConfig SsrEngine.smallConfig))
        (initial SsrEngine.smallConfig none) (servedEvents (0 : Fin 1)) = some final ∧
      final.entry (.inl 0) = some ⟨"/a", "\x7b\x7d", .returned (.ok "page")⟩ := ⟨_, rfl, rfl⟩
  refine ⟨final, executed, ?_⟩
  cases reason_of_exec executed present rfl with
  | page rendered => exact rendered

end RustySsr.Engine.Service
