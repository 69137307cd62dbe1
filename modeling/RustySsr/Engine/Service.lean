import RustySsr.Engine.InFlight
import RustySsr.V8Pool.Outcome

/-!
Owns the engine together with its pool. A call of `render_with_data` looks its
URL up, enters the pool, goes through the pool's own steps, and stores what it
gets; `render_uncached` only goes through the pool. Between any two steps other
calls, the workers and invalidations may run. A call is dropped only at one of
its awaits, which are the pool's, and the engine only while no call runs.
-/

namespace RustySsr.Engine

open RustySsr.Cache
open RustySsr.V8Pool
open RustySsr.Foundation

/-- Where a call on the engine stands. Once it has entered the pool, its place
there is that of its pool call. -/
inductive Stage where
  | missed
  | pooled (poolCall : CallId)
  | cached (html : String)
  | returned (result : Except SsrError String)
  | cancelled
deriving DecidableEq

structure ServiceCall where
  url : String
  data : String
  stage : Stage

/-- The call runs, and so borrows the engine. -/
def Stage.running : Stage → Bool
  | .missed => true
  | .pooled _ => true
  | _ => false

/-- The engine with `n` worker threads: its cache, its pool, the calls of
`render_with_data` and those of `render_uncached`. -/
structure Service (n : Nat) where
  cache : SsrCache
  pool : Pool n
  calls : CallId → Option ServiceCall
  nextCall : CallId
  uncached : CallId → Option ServiceCall
  nextUncached : CallId
  clock : Nat

namespace Service

variable {n : Nat}

/-- `SsrEngine::new`, once the bundle is loaded. -/
def initial (config : SsrConfig) (coreIds : Option (List Nat)) :
    Service (SsrEngine.poolConfig config).numThreads where
  cache := (SsrEngine.new config).cache
  pool := Pool.new (SsrEngine.poolConfig config) coreIds
  calls := fun _ => none
  nextCall := 0
  uncached := fun _ => none
  nextUncached := 0
  clock := 0

def setStage (state : Service n) (id : CallId) (stage : Stage) : Service n :=
  { state with
    calls := Function.update state.calls id
      ((state.calls id).map fun call => { call with stage := stage }) }

def setUncached (state : Service n) (id : CallId) (stage : Stage) : Service n :=
  { state with
    uncached := Function.update state.uncached id
      ((state.uncached id).map fun call => { call with stage := stage }) }

/-- An operation on the cache of an engine that exists. -/
def replaceCache (state : Service n) (cache : SsrCache) : Option (Service n) :=
  if state.pool.alive then some { state with cache := cache } else none

/-- Nobody borrows the engine. -/
def Unborrowed (state : Service n) : Prop :=
  (∀ id < state.nextCall, ((state.calls id).all fun call => !call.stage.running) = true) ∧
    ∀ id < state.nextUncached, ((state.uncached id).all fun call => !call.stage.running) = true

instance (state : Service n) : Decidable state.Unborrowed := by
  unfold Unborrowed
  infer_instance

/-- The result of a pool call that has returned. -/
def poolResult (pool : Pool n) (poolCall : CallId) : Option (Except PoolError String) :=
  match pool.calls poolCall with
  | some ⟨_, _, .returned result, _, _⟩ => some result
  | _ => none

inductive Action (n : Nat) where
  | lookup (thread : ThreadId) (url data : String)
  | enter (id : CallId)
  | finish (id : CallId) (thread : ThreadId) (order : ScanOrder)
  | cancel (id : CallId)
  | renderUncached (url data : String)
  | finishUncached (id : CallId)
  | cancelUncached (id : CallId)
  | pool (event : Pool.Event n)
  | invalidate (url : String)
  | invalidatePrefix (order : ScanOrder) (urlPrefix : String)
  | clearCache
  | drop

/-- The invalidation that the action is, on the cache alone. -/
def Action.invalidation? : Action n → Option InFlight.Action
  | .invalidate url => some (.invalidate url)
  | .invalidatePrefix order urlPrefix => some (.invalidatePrefix order urlPrefix)
  | .clearCache => some .clearCache
  | _ => none

/-- An action and the reading of the clock when it happens. -/
structure Event (n : Nat) where
  now : Nat
  action : Action n

/-- The steps of the pool that are neither the start of a call, nor its end by
its caller, nor the end of the pool. Attempts to send read the clock. -/
def isInner (now : Nat) : Pool.Event n → Bool
  | .call _ _ _ => false
  | .cancel _ => false
  | .drop => false
  | .trySend _ time => time == now
  | _ => true

section Steps

variable (hashUrl : String → UInt64) (config : V8PoolConfig)

/-- The first step of a call: the cache lookup, which ends the call on a hit. -/
def lookup (state : Service n) (thread : ThreadId) (url data : String) (now : Nat) :
    Option (Service n) :=
  if state.pool.alive then
    let looked := state.cache.tryGet hashUrl thread url now
    let stage := match looked.1 with
      | some html => .cached html
      | none => .missed
    some { state with
      cache := looked.2
      calls := Function.update state.calls state.nextCall (some ⟨url, data, stage⟩)
      nextCall := state.nextCall + 1 }
  else none

/-- A call that found no page enters the pool. -/
def enter (state : Service n) (id : CallId) (now : Nat) : Option (Service n) :=
  match state.calls id with
  | some ⟨url, data, .missed⟩ =>
      (state.pool.call config url data now).map fun pool =>
        { state.setStage id (.pooled state.pool.nextCall) with pool := pool }
  | _ => none

/-- A call whose pool call has returned stores its page, or returns the error. -/
def finish (state : Service n) (id : CallId) (thread : ThreadId) (order : ScanOrder) (now : Nat) :
    Option (Service n) :=
  match state.calls id with
  | some ⟨url, _, .pooled poolCall⟩ =>
      (poolResult state.pool poolCall).map fun result => match result with
        | .ok html =>
            { state.setStage id (.returned (.ok html)) with
              cache := state.cache.insert hashUrl thread order url html now }
        | .error error => state.setStage id (.returned (.error (SsrEngine.mapPoolError error)))
  | _ => none

/-- The caller drops the future at one of the awaits of its pool call. -/
def cancel (state : Service n) (id : CallId) : Option (Service n) :=
  match state.calls id with
  | some ⟨_, _, .pooled poolCall⟩ =>
      (state.pool.cancel poolCall).map fun pool =>
        { state.setStage id .cancelled with pool := pool }
  | _ => none

/-- `render_uncached` enters the pool at once. -/
def renderUncached (state : Service n) (url data : String) (now : Nat) : Option (Service n) :=
  (state.pool.call config url data now).map fun pool =>
    { state with
      pool := pool
      uncached := Function.update state.uncached state.nextUncached
        (some ⟨url, data, .pooled state.pool.nextCall⟩)
      nextUncached := state.nextUncached + 1 }

def finishUncached (state : Service n) (id : CallId) : Option (Service n) :=
  match state.uncached id with
  | some ⟨_, _, .pooled poolCall⟩ =>
      (poolResult state.pool poolCall).map fun result =>
        state.setUncached id (.returned (result.mapError SsrEngine.mapPoolError))
  | _ => none

def cancelUncached (state : Service n) (id : CallId) : Option (Service n) :=
  match state.uncached id with
  | some ⟨_, _, .pooled poolCall⟩ =>
      (state.pool.cancel poolCall).map fun pool =>
        { state.setUncached id .cancelled with pool := pool }
  | _ => none

def act (state : Service n) (now : Nat) : Action n → Option (Service n)
  | .lookup thread url data => state.lookup hashUrl thread url data now
  | .enter id => state.enter config id now
  | .finish id thread order => state.finish hashUrl id thread order now
  | .cancel id => state.cancel id
  | .renderUncached url data => state.renderUncached config url data now
  | .finishUncached id => state.finishUncached id
  | .cancelUncached id => state.cancelUncached id
  | .pool event =>
      if isInner now event then
        (state.pool.step config event).map fun pool => { state with pool := pool }
      else none
  | .invalidate url => state.replaceCache (state.cache.invalidate hashUrl url)
  | .invalidatePrefix order urlPrefix =>
      state.replaceCache (state.cache.invalidatePrefix order urlPrefix).2
  | .clearCache => state.replaceCache state.cache.clear
  | .drop =>
      if state.Unborrowed then
        state.pool.drop.map fun pool => { state with pool := pool }
      else none

/-- One step, at a time that is not before the last one. -/
def step (state : Service n) (event : Event n) : Option (Service n) :=
  if state.clock ≤ event.now then
    { state with clock := event.now }.act hashUrl config event.now event.action
  else none

end Steps

/-! ### What a step can do -/

/-- A step, by what changes and what was the case before. -/
inductive Transition (hashUrl : String → UInt64) (config : V8PoolConfig) (state : Service n)
    (event : Event n) : Service n → Prop where
  | looks {thread : ThreadId} {url data : String} {stage : Stage}
      (action : event.action = .lookup thread url data)
      (answer : (∃ html, stage = .cached html ∧
          (state.cache.tryGet hashUrl thread url event.now).1 = some html) ∨
        (stage = .missed ∧ (state.cache.tryGet hashUrl thread url event.now).1 = none)) :
      Transition hashUrl config state event
        { state with
          clock := event.now
          cache := (state.cache.tryGet hashUrl thread url event.now).2
          calls := Function.update state.calls state.nextCall (some ⟨url, data, stage⟩)
          nextCall := state.nextCall + 1 }
  | enters {id : CallId} {url data : String} {pool : Pool n} (action : event.action = .enter id)
      (missed : state.calls id = some ⟨url, data, .missed⟩)
      (called : state.pool.call config url data event.now = some pool) :
      Transition hashUrl config state event
        { setStage { state with clock := event.now } id (.pooled state.pool.nextCall) with
          pool := pool }
  | stores {id poolCall : CallId} {url data html : String} {thread : ThreadId} {order : ScanOrder}
      (action : event.action = .finish id thread order)
      (pooled : state.calls id = some ⟨url, data, .pooled poolCall⟩)
      (served : poolResult state.pool poolCall = some (.ok html)) :
      Transition hashUrl config state event
        { setStage { state with clock := event.now } id (.returned (.ok html)) with
          cache := state.cache.insert hashUrl thread order url html event.now }
  | fails {id poolCall : CallId} {url data : String} {error : PoolError} {thread : ThreadId}
      {order : ScanOrder} (action : event.action = .finish id thread order)
      (pooled : state.calls id = some ⟨url, data, .pooled poolCall⟩)
      (failed : poolResult state.pool poolCall = some (.error error)) :
      Transition hashUrl config state event
        (setStage { state with clock := event.now } id
          (.returned (.error (SsrEngine.mapPoolError error))))
  | cancels {id poolCall : CallId} {url data : String} {pool : Pool n}
      (action : event.action = .cancel id)
      (pooled : state.calls id = some ⟨url, data, .pooled poolCall⟩)
      (cancelled : state.pool.cancel poolCall = some pool) :
      Transition hashUrl config state event
        { setStage { state with clock := event.now } id .cancelled with pool := pool }
  | entersUncached {url data : String} {pool : Pool n}
      (action : event.action = .renderUncached url data)
      (called : state.pool.call config url data event.now = some pool) :
      Transition hashUrl config state event
        { state with
          clock := event.now
          pool := pool
          uncached := Function.update state.uncached state.nextUncached
            (some ⟨url, data, .pooled state.pool.nextCall⟩)
          nextUncached := state.nextUncached + 1 }
  | finishesUncached {id poolCall : CallId} {url data : String} {result : Except PoolError String}
      (action : event.action = .finishUncached id)
      (pooled : state.uncached id = some ⟨url, data, .pooled poolCall⟩)
      (returned : poolResult state.pool poolCall = some result) :
      Transition hashUrl config state event
        (setUncached { state with clock := event.now } id
          (.returned (result.mapError SsrEngine.mapPoolError)))
  | cancelsUncached {id poolCall : CallId} {url data : String} {pool : Pool n}
      (action : event.action = .cancelUncached id)
      (pooled : state.uncached id = some ⟨url, data, .pooled poolCall⟩)
      (cancelled : state.pool.cancel poolCall = some pool) :
      Transition hashUrl config state event
        { setUncached { state with clock := event.now } id .cancelled with pool := pool }
  | works {poolEvent : Pool.Event n} {pool : Pool n} (action : event.action = .pool poolEvent)
      (inner : isInner event.now poolEvent = true)
      (stepped : state.pool.step config poolEvent = some pool) :
      Transition hashUrl config state event { state with clock := event.now, pool := pool }
  | invalidates {action : InFlight.Action} {cache : SsrCache}
      (same : event.action.invalidation? = some action)
      (acted : ∀ model : InFlight, model.cache = state.cache →
        model.act hashUrl event.now action = some { model with cache := cache }) :
      Transition hashUrl config state event { state with clock := event.now, cache := cache }
  | drops {pool : Pool n} (action : event.action = .drop) (unborrowed : state.Unborrowed)
      (dropped : state.pool.drop = some pool) :
      Transition hashUrl config state event { state with clock := event.now, pool := pool }

section Inversion

variable {hashUrl : String → UInt64} {config : V8PoolConfig} {state next : Service n}
  {event : Event n}

theorem poolResult_eq_some_iff {pool : Pool n} {poolCall : CallId}
    {result : Except PoolError String} :
    poolResult pool poolCall = some result ↔
      ∃ call, pool.calls poolCall = some call ∧ call.phase = .returned result := by
  unfold poolResult
  split
  · rename_i found present
    rw [Option.some.injEq]
    constructor
    · rintro rfl
      exact ⟨_, present, rfl⟩
    · rintro ⟨call, callPresent, returned⟩
      obtain rfl := Option.some.inj (present.symm.trans callPresent)
      exact Phase.returned.inj returned
  · rename_i other
    refine iff_of_false (by simp) ?_
    rintro ⟨⟨url, data, phase, response, accepted⟩, present, returned⟩
    dsimp only at returned
    subst returned
    exact other _ _ _ _ _ present

theorem finish_transition {id : CallId} {thread : ThreadId} {order : ScanOrder}
    (action : event.action = .finish id thread order)
    (acted : finish hashUrl { state with clock := event.now } id thread order event.now =
      some next) : Transition hashUrl config state event next := by
  unfold finish at acted
  split at acted
  · rename_i url data poolCall pooled
    obtain ⟨result, served, outcome⟩ := Option.map_eq_some_iff.mp acted
    subst outcome
    cases result with
    | ok html => exact .stores action pooled served
    | error error => exact .fails action pooled served
  · contradiction

theorem replaceCache_transition {action : InFlight.Action} {cache : SsrCache}
    (same : event.action.invalidation? = some action)
    (acted : ∀ model : InFlight, model.cache = state.cache →
      model.act hashUrl event.now action = some { model with cache := cache })
    (replaced : replaceCache { state with clock := event.now } cache = some next) :
    Transition hashUrl config state event next := by
  unfold replaceCache at replaced
  split_ifs at replaced
  obtain rfl := Option.some.inj replaced
  exact .invalidates same acted

/-- Every step of the engine with its pool is one of the listed transitions. -/
theorem step_transition (stepped : state.step hashUrl config event = some next) :
    Transition hashUrl config state event next := by
  unfold step at stepped
  split_ifs at stepped with ordered
  cases action : event.action with
  | lookup thread url data =>
      rw [action] at stepped
      change lookup hashUrl { state with clock := event.now } thread url data event.now =
        some next at stepped
      unfold lookup at stepped
      split_ifs at stepped with alive
      obtain rfl := Option.some.inj stepped
      refine .looks action ?_
      cases answer : (state.cache.tryGet hashUrl thread url event.now).1 with
      | some html => exact Or.inl ⟨html, rfl, rfl⟩
      | none => exact Or.inr ⟨rfl, rfl⟩
  | enter id =>
      rw [action] at stepped
      unfold act enter at stepped
      dsimp only at stepped
      split at stepped
      · rename_i url data missed
        obtain ⟨pool, called, rfl⟩ := Option.map_eq_some_iff.mp stepped
        exact .enters action missed called
      · contradiction
  | finish id thread order =>
      rw [action] at stepped
      exact finish_transition action stepped
  | cancel id =>
      rw [action] at stepped
      unfold act cancel at stepped
      dsimp only at stepped
      split at stepped
      · rename_i url data poolCall pooled
        obtain ⟨pool, cancelled, rfl⟩ := Option.map_eq_some_iff.mp stepped
        exact .cancels action pooled cancelled
      · contradiction
  | renderUncached url data =>
      rw [action] at stepped
      obtain ⟨pool, called, rfl⟩ := Option.map_eq_some_iff.mp stepped
      exact .entersUncached action called
  | finishUncached id =>
      rw [action] at stepped
      unfold act finishUncached at stepped
      dsimp only at stepped
      split at stepped
      · rename_i url data poolCall pooled
        obtain ⟨result, returned, rfl⟩ := Option.map_eq_some_iff.mp stepped
        exact .finishesUncached action pooled returned
      · contradiction
  | cancelUncached id =>
      rw [action] at stepped
      unfold act cancelUncached at stepped
      dsimp only at stepped
      split at stepped
      · rename_i url data poolCall pooled
        obtain ⟨pool, cancelled, rfl⟩ := Option.map_eq_some_iff.mp stepped
        exact .cancelsUncached action pooled cancelled
      · contradiction
  | pool poolEvent =>
      rw [action] at stepped
      change (if isInner event.now poolEvent then (state.pool.step config poolEvent).map
        (fun pool => { state with clock := event.now, pool := pool }) else none) = some next
        at stepped
      split_ifs at stepped with inner
      obtain ⟨pool, poolStepped, rfl⟩ := Option.map_eq_some_iff.mp stepped
      exact .works action inner poolStepped
  | invalidate url =>
      rw [action] at stepped
      exact replaceCache_transition (by rw [action]; rfl)
        (fun model same => by rw [InFlight.act, same]) stepped
  | invalidatePrefix order urlPrefix =>
      rw [action] at stepped
      exact replaceCache_transition (by rw [action]; rfl)
        (fun model same => by rw [InFlight.act, same]) stepped
  | clearCache =>
      rw [action] at stepped
      exact replaceCache_transition (by rw [action]; rfl)
        (fun model same => by rw [InFlight.act, same]) stepped
  | drop =>
      rw [action] at stepped
      change (if state.Unborrowed then state.pool.drop.map
        (fun pool => { state with clock := event.now, pool := pool }) else none) = some next
        at stepped
      split_ifs at stepped with unborrowed
      obtain ⟨pool, dropped, rfl⟩ := Option.map_eq_some_iff.mp stepped
      exact .drops action unborrowed dropped

end Inversion

end Service

end RustySsr.Engine
