import RustySsr.Cache.Ssr.Invalidation
import RustySsr.Engine.Model

/-!
Owns the engine while calls are in flight. A call of `render_with_data` looks
its URL up, has its page rendered by the pool and stores it, in three steps
between which other calls and invalidations may run; an invalidation is one
step. What a render returns is fixed when it runs and chosen by the event, so
the rendered content may change over time. `renders` only records history: no
step reads it.
-/

namespace RustySsr.Engine

open RustySsr.Cache
open RustySsr.Cache.SsrCache
open RustySsr.Platform
open RustySsr.V8Pool
open RustySsr.Foundation

/-- Where a call of `render_with_data` stands. -/
inductive Progress where
  | missed
  | rendered (html : String)
  | cached (html : String)
  | returned (result : Except SsrError String)
  | cancelled

/-- What the call has returned. -/
def Progress.result : Progress → Option (Except SsrError String)
  | .cached html => some (.ok html)
  | .returned result => some result
  | _ => none

/-- What a render makes of the call it belongs to. -/
def Progress.ofOutcome : Except PoolError String → Progress
  | .ok html => .rendered html
  | .error error => .returned (.error (SsrEngine.mapPoolError error))

structure RenderCall where
  url : String
  data : String
  progress : Progress

/-- The cache, every call so far, and the renders that have finished. -/
structure InFlight where
  cache : SsrCache
  calls : CallId → Option RenderCall
  nextCall : CallId
  clock : Nat
  renders : List (String × String)

namespace InFlight

def initial (config : SsrConfig) : InFlight where
  cache := (SsrEngine.new config).cache
  calls := fun _ => none
  nextCall := 0
  clock := 0
  renders := []

def setProgress (state : InFlight) (id : CallId) (progress : Progress) : InFlight :=
  { state with
    calls := Function.update state.calls id
      ((state.calls id).map fun call => { call with progress := progress }) }

theorem setProgress_some {state : InFlight} {id other : CallId} {progress : Progress}
    {call : RenderCall} (present : (state.setProgress id progress).calls other = some call) :
    state.calls other = some call ∨ (other = id ∧
      ∃ old, state.calls other = some old ∧ call = { old with progress := progress }) := by
  by_cases same : other = id
  · subst same
    simp only [setProgress, Function.update_self, Option.map_eq_some_iff] at present
    obtain ⟨old, oldPresent, callEq⟩ := present
    exact Or.inr ⟨rfl, old, oldPresent, callEq.symm⟩
  · simp only [setProgress, Function.update_of_ne same] at present
    exact Or.inl present

theorem setProgress_none {state : InFlight} {id other : CallId} {progress : Progress}
    (absent : state.calls other = none) : (state.setProgress id progress).calls other = none := by
  refine Option.eq_none_iff_forall_ne_some.mpr fun call present => ?_
  rcases setProgress_some present with old | ⟨_, old, oldPresent, _⟩
  · rw [absent] at old
    contradiction
  · rw [absent] at oldPresent
    contradiction

inductive Action where
  | lookup (thread : ThreadId) (url data : String)
  | render (id : CallId) (outcome : Except PoolError String)
  | store (id : CallId) (thread : ThreadId) (order : ScanOrder)
  | cancel (id : CallId)
  | invalidate (url : String)
  | invalidatePrefix (order : ScanOrder) (urlPrefix : String)
  | clearCache

/-- An action and the reading of the clock when it happens. -/
structure Event where
  now : Nat
  action : Action

section Steps

variable (hashUrl : String → UInt64)

/-- The first step of a call: the cache lookup, which ends the call on a hit. -/
def lookup (state : InFlight) (thread : ThreadId) (url data : String) (now : Nat) : InFlight :=
  let looked := state.cache.tryGet hashUrl thread url now
  let progress := match looked.1 with
    | some html => .cached html
    | none => .missed
  { state with
    cache := looked.2
    calls := Function.update state.calls state.nextCall (some ⟨url, data, progress⟩)
    nextCall := state.nextCall + 1 }

/-- The V8 render of a call, which ends the call on an error. -/
def render (state : InFlight) (id : CallId) (outcome : Except PoolError String) :
    Option InFlight :=
  match state.calls id with
  | some ⟨url, _, .missed⟩ =>
      some (match outcome with
        | .ok html =>
            { state.setProgress id (.rendered html) with renders := state.renders ++ [(url, html)] }
        | .error error =>
            state.setProgress id (.returned (.error (SsrEngine.mapPoolError error))))
  | _ => none

/-- The last step of a call: the insertion of its page into the cache. -/
def store (state : InFlight) (id : CallId) (thread : ThreadId) (order : ScanOrder) (now : Nat) :
    Option InFlight :=
  match state.calls id with
  | some ⟨url, _, .rendered html⟩ =>
      some { state.setProgress id (.returned (.ok html)) with
        cache := state.cache.insert hashUrl thread order url html now }
  | _ => none

/-- The caller drops the future while it awaits the render. -/
def cancel (state : InFlight) (id : CallId) : Option InFlight :=
  match state.calls id with
  | some ⟨_, _, .missed⟩ => some (state.setProgress id .cancelled)
  | some ⟨_, _, .rendered _⟩ => some (state.setProgress id .cancelled)
  | _ => none

def act (state : InFlight) (now : Nat) : Action → Option InFlight
  | .lookup thread url data => some (state.lookup hashUrl thread url data now)
  | .render id outcome => state.render id outcome
  | .store id thread order => state.store hashUrl id thread order now
  | .cancel id => state.cancel id
  | .invalidate url => some { state with cache := state.cache.invalidate hashUrl url }
  | .invalidatePrefix order urlPrefix =>
      some { state with cache := (state.cache.invalidatePrefix order urlPrefix).2 }
  | .clearCache => some { state with cache := state.cache.clear }

/-- One step, at a time that is not before the last one. -/
def step (state : InFlight) (event : Event) : Option InFlight :=
  if state.clock ≤ event.now then
    { state with clock := event.now }.act hashUrl event.now event.action
  else none

/-- The action may advance the generation counter. -/
def Event.mayBump (event : Event) : Bool :=
  match event.action with
  | .invalidate _ => true
  | .invalidatePrefix _ _ => true
  | .clearCache => true
  | _ => false

/-- An upper bound on the generation bumps of a run. -/
def bumps (events : List Event) : Nat := events.countP Event.mayBump

/-! ### What a step can do -/

/-- A step, by what changes and what was the case before. -/
inductive Transition (state : InFlight) (event : Event) : InFlight → Prop where
  /-- A lookup begins a call and may answer it. -/
  | looks {thread : ThreadId} {url data : String} {progress : Progress}
      (action : event.action = .lookup thread url data)
      (answer : (∃ html, progress = .cached html ∧
          (state.cache.tryGet hashUrl thread url event.now).1 = some html) ∨
        progress = .missed) :
      Transition state event
        { state with
          clock := event.now
          cache := (state.cache.tryGet hashUrl thread url event.now).2
          calls := Function.update state.calls state.nextCall (some ⟨url, data, progress⟩)
          nextCall := state.nextCall + 1 }
  /-- A render yields a page, which the call holds from now on. -/
  | renders {id : CallId} {call : RenderCall} {html : String}
      (action : event.action = .render id (.ok html)) (present : state.calls id = some call) :
      Transition state event
        { setProgress { state with clock := event.now } id (.rendered html) with
          renders := state.renders ++ [(call.url, html)] }
  /-- A call stores the page it holds. -/
  | stores {id : CallId} {call : RenderCall} {html : String} {thread : ThreadId}
      {order : ScanOrder} (action : event.action = .store id thread order)
      (present : state.calls id = some call) (holding : call.progress = .rendered html) :
      Transition state event
        { setProgress { state with clock := event.now } id (.returned (.ok html)) with
          cache := state.cache.insert hashUrl thread order call.url html event.now }
  /-- A call ends without a page. -/
  | ends {id : CallId} {progress : Progress}
      (outcome : progress = .cancelled ∨ ∃ error, progress = .returned (.error error)) :
      Transition state event (setProgress { state with clock := event.now } id progress)
  /-- The cache is invalidated in part or cleared. -/
  | invalidates (cacheEvent : SsrCache.Event) (bumping : event.mayBump = true)
      (onCache : cacheEvent.mayBump = true) :
      Transition state event
        { state with clock := event.now, cache := state.cache.apply hashUrl cacheEvent }

variable {hashUrl} {state next final : InFlight} {event : Event} {events : List Event}

theorem step_eq (stepped : state.step hashUrl event = some next) :
    state.clock ≤ event.now ∧
      { state with clock := event.now }.act hashUrl event.now event.action = some next := by
  unfold step at stepped
  split_ifs at stepped with ordered
  exact ⟨ordered, stepped⟩

theorem step_transition (stepped : state.step hashUrl event = some next) :
    Transition hashUrl state event next := by
  obtain ⟨_, acted⟩ := step_eq stepped
  cases action : event.action with
  | lookup thread url data =>
      rw [action] at acted
      obtain rfl := Option.some.inj acted
      refine .looks action ?_
      cases answer : (state.cache.tryGet hashUrl thread url event.now).1 with
      | some html => exact Or.inl ⟨html, rfl, rfl⟩
      | none => exact Or.inr rfl
  | render id outcome =>
      rw [action] at acted
      unfold act render at acted
      dsimp only at acted
      split at acted
      · rename_i url data present
        rw [Option.some.injEq] at acted
        subst acted
        cases outcome with
        | ok html => exact .renders action present
        | error error => exact .ends (Or.inr ⟨_, rfl⟩)
      · contradiction
  | store id thread order =>
      rw [action] at acted
      unfold act store at acted
      dsimp only at acted
      split at acted
      · rename_i url data html present
        rw [Option.some.injEq] at acted
        subst acted
        exact .stores action present rfl
      · contradiction
  | cancel id =>
      rw [action] at acted
      unfold act cancel at acted
      dsimp only at acted
      split at acted
      · obtain rfl := Option.some.inj acted
        exact .ends (Or.inl rfl)
      · obtain rfl := Option.some.inj acted
        exact .ends (Or.inl rfl)
      · contradiction
  | invalidate url =>
      rw [action] at acted
      obtain rfl := Option.some.inj acted
      have bumping : event.mayBump = true := by simp [Event.mayBump, action]
      exact .invalidates ⟨event.now, .invalidate url⟩ bumping rfl
  | invalidatePrefix order urlPrefix =>
      rw [action] at acted
      obtain rfl := Option.some.inj acted
      have bumping : event.mayBump = true := by simp [Event.mayBump, action]
      exact .invalidates ⟨event.now, .invalidatePrefix order urlPrefix⟩ bumping rfl
  | clearCache =>
      rw [action] at acted
      obtain rfl := Option.some.inj acted
      have bumping : event.mayBump = true := by simp [Event.mayBump, action]
      exact .invalidates ⟨event.now, .clear⟩ bumping rfl

theorem Transition.renders_prefix (transition : Transition hashUrl state event next) :
    state.renders <+: next.renders := by
  cases transition with
  | renders _ present => exact List.prefix_append _ _
  | _ => exact List.prefix_refl _

/-- A call that holds a page has held it before, or this step has rendered it. -/
theorem Transition.holding_cases (transition : Transition hashUrl state event next) {id : CallId}
    {call : RenderCall} {html : String} (present : next.calls id = some call)
    (holding : call.progress = .rendered html) :
    state.calls id = some call ∨ (event.action = .render id (.ok html) ∧
      next.renders = state.renders ++ [(call.url, html)]) := by
  cases transition with
  | @looks thread url data progress _ answer =>
      change Function.update state.calls state.nextCall _ id = some call at present
      by_cases new : id = state.nextCall
      · rw [new, Function.update_self, Option.some.injEq] at present
        subst present
        rcases answer with ⟨_, cached, _⟩ | missed
        · rw [cached] at holding
          contradiction
        · rw [missed] at holding
          contradiction
      · rw [Function.update_of_ne new] at present
        exact Or.inl present
  | @renders renderedId old page action oldPresent =>
      rcases setProgress_some present with kept | ⟨rfl, other, otherPresent, rfl⟩
      · exact Or.inl kept
      · obtain rfl : old = other := Option.some.inj (oldPresent.symm.trans otherPresent)
        obtain rfl : page = html := Progress.rendered.inj holding
        exact Or.inr ⟨action, rfl⟩
  | stores _ _ _ =>
      rcases setProgress_some present with kept | ⟨_, old, _, rfl⟩
      · exact Or.inl kept
      · contradiction
  | @ends _ progress outcome =>
      rcases setProgress_some present with kept | ⟨_, old, _, rfl⟩
      · exact Or.inl kept
      · rcases outcome with rfl | ⟨_, rfl⟩ <;> contradiction
  | invalidates cacheEvent _ onCache => exact Or.inl present

/-- A step on the cache is no operation or one, which bumps only if the step may. -/
theorem step_cache (stepped : state.step hashUrl event = some next) :
    ∃ cacheEvents, next.cache = Execution.run (SsrCache.apply hashUrl) state.cache cacheEvents ∧
      SsrCache.bumps cacheEvents ≤ bumps [event] := by
  have transition := step_transition stepped
  cases transition with
  | looks action _ => exact ⟨[⟨event.now, .tryGet _ _⟩], rfl, Nat.zero_le _⟩
  | renders _ _ => exact ⟨[], rfl, Nat.zero_le _⟩
  | @stores _ _ _ thread order _ _ _ =>
      exact ⟨[⟨event.now, .insert thread order _ _⟩], rfl, Nat.zero_le _⟩
  | ends _ => exact ⟨[], rfl, Nat.zero_le _⟩
  | invalidates cacheEvent bumping onCache =>
      refine ⟨[cacheEvent], rfl, ?_⟩
      rw [SsrCache.bumps_singleton, if_pos onCache]
      simp [bumps, bumping]

theorem bumps_append (first second : List Event) :
    bumps (first ++ second) = bumps first + bumps second :=
  List.countP_append

/-- The cache of a run is the cache of a sequential run. -/
theorem exec_cache (executed : Execution.exec (step hashUrl) state events = some final) :
    ∃ cacheEvents, final.cache = Execution.run (SsrCache.apply hashUrl) state.cache cacheEvents ∧
      SsrCache.bumps cacheEvents ≤ bumps events := by
  refine Execution.exec_invariant_always (fun history (current : InFlight) =>
    ∃ cacheEvents, current.cache = Execution.run (SsrCache.apply hashUrl) state.cache cacheEvents ∧
      SsrCache.bumps cacheEvents ≤ bumps history) ⟨[], rfl, Nat.le_refl 0⟩ ?_ executed
  intro history current event next reached stepped
  obtain ⟨earlier, earlierEq, earlierBumps⟩ := reached
  obtain ⟨new, newEq, newBumps⟩ := step_cache stepped
  refine ⟨earlier ++ new, ?_, ?_⟩
  · rw [newEq, earlierEq, Execution.run_append]
  · rw [SsrCache.bumps_append, bumps_append]
    omega

/-- No call has a number that is still to be given. -/
def Unused (state : InFlight) : Prop := ∀ id, state.nextCall ≤ id → state.calls id = none

theorem Unused.step (unused : Unused state) (stepped : state.step hashUrl event = some next) :
    Unused next := by
  intro id beyond
  have transition := step_transition stepped
  cases transition with
  | looks _ _ =>
      have later : state.nextCall < id := Nat.lt_of_succ_le beyond
      show Function.update state.calls state.nextCall _ id = none
      rw [Function.update_of_ne later.ne']
      exact unused id later.le
  | renders _ _ => exact setProgress_none (unused id beyond)
  | stores _ _ _ => exact setProgress_none (unused id beyond)
  | ends _ => exact setProgress_none (unused id beyond)
  | invalidates _ _ _ => exact unused id beyond

theorem exec_unused {config : SsrConfig}
    (executed : Execution.exec (step hashUrl) (initial config) events = some final) :
    Unused final :=
  Execution.exec_invariant_always (fun _ current => Unused current) (fun _ _ => rfl)
    (fun _ _ _ _ unused stepped => unused.step stepped) executed

/-- A call keeps its URL, and does not come back to where it waits for a render. -/
theorem Transition.call_kept (transition : Transition hashUrl state event next)
    (unused : Unused state) {id : CallId} {call : RenderCall}
    (present : state.calls id = some call) :
    ∃ progress, next.calls id = some { call with progress := progress } ∧
      (progress = .missed → call.progress = .missed) := by
  have ofSetProgress (target : CallId) {progress : Progress} (moved : progress ≠ .missed) :
      ∃ later, (state.setProgress target progress).calls id =
          some { call with progress := later } ∧
        (later = .missed → call.progress = .missed) := by
    by_cases same : id = target
    · subst same
      exact ⟨progress, by simp [setProgress, present], fun missed => absurd missed moved⟩
    · exact ⟨call.progress, by simp [setProgress, Function.update_of_ne same, present],
        fun missed => missed⟩
  cases transition with
  | looks _ _ =>
      have older : id ≠ state.nextCall := by
        rintro rfl
        rw [unused _ (Nat.le_refl _)] at present
        contradiction
      exact ⟨call.progress, (Function.update_of_ne older _ _).trans present,
        fun missed => missed⟩
  | renders _ _ => exact ofSetProgress _ Progress.noConfusion
  | stores _ _ _ => exact ofSetProgress _ Progress.noConfusion
  | ends outcome =>
      refine ofSetProgress _ ?_
      rcases outcome with rfl | ⟨_, rfl⟩ <;> exact Progress.noConfusion
  | invalidates _ _ _ => exact ⟨call.progress, present, fun missed => missed⟩

/-! ### A step by its action -/

theorem step_clock (stepped : state.step hashUrl event = some next) : next.clock = event.now := by
  have transition := step_transition stepped
  cases transition <;> rfl

/-- What the action does to the cache. -/
theorem step_cache_eq (stepped : state.step hashUrl event = some next) :
    match event.action with
    | .lookup thread url _ => next.cache = (state.cache.tryGet hashUrl thread url event.now).2
    | .store id thread order => ∃ call html, state.calls id = some call ∧
        call.progress = .rendered html ∧
          next.cache = state.cache.insert hashUrl thread order call.url html event.now
    | .invalidate url => next.cache = state.cache.invalidate hashUrl url
    | .invalidatePrefix order urlPrefix =>
        next.cache = (state.cache.invalidatePrefix order urlPrefix).2
    | .clearCache => next.cache = state.cache.clear
    | .render _ _ => next.cache = state.cache
    | .cancel _ => next.cache = state.cache := by
  obtain ⟨_, acted⟩ := step_eq stepped
  cases action : event.action with
  | render id outcome =>
      rw [action] at acted
      unfold act render at acted
      dsimp only at acted
      split at acted
      · obtain rfl := Option.some.inj acted
        cases outcome <;> rfl
      · contradiction
  | store id thread order =>
      rw [action] at acted
      unfold act store at acted
      dsimp only at acted
      split at acted
      · rename_i url data html present
        obtain rfl := Option.some.inj acted
        exact ⟨_, html, present, rfl, rfl⟩
      · contradiction
  | cancel id =>
      rw [action] at acted
      unfold act cancel at acted
      dsimp only at acted
      split at acted <;> cases acted <;> rfl
  | _ =>
      rw [action] at acted
      obtain rfl := Option.some.inj acted
      rfl

/-- A render step finds its call waiting, and moves it on. -/
theorem step_render_cases {id : CallId} {outcome : Except PoolError String}
    (stepped : state.step hashUrl event = some next) (action : event.action = .render id outcome) :
    ∃ call, state.calls id = some call ∧ call.progress = .missed ∧
      next.calls id = some { call with progress := .ofOutcome outcome } := by
  obtain ⟨_, acted⟩ := step_eq stepped
  rw [action] at acted
  unfold act render at acted
  dsimp only at acted
  split at acted
  · rename_i url data present
    obtain rfl := Option.some.inj acted
    refine ⟨_, present, rfl, ?_⟩
    cases outcome <;> simp [setProgress, present, Progress.ofOutcome]
  · contradiction

/-! ### A call on its own -/

theorem setProgress_self {id : CallId} {call : RenderCall}
    (present : state.calls id = some call) (progress : Progress) :
    (state.setProgress id progress).calls id = some { call with progress := progress } := by
  simp [setProgress, present]

theorem step_render {id : CallId} {url data : String} {now : Nat} (hashUrl : String → UInt64)
    (ordered : state.clock ≤ now) (missed : state.calls id = some ⟨url, data, .missed⟩)
    (outcome : Except PoolError String) :
    ∃ next, state.step hashUrl ⟨now, .render id outcome⟩ = some next ∧
      next.calls id = some ⟨url, data, .ofOutcome outcome⟩ ∧ next.cache = state.cache ∧
        next.clock = now := by
  have stepEq : state.step hashUrl ⟨now, .render id outcome⟩ =
      render { state with clock := now } id outcome := if_pos ordered
  rw [stepEq]
  unfold render
  dsimp only
  rw [missed]
  cases outcome with
  | ok html => exact ⟨_, rfl, setProgress_self missed _, rfl, rfl⟩
  | error error => exact ⟨_, rfl, setProgress_self missed _, rfl, rfl⟩

theorem step_store {id : CallId} {url data html : String} {now : Nat} (hashUrl : String → UInt64)
    (ordered : state.clock ≤ now) (holding : state.calls id = some ⟨url, data, .rendered html⟩)
    (thread : ThreadId) (order : ScanOrder) :
    ∃ next, state.step hashUrl ⟨now, .store id thread order⟩ = some next ∧
      next.calls id = some ⟨url, data, .returned (.ok html)⟩ ∧
        next.cache = state.cache.insert hashUrl thread order url html now := by
  have stepEq : state.step hashUrl ⟨now, .store id thread order⟩ =
      store hashUrl { state with clock := now } id thread order now := if_pos ordered
  rw [stepEq]
  unfold store
  dsimp only
  rw [holding]
  exact ⟨_, rfl, setProgress_self holding _, rfl⟩

/-- The steps of one call, taken without interruption, are the call as a whole. -/
theorem uninterrupted_call (config : SsrConfig) (pool : RenderPool) (first last : Visit)
    (order : ScanOrder) (url data : String) (ordered : state.clock ≤ first.now)
    (orderedLast : first.now ≤ last.now) :
    ∃ events final progress, Execution.exec (step hashUrl) state events = some final ∧
      final.calls state.nextCall = some ⟨url, data, progress⟩ ∧
        progress.result = some ((SsrEngine.mk config state.cache).renderWithData hashUrl pool
          first last order url data).1 ∧
        final.cache = ((SsrEngine.mk config state.cache).renderWithData hashUrl pool
          first last order url data).2.cache := by
  have looked : state.step hashUrl ⟨first.now, .lookup first.thread url data⟩ =
      some (lookup hashUrl { state with clock := first.now } first.thread url data first.now) :=
    if_pos ordered
  have present : (lookup hashUrl { state with clock := first.now } first.thread url data
      first.now).calls state.nextCall = some ⟨url, data,
        match (state.cache.tryGet hashUrl first.thread url first.now).1 with
        | some html => .cached html
        | none => .missed⟩ :=
    Function.update_self _ _ _
  rcases SsrEngine.renderWithData_cases hashUrl pool ⟨config, state.cache⟩ first last order url
    data with ⟨cached, hit, whole⟩ | ⟨missed, rest⟩
  · rw [hit] at present
    rw [whole]
    exact ⟨[_], _, .cached cached, (Execution.exec_cons_some_iff _).mpr ⟨_, looked, rfl⟩, present,
      rfl, rfl⟩
  · rw [missed] at present
    obtain ⟨next, ended, progressed, kept, clockEq⟩ := step_render hashUrl (Nat.le_refl _) present
      (pool url data)
    rcases rest with ⟨error, failed, whole⟩ | ⟨html, rendered, whole⟩
    · rw [failed] at progressed
      rw [whole]
      exact ⟨[_, _], next, _, (Execution.exec_cons_some_iff _).mpr ⟨_, looked,
        (Execution.exec_cons_some_iff _).mpr ⟨_, ended, rfl⟩⟩, progressed, rfl, kept⟩
    · rw [rendered] at progressed
      obtain ⟨final, stored, returned, storedCache⟩ := step_store hashUrl
        (clockEq.trans_le orderedLast) progressed last.thread order
      rw [whole]
      refine ⟨[_, _, _], final, _, (Execution.exec_cons_some_iff _).mpr ⟨_, looked,
        (Execution.exec_cons_some_iff _).mpr ⟨_, ended,
          (Execution.exec_cons_some_iff _).mpr ⟨_, stored, rfl⟩⟩⟩, returned, rfl, ?_⟩
      rw [storedCache, kept]
      rfl

end Steps

end InFlight

end RustySsr.Engine
