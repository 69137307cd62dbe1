import RustySsr.Cache.Ssr.Origins
import RustySsr.Engine.InFlight

/-!
Owns what becomes of a render function that throws. The catch block of the
script turns most thrown values into an HTML page, which the pool returns as a
success and the engine stores; every other failure of a render reaches the
caller as an error. `failures_unserved_iff` states that failed calls stay out of
the cache exactly if none of them stores. `outcomes` and `origins` only record
history: how each render came out, and which call every copy in the cache comes
from. No step reads them.
-/

namespace RustySsr.Engine

open RustySsr.Cache
open RustySsr.Platform
open RustySsr.V8Pool
open RustySsr.Foundation

/-- A value that JavaScript threw, as far as the catch block reads it: the text
of `error.stack || error.message`, or the message of the error that reading it
throws, as it does for `null`. -/
inductive Thrown where
  | readable (text : String)
  | unreadable (message : String)

/-- The page of the catch block. -/
def errorPage (text : String) : String :=
  "<html><body><h1>SSR Error</h1><pre>" ++ text ++ "</pre></body></html>"

/-- How the render of a call comes out. -/
inductive JsOutcome where
  | returned (html : String)
  | threw (error : Thrown)
  /-- The script gives no string, or nobody runs it. -/
  | failed (error : PoolError)

namespace JsOutcome

/-- What the pool's `render_with_data` returns. -/
def settle : JsOutcome → Except PoolError String
  | .returned html => .ok html
  | .threw (.readable text) => .ok (errorPage text)
  | .threw (.unreadable message) => .error (.render ("Promise resolution error: " ++ message))
  | .failed error => .error error

end JsOutcome

/-- A step of the engine, in which a render is an outcome of the script. -/
inductive ScriptAction where
  | render (id : CallId) (outcome : JsOutcome)
  | other (action : InFlight.Action) (calm : ∀ id outcome, action ≠ .render id outcome)

structure ScriptEvent where
  now : Nat
  action : ScriptAction

/-- The step as the engine sees it. -/
def ScriptEvent.plain (event : ScriptEvent) : InFlight.Event where
  now := event.now
  action := match event.action with
    | .render id outcome => .render id outcome.settle
    | .other action _ => action

/-- The engine, how the render of each call came out, and which call every copy
in the cache comes from. -/
structure Scripted where
  engine : InFlight
  outcomes : CallId → Option JsOutcome
  origins : SsrCache.Origins CallId

namespace Scripted

def initial (config : SsrConfig) : Scripted := ⟨InFlight.initial config, fun _ => none, .empty⟩

/-- The render function threw for this call. -/
def Threw (state : Scripted) (id : CallId) : Prop :=
  ∃ error, state.outcomes id = some (.threw error)

section Steps

variable (hashUrl : String → UInt64)

/-- The origins follow the copies that the action moves. -/
def moveOrigins (state : Scripted) (now : Nat) : InFlight.Action → SsrCache.Origins CallId
  | .lookup thread url _ => state.origins.tryGet hashUrl state.engine.cache thread url now
  | .store id thread _ =>
      match state.engine.calls id with
      | some call => state.origins.insert hashUrl state.engine.cache thread call.url id
      | none => state.origins
  | _ => state.origins

/-- The engine moves on, and the record with it. -/
def record (state : Scripted) (event : ScriptEvent) (engine : InFlight) : Scripted where
  engine := engine
  outcomes := match event.action with
    | .render id outcome => Function.update state.outcomes id (some outcome)
    | .other _ _ => state.outcomes
  origins := state.moveOrigins hashUrl event.now event.plain.action

def step (state : Scripted) (event : ScriptEvent) : Option Scripted :=
  (state.engine.step hashUrl event.plain).map (state.record hashUrl event)

/-- The call whose page answers a request, if the cache answers it. -/
def answeredBy (state : Scripted) (thread : ThreadId) (url : String) (now : Nat) : Option CallId :=
  state.origins.answering hashUrl state.engine.cache thread url now

/-- No request for the URL of a call whose render function threw is answered, at
any later time and on any thread, with the page of that call. -/
def ServesNoFailure (state : Scripted) : Prop :=
  ∀ id call, state.Threw id → state.engine.calls id = some call →
    ∀ thread now, state.engine.clock ≤ now → state.answeredBy hashUrl thread call.url now ≠ some id

end Steps

/-- No call whose render function threw stores its page. -/
def StoresNoFailure (state : Scripted) (event : ScriptEvent) : Prop :=
  ∀ id thread order, event.plain.action = .store id thread order → ¬ state.Threw id

/-! ### A thread of its own -/

section NewThread

variable {hashUrl : String → UInt64}

/-- Every run leaves a thread that has no hot cache yet. -/
theorem exists_newThread {config : SsrConfig} {events : List InFlight.Event} {final : InFlight}
    (executed : Execution.exec (InFlight.step hashUrl) (InFlight.initial config) events =
      some final) : ∃ thread, final.cache.hotCache thread = none := by
  obtain ⟨cacheEvents, sameCache, _⟩ := InFlight.exec_cache executed
  suffices ∃ bound, ∀ other, bound ≤ other → final.cache.hotCache other = none by
    obtain ⟨bound, unused⟩ := this
    exact ⟨bound, unused bound (Nat.le_refl _)⟩
  rw [sameCache]
  refine Execution.run_invariant_always (fun _ (current : SsrCache) =>
    ∃ bound, ∀ other, bound ≤ other → current.hotCache other = none) ⟨0, fun _ _ => rfl⟩ ?_
  rintro _ current event ⟨bound, unused⟩
  obtain ⟨thread, kept⟩ := SsrCache.apply_hotCache_other event
  refine ⟨max bound (thread + 1), fun other beyond => ?_⟩
  obtain ⟨beyondBound, beyondThread⟩ := max_le_iff.mp beyond
  rw [kept other (Nat.ne_of_gt beyondThread)]
  exact unused other beyondBound

end NewThread

/-! ### What a run keeps -/

section Run

variable {hashUrl : String → UInt64} {config : SsrConfig} {state next final : Scripted}
  {event : ScriptEvent} {events : List ScriptEvent}

/-- A step is a step of the engine, with its record. -/
theorem step_engine (stepped : state.step hashUrl event = some next) :
    state.engine.step hashUrl event.plain = some next.engine ∧
      next = state.record hashUrl event next.engine := by
  obtain ⟨engine, moved, rfl⟩ := Option.map_eq_some_iff.mp stepped
  exact ⟨moved, rfl⟩

theorem exec_engine
    (executed : Execution.exec (step hashUrl) (initial config) events = some final) :
    Execution.exec (InFlight.step hashUrl) (InFlight.initial config)
      (events.map ScriptEvent.plain) = some final.engine := by
  refine Execution.exec_invariant_always (fun history (current : Scripted) =>
    Execution.exec (InFlight.step hashUrl) (InFlight.initial config)
      (history.map ScriptEvent.plain) = some current.engine) rfl ?_ executed
  intro history current event next reached stepped
  rw [List.map_append]
  exact (Execution.exec_snoc_some_iff _).mpr ⟨current.engine, reached, (step_engine stepped).1⟩

/-- A page comes from the render that is recorded for its call. -/
structure Traced (state : Scripted) : Prop where
  unused : state.engine.Unused
  held : ∀ {id call html}, state.engine.calls id = some call → call.progress = .rendered html →
    ∃ outcome, state.outcomes id = some outcome ∧ outcome.settle = .ok html
  settled : ∀ {id outcome}, state.outcomes id = some outcome →
    ∃ call, state.engine.calls id = some call ∧ call.progress ≠ .missed

theorem traced_initial (config : SsrConfig) : Traced (initial config) where
  unused := fun _ _ => rfl
  held := fun absent => by simp [initial, InFlight.initial] at absent
  settled := fun absent => by simp [initial] at absent

/-- The record of a call is made once. -/
theorem Traced.outcome_kept (traced : Traced state) (stepped : state.step hashUrl event = some next)
    {id : CallId} {outcome : JsOutcome} (recorded : state.outcomes id = some outcome) :
    next.outcomes id = some outcome := by
  obtain ⟨moved, sameNext⟩ := step_engine stepped
  rw [sameNext]
  cases action : event.action with
  | other plain calm => simpa [record, action] using recorded
  | render rendered other =>
      have plain : event.plain.action = .render rendered other.settle := by
        simp [ScriptEvent.plain, action]
      obtain ⟨waiting, present, missed, _⟩ := InFlight.step_render_cases moved plain
      obtain ⟨call, again, notMissed⟩ := traced.settled recorded
      have different : id ≠ rendered := by
        rintro rfl
        rw [again, Option.some.injEq] at present
        exact notMissed (present ▸ missed)
      simpa [record, action, Function.update_of_ne different] using recorded

/-- A record is old, or made by the render of this step. -/
theorem outcome_cases (stepped : state.step hashUrl event = some next) {id : CallId}
    {outcome : JsOutcome} (recorded : next.outcomes id = some outcome) :
    state.outcomes id = some outcome ∨ event.action = .render id outcome := by
  rw [(step_engine stepped).2] at recorded
  cases action : event.action with
  | other plain calm => exact Or.inl (by simpa [record, action] using recorded)
  | render rendered other =>
      simp only [record, action] at recorded
      by_cases same : id = rendered
      · subst same
        rw [Function.update_self, Option.some.injEq] at recorded
        exact Or.inr (by rw [recorded])
      · rw [Function.update_of_ne same] at recorded
        exact Or.inl recorded

theorem Traced.step_held (traced : Traced state) (stepped : state.step hashUrl event = some next)
    {id : CallId} {call : RenderCall} {html : String} (present : next.engine.calls id = some call)
    (holding : call.progress = .rendered html) :
    ∃ outcome, next.outcomes id = some outcome ∧ outcome.settle = .ok html := by
  obtain ⟨moved, sameNext⟩ := step_engine stepped
  rcases (InFlight.step_transition moved).holding_cases present holding with kept | ⟨plain, _⟩
  · obtain ⟨outcome, recorded, settles⟩ := traced.held kept holding
    exact ⟨outcome, traced.outcome_kept stepped recorded, settles⟩
  · cases action : event.action with
    | other other calm =>
        exact absurd plain (by simpa [ScriptEvent.plain, action] using calm id _)
    | render rendered outcome =>
        simp only [ScriptEvent.plain, action, InFlight.Action.render.injEq] at plain
        refine ⟨outcome, ?_, plain.2⟩
        rw [sameNext, ← plain.1]
        simp [record, action]

theorem Traced.step_settled (traced : Traced state)
    (stepped : state.step hashUrl event = some next) {id : CallId} {outcome : JsOutcome}
    (recorded : next.outcomes id = some outcome) :
    ∃ call, next.engine.calls id = some call ∧ call.progress ≠ .missed := by
  have moved := (step_engine stepped).1
  rcases outcome_cases stepped recorded with old | action
  · obtain ⟨call, present, notMissed⟩ := traced.settled old
    obtain ⟨progress, kept, missed⟩ :=
      (InFlight.step_transition moved).call_kept traced.unused present
    exact ⟨_, kept, fun back => notMissed (missed back)⟩
  · have plain : event.plain.action = .render id outcome.settle := by
      simp [ScriptEvent.plain, action]
    obtain ⟨call, _, _, rendered⟩ := InFlight.step_render_cases moved plain
    refine ⟨_, rendered, ?_⟩
    cases outcome.settle <;> exact Progress.noConfusion

theorem Traced.step (traced : Traced state) (stepped : state.step hashUrl event = some next) :
    Traced next where
  unused := traced.unused.step (step_engine stepped).1
  held := traced.step_held stepped
  settled := traced.step_settled stepped

/-- The page is what the render of the call gave, with an outcome of this kind,
and belongs under the key. -/
def Rendered (hashUrl : String → UInt64) (kind : JsOutcome → Prop) (state : Scripted) (id : CallId)
    (key : UInt64) (html : String) : Prop :=
  ∃ call outcome, state.engine.calls id = some call ∧ hashUrl call.url = key ∧
    state.outcomes id = some outcome ∧ outcome.settle = .ok html ∧ kind outcome

variable {kind : JsOutcome → Prop}

theorem Rendered.step (traced : Traced state) (stepped : state.step hashUrl event = some next)
    {id : CallId} {key : UInt64} {html : String}
    (rendered : Rendered hashUrl kind state id key html) :
    Rendered hashUrl kind next id key html := by
  obtain ⟨call, outcome, present, sameKey, recorded, settles, ofKind⟩ := rendered
  obtain ⟨progress, kept, _⟩ :=
    (InFlight.step_transition (step_engine stepped).1).call_kept traced.unused present
  exact ⟨_, outcome, kept, sameKey, traced.outcome_kept stepped recorded, settles, ofKind⟩

/-- The origins stay true while every store is of the kind. -/
theorem agree_step (agree : state.origins.Agree (Rendered hashUrl kind state) state.engine.cache)
    (traced : Traced state)
    (stores : ∀ id thread order, event.plain.action = .store id thread order →
      ∀ outcome, state.outcomes id = some outcome → kind outcome)
    (stepped : state.step hashUrl event = some next) :
    next.origins.Agree (Rendered hashUrl kind next) next.engine.cache := by
  obtain ⟨moved, sameNext⟩ := step_engine stepped
  suffices next.origins.Agree (Rendered hashUrl kind state) next.engine.cache from
    this.mono fun rendered => rendered.step traced stepped
  have sameOrigins : next.origins = state.moveOrigins hashUrl event.now event.plain.action :=
    congrArg origins sameNext
  have moves := InFlight.step_cache_eq moved
  rw [sameOrigins]
  cases action : event.plain.action with
  | lookup thread url data =>
      rw [action] at moves
      rw [moves]
      exact agree.tryGet thread url event.plain.now
  | store id thread order =>
      rw [action] at moves
      obtain ⟨call, html, present, holding, stored⟩ := moves
      obtain ⟨outcome, recorded, settles⟩ := traced.held present holding
      rw [stored, moveOrigins, present]
      exact agree.insert ⟨call, outcome, present, rfl, recorded, settles,
        stores id thread order action outcome recorded⟩ thread order event.plain.now
  | invalidate url =>
      rw [action] at moves
      rw [moves]
      exact agree.invalidate url
  | invalidatePrefix order urlPrefix =>
      rw [action] at moves
      rw [moves]
      exact agree.invalidatePrefix order urlPrefix
  | clearCache =>
      rw [action] at moves
      rw [moves]
      exact agree.clear
  | render id outcome =>
      rw [action] at moves
      rw [moves]
      exact agree
  | cancel id =>
      rw [action] at moves
      rw [moves]
      exact agree

theorem traced_of_exec
    (executed : Execution.exec (step hashUrl) (initial config) events = some final) :
    Traced final :=
  Execution.exec_invariant_always (fun _ current => Traced current) (traced_initial config)
    (fun _ _ _ _ traced stepped => traced.step stepped) executed

theorem agree_of_exec
    (guarded : Execution.ExecGuarded (step hashUrl) (fun state event =>
      ∀ id thread order, event.plain.action = .store id thread order →
        ∀ outcome, state.outcomes id = some outcome → kind outcome) (initial config) events)
    (executed : Execution.exec (step hashUrl) (initial config) events = some final) :
    final.origins.Agree (Rendered hashUrl kind final) final.engine.cache := by
  have start : (initial config).origins.Agree (Rendered hashUrl kind (initial config))
      (initial config).engine.cache ∧ Traced (initial config) :=
    ⟨SsrCache.Origins.agree_withTtl _ _ _ _, traced_initial config⟩
  refine (Execution.exec_invariant (fun _ (current : Scripted) =>
    current.origins.Agree (Rendered hashUrl kind current) current.engine.cache ∧ Traced current)
    start ?_ guarded executed).1
  rintro _ current event next ⟨agree, traced⟩ stores stepped
  exact ⟨agree_step agree traced stores stepped, traced.step stepped⟩

/-- An answer of the cache is the page that the render of the call it comes from
gave. -/
theorem answeredBy_renders
    (executed : Execution.exec (step hashUrl) (initial config) events = some final)
    {thread : ThreadId} {url html : String} {now : Nat}
    (answer : (final.engine.cache.tryGet hashUrl thread url now).1 = some html) :
    ∃ id, final.answeredBy hashUrl thread url now = some id ∧
      Rendered hashUrl (fun _ => True) final id (hashUrl url) html := by
  have agree : final.origins.Agree (Rendered hashUrl (fun _ => True) final) final.engine.cache :=
    agree_of_exec (Execution.execGuarded_of_forall _ fun _ _ _ _ _ _ _ _ _ => trivial) executed
  exact agree.answering answer

/-- While no failed call has stored, every answer is a page that the render
function returned. -/
theorem servesNoFailure_of_exec
    (guarded : Execution.ExecGuarded (step hashUrl) StoresNoFailure (initial config) events)
    (executed : Execution.exec (step hashUrl) (initial config) events = some final) :
    ServesNoFailure hashUrl final := by
  have agree : final.origins.Agree
      (Rendered hashUrl (fun outcome => ∀ error, outcome ≠ .threw error) final)
        final.engine.cache :=
    agree_of_exec (fun earlier event later current split reached id thread order action outcome
      recorded error threw => guarded earlier event later current split reached id thread order
        action ⟨error, threw ▸ recorded⟩) executed
  rintro id call ⟨error, threw⟩ _ thread now _ answered
  obtain ⟨html, answer⟩ := SsrCache.Origins.answer_of_answering answered
  obtain ⟨other, again, rendered⟩ := agree.answering answer
  obtain rfl : id = other := Option.some.inj (answered.symm.trans again)
  obtain ⟨_, outcome, _, _, recorded, _, returned⟩ := rendered
  exact returned error (Option.some.inj (recorded.symm.trans threw))

/-- A failure that was just stored answers the next request of a new thread. -/
theorem storesNoFailure_of_servesNoFailure
    (executed : Execution.exec (step hashUrl) (initial config) events = some next)
    (traced : Traced state) (stepped : state.step hashUrl event = some next)
    (serves : ServesNoFailure hashUrl next) : StoresNoFailure state event := by
  rintro id thread order action ⟨error, threw⟩
  obtain ⟨moved, sameNext⟩ := step_engine stepped
  have stores := InFlight.step_cache_eq moved
  rw [action] at stores
  obtain ⟨call, html, present, _, stored⟩ := stores
  obtain ⟨progress, kept, _⟩ :=
    (InFlight.step_transition moved).call_kept traced.unused present
  have sameOrigins : next.origins =
      state.origins.insert hashUrl state.engine.cache thread call.url id := by
    rw [sameNext, record, action, moveOrigins, present]
  obtain ⟨newThread, new⟩ := exists_newThread (exec_engine executed)
  rw [stored] at new
  have answered := state.origins.answering_insert_newThread id new
  rw [← stored, ← sameOrigins] at answered
  exact serves id _ ⟨error, traced.outcome_kept stepped threw⟩ kept newThread event.plain.now
    (InFlight.step_clock moved).le answered

/-- **A failed render stays out of the cache exactly if its call does not store.**
In every state of a run no request is answered with the page of a call whose
render function threw, if and only if no such call of the run stores its page. -/
theorem failures_unserved_iff
    (executed : Execution.exec (step hashUrl) (initial config) events = some final) :
    (∀ earlier later reached, events = earlier ++ later →
        Execution.exec (step hashUrl) (initial config) earlier = some reached →
          ServesNoFailure hashUrl reached) ↔
      Execution.ExecGuarded (step hashUrl) StoresNoFailure (initial config) events := by
  constructor
  · intro serves earlier event later current split reached
    have splitNext : events = (earlier ++ [event]) ++ later := by simp [split]
    obtain ⟨next, stepped, executedNext⟩ :=
      Execution.exec_next_of_reached _ (split ▸ executed) reached
    exact storesNoFailure_of_servesNoFailure executedNext (traced_of_exec reached) stepped
      (serves (earlier ++ [event]) later next splitNext executedNext)
  · rintro guarded earlier later reached rfl executedEarlier
    exact servesNoFailure_of_exec guarded.initial executedEarlier

end Run

/-! ### Small runs -/

/-- A request begins. -/
def lookupAt (now : Nat) (url : String) : ScriptEvent :=
  ⟨now, .other (.lookup 0 url "\x7b\x7d") (by simp)⟩

/-- A call stores its page. -/
def storeAt (now : Nat) (id : CallId) : ScriptEvent :=
  ⟨now, .other (.store id 0 VisitOrder.stored) (by simp)⟩

/-- The render function throws an error for a caller that goes away, and returns
the very text of its error page to the next request. -/
def droppedErrorRun : List ScriptEvent :=
  [lookupAt 0 "/a", ⟨1, .render 0 (.threw (.readable "Error: boom"))⟩,
    ⟨2, .other (.cancel 0) (by simp)⟩, lookupAt 3 "/a",
    ⟨4, .render 1 (.returned (errorPage "Error: boom"))⟩, storeAt 5 1]

/-- An error page that no call stores is never served, though a returned page may
have its text. -/
theorem failures_unserved_droppedErrorRun :
    ∃ final, Execution.exec (step SsrCache.hashOfTwo) (initial SsrEngine.smallConfig)
        droppedErrorRun = some final ∧
      final.Threw 0 ∧
      (final.engine.cache.tryGet SsrCache.hashOfTwo 1 "/a" 5).1 =
        some (errorPage "Error: boom") ∧
      ∀ earlier later reached, droppedErrorRun = earlier ++ later →
        Execution.exec (step SsrCache.hashOfTwo) (initial SsrEngine.smallConfig) earlier =
          some reached → ServesNoFailure SsrCache.hashOfTwo reached := by
  obtain ⟨final, executed, threw, answer⟩ : ∃ final, Execution.exec (step SsrCache.hashOfTwo)
      (initial SsrEngine.smallConfig) droppedErrorRun = some final ∧ final.Threw 0 ∧
        (final.engine.cache.tryGet SsrCache.hashOfTwo 1 "/a" 5).1 =
          some (errorPage "Error: boom") := ⟨_, rfl, ⟨_, rfl⟩, rfl⟩
  have split : droppedErrorRun = droppedErrorRun.dropLast ++ [storeAt 5 1] := rfl
  refine ⟨final, executed, threw, answer, (failures_unserved_iff executed).mpr ?_⟩
  rw [split]
  refine (Execution.execGuarded_snoc_iff rfl).mpr ⟨?_, ?_⟩
  · refine Execution.execGuarded_of_forall _ ?_
    simp [droppedErrorRun, lookupAt, StoresNoFailure, ScriptEvent.plain]
  · -- the call that stores is the second one, whose render returned
    rintro id thread order action ⟨error, threw⟩
    obtain ⟨rfl, -, -⟩ := InFlight.Action.store.inj action
    cases Option.some.inj threw

/-- A render function that throws an error once has the error page served. -/
theorem error_page_is_cached :
    ¬ ∀ hashUrl config events final,
      Execution.exec (step hashUrl) (initial config) events = some final →
        ServesNoFailure hashUrl final := by
  intro unserved
  obtain ⟨final, executed, threw, ⟨call, present, sameUrl⟩, clockEq, answered⟩ : ∃ final,
      Execution.exec (step SsrCache.hashOfTwo) (initial SsrEngine.smallConfig)
        [lookupAt 0 "/a", ⟨1, .render 0 (.threw (.readable "Error: boom"))⟩, storeAt 2 0] =
          some final ∧
      final.Threw 0 ∧ (∃ call, final.engine.calls 0 = some call ∧ call.url = "/a") ∧
        final.engine.clock = 2 ∧ final.answeredBy SsrCache.hashOfTwo 1 "/a" 2 = some 0 :=
    ⟨_, rfl, ⟨_, rfl⟩, ⟨_, rfl, rfl⟩, rfl, rfl⟩
  exact unserved SsrCache.hashOfTwo SsrEngine.smallConfig _ final executed 0 call threw present 1 2
    clockEq.le (sameUrl ▸ answered)

end Scripted

end RustySsr.Engine
