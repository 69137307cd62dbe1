import RustySsr.Engine.ServiceInvariant
import RustySsr.Foundation.Simulation

/-!
Owns what the engine with its pool is for: seen from its callers it is the engine
of `InFlight`, in which the render of a call is one step. That step is taken when
a worker completes the page of a request whose call is still there, or when the
call learns that its render failed; all other steps of the pool are invisible.
The relation also places every page that the coarse engine has rendered among
the renders that the pool has finished.
-/

namespace RustySsr.Engine.Service

open RustySsr.Cache
open RustySsr.V8Pool
open RustySsr.Foundation

variable {n : Nat}

/-! ### The engine as its callers see it -/

/-- How far a call has come. In the pool it has come as far as its request. -/
def progressOf (pool : Pool n) : Stage → Progress
  | .missed => .missed
  | .pooled poolCall =>
      match pool.renderedHtml poolCall with
      | some html => .rendered html
      | none => .missed
  | .cached html => .cached html
  | .returned result => .returned result
  | .cancelled => .cancelled

def view (pool : Pool n) (call : ServiceCall) : RenderCall :=
  ⟨call.url, call.data, progressOf pool call.stage⟩

/-- The call of `render_with_data` that waits for the pool call. -/
def owner? (state : Service n) (poolCall : CallId) : Option CallId :=
  (List.range state.nextCall).find? fun id =>
    (state.calls id).any fun call => call.stage = .pooled poolCall

/-- The page that the event completes, and the call in the pool that it is for. -/
def completedPage (pool : Pool n) : Pool.Event n → Option (CallId × String)
  | .render worker (.completed (.ok html)) =>
      (pool.workers worker).request?.map fun request => (request.responseTx, html)
  | _ => none

/-- What a step looks like from outside. -/
def visible (state : Service n) : Action n → Option InFlight.Action
  | .lookup thread url data => some (.lookup thread url data)
  | .finish id thread order =>
      (state.calls id).bind fun call => match call.stage with
        | .pooled poolCall => (poolResult state.pool poolCall).map fun result => match result with
            | .ok _ => .store id thread order
            | .error error => .render id (.error error)
        | _ => none
  | .cancel id => some (.cancel id)
  | .pool event =>
      (completedPage state.pool event).bind fun page =>
        (state.owner? page.1).map fun id => .render id (.ok page.2)
  | action => action.invalidation?

def translate (state : Service n) (event : Event n) : List InFlight.Event :=
  ((visible state event.action).map fun action => ⟨event.now, action⟩).toList

/-- The two engines agree on the cache and on every call, and the pages that the
coarse one has rendered since a point of its history were rendered by workers
since a point of theirs. -/
structure Related (config : V8PoolConfig) (earlier earlierFinished : Nat) (state : Service n)
    (model : InFlight) : Prop where
  served : Served config state
  cache : model.cache = state.cache
  nextCall : model.nextCall = state.nextCall
  clock : model.clock ≤ state.clock
  calls : ∀ id, model.calls id = (state.calls id).map (view state.pool)
  grown : earlier ≤ model.renders.length ∧ earlierFinished ≤ state.pool.finished.length
  renders : ∀ page ∈ model.renders.drop earlier,
    ∃ rendering ∈ state.pool.finished.drop earlierFinished,
      rendering.request.url = page.1 ∧ rendering.outcome = .completed (.ok page.2)

section Steps

variable {hashUrl : String → UInt64} {config : V8PoolConfig} {state next : Service n}
  {event : Event n} {model : InFlight} {earlier earlierFinished : Nat}

theorem step_ordered (stepped : state.step hashUrl config event = some next) :
    state.clock ≤ event.now := by
  unfold step at stepped
  split_ifs at stepped with ordered
  exact ordered

theorem view_congr {pool other : Pool n} {call : ServiceCall}
    (same : ∀ poolCall, call.stage = .pooled poolCall →
      other.renderedHtml poolCall = pool.renderedHtml poolCall) :
    view other call = view pool call := by
  unfold view progressOf
  cases stage : call.stage with
  | pooled poolCall => simp only [same poolCall stage]
  | _ => rfl

/-- The coarse call of a call that is given another stage. -/
theorem setProgress_view (model : InFlight) (state : Service n) {pool : Pool n}
    (calls : ∀ id, model.calls id = (state.calls id).map (view pool)) (id other : CallId)
    {stage : Stage} {progress : Progress} (same : progressOf pool stage = progress) :
    (model.setProgress id progress).calls other =
      ((state.setStage id stage).calls other).map (view pool) := by
  simp only [InFlight.setProgress, setStage]
  by_cases here : other = id
  · subst here
    rw [Function.update_self, Function.update_self, calls, Option.map_map, Option.map_map]
    congr 1
    funext call
    simp [view, same]
  · rw [Function.update_of_ne here, Function.update_of_ne here, calls]

/-- The renders of workers that stay out of sight leave the pages related. -/
theorem Related.renders_of_appended (related : Related config earlier earlierFinished state model)
    {pool : Pool n} {more : List (Rendering n)}
    (appended : pool.finished = state.pool.finished ++ more) :
    earlierFinished ≤ pool.finished.length ∧ ∀ page ∈ model.renders.drop earlier,
      ∃ rendering ∈ pool.finished.drop earlierFinished,
        rendering.request.url = page.1 ∧ rendering.outcome = .completed (.ok page.2) := by
  refine ⟨by rw [appended, List.length_append]; exact Nat.le_add_right_of_le related.grown.2, ?_⟩
  intro page member
  obtain ⟨rendering, old, same⟩ := related.renders page member
  refine ⟨rendering, ?_, same⟩
  rw [appended, List.drop_append_of_le_length related.grown.2]
  exact List.mem_append_left _ old

/-- Only a completed page changes what the calls see of the pool. -/
theorem renderedHtml_of_hidden {pool after : Pool n} {poolEvent : Pool.Event n}
    (sound : Pool.Sound config pool) (stepped : pool.step config poolEvent = some after)
    (hidden : completedPage pool poolEvent = none) (id : CallId) :
    after.renderedHtml id = pool.renderedHtml id := by
  rcases (Pool.step_advance sound stepped).renderedHtml with
    same | ⟨worker, request, html, rfl, rendering, _⟩
  · exact same id
  · simp [completedPage, rendering, Worker.request?] at hidden

/-- A step of the pool that no call sees, beside a step of the calls. -/
theorem Related.hidden (related : Related config earlier earlierFinished state model)
    (served : Served config next) {poolEvent : Pool.Event n}
    (stepped : state.pool.step config poolEvent = some next.pool)
    (unseen : ∀ id call, next.calls id = some call → ∀ poolCall, call.stage = .pooled poolCall →
      next.pool.renderedHtml poolCall = state.pool.renderedHtml poolCall)
    {final : InFlight} (renders : final.renders = model.renders) (cache : final.cache = next.cache)
    (nextCall : final.nextCall = next.nextCall) (clock : final.clock ≤ next.clock)
    (calls : ∀ id, final.calls id = (next.calls id).map (view state.pool)) :
    Related config earlier earlierFinished next final := by
  obtain ⟨more, appended⟩ := (Pool.step_advance related.served.sound stepped).finished_appended
  obtain ⟨grown, pages⟩ := related.renders_of_appended appended
  refine
    { served := served
      cache := cache
      nextCall := nextCall
      clock := clock
      calls := ?_
      grown := ⟨renders ▸ related.grown.1, grown⟩
      renders := renders ▸ pages }
  intro id
  rw [calls]
  cases present : next.calls id with
  | none => rfl
  | some call => exact congrArg some (view_congr (unseen id call present)).symm

theorem visible_of_invalidation {action : Action n} {coarse : InFlight.Action}
    (same : action.invalidation? = some coarse) : visible state action = some coarse := by
  cases action <;> first | exact same | contradiction

theorem coarse_step {action : InFlight.Action} {final : InFlight}
    (visible : visible state event.action = some action) (ordered : model.clock ≤ event.now)
    (acted : InFlight.act hashUrl { model with clock := event.now } event.now action =
      some final) :
    Execution.exec (InFlight.step hashUrl) model (translate state event) = some final := by
  have stepped : model.step hashUrl ⟨event.now, action⟩ = some final := by
    rw [InFlight.step, if_pos ordered]
    exact acted
  rw [translate, visible]
  exact (Execution.exec_cons_some_iff _).mpr ⟨final, stepped, rfl⟩

section Coarse

variable {id : CallId} {url data : String}

theorem coarse_render (missed : model.calls id = some ⟨url, data, .missed⟩) (html : String)
    (now : Nat) :
    InFlight.act hashUrl { model with clock := now } now (.render id (.ok html)) =
      some { InFlight.setProgress { model with clock := now } id (.rendered html) with
        renders := model.renders ++ [(url, html)] } := by
  simp only [InFlight.act, InFlight.render]
  rw [missed]

theorem coarse_fail (missed : model.calls id = some ⟨url, data, .missed⟩) (error : PoolError)
    (now : Nat) :
    InFlight.act hashUrl { model with clock := now } now (.render id (.error error)) =
      some (InFlight.setProgress { model with clock := now } id
        (.returned (.error (SsrEngine.mapPoolError error)))) := by
  simp only [InFlight.act, InFlight.render]
  rw [missed]

theorem coarse_store {html : String} (holding : model.calls id = some ⟨url, data, .rendered html⟩)
    (thread : ThreadId) (order : ScanOrder) (now : Nat) :
    InFlight.act hashUrl { model with clock := now } now (.store id thread order) =
      some { InFlight.setProgress { model with clock := now } id (.returned (.ok html)) with
        cache := model.cache.insert hashUrl thread order url html now } := by
  simp only [InFlight.act, InFlight.store]
  rw [holding]

theorem coarse_cancel {pool : Pool n} {poolCall : CallId}
    (waits : model.calls id = some ⟨url, data, progressOf pool (.pooled poolCall)⟩) (now : Nat) :
    InFlight.act hashUrl { model with clock := now } now (.cancel id) =
      some (InFlight.setProgress { model with clock := now } id .cancelled) := by
  simp only [InFlight.act, InFlight.cancel]
  rw [waits]
  cases page : pool.renderedHtml poolCall <;> simp [progressOf, page]

end Coarse

theorem coarse_stutter (invisible : visible state event.action = none) :
    Execution.exec (InFlight.step hashUrl) model (translate state event) = some model := by
  rw [translate, invisible]
  rfl

/-! ### One step -/

/-- The coarse call of a call that waits for a pool call. -/
theorem Related.pooled_view (related : Related config earlier earlierFinished state model)
    {id poolCall : CallId} {url data : String}
    (pooled : state.calls id = some ⟨url, data, .pooled poolCall⟩) :
    model.calls id = some ⟨url, data, progressOf state.pool (.pooled poolCall)⟩ := by
  rw [related.calls, pooled]
  rfl

/-- What a pool call returned tells how far the coarse call has come. -/
theorem Related.progressOf_returned (related : Related config earlier earlierFinished state model)
    {poolCall : CallId} {result : Except PoolError String}
    (returned : poolResult state.pool poolCall = some result) :
    progressOf state.pool (.pooled poolCall) = result.toOption.elim .missed .rendered := by
  obtain ⟨call, present, phase⟩ := poolResult_eq_some_iff.mp returned
  have page := Pool.renderedHtml_of_returned related.served.sound related.served.finishedOnce
    present phase
  simp only [progressOf, page]
  cases result <;> rfl

theorem Related.looks (related : Related config earlier earlierFinished state model)
    {thread : ThreadId} {url data : String} {stage : Stage} (ordered : state.clock ≤ event.now)
    (action : event.action = .lookup thread url data)
    (answer : (∃ html, stage = .cached html ∧
        (state.cache.tryGet hashUrl thread url event.now).1 = some html) ∨
      (stage = .missed ∧ (state.cache.tryGet hashUrl thread url event.now).1 = none))
    (nextEq : next = { state with
      clock := event.now
      cache := (state.cache.tryGet hashUrl thread url event.now).2
      calls := Function.update state.calls state.nextCall (some ⟨url, data, stage⟩)
      nextCall := state.nextCall + 1 })
    (served : Served config next) :
    ∃ final, Execution.exec (InFlight.step hashUrl) model (translate state event) = some final ∧
      Related config earlier earlierFinished next final := by
  subst nextEq
  refine ⟨_, coarse_step (by rw [action]; rfl)
    (related.clock.trans ordered) rfl, ?_⟩
  refine
    { served := served
      cache := by simp only [InFlight.lookup, related.cache]
      nextCall := congrArg (· + 1) related.nextCall
      clock := Nat.le_refl _
      calls := ?_
      grown := related.grown
      renders := related.renders }
  intro id
  simp only [InFlight.lookup, related.cache, related.nextCall]
  by_cases here : id = state.nextCall
  · subst here
    rw [Function.update_self, Function.update_self]
    rcases answer with ⟨html, rfl, hit⟩ | ⟨rfl, miss⟩
    · rw [hit]
      rfl
    · rw [miss]
      rfl
  · rw [Function.update_of_ne here, Function.update_of_ne here, related.calls]

theorem Related.stores (related : Related config earlier earlierFinished state model)
    {id poolCall : CallId} {url data html : String} {thread : ThreadId} {order : ScanOrder}
    (ordered : state.clock ≤ event.now) (action : event.action = .finish id thread order)
    (pooled : state.calls id = some ⟨url, data, .pooled poolCall⟩)
    (returned : poolResult state.pool poolCall = some (.ok html))
    (nextEq : next = { setStage { state with clock := event.now } id (.returned (.ok html)) with
      cache := state.cache.insert hashUrl thread order url html event.now })
    (served : Served config next) :
    ∃ final, Execution.exec (InFlight.step hashUrl) model (translate state event) = some final ∧
      Related config earlier earlierFinished next final := by
  subst nextEq
  have holding := related.pooled_view pooled
  rw [related.progressOf_returned returned] at holding
  change model.calls id = some ⟨url, data, .rendered html⟩ at holding
  refine ⟨_, coarse_step ?_ (related.clock.trans ordered)
    (coarse_store holding thread order event.now), ?_⟩
  · rw [action]
    simp [visible, pooled, returned]
  · exact
      { served := served
        cache := by rw [related.cache]
        nextCall := related.nextCall
        clock := Nat.le_refl _
        calls := fun other => setProgress_view { model with clock := event.now }
          { state with clock := event.now } related.calls id other rfl
        grown := related.grown
        renders := related.renders }

theorem Related.fails (related : Related config earlier earlierFinished state model)
    {id poolCall : CallId} {url data : String} {error : PoolError} {thread : ThreadId}
    {order : ScanOrder} (ordered : state.clock ≤ event.now)
    (action : event.action = .finish id thread order)
    (pooled : state.calls id = some ⟨url, data, .pooled poolCall⟩)
    (returned : poolResult state.pool poolCall = some (.error error))
    (nextEq : next = setStage { state with clock := event.now } id
      (.returned (.error (SsrEngine.mapPoolError error))))
    (served : Served config next) :
    ∃ final, Execution.exec (InFlight.step hashUrl) model (translate state event) = some final ∧
      Related config earlier earlierFinished next final := by
  subst nextEq
  have missed := related.pooled_view pooled
  rw [related.progressOf_returned returned] at missed
  change model.calls id = some ⟨url, data, .missed⟩ at missed
  refine ⟨_, coarse_step ?_ (related.clock.trans ordered)
    (coarse_fail missed error event.now), ?_⟩
  · rw [action]
    simp [visible, pooled, returned]
  · exact
      { served := served
        cache := related.cache
        nextCall := related.nextCall
        clock := Nat.le_refl _
        calls := fun other => setProgress_view { model with clock := event.now }
          { state with clock := event.now } related.calls id other rfl
        grown := related.grown
        renders := related.renders }

theorem Related.enters (related : Related config earlier earlierFinished state model)
    {id : CallId} {url data : String} {pool : Pool n} (ordered : state.clock ≤ event.now)
    (action : event.action = .enter id) (missed : state.calls id = some ⟨url, data, .missed⟩)
    (called : state.pool.call config url data event.now = some pool)
    (nextEq : next = { setStage { state with clock := event.now } id
      (.pooled state.pool.nextCall) with pool := pool })
    (served : Served config next) :
    ∃ final, Execution.exec (InFlight.step hashUrl) model (translate state event) = some final ∧
      Related config earlier earlierFinished next final := by
  subst nextEq
  have stepped : state.pool.step config (.call url data event.now) = some pool := called
  refine ⟨model, coarse_stutter (by rw [action]; rfl), ?_⟩
  refine related.hidden served stepped
    (fun _ _ _ poolCall _ => renderedHtml_of_hidden related.served.sound stepped rfl poolCall)
    rfl related.cache related.nextCall (related.clock.trans ordered) fun other => ?_
  rw [related.calls]
  change _ = (Function.update state.calls id _ other).map (view state.pool)
  by_cases here : other = id
  · subst here
    have fresh := Pool.renderedHtml_of_fresh related.served.sound related.served.finishedOnce
      (related.served.sound.fresh _ (Nat.le_refl _))
    simp [missed, view, progressOf, fresh]
  · rw [Function.update_of_ne here]

theorem Related.cancels (related : Related config earlier earlierFinished state model)
    {id poolCall : CallId} {url data : String} {pool : Pool n} (ordered : state.clock ≤ event.now)
    (action : event.action = .cancel id)
    (pooled : state.calls id = some ⟨url, data, .pooled poolCall⟩)
    (cancelled : state.pool.cancel poolCall = some pool)
    (nextEq : next = { setStage { state with clock := event.now } id .cancelled with
      pool := pool })
    (served : Served config next) :
    ∃ final, Execution.exec (InFlight.step hashUrl) model (translate state event) = some final ∧
      Related config earlier earlierFinished next final := by
  subst nextEq
  have stepped : state.pool.step config (.cancel poolCall) = some pool := cancelled
  refine ⟨_, coarse_step (by rw [action]; rfl) (related.clock.trans ordered)
    (coarse_cancel (related.pooled_view pooled) event.now), ?_⟩
  exact related.hidden served stepped
    (fun _ _ _ other _ => renderedHtml_of_hidden related.served.sound stepped rfl other)
    rfl related.cache related.nextCall (Nat.le_refl _) fun other =>
      setProgress_view { model with clock := event.now } { state with clock := event.now }
        related.calls id other rfl

/-- A worker that completes a page has rendered the request in its hands. -/
theorem completedPage_eq_some {pool after : Pool n} {poolEvent : Pool.Event n} {poolCall : CallId}
    {html : String} (stepped : pool.step config poolEvent = some after)
    (completed : completedPage pool poolEvent = some (poolCall, html)) :
    ∃ worker request, pool.workers worker = .rendering request ∧ request.responseTx = poolCall ∧
      after.finished = pool.finished ++ [⟨worker, request, .completed (.ok html)⟩] := by
  unfold completedPage at completed
  split at completed
  · rename_i worker page
    obtain ⟨request, hand, pageEq⟩ := Option.map_eq_some_iff.mp completed
    obtain ⟨rfl, rfl⟩ := Prod.mk.inj pageEq
    change pool.render worker (.completed (.ok page)) = some after at stepped
    unfold Pool.render at stepped
    split at stepped
    · rename_i held rendering
      rw [rendering] at hand
      obtain rfl := Option.some.inj hand
      obtain rfl := Option.some.inj stepped
      exact ⟨worker, held, rendering, rfl, rfl⟩
    · contradiction
  · contradiction

/-- Whoever is found waits for the pool call. -/
theorem pooled_of_owner? {poolCall id : CallId} (found : state.owner? poolCall = some id) :
    ∃ url data, state.calls id = some ⟨url, data, .pooled poolCall⟩ := by
  have waits := List.find?_some found
  obtain ⟨⟨url, data, stage⟩, present, same⟩ := (Option.any_eq_true _ _).mp waits
  obtain rfl : stage = .pooled poolCall := of_decide_eq_true same
  exact ⟨url, data, present⟩

theorem owner?_none (served : Served config state) {poolCall : CallId}
    (none : state.owner? poolCall = none) {id : CallId} {call : ServiceCall}
    (present : state.calls id = some call) : call.stage ≠ .pooled poolCall := by
  intro waits
  have below : id < state.nextCall := by
    by_contra beyond
    rw [served.unused id (Nat.le_of_not_lt beyond)] at present
    contradiction
  have notFound := List.find?_eq_none.mp none id (List.mem_range.mpr below)
  rw [present] at notFound
  simp [waits] at notFound

/-- The request of a pool call that somebody waits for has that call's URL. -/
theorem Served.url_of_request (served : Served config state) {id poolCall : CallId}
    {url data : String} (pooled : state.calls id = some ⟨url, data, .pooled poolCall⟩)
    {worker : Fin n} {request : RenderRequest}
    (hand : state.pool.desk.hands worker = some request) (same : request.responseTx = poolCall) :
    request.url = url ∧ request.data = data := by
  obtain ⟨call, present, rfl, rfl⟩ := served.owned (.inl id) url data poolCall pooled
  obtain ⟨ledger, tracks⟩ := served.sound.ledger
  have own := tracks.handsOwn worker request hand
  rw [same, Desk.issued] at own
  obtain rfl : call.request config poolCall = request := by
    simpa [Pool.desk, present] using own
  exact ⟨rfl, rfl⟩

theorem Related.works (related : Related config earlier earlierFinished state model)
    {poolEvent : Pool.Event n} {pool : Pool n} (ordered : state.clock ≤ event.now)
    (action : event.action = .pool poolEvent)
    (stepped : state.pool.step config poolEvent = some pool)
    (nextEq : next = { state with clock := event.now, pool := pool })
    (served : Served config next) :
    ∃ final, Execution.exec (InFlight.step hashUrl) model (translate state event) = some final ∧
      Related config earlier earlierFinished next final := by
  subst nextEq
  have invisible (unseen : ∀ id call, state.calls id = some call → ∀ poolCall,
      call.stage = .pooled poolCall → pool.renderedHtml poolCall = state.pool.renderedHtml poolCall)
      (hidden : visible state event.action = none) :
      ∃ final, Execution.exec (InFlight.step hashUrl) model (translate state event) = some final ∧
        Related config earlier earlierFinished { state with clock := event.now, pool := pool }
          final :=
    ⟨model, coarse_stutter hidden, related.hidden served stepped unseen rfl related.cache
      related.nextCall (related.clock.trans ordered) related.calls⟩
  cases completed : completedPage state.pool poolEvent with
  | none =>
      refine invisible (fun _ _ _ poolCall _ =>
        renderedHtml_of_hidden related.served.sound stepped completed poolCall) ?_
      rw [action]
      simp [visible, completed]
  | some page =>
      obtain ⟨poolCall, html⟩ := page
      obtain ⟨worker, request, rendering, sameCall, appended⟩ :=
        completedPage_eq_some stepped completed
      have pages := Pool.renderedHtml_of_appended appended
      dsimp only at pages
      have others : ∀ other, other ≠ poolCall →
          pool.renderedHtml other = state.pool.renderedHtml other := by
        intro other different
        rw [pages, if_neg (fun same => different (same.symm.trans sameCall)), Option.or_none]
      cases found : state.owner? poolCall with
      | none =>
          refine invisible (fun _ call present other waits => others other ?_) ?_
          · rintro rfl
            exact owner?_none related.served found present waits
          · rw [action]
            simp [visible, completed, found]
      | some id =>
          obtain ⟨url, data, pooled⟩ := pooled_of_owner? found
          have hand := Pool.hands_of_rendering rendering
          have fresh : state.pool.renderedHtml poolCall = none := by
            rw [← sameCall]
            exact Pool.renderedHtml_of_not_mem
              (related.served.finishedOnce.rendering worker request rendering)
          have here : pool.renderedHtml poolCall = some html := by
            rw [pages, fresh, if_pos sameCall]
            rfl
          have missed := related.pooled_view pooled
          simp only [progressOf, fresh] at missed
          obtain ⟨grown, renders⟩ := related.renders_of_appended appended
          refine ⟨_, coarse_step ?_ (related.clock.trans ordered)
            (coarse_render missed html event.now), ?_⟩
          · rw [action]
            simp [visible, completed, found]
          · refine
              { served := served
                cache := related.cache
                nextCall := related.nextCall
                clock := Nat.le_refl _
                calls := ?_
                grown := ⟨?_, grown⟩
                renders := ?_ }
            · intro other
              change (InFlight.setProgress { model with clock := event.now } id _).calls other = _
              simp only [InFlight.setProgress]
              by_cases same : other = id
              · subst same
                rw [Function.update_self, missed, pooled]
                simp [view, progressOf, here]
              · rw [Function.update_of_ne same, related.calls]
                cases present : state.calls other with
                | none => rfl
                | some call =>
                    refine congrArg some (view_congr fun otherCall waits => ?_).symm
                    refine others otherCall ?_
                    rintro rfl
                    refine same (Sum.inl.inj (related.served.apart (.inl other) (.inl id) _
                      ⟨call.url, call.data, ?_⟩ ⟨url, data, pooled⟩))
                    rw [← waits]
                    exact present
            · rw [List.length_append]
              exact Nat.le_add_right_of_le related.grown.1
            · intro page member
              rw [List.drop_append_of_le_length related.grown.1] at member
              rcases List.mem_append.mp member with old | new
              · exact renders page old
              · obtain rfl := List.mem_singleton.mp new
                refine ⟨⟨worker, request, .completed (.ok html)⟩, ?_,
                  (related.served.url_of_request pooled hand sameCall).1, rfl⟩
                rw [appended, List.drop_append_of_le_length related.grown.2]
                exact List.mem_append_right _ (List.mem_singleton_self _)

/-- **The engine with its pool refines the engine in flight.** Each of its steps
is matched by one step of the coarse engine or by none. -/
theorem simulates (hashUrl : String → UInt64) (config : V8PoolConfig)
    (earlier earlierFinished : Nat) :
    Execution.Simulates (step (n := n) hashUrl config) (InFlight.step hashUrl) translate
      (Related config earlier earlierFinished) := by
  intro state model event next related stepped
  have ordered := step_ordered stepped
  have transition := step_transition stepped
  have served := related.served.transition transition
  cases transition with
  | looks action answer => exact related.looks ordered action answer rfl served
  | enters action missed called => exact related.enters ordered action missed called rfl served
  | stores action pooled returned =>
      exact related.stores ordered action pooled returned rfl served
  | fails action pooled returned => exact related.fails ordered action pooled returned rfl served
  | cancels action pooled cancelled =>
      exact related.cancels ordered action pooled cancelled rfl served
  | entersUncached action called =>
      have poolStep : state.pool.step config (.call _ _ event.now) = some _ := called
      exact ⟨model, coarse_stutter (by rw [action]; rfl), related.hidden served poolStep
        (fun _ _ _ poolCall _ => renderedHtml_of_hidden related.served.sound poolStep rfl poolCall)
        rfl related.cache related.nextCall (related.clock.trans ordered) related.calls⟩
  | finishesUncached action pooled returned =>
      exact ⟨model, coarse_stutter (by rw [action]; rfl),
        { related with served := served, clock := related.clock.trans ordered }⟩
  | cancelsUncached action pooled cancelled =>
      have poolStep : state.pool.step config (.cancel _) = some _ := cancelled
      exact ⟨model, coarse_stutter (by rw [action]; rfl), related.hidden served poolStep
        (fun _ _ _ poolCall _ => renderedHtml_of_hidden related.served.sound poolStep rfl poolCall)
        rfl related.cache related.nextCall (related.clock.trans ordered) related.calls⟩
  | works action inner poolStep => exact related.works ordered action poolStep rfl served
  | invalidates same acted =>
      refine ⟨_, coarse_step (visible_of_invalidation same) (related.clock.trans ordered)
        (acted _ related.cache), ?_⟩
      exact
        { served := served
          cache := rfl
          nextCall := related.nextCall
          clock := Nat.le_refl _
          calls := related.calls
          grown := related.grown
          renders := related.renders }
  | drops action unborrowed dropped =>
      have poolStep : state.pool.step config .drop = some _ := dropped
      exact ⟨model, coarse_stutter (by rw [action]; rfl), related.hidden served poolStep
        (fun _ _ _ poolCall _ => renderedHtml_of_hidden related.served.sound poolStep rfl poolCall)
        rfl related.cache related.nextCall (related.clock.trans ordered) related.calls⟩

end Steps

end RustySsr.Engine.Service
