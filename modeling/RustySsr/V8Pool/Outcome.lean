import RustySsr.V8Pool.Progress

/-!
Owns what becomes of each request: it is rendered to its end at most once, so
the page of a request is a function of the pool, and what a call returns agrees
with it. A call that returned a page has exactly that page, and a call that
returned an error has none.
-/

namespace RustySsr.V8Pool

open RustySsr.Foundation

variable {n : Nat}

/-- The page that a render yields. -/
def RenderOutcome.html? : RenderOutcome → Option String
  | .completed (.ok html) => some html
  | _ => none

namespace Pool

def finishedIds (pool : Pool n) : List CallId :=
  pool.finished.map fun rendering => rendering.request.responseTx

/-- The page that the workers have rendered for the request of a call. -/
def renderedHtml (pool : Pool n) (id : CallId) : Option String :=
  pool.finished.findSome? fun rendering =>
    if rendering.request.responseTx = id then rendering.outcome.html? else none

/-- Each request ends its render at most once, after it has started. -/
structure FinishedOnce (pool : Pool n) : Prop where
  once : pool.finishedIds.Nodup
  started : ∀ id ∈ pool.finishedIds, id ∈ pool.desk.startedIds
  rendering : ∀ worker request, pool.workers worker = .rendering request →
    request.responseTx ∉ pool.finishedIds

section Steps

variable {config : V8PoolConfig} {pool next : Pool n} {event : Event n}

theorem finishedIds_congr (finished : next.finished = pool.finished) :
    next.finishedIds = pool.finishedIds := by
  rw [finishedIds, finishedIds, finished]

theorem startedIds_congr (started : next.started = pool.started) :
    next.desk.startedIds = pool.desk.startedIds := by
  simp [desk, Desk.startedIds, started]

/-- Requests in the hands of two workers are of two calls. -/
theorem Sound.hand_unique (sound : Sound config pool) {worker other : Fin n}
    {request otherRequest : RenderRequest} (hand : pool.desk.hands worker = some request)
    (otherHand : pool.desk.hands other = some otherRequest)
    (same : request.responseTx = otherRequest.responseTx) : worker = other := by
  obtain ⟨ledger, tracks⟩ := sound.ledger
  have held := (tracks.held request.responseTx worker).mpr ⟨request, hand, rfl⟩
  have otherHeld := (tracks.held request.responseTx other).mpr ⟨otherRequest, otherHand, same.symm⟩
  exact Place.held.inj (Option.some.inj (held.symm.trans otherHeld))

/-- A request that starts now has not started before. -/
theorem Sound.fresh_of_started (nextSound : Sound config next) {worker : Fin n}
    {request : RenderRequest} (started : next.started = pool.started ++ [(worker, request)]) :
    request.responseTx ∉ pool.desk.startedIds := by
  obtain ⟨ledger, tracks⟩ := nextSound.ledger
  have nodup := tracks.startedOnce
  have startedIds : next.desk.startedIds = pool.desk.startedIds ++ [request.responseTx] := by
    simp [desk, Desk.startedIds, started]
  rw [startedIds, List.nodup_append] at nodup
  exact fun member => nodup.2.2 _ member _ (List.mem_singleton_self _) rfl

theorem Sound.startedIds_of_hand (sound : Sound config pool) {worker : Fin n}
    {request : RenderRequest} (hand : pool.desk.hands worker = some request) :
    request.responseTx ∈ pool.desk.startedIds := by
  obtain ⟨ledger, tracks⟩ := sound.ledger
  exact (tracks.started _).mpr
    ⟨_, (tracks.held request.responseTx worker).mpr ⟨request, hand, rfl⟩, trivial⟩

theorem hands_of_rendering {worker : Fin n} {request : RenderRequest}
    (rendering : pool.workers worker = .rendering request) :
    pool.desk.hands worker = some request := by
  simp [desk, rendering, Worker.request?]

/-- A worker that takes a request leaves the finished renders as they are. -/
theorem FinishedOnce.start (finishedOnce : pool.FinishedOnce) (nextSound : Sound config next)
    {worker : Fin n} {request : RenderRequest}
    (workers : next.workers = Function.update pool.workers worker (.rendering request))
    (started : next.started = pool.started ++ [(worker, request)])
    (finished : next.finished = pool.finished) : next.FinishedOnce := by
  have sameIds : next.finishedIds = pool.finishedIds := finishedIds_congr finished
  refine { once := sameIds ▸ finishedOnce.once, started := ?_, rendering := ?_ }
  · intro id member
    have before := finishedOnce.started id (sameIds ▸ member)
    simp only [desk, Desk.startedIds, started, List.map_append]
    exact List.mem_append_left _ before
  · intro other otherRequest rendering
    rw [sameIds]
    by_cases same : other = worker
    · subst same
      rw [workers, Function.update_self] at rendering
      obtain rfl := Worker.rendering.inj rendering
      exact fun member => nextSound.fresh_of_started started (finishedOnce.started _ member)
    · rw [workers, Function.update_of_ne same] at rendering
      exact finishedOnce.rendering other otherRequest rendering

theorem FinishedOnce.advance (finishedOnce : pool.FinishedOnce) (sound : Sound config pool)
    (nextSound : Sound config next) (advance : Advance pool next event) : next.FinishedOnce := by
  cases advance with
  | waits caller workers lock queue closed started finished =>
      have sameIds : next.finishedIds = pool.finishedIds := finishedIds_congr finished
      have sameStarted : next.desk.startedIds = pool.desk.startedIds := startedIds_congr started
      exact
        { once := sameIds ▸ finishedOnce.once
          started := by rw [sameIds, sameStarted]; exact finishedOnce.started
          rendering := by rw [sameIds, workers]; exact finishedOnce.rendering }
  | hands caller receiving isOpen workers queue started finished =>
      exact finishedOnce.start nextSound workers started finished
  | takes own receiving workers queue started finished =>
      exact finishedOnce.start nextSound workers started finished
  | moves own lower workers queue started finished =>
      rename_i worker after
      have sameStarted : next.desk.startedIds = pool.desk.startedIds := startedIds_congr started
      -- Nobody starts to render by a step that lowers its rank.
      have wasRendering : ∀ {other request}, next.workers other = .rendering request →
          other ≠ worker ∧ pool.workers other = .rendering request := by
        intro other request rendering
        by_cases same : other = worker
        · subst same
          rw [workers, Function.update_self] at rendering
          rw [rendering] at lower
          cases state : pool.workers other <;> simp [state, Worker.rank] at lower
        · rw [workers, Function.update_of_ne same] at rendering
          exact ⟨same, rendering⟩
      rcases finished with same | ⟨request, outcome, _, rendering, appended⟩
      · have sameIds : next.finishedIds = pool.finishedIds := finishedIds_congr same
        exact
          { once := sameIds ▸ finishedOnce.once
            started := by rw [sameIds, sameStarted]; exact finishedOnce.started
            rendering := fun other otherRequest later => by
              rw [sameIds]
              exact finishedOnce.rendering other otherRequest (wasRendering later).2 }
      · have hand := hands_of_rendering rendering
        have ids : next.finishedIds = pool.finishedIds ++ [request.responseTx] := by
          simp [finishedIds, appended]
        refine { once := ?_, started := ?_, rendering := ?_ }
        · rw [ids]
          exact finishedOnce.once.append (List.nodup_singleton _) (List.disjoint_singleton.mpr
            (finishedOnce.rendering worker request rendering))
        · intro id member
          rw [ids] at member
          rw [sameStarted]
          rcases List.mem_append.mp member with old | new
          · exact finishedOnce.started id old
          · rw [List.mem_singleton.mp new]
            exact sound.startedIds_of_hand hand
        · intro other otherRequest later
          obtain ⟨different, before⟩ := wasRendering later
          rw [ids, List.mem_append, List.mem_singleton]
          rintro (old | same)
          · exact finishedOnce.rendering other otherRequest before old
          · exact different (sound.hand_unique (hands_of_rendering before) hand same)

end Steps

/-! ### The page of a request -/

section Rendered

variable {config : V8PoolConfig} {pool next : Pool n} {event : Event n} {id : CallId}

/-- Two finished renders of one request are the same render. -/
theorem FinishedOnce.unique (finishedOnce : pool.FinishedOnce) {first second : Rendering n}
    (firstMember : first ∈ pool.finished) (secondMember : second ∈ pool.finished)
    (same : first.request.responseTx = second.request.responseTx) : first = second :=
  List.inj_on_of_nodup_map finishedOnce.once firstMember secondMember same

/-- The page of a finished render is the page of its request. -/
theorem FinishedOnce.renderedHtml_of_mem (finishedOnce : pool.FinishedOnce)
    {rendering : Rendering n} (member : rendering ∈ pool.finished) :
    pool.renderedHtml rendering.request.responseTx = rendering.outcome.html? := by
  unfold renderedHtml
  cases page : rendering.outcome.html? with
  | none =>
      rw [List.findSome?_eq_none_iff]
      intro other otherMember
      split_ifs with same
      · rw [finishedOnce.unique otherMember member same, page]
      · rfl
  | some html =>
      cases found : pool.finished.findSome? fun other =>
          if other.request.responseTx = rendering.request.responseTx then other.outcome.html?
          else none with
      | none =>
          have absent := List.findSome?_eq_none_iff.mp found rendering member
          rw [if_pos rfl, page] at absent
          contradiction
      | some other =>
          obtain ⟨witness, witnessMember, value⟩ := List.exists_of_findSome?_eq_some found
          split_ifs at value with same
          rw [finishedOnce.unique witnessMember member same, page] at value
          exact value.symm

theorem renderedHtml_of_not_mem (absent : id ∉ pool.finishedIds) :
    pool.renderedHtml id = none := by
  unfold renderedHtml
  rw [List.findSome?_eq_none_iff]
  intro rendering member
  rw [if_neg]
  rintro rfl
  exact absent (List.mem_map_of_mem member)

theorem renderedHtml_of_appended {rendering : Rendering n}
    (appended : next.finished = pool.finished ++ [rendering]) (id : CallId) :
    next.renderedHtml id = (pool.renderedHtml id).or
      (if rendering.request.responseTx = id then rendering.outcome.html? else none) := by
  unfold renderedHtml
  rw [appended, List.findSome?_append]
  simp

/-- What a step does to the pages. -/
theorem Advance.renderedHtml (advance : Advance pool next event) :
    (∀ id, next.renderedHtml id = pool.renderedHtml id) ∨
      ∃ worker request html, event = .render worker (.completed (.ok html)) ∧
        pool.workers worker = .rendering request ∧
        ∀ id, next.renderedHtml id = (pool.renderedHtml id).or
          (if request.responseTx = id then some html else none) := by
  have same : next.finished = pool.finished →
      ∀ id, next.renderedHtml id = pool.renderedHtml id := by
    intro finished id
    unfold Pool.renderedHtml
    rw [finished]
  cases advance with
  | waits caller workers lock queue closed started finished => exact Or.inl (same finished)
  | hands caller receiving isOpen workers queue started finished => exact Or.inl (same finished)
  | takes own receiving workers queue started finished => exact Or.inl (same finished)
  | moves own lower workers queue started finished =>
      rename_i worker after
      rcases finished with unchanged | ⟨request, outcome, rfl, rendering, appended⟩
      · exact Or.inl (same unchanged)
      · have added := renderedHtml_of_appended appended
        cases page : outcome.html? with
        | none =>
            refine Or.inl fun id => ?_
            rw [added, page, ite_self, Option.or_none]
        | some html =>
            obtain rfl : outcome = .completed (.ok html) := by
              cases outcome with
              | panicked => contradiction
              | completed result => cases result <;> simp_all [RenderOutcome.html?]
            exact Or.inr ⟨worker, request, html, rfl, rendering, added⟩

/-- The history of finished renders grows at its end. -/
theorem Advance.finished_appended (advance : Advance pool next event) :
    ∃ more, next.finished = pool.finished ++ more := by
  cases advance with
  | waits caller workers lock queue closed started finished =>
      exact ⟨[], by rw [finished, List.append_nil]⟩
  | hands caller receiving isOpen workers queue started finished =>
      exact ⟨[], by rw [finished, List.append_nil]⟩
  | takes own receiving workers queue started finished =>
      exact ⟨[], by rw [finished, List.append_nil]⟩
  | moves own lower workers queue started finished =>
      rcases finished with same | ⟨request, outcome, _, _, appended⟩
      · exact ⟨[], by rw [same, List.append_nil]⟩
      · exact ⟨_, appended⟩

/-- A request that no call has made has no page. -/
theorem renderedHtml_of_fresh (sound : Sound config pool) (finishedOnce : pool.FinishedOnce)
    (absent : pool.calls id = none) : pool.renderedHtml id = none := by
  obtain ⟨ledger, tracks⟩ := sound.ledger
  refine renderedHtml_of_not_mem fun member => ?_
  obtain ⟨call, present, _⟩ := hasAccepted_of_mem_line tracks
    (List.mem_append_left _ (finishedOnce.started id member))
  rw [absent] at present
  contradiction

/-- **What a call returns agrees with what was rendered for it.** A page is the
page of its request, and a call that failed has none. -/
theorem renderedHtml_of_returned (sound : Sound config pool) (finishedOnce : pool.FinishedOnce)
    {call : Call} (present : pool.calls id = some call) {result : Except PoolError String}
    (returned : call.phase = .returned result) : pool.renderedHtml id = result.toOption := by
  have accounted := sound.accounted
  cases result with
  | ok html =>
      obtain ⟨worker, member⟩ := accounted.okOwn id call html present returned
      exact finishedOnce.renderedHtml_of_mem member
  | error error =>
      cases error with
      | render message =>
          obtain ⟨worker, member⟩ := accounted.errOwn id call message present returned
          exact finishedOnce.renderedHtml_of_mem member
      | workerCrashed =>
          obtain ⟨worker, member, _⟩ := accounted.crashedOwn id call present returned
          exact finishedOnce.renderedHtml_of_mem member
      | timeout =>
          refine renderedHtml_of_not_mem fun member => ?_
          obtain ⟨⟨worker, request⟩, started, same⟩ :=
            List.mem_map.mp (finishedOnce.started id member)
          exact accounted.refusedNotRendered id call present (Or.inl returned) worker request
            started same
      | disconnected =>
          refine renderedHtml_of_not_mem fun member => ?_
          obtain ⟨⟨worker, request⟩, started, same⟩ :=
            List.mem_map.mp (finishedOnce.started id member)
          exact accounted.refusedNotRendered id call present (Or.inr returned) worker request
            started same

end Rendered

end Pool

end RustySsr.V8Pool
