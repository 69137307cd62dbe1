import RustySsr.V8Pool.Backlog

/-!
Owns how a call goes on from step to step. `Call.GoesOn` lists what no step takes
back: an acceptance, an answer on the reply channel, the end of the call. A call
that tries to send either goes on trying with the deadline it began with, or has
been accepted, or has ended.
-/

namespace RustySsr.V8Pool

open RustySsr.Foundation

variable {n : Nat}

/-- What a step may do to a call. -/
structure Call.GoesOn (call after : Call) : Prop where
  same : after.url = call.url ∧ after.data = call.data
  accepted : call.accepted = true → after.accepted = true
  answered : call.response ≠ .pending → after.response ≠ .pending
  ended : call.inFlight = false → after.phase = call.phase
  waiting : call.phase = .waiting → after.phase = .waiting ∨ after.inFlight = false
  sending : ∀ request deadline, call.phase = .sending request deadline →
    after.phase = .sending request deadline ∨ after.phase = .waiting ∨ after.inFlight = false

theorem Call.GoesOn.refl (call : Call) : call.GoesOn call where
  same := ⟨rfl, rfl⟩
  accepted := id
  answered := id
  ended := fun _ => rfl
  waiting := Or.inl
  sending := fun _ _ => Or.inl

theorem Call.inFlight_congr {call after : Call} (same : after.phase = call.phase) :
    after.inFlight = call.inFlight := by
  simp only [Call.inFlight, same]

theorem Call.GoesOn.trans {call middle after : Call} (first : call.GoesOn middle)
    (second : middle.GoesOn after) : call.GoesOn after where
  same := ⟨second.same.1.trans first.same.1, second.same.2.trans first.same.2⟩
  accepted := fun accepted => second.accepted (first.accepted accepted)
  answered := fun answered => second.answered (first.answered answered)
  ended := fun ended =>
    have same := first.ended ended
    (second.ended ((Call.inFlight_congr same).trans ended)).trans same
  waiting := fun waiting => by
    rcases first.waiting waiting with still | ended
    · exact second.waiting still
    · exact Or.inr ((Call.inFlight_congr (second.ended ended)).trans ended)
  sending := fun request deadline sending => by
    rcases first.sending request deadline sending with still | waiting | ended
    · exact second.sending request deadline still
    · exact Or.inr (second.waiting waiting)
    · exact Or.inr (Or.inr ((Call.inFlight_congr (second.ended ended)).trans ended))

/-- A step that writes the reply channel leaves the phase as it is. -/
theorem Call.goesOn_response (call : Call) {response : Response} (shown : response ≠ .pending) :
    call.GoesOn { call with response := response } where
  same := ⟨rfl, rfl⟩
  accepted := id
  answered := fun _ => shown
  ended := fun _ => rfl
  waiting := Or.inl
  sending := fun _ _ => Or.inl

namespace Pool

/-- The worker that makes the step, if it is a worker's. -/
def Event.worker? : Event n → Option (Fin n)
  | .pin worker => some worker
  | .initRuntime worker _ => some worker
  | .lock worker => some worker
  | .recv worker => some worker
  | .render worker _ => some worker
  | .reply worker => some worker
  | .leave worker => some worker
  | _ => none

/-- The call whose caller makes the step, once it has begun. -/
def Event.caller? : Event n → Option CallId
  | .trySend id _ => some id
  | .cancel id => some id
  | .receiveResponse id => some id
  | _ => none

variable {config : V8PoolConfig} {pool next : Pool n} {id : CallId} {call : Call}

theorem goesOn_updateCall (pool : Pool n) (present : pool.calls id = some call)
    (changed : CallId) (change : Call → Call) (own : id = changed → call.GoesOn (change call)) :
    ∃ after, (pool.updateCall changed change).calls id = some after ∧ call.GoesOn after := by
  by_cases same : id = changed
  · refine ⟨change call, ?_, own same⟩
    subst same
    simp [updateCall, present]
  · exact ⟨call, by simpa [updateCall, same] using present, .refl call⟩

theorem goesOn_releaseReceiver (pool : Pool n) (present : pool.calls id = some call) :
    ∃ after, pool.releaseReceiver.calls id = some after ∧ call.GoesOn after := by
  unfold releaseReceiver
  split_ifs
  · exact ⟨call, present, .refl call⟩
  · by_cases queued : id ∈ pool.queue.map RenderRequest.responseTx
    · exact ⟨{ call with response := .dropped }, by simp only [queued, if_true, present]; rfl,
        call.goesOn_response (by simp)⟩
    · exact ⟨call, by simp only [queued, if_false, present], .refl call⟩

/-- Every call goes on in every step. -/
theorem Sound.goesOn (sound : Sound config pool) (step : Transition config pool next)
    (present : pool.calls id = some call) :
    ∃ after, next.calls id = some after ∧ call.GoesOn after := by
  cases step with
  | begins url data deadline alive =>
      have different : id ≠ pool.nextCall := by
        rintro rfl
        rw [sound.fresh _ (Nat.le_refl _)] at present
        contradiction
      exact ⟨call, by simpa [Function.update_of_ne different] using present, .refl call⟩
  | givesUp held sending reason =>
      refine goesOn_updateCall _ present _ _ fun same => ?_
      subst same
      obtain rfl := Option.some.inj (held.symm.trans present)
      refine
        { same := ⟨rfl, rfl⟩
          accepted := fun accepted => accepted
          answered := fun _ => by simp
          ended := fun ended => by simp [Call.inFlight, sending] at ended
          waiting := fun waiting => by simp [sending] at waiting
          sending := fun _ _ _ => Or.inr (Or.inr ?_) }
      rcases reason with rfl | ⟨rfl, _⟩ | rfl <;> rfl
  | enqueues held sending room =>
      refine goesOn_updateCall { pool with queue := _ } present _ _ fun same => ?_
      subst same
      obtain rfl := Option.some.inj (held.symm.trans present)
      exact
        { same := ⟨rfl, rfl⟩
          accepted := fun _ => rfl
          answered := fun answered => answered
          ended := fun ended => by simp [Call.inFlight, sending] at ended
          waiting := fun _ => Or.inl rfl
          sending := fun _ _ _ => Or.inr (Or.inl rfl) }
  | hands held sending rendezvous blocked =>
      refine goesOn_updateCall (startRender pool _ _) present _ _ fun same => ?_
      subst same
      obtain rfl := Option.some.inj (held.symm.trans present)
      exact
        { same := ⟨rfl, rfl⟩
          accepted := fun _ => rfl
          answered := fun answered => answered
          ended := fun ended => by simp [Call.inFlight, sending] at ended
          waiting := fun _ => Or.inl rfl
          sending := fun _ _ _ => Or.inr (Or.inl rfl) }
  | settles held waiting reason =>
      refine goesOn_updateCall _ present _ _ fun same => ?_
      subst same
      obtain rfl := Option.some.inj (held.symm.trans present)
      refine
        { same := ⟨rfl, rfl⟩
          accepted := fun accepted => accepted
          answered := fun answered => answered
          ended := fun ended => by simp [Call.inFlight, waiting] at ended
          waiting := fun _ => Or.inr ?_
          sending := fun _ _ sending => by simp [waiting] at sending }
      rcases reason with rfl | ⟨result, rfl, _⟩ <;> rfl
  | drops unborrowed => exact goesOn_releaseReceiver { pool with alive := false } present
  | crashes rendering =>
      rename_i worker request
      obtain ⟨middle, updated, first⟩ := goesOn_updateCall pool present
        request.responseTx (fun call => { call with response := .dropped })
        fun _ => call.goesOn_response (by simp)
      obtain ⟨after, released, second⟩ := goesOn_releaseReceiver
        (setWorker (updateCall (pool.finishRender worker request .panicked) request.responseTx
          fun call => { call with response := .dropped }) worker (.ended .panicked)) updated
      exact ⟨after, released, first.trans second⟩
  | replies replying =>
      exact goesOn_updateCall _ present _ _ fun _ => call.goesOn_response (by simp)
  | ends workerCount nextCore before => exact goesOn_releaseReceiver _ present
  | _ => exact ⟨call, present, .refl call⟩

/-- The reply channel of the call shows something. -/
def HasAnswer (pool : Pool n) (id : CallId) : Prop :=
  ∃ call, pool.calls id = some call ∧ call.response ≠ .pending

/-- The reply channel of the call shows how the render of its request went. Only
the request of a cancelled call can be discarded with the pool. -/
def ShowsRender (config : V8PoolConfig) (pool : Pool n) (id : CallId) : Prop :=
  ∃ call, pool.calls id = some call ∧
    ((∃ worker result, call.response = .sent result ∧
        ⟨worker, call.request config id, .completed result⟩ ∈ pool.finished) ∨
      (call.response = .dropped ∧
        ((∃ worker, ⟨worker, call.request config id, .panicked⟩ ∈ pool.finished) ∨
          call.phase = .cancelled)))

/-- The answer to an accepted request is the outcome of a render of that very
request. -/
theorem Sound.showsRender (sound : Sound config pool) (accepted : pool.HasAccepted id)
    (answered : pool.HasAnswer id) : pool.ShowsRender config id := by
  obtain ⟨call, present, wasAccepted⟩ := accepted
  obtain ⟨same, samePresent, shown⟩ := answered
  obtain rfl := Option.some.inj (present.symm.trans samePresent)
  obtain ⟨ledger, tracks⟩ := sound.ledger
  cases shows : call.response with
  | pending => exact absurd shows shown
  | sent result =>
      obtain ⟨worker, member⟩ := sent_own tracks present shows
      exact ⟨call, present, Or.inl ⟨worker, result, shows, member⟩⟩
  | dropped =>
      obtain ⟨place, ledgerEq, located⟩ := tracks.call id call present
      have sent : place ≠ .unsent := by
        rintro rfl
        exact absurd (wasAccepted.symm.trans located.notAccepted) (by decide)
      have response := (located.accepted sent).shows.symm.trans shows
      cases place with
      | lost =>
          obtain ⟨worker, member⟩ := lost_own tracks present ledgerEq
          exact ⟨call, present, Or.inr ⟨shows, Or.inl ⟨worker, member⟩⟩⟩
      | discarded => exact ⟨call, present, Or.inr ⟨shows, Or.inr located.2⟩⟩
      | _ => simp [Place.response] at response

theorem Sound.hasAnswer_of_transition (sound : Sound config pool)
    (step : Transition config pool next) (answered : pool.HasAnswer id) : next.HasAnswer id := by
  obtain ⟨call, present, shown⟩ := answered
  obtain ⟨after, nextPresent, goesOn⟩ := sound.goesOn step present
  exact ⟨after, nextPresent, goesOn.answered shown⟩

theorem Sound.hasAccepted_of_transition (sound : Sound config pool)
    (step : Transition config pool next) (accepted : pool.HasAccepted id) :
    next.HasAccepted id := by
  obtain ⟨call, present, wasAccepted⟩ := accepted
  obtain ⟨after, nextPresent, goesOn⟩ := sound.goesOn step present
  exact ⟨after, nextPresent, goesOn.accepted wasAccepted⟩

/-- A worker lets go of a request only with an answer to its call. -/
theorem Sound.kept_or_answered (sound : Sound config pool) (step : Transition config pool next)
    {worker : Fin n} {request : RenderRequest} (hand : pool.desk.hands worker = some request) :
    next.desk.hands worker = some request ∨ next.HasAnswer request.responseTx := by
  change (pool.workers worker).request? = some request at hand
  have unmoved : ∀ {other : Fin n} {state : Worker}, worker ≠ other →
      (Function.update pool.workers other state worker).request? = some request := by
    intro other state different
    rw [Function.update_of_ne different, hand]
  have notEmpty : (pool.workers worker).request? ≠ none := by simp [hand]
  -- The worker is not one that holds no request.
  have different : ∀ {other : Fin n}, (pool.workers other).request? = none → worker ≠ other := by
    rintro other empty rfl
    exact notEmpty empty
  obtain ⟨ledger, tracks⟩ := sound.ledger
  obtain ⟨_, call, present, _⟩ := tracks.of_hand hand
  cases step with
  | hands held sending rendezvous blocked =>
      exact Or.inl (unmoved (different (by rw [(sound.lock _).mp blocked]; rfl)))
  | starts nextCore before after =>
      refine Or.inl (unmoved (different ?_))
      rcases before with spawned | pinned
      · rw [spawned]; rfl
      · rw [pinned]; rfl
  | locks idle free => exact Or.inl (unmoved (different (by rw [idle]; rfl)))
  | takes receiving queued => exact Or.inl (unmoved (different (by rw [receiving]; rfl)))
  | closes receiving empty dropped =>
      exact Or.inl (unmoved (different (by rw [receiving]; rfl)))
  | drops unborrowed =>
      refine Or.inl ?_
      change ((Pool.releaseReceiver _).workers worker).request? = _
      rw [releaseReceiver_workers]
      exact hand
  | completes result rendering =>
      rename_i other otherRequest
      refine Or.inl ?_
      by_cases same : worker = other
      · subst same
        rw [rendering] at hand
        obtain rfl := Option.some.inj hand
        simp [desk, setWorker, Worker.request?]
      · exact unmoved same
  | crashes rendering =>
      rename_i other otherRequest
      by_cases same : worker = other
      · subst same
        rw [rendering] at hand
        obtain rfl := Option.some.inj hand
        refine Or.inr ?_
        have dropped : (setWorker (updateCall (pool.finishRender worker otherRequest .panicked)
            otherRequest.responseTx fun call => { call with response := .dropped }) worker
              (.ended .panicked)).calls otherRequest.responseTx =
            some { call with response := .dropped } := by
          simp [setWorker, updateCall, finishRender, show pool.calls _ = _ from present]
        obtain ⟨after, released, goesOn⟩ := goesOn_releaseReceiver _ dropped
        exact ⟨after, released, goesOn.answered (by simp)⟩
      · refine Or.inl ?_
        change ((endWorker _ _ _).workers worker).request? = _
        rw [endWorker, releaseReceiver_workers]
        exact unmoved same
  | replies replying =>
      rename_i other otherRequest result
      by_cases same : worker = other
      · subst same
        rw [replying] at hand
        obtain rfl := Option.some.inj hand
        exact Or.inr ⟨{ call with response := .sent result }, by
          simp [setWorker, updateCall, show pool.calls _ = _ from present], by simp⟩
      · exact Or.inl (unmoved same)
  | ends workerCount nextCore before =>
      refine Or.inl ?_
      change ((endWorker _ _ _).workers worker).request? = _
      rw [endWorker, releaseReceiver_workers]
      refine unmoved (different ?_)
      rcases before with leaving | ⟨spawned | pinned, _⟩
      · rw [leaving]; rfl
      · rw [spawned]; rfl
      · rw [pinned]; rfl
  | _ => exact Or.inl hand

end Pool

end RustySsr.V8Pool
