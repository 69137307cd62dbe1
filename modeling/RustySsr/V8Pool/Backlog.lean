import Mathlib.Algebra.Order.BigOperators.Group.Finset
import RustySsr.V8Pool.Accounting

/-!
Owns the backlog of the pool: the accepted requests in the order in which they
were accepted. The line is what the workers have started, followed by the queue.
It grows only at its end while the receiver has an owner, so requests start in
the order of their acceptance, and a request that is accepted and not answered
is in the queue or in a worker's hands, which bounds their number.
-/

namespace RustySsr.V8Pool

open RustySsr.Foundation

variable {n : Nat}

/-- The call was accepted, and its reply channel shows nothing yet. -/
def Call.unanswered (call : Call) : Bool :=
  call.accepted && match call.response with
    | .pending => true
    | _ => false

theorem Call.unanswered_iff (call : Call) :
    call.unanswered = true ↔ call.accepted = true ∧ call.response = .pending := by
  unfold Call.unanswered
  cases call.response <;> simp

namespace Pool

/-- The channel has accepted the request of the call. -/
def HasAccepted (pool : Pool n) (id : CallId) : Prop :=
  ∃ call, pool.calls id = some call ∧ call.accepted = true

/-- The accepted requests in order, while the receiver has an owner. -/
def line (pool : Pool n) : List CallId := pool.desk.startedIds ++ pool.desk.queueIds

/-- The calls that were accepted and have no answer. -/
def unanswered (pool : Pool n) : Finset CallId :=
  (Finset.range pool.nextCall).filter fun id => (pool.calls id).any Call.unanswered

section Ledger

variable {config : V8PoolConfig} {pool : Pool n} {ledger : Ledger n} {id : CallId}

/-- Whatever stands in the line has been accepted. -/
theorem hasAccepted_of_mem_line (tracks : Tracks config pool.desk ledger)
    (member : id ∈ pool.line) : pool.HasAccepted id := by
  obtain ⟨place, ledgerEq, sent⟩ : ∃ place, ledger id = some place ∧ place ≠ .unsent := by
    rcases List.mem_append.mp member with started | queued
    · obtain ⟨place, ledgerEq, begun⟩ := (tracks.started id).mp started
      exact ⟨place, ledgerEq, by rintro rfl; exact begun⟩
    · exact ⟨.queued, (tracks.queued id).mpr queued, by simp⟩
  obtain ⟨call, present⟩ : ∃ call, pool.calls id = some call := by
    refine Option.ne_none_iff_exists'.mp fun absent => ?_
    rw [tracks.absent id absent] at ledgerEq
    contradiction
  obtain ⟨found, foundEq, located⟩ := tracks.call id call present
  obtain rfl : place = found := Option.some.inj (ledgerEq.symm.trans foundEq)
  exact ⟨call, present, (located.accepted sent).wasAccepted⟩

/-- An accepted request without an answer is queued or in a worker's hands. -/
theorem place_of_unanswered (tracks : Tracks config pool.desk ledger) {call : Call}
    (present : pool.calls id = some call) (accepted : call.accepted = true)
    (pending : call.response = .pending) :
    id ∈ pool.desk.queueIds ∨
      ∃ worker request, pool.desk.hands worker = some request ∧ request.responseTx = id := by
  obtain ⟨place, ledgerEq, located⟩ := tracks.call id call present
  have sent : place ≠ .unsent := by
    rintro rfl
    have notAccepted := located.notAccepted
    rw [accepted] at notAccepted
    contradiction
  have shows := (located.accepted sent).shows
  rw [pending] at shows
  cases place with
  | unsent => exact absurd rfl sent
  | queued => exact Or.inl ((tracks.queued id).mp ledgerEq)
  | held worker =>
      obtain ⟨request, hand, same⟩ := (tracks.held id worker).mp ledgerEq
      exact Or.inr ⟨worker, request, hand, same⟩
  | answered result => contradiction
  | lost => contradiction
  | discarded => contradiction

end Ledger

/-! ### The bound on the backlog -/

/-- At most the queue and one request for each worker are unanswered. -/
theorem Sound.card_unanswered_le {config : V8PoolConfig} {pool : Pool n}
    (sound : Sound config pool) : pool.unanswered.card ≤ config.queueCapacity + n := by
  obtain ⟨ledger, tracks⟩ := sound.ledger
  let held : Fin n → Finset CallId := fun worker =>
    ((pool.desk.hands worker).map RenderRequest.responseTx).toFinset
  have covered : pool.unanswered ⊆ pool.desk.queueIds.toFinset ∪ Finset.univ.biUnion held := by
    intro id member
    obtain ⟨call, present, open'⟩ := (Option.any_eq_true _ _).mp (Finset.mem_filter.mp member).2
    obtain ⟨accepted, pending⟩ := call.unanswered_iff.mp open'
    rcases place_of_unanswered tracks present accepted pending with queued | inHands
    · exact Finset.mem_union_left _ (List.mem_toFinset.mpr queued)
    · obtain ⟨worker, request, hand, rfl⟩ := inHands
      refine Finset.mem_union_right _ (Finset.mem_biUnion.mpr ⟨worker, Finset.mem_univ _, ?_⟩)
      simp [held, hand]
  have inQueue : pool.desk.queueIds.toFinset.card ≤ config.queueCapacity := by
    refine (List.toFinset_card_le _).trans ?_
    rw [Desk.queueIds, List.length_map]
    exact sound.bounded
  have inHands : (Finset.univ.biUnion held).card ≤ n := by
    have bound := Finset.card_biUnion_le_card_mul Finset.univ held 1 fun worker _ => by
      cases hand : pool.desk.hands worker <;> simp [held, hand]
    simpa using bound
  calc pool.unanswered.card
      ≤ (pool.desk.queueIds.toFinset ∪ Finset.univ.biUnion held).card := Finset.card_le_card covered
    _ ≤ pool.desk.queueIds.toFinset.card + (Finset.univ.biUnion held).card :=
        Finset.card_union_le _ _
    _ ≤ config.queueCapacity + n := Nat.add_le_add inQueue inHands

/-- **Back-pressure.** Whatever the callers do, a pool never owes more answers
than its queue holds requests and it has worker threads. -/
theorem unanswered_le_of_exec {config : V8PoolConfig} {coreIds : Option (List Nat)}
    {events : List (Event config.numThreads)} {pool : Pool config.numThreads}
    (executed : Execution.exec (step config) (new config coreIds) events = some pool) :
    pool.unanswered.card ≤ config.queueCapacity + config.numThreads :=
  (sound_of_exec executed).card_unanswered_le

/-- A pool of one worker with room for one request owes two answers. -/
theorem unanswered_le_two :
    ∃ pool : Pool 1,
      Execution.exec (step ⟨1, 1, false, none, "renderPage"⟩)
        (new ⟨1, 1, false, none, "renderPage"⟩ none)
        [.pin 0, .initRuntime 0 .ok, .call "/a" "{}" 0, .trySend 0 0, .lock 0, .recv 0,
          .call "/b" "{}" 1, .trySend 1 1, .call "/c" "{}" 2, .trySend 2 2] = some pool ∧
      pool.unanswered = {0, 1} ∧ pool.unanswered.card ≤ 1 + 1 := by
  obtain ⟨pool, executed, owed⟩ : ∃ pool : Pool 1,
      Execution.exec (step ⟨1, 1, false, none, "renderPage"⟩)
        (new ⟨1, 1, false, none, "renderPage"⟩ none)
        [.pin 0, .initRuntime 0 .ok, .call "/a" "{}" 0, .trySend 0 0, .lock 0, .recv 0,
          .call "/b" "{}" 1, .trySend 1 1, .call "/c" "{}" 2, .trySend 2 2] = some pool ∧
      pool.unanswered = {0, 1} := ⟨_, rfl, by decide⟩
  exact ⟨pool, executed, owed, unanswered_le_of_exec executed⟩

/-! ### The order of the line -/

section Steps

variable {config : V8PoolConfig} {pool next : Pool n}

@[simp] theorem releaseReceiver_started (pool : Pool n) :
    pool.releaseReceiver.started = pool.started := by
  unfold releaseReceiver
  split_ifs <;> rfl

theorem releaseReceiver_of_alive (owned : pool.releaseReceiver.receiverAlive = true) :
    pool.releaseReceiver = pool := by
  unfold releaseReceiver at owned ⊢
  split_ifs at owned ⊢ with kept
  · rfl
  · exact absurd owned kept

theorem receiverAlive_of_living (worker : Fin n)
    (living : (pool.workers worker).hasEnded = false) : pool.receiverAlive = true := by
  simp only [receiverAlive, Bool.or_eq_true, decide_eq_true_eq]
  exact Or.inr ⟨worker, living⟩

/-- A receiver without an owner never gets one again. -/
theorem Sound.receiverAlive_of_next (sound : Sound config pool)
    (step : Transition config pool next) (owned : next.receiverAlive = true) :
    pool.receiverAlive = true := by
  simp only [receiverAlive, Bool.or_eq_true, decide_eq_true_eq] at owned
  rcases owned with alive | ⟨worker, living⟩
  · simp [receiverAlive, step.alive alive]
  · refine receiverAlive_of_living worker ?_
    rcases step.moves worker with same | move
    · rwa [← same]
    · by_contra ended
      cases state : pool.workers worker with
      | ended exit => exact sound.living_of_moves move exit state
      | _ => simp [state, Worker.hasEnded] at ended

/-- While the receiver has an owner, the line only grows at its end. -/
theorem Sound.line_of_transition (sound : Sound config pool) (step : Transition config pool next)
    (owned : next.receiverAlive = true) : ∃ joined, next.line = pool.line ++ joined := by
  cases step with
  | enqueues present sending room =>
      rename_i id call request deadline
      exact ⟨[request.responseTx], by simp [line, desk, Desk.startedIds, Desk.queueIds, updateCall]⟩
  | hands present sending rendezvous blocked =>
      rename_i id call request deadline worker
      have empty : pool.queue = [] := by
        have bounded := sound.bounded
        rw [rendezvous] at bounded
        exact List.eq_nil_of_length_eq_zero (Nat.le_zero.mp bounded)
      exact ⟨[request.responseTx], by
        simp [line, desk, Desk.startedIds, Desk.queueIds, updateCall, startRender, setWorker,
          empty]⟩
  | takes receiving queued =>
      exact ⟨[], by
        simp [line, desk, Desk.startedIds, Desk.queueIds, startRender, setWorker, queued]⟩
  | drops unborrowed => exact ⟨[], by rw [releaseReceiver_of_alive owned, List.append_nil]; rfl⟩
  | crashes rendering =>
      rw [endWorker] at owned
      exact ⟨[], by rw [endWorker, releaseReceiver_of_alive owned, List.append_nil]; rfl⟩
  | ends workerCount nextCore before =>
      rw [endWorker] at owned
      exact ⟨[], by rw [endWorker, releaseReceiver_of_alive owned, List.append_nil]; rfl⟩
  | _ => exact ⟨[], (List.append_nil _).symm⟩

/-- Without an owner of the receiver, no request starts. -/
theorem Transition.startedIds_of_released (step : Transition config pool next)
    (released : next.receiverAlive = false) : next.desk.startedIds = pool.desk.startedIds := by
  have startsAlive : ∀ {changed : Pool n} {worker : Fin n} {request : RenderRequest},
      changed.workers worker = .rendering request → changed.receiverAlive = true :=
    fun rendering => receiverAlive_of_living _ (by rw [rendering]; rfl)
  cases step with
  | hands present sending rendezvous blocked =>
      rw [startsAlive (Function.update_self _ _ _)] at released
      contradiction
  | takes receiving queued =>
      rw [startsAlive (Function.update_self _ _ _)] at released
      contradiction
  | drops unborrowed => simp [desk, Desk.startedIds]
  | crashes rendering =>
      simp [desk, Desk.startedIds, endWorker, setWorker, updateCall, finishRender]
  | ends workerCount nextCore before => simp [desk, Desk.startedIds, endWorker, setWorker]
  | _ => rfl

/-- What a call keeps, it was before its change. -/
theorem HasAccepted.of_updateCall {id changed : CallId} {change : Call → Call}
    (accepted : (pool.updateCall changed change).HasAccepted id)
    (keeps : ∀ call, (change call).accepted = call.accepted) : pool.HasAccepted id := by
  obtain ⟨call, present, wasAccepted⟩ := accepted
  by_cases same : id = changed
  · subst same
    simp only [updateCall, Function.update_self, Option.map_eq_some_iff] at present
    obtain ⟨old, oldPresent, rfl⟩ := present
    exact ⟨old, oldPresent, (keeps old).symm.trans wasAccepted⟩
  · simp only [updateCall, Function.update_of_ne same] at present
    exact ⟨call, present, wasAccepted⟩

/-- Only the call that is changed can be new among the accepted ones. -/
theorem HasAccepted.of_updateCall_ne {id changed : CallId} {change : Call → Call}
    (accepted : (pool.updateCall changed change).HasAccepted id) (different : id ≠ changed) :
    pool.HasAccepted id := by
  obtain ⟨call, present, wasAccepted⟩ := accepted
  simp only [updateCall, Function.update_of_ne different] at present
  exact ⟨call, present, wasAccepted⟩

theorem HasAccepted.of_releaseReceiver {id : CallId}
    (accepted : pool.releaseReceiver.HasAccepted id) : pool.HasAccepted id := by
  obtain ⟨call, present, wasAccepted⟩ := accepted
  unfold releaseReceiver at present
  split_ifs at present
  · exact ⟨call, present, wasAccepted⟩
  · dsimp only at present
    split_ifs at present
    · obtain ⟨old, oldPresent, rfl⟩ := Option.map_eq_some_iff.mp present
      exact ⟨old, oldPresent, wasAccepted⟩
    · exact ⟨call, present, wasAccepted⟩

/-- A step accepts a request by putting it into the line. -/
theorem Sound.hasAccepted_of_next (sound : Sound config pool) (step : Transition config pool next)
    {id : CallId} (accepted : next.HasAccepted id) : pool.HasAccepted id ∨ id ∈ next.line := by
  obtain ⟨ledger, tracks⟩ := sound.ledger
  -- The call that enters the line is the one whose request it carries.
  have entered : ∀ {changed : CallId} {call : Call} {request : RenderRequest}
      {deadline : Option Nat}, pool.calls changed = some call →
      call.phase = .sending request deadline → request.responseTx = changed := by
    intro changed call request deadline present sending
    obtain ⟨_, _, _, rfl⟩ := tracks.of_sending present sending
    rfl
  cases step with
  | begins url data deadline alive =>
      obtain ⟨call, present, wasAccepted⟩ := accepted
      by_cases same : id = pool.nextCall
      · subst same
        simp only [Function.update_self, Option.some.injEq] at present
        subst present
        contradiction
      · simp only [Function.update_of_ne same] at present
        exact Or.inl ⟨call, present, wasAccepted⟩
  | givesUp present sending reason =>
      unfold giveUp at accepted
      exact Or.inl (accepted.of_updateCall fun _ => rfl)
  | enqueues present sending room =>
      rename_i changed call request deadline
      by_cases same : id = changed
      · have own := (entered present sending).trans same.symm
        simp [line, desk, Desk.queueIds, updateCall, own]
      · exact Or.inl (accepted.of_updateCall_ne same)
  | hands present sending rendezvous blocked =>
      rename_i changed call request deadline worker
      by_cases same : id = changed
      · have own := (entered present sending).trans same.symm
        simp [line, desk, Desk.startedIds, updateCall, startRender, own]
      · exact Or.inl (accepted.of_updateCall_ne same)
  | settles present waiting reason => exact Or.inl (accepted.of_updateCall fun _ => rfl)
  | drops unborrowed => exact Or.inl accepted.of_releaseReceiver
  | crashes rendering =>
      rename_i worker request
      have before : HasAccepted (pool.updateCall request.responseTx fun call =>
        { call with response := .dropped }) id := accepted.of_releaseReceiver
      exact Or.inl (before.of_updateCall fun _ => rfl)
  | replies replying =>
      rename_i worker request result
      have before : HasAccepted (pool.updateCall request.responseTx fun call =>
        { call with response := .sent result }) id := accepted
      exact Or.inl (before.of_updateCall fun _ => rfl)
  | ends workerCount nextCore before => exact Or.inl accepted.of_releaseReceiver
  | _ => exact Or.inl accepted

/-- While the receiver has an owner, every accepted request stands in the line. -/
def Lined (pool : Pool n) : Prop :=
  pool.receiverAlive = true → ∀ id, pool.HasAccepted id → id ∈ pool.line

theorem Sound.lined_of_transition (sound : Sound config pool) (lined : pool.Lined)
    (step : Transition config pool next) : next.Lined := by
  intro owned id accepted
  obtain ⟨joined, grown⟩ := sound.line_of_transition step owned
  rcases sound.hasAccepted_of_next step accepted with old | new
  · rw [grown]
    exact List.mem_append_left _ (lined (sound.receiverAlive_of_next step owned) id old)
  · exact new

/-- How the line stands to an earlier one: it goes on from it, and once the
receiver is gone nothing more starts. -/
structure GoesOn (before after : Pool n) : Prop where
  grown : ∃ joined, after.desk.startedIds <+: before.line ++ joined ∧
    (after.receiverAlive = true → after.line = before.line ++ joined)
  frozen : before.receiverAlive = false →
    after.receiverAlive = false ∧ after.desk.startedIds = before.desk.startedIds

theorem GoesOn.refl (pool : Pool n) : GoesOn pool pool where
  grown := ⟨[], by
    rw [List.append_nil]
    exact ⟨List.prefix_append _ _, fun _ => rfl⟩⟩
  frozen := fun released => ⟨released, rfl⟩

theorem GoesOn.transition {before : Pool n} (goesOn : GoesOn before pool)
    (sound : Sound config pool) (step : Transition config pool next) : GoesOn before next where
  grown := by
    obtain ⟨joined, started, whole⟩ := goesOn.grown
    cases owned : next.receiverAlive with
    | true =>
        obtain ⟨more, grown⟩ := sound.line_of_transition step owned
        have lineEq : next.line = before.line ++ (joined ++ more) := by
          rw [grown, whole (sound.receiverAlive_of_next step owned), List.append_assoc]
        exact ⟨joined ++ more, lineEq ▸ List.prefix_append _ _, fun _ => lineEq⟩
    | false =>
        exact ⟨joined, step.startedIds_of_released owned ▸ started, fun alive => by contradiction⟩
  frozen := by
    intro released
    obtain ⟨stillReleased, sameStarted⟩ := goesOn.frozen released
    have nextReleased : next.receiverAlive = false := by
      by_contra owned
      rw [sound.receiverAlive_of_next step (by simpa using owned)] at stillReleased
      contradiction
    exact ⟨nextReleased, (step.startedIds_of_released nextReleased).trans sameStarted⟩

end Steps

/-- **Requests start in the order in which they were accepted.** If one request
was accepted before another, and the later one has started, then the earlier one
has started before it. -/
theorem started_in_order {config : V8PoolConfig} {coreIds : Option (List Nat)}
    {earlier later : List (Event config.numThreads)} {before after : Pool config.numThreads}
    (reached : Execution.exec (step config) (new config coreIds) earlier = some before)
    (continued : Execution.exec (step config) before later = some after) {first second : CallId}
    (acceptedFirst : before.HasAccepted first) (notYet : ¬ before.HasAccepted second)
    (started : second ∈ after.desk.startedIds) :
    [first, second].Sublist after.desk.startedIds := by
  have soundBefore := sound_of_exec reached
  have goesOn : Sound config after ∧ GoesOn before after :=
    Execution.exec_invariant_always
      (fun _ current => Sound config current ∧ GoesOn before current)
      ⟨soundBefore, .refl before⟩
      (fun _ _ _ _ holds stepped => ⟨holds.1.transition (step_transition stepped),
        holds.2.transition holds.1 (step_transition stepped)⟩) continued
  have lined : before.Lined := by
    refine (Execution.exec_invariant_always
      (fun _ current => Sound config current ∧ current.Lined) ⟨sound_initial config _ _, ?_⟩
      (fun _ _ _ _ holds stepped => ⟨holds.1.transition (step_transition stepped),
        holds.1.lined_of_transition holds.2 (step_transition stepped)⟩) reached).2
    rintro _ id ⟨call, present, _⟩
    contradiction
  obtain ⟨ledger, tracks⟩ := soundBefore.ledger
  have secondNotIn : second ∉ before.line := fun member =>
    notYet (hasAccepted_of_mem_line tracks member)
  cases owned : before.receiverAlive with
  | false =>
      rw [(goesOn.2.frozen owned).2] at started
      exact absurd (List.mem_append_left _ started) secondNotIn
  | true =>
      have firstIn := lined owned first acceptedFirst
      obtain ⟨joined, ⟨rest, whole⟩, _⟩ := goesOn.2.grown
      -- What has started reaches beyond the earlier line, since the later request is not in it.
      rcases List.append_eq_append_iff.mp whole with ⟨middle, lineEq, _⟩ | ⟨middle, startedEq, _⟩
      · rw [lineEq] at secondNotIn
        exact absurd (List.mem_append_left _ started) secondNotIn
      · rw [startedEq] at started ⊢
        have secondIn := (List.mem_append.mp started).resolve_left secondNotIn
        exact (List.singleton_sublist.mpr firstIn).append (List.singleton_sublist.mpr secondIn)

/-- The second of two queued requests starts after the first. -/
theorem started_in_order_of_two :
    ∃ after : Pool 1,
      Execution.exec (step ⟨1, 4, false, none, "renderPage"⟩)
        (new ⟨1, 4, false, none, "renderPage"⟩ none)
        ([.call "/a" "{}" 0, .call "/b" "{}" 0, .trySend 1 0] ++
          [.trySend 0 1, .pin 0, .initRuntime 0 .ok, .lock 0, .recv 0,
            .render 0 (.completed (.ok "page")), .reply 0, .lock 0, .recv 0]) = some after ∧
      [1, 0].Sublist after.desk.startedIds := by
  obtain ⟨before, reached, after, continued, accepted, notYet, started⟩ :
      ∃ before : Pool 1,
        Execution.exec (step ⟨1, 4, false, none, "renderPage"⟩)
          (new ⟨1, 4, false, none, "renderPage"⟩ none)
          [.call "/a" "{}" 0, .call "/b" "{}" 0, .trySend 1 0] = some before ∧
      ∃ after : Pool 1,
        Execution.exec (step ⟨1, 4, false, none, "renderPage"⟩) before
          [.trySend 0 1, .pin 0, .initRuntime 0 .ok, .lock 0, .recv 0,
            .render 0 (.completed (.ok "page")), .reply 0, .lock 0, .recv 0] = some after ∧
      before.HasAccepted 1 ∧ ¬ before.HasAccepted 0 ∧ 0 ∈ after.desk.startedIds := by
    refine ⟨_, rfl, _, rfl, ⟨_, rfl, rfl⟩, ?_, by decide⟩
    rintro ⟨call, present, accepted⟩
    obtain rfl := Option.some.inj present
    contradiction
  exact ⟨after, (Execution.exec_append_some_iff _).mpr ⟨before, reached, continued⟩,
    started_in_order reached continued accepted notYet started⟩

end Pool

end RustySsr.V8Pool
