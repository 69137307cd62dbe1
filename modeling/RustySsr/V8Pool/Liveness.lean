import RustySsr.V8Pool.Progress
import RustySsr.V8Pool.Refusals
import RustySsr.V8Pool.WorkerCount

/-!
Owns what must happen in a pool whose threads are scheduled fairly: a worker
that can always make its next step makes it, so renders come to an end. An
accepted request is then answered as long as a worker lives to take it, a dropped
pool loses all its workers, and with a timeout every call comes to an end. The
measure is the position of a request in the queue together with the steps that
the workers have left.
-/

namespace RustySsr.V8Pool.Pool

open RustySsr.Foundation

variable {config : V8PoolConfig} {coreIds : Option (List Nat)}

/-- An endless run of a new pool that keeps no worker thread from its next step.
The start of a runtime and a render are such steps: none of them runs forever. -/
structure FairRun (config : V8PoolConfig) (coreIds : Option (List Nat))
    extends Execution.Behaviour (step (n := config.numThreads) config) where
  start : state 0 = new config coreIds
  fair : ∀ worker, toBehaviour.WeaklyFair Event.worker? worker

/-- As long as requests are queued, some worker has not ended. -/
def FairRun.Staffed (run : FairRun config coreIds) : Prop :=
  ∀ time, (run.state time).queue ≠ [] → ¬ (run.state time).NoWorkerLeft

/-- The call whose result the event collects. -/
def Event.collector? {n : Nat} : Event n → Option CallId
  | .receiveResponse id => some id
  | _ => none

/-- The callers are scheduled as well: who tries to send tries again at later
and later times, and who can collect a result collects it. -/
structure FairRun.FairCallers (run : FairRun config coreIds) : Prop where
  polled : ∀ id time bound, (∀ later, time ≤ later → ∃ call request deadline,
      (run.state later).calls id = some call ∧ call.phase = .sending request deadline) →
    ∃ later, time ≤ later ∧ ∃ now, bound ≤ now ∧ run.event later = some (.trySend id now)
  collected : ∀ id, run.toBehaviour.WeaklyFair Event.collector? id

namespace FairRun

variable (run : FairRun config coreIds)

theorem exec_eventsBefore (time : Nat) :
    Execution.exec (step config) (new config coreIds) (run.toBehaviour.eventsBefore time) =
      some (run.state time) := by
  rw [← run.start]
  exact run.toBehaviour.exec_eventsBefore time

theorem sound (time : Nat) : Sound config (run.state time) :=
  sound_of_exec (run.exec_eventsBefore time)

theorem advance {time : Nat} {event : Event config.numThreads}
    (happens : run.event time = some event) :
    Advance (run.state time) (run.state (time + 1)) event :=
  step_advance (run.sound time) (run.toBehaviour.step_of_some happens)

theorem transition {time : Nat} {event : Event config.numThreads}
    (happens : run.event time = some event) :
    Transition config (run.state time) (run.state (time + 1)) :=
  step_transition (run.toBehaviour.step_of_some happens)

/-! ### A queued request is taken -/

/-- The steps before the request is taken, if no worker dawdles. -/
def distance (id : CallId) (pool : Pool config.numThreads) : Nat :=
  4 * pool.desk.queueIds.idxOf id + pool.workersRank

variable {run}

/-- Every worker that can move is helpful to a queued request. -/
theorem queued_helped (staffed : run.Staffed) (id : CallId) (time : Nat) :
    Execution.Behaviour.Helped (distance id) (fun pool worker => pool.Ready worker) run.toBehaviour
      Event.worker? (fun pool => id ∉ pool.desk.queueIds) time where
  helped := by
    intro later _ queued
    have some : (run.state later).queue ≠ [] := by
      intro empty
      simp [Desk.queueIds, desk, empty] at queued
    exact (run.sound later).exists_ready (staffed later some) (Or.inl some)
  able := fun later worker _ _ ready => enabled_of_ready config ready
  moves := by
    intro later event _ happens queued stillQueued
    simp only [not_not] at queued stillQueued
    have notEmptied : (run.state (later + 1)).queue ≠ [] := by
      intro empty
      simp [Desk.queueIds, desk, empty] at stillQueued
    cases run.advance happens with
    | waits caller workers lock queue closed started finished =>
        obtain ⟨joined, grown⟩ := queue.resolve_right fun released => notEmptied released.2
        refine Or.inr ⟨?_, fun worker ready => ⟨by simp [caller], ready_of_waits workers lock
          (Or.inl ⟨joined, grown⟩) (fun dropped => (closed dropped).1) ready⟩⟩
        have sameIndex : (run.state (later + 1)).desk.queueIds.idxOf id =
            (run.state later).desk.queueIds.idxOf id := by
          have queueIds : (run.state (later + 1)).desk.queueIds =
              (run.state later).desk.queueIds ++ joined.map RenderRequest.responseTx := by
            simp [Desk.queueIds, desk, ← grown]
          rw [queueIds, List.idxOf_append_of_mem queued]
        rw [distance, distance, sameIndex, workersRank, workers]
        exact Nat.le_refl _
    | hands caller receiving isOpen workers queue started finished =>
        simp [Desk.queueIds, desk, queue] at queued
    | takes own receiving workers queue started finished =>
        rename_i worker request
        refine Or.inl ?_
        have queueIds : (run.state later).desk.queueIds =
            request.responseTx :: (run.state (later + 1)).desk.queueIds := by
          simp [Desk.queueIds, desk, queue]
        have once : request.responseTx ≠ id := by
          obtain ⟨ledger, tracks⟩ := (run.sound later).ledger
          have nodup := tracks.queueOnce
          rw [queueIds] at nodup
          rintro rfl
          exact (List.nodup_cons.mp nodup).1 stillQueued
        have rank := workersRank_update workers
        simp only [receiving, Worker.rank] at rank
        rw [distance, distance, queueIds, List.idxOf_cons_ne _ once]
        omega
    | moves own lower workers queue started finished =>
        refine Or.inl ?_
        have sameQueue := queue.resolve_right fun released => notEmptied released.2
        have rank := workersRank_update workers
        have queueIds : (run.state (later + 1)).desk.queueIds =
            (run.state later).desk.queueIds := by simp [Desk.queueIds, desk, sameQueue]
        rw [distance, distance, queueIds]
        omega

/-! ### A request in a worker's hands is answered -/

/-- The worker holds the request of the call. -/
def Holds (worker : Fin config.numThreads) (id : CallId) (pool : Pool config.numThreads) : Prop :=
  ∃ request, pool.desk.hands worker = some request ∧ request.responseTx = id

/-- Only the worker that holds a request is helpful to it. -/
theorem held_helped (run : FairRun config coreIds) (holder : Fin config.numThreads) (id : CallId)
    (time : Nat) :
    Execution.Behaviour.Helped (fun pool => (pool.workers holder).rank)
      (fun _ worker => worker = holder) run.toBehaviour Event.worker?
      (fun pool => ¬ Holds holder id pool) time where
  helped := fun _ _ _ => ⟨holder, rfl⟩
  able := by
    intro later worker _ held same
    subst same
    obtain ⟨request, hand, _⟩ := not_not.mp held
    exact enabled_of_ready config (ready_of_hand hand)
  moves := by
    intro later event _ happens held _
    obtain ⟨request, hand, _⟩ := not_not.mp held
    have busy : (run.state later).workers holder ≠ .receiving := by
      intro receiving
      simp [desk, receiving, Worker.request?] at hand
    cases run.advance happens with
    | waits caller workers lock queue closed started finished =>
        exact Or.inr ⟨by rw [workers], fun worker same => ⟨by simp [caller], same⟩⟩
    | hands caller receiving isOpen workers queue started finished =>
        rename_i worker handed
        have different : holder ≠ worker := by
          rintro rfl
          exact busy receiving
        exact Or.inr ⟨by rw [workers, Function.update_of_ne different],
          fun worker same => ⟨by simp [caller], same⟩⟩
    | takes own receiving workers queue started finished =>
        rename_i worker taken
        have different : holder ≠ worker := by
          rintro rfl
          exact busy receiving
        refine Or.inr ⟨by rw [workers, Function.update_of_ne different],
          fun other same => ⟨?_, same⟩⟩
        rw [own, same]
        exact fun equal => different (Option.some.inj equal).symm
    | moves own lower workers queue started finished =>
        rename_i worker after
        by_cases same : holder = worker
        · subst same
          exact Or.inl (by rw [workers, Function.update_self]; exact lower)
        · refine Or.inr ⟨by rw [workers, Function.update_of_ne same],
            fun other equal => ⟨?_, equal⟩⟩
          rw [own, equal]
          exact fun own => same (Option.some.inj own).symm

/-- A request that a worker holds is answered in the end. -/
theorem eventually_answered_of_held (run : FairRun config coreIds)
    {holder : Fin config.numThreads} {id : CallId} {time : Nat}
    (held : Holds holder id (run.state time)) :
    ∃ later, time ≤ later ∧ (run.state later).HasAnswer id := by
  obtain ⟨later, ordered, released⟩ := (held_helped run holder id time).eventually run.fair
  refine ⟨later, ordered, ?_⟩
  have kept : Holds holder id (run.state later) ∨ (run.state later).HasAnswer id := by
    refine run.toBehaviour.lasts (fun pool => Holds holder id pool ∨ pool.HasAnswer id)
      ordered (Or.inl held) fun current event _ happens before => ?_
    rcases before with ⟨request, hand, rfl⟩ | answered
    · rcases (run.sound current).kept_or_answered (run.transition happens) hand with
        still | answered
      · exact Or.inl ⟨request, still, rfl⟩
      · exact Or.inr answered
    · exact Or.inr ((run.sound current).hasAnswer_of_transition (run.transition happens) answered)
  exact kept.resolve_left released

/-- What is accepted stays accepted. -/
theorem hasAccepted_later (run : FairRun config coreIds) {id : CallId} {time later : Nat}
    (ordered : time ≤ later) (accepted : (run.state time).HasAccepted id) :
    (run.state later).HasAccepted id :=
  run.toBehaviour.lasts (fun pool => pool.HasAccepted id) ordered accepted
    fun current _ _ happens before =>
      (run.sound current).hasAccepted_of_transition (run.transition happens) before

/-- An accepted request is answered, or queued, or held. -/
theorem answered_or_place (run : FairRun config coreIds) {id : CallId} {time : Nat}
    (accepted : (run.state time).HasAccepted id) :
    (run.state time).HasAnswer id ∨ id ∈ (run.state time).desk.queueIds ∨
      ∃ worker, Holds worker id (run.state time) := by
  obtain ⟨call, present, wasAccepted⟩ := accepted
  obtain ⟨ledger, tracks⟩ := (run.sound time).ledger
  by_cases pending : call.response = .pending
  · rcases place_of_unanswered tracks present wasAccepted pending with queued | inHands
    · exact Or.inr (Or.inl queued)
    · exact Or.inr (Or.inr inHands)
  · exact Or.inl ⟨call, present, pending⟩

/-- An accepted request is answered in the end. -/
theorem hasAnswer_of_hasAccepted (run : FairRun config coreIds) (staffed : run.Staffed)
    {id : CallId} {time : Nat} (accepted : (run.state time).HasAccepted id) :
    ∃ later, time ≤ later ∧ (run.state later).HasAnswer id := by
  obtain ⟨taken, ordered, notQueued⟩ := (queued_helped staffed id time).eventually run.fair
  rcases answered_or_place run (hasAccepted_later run ordered accepted) with
    answered | queued | ⟨worker, held⟩
  · exact ⟨taken, ordered, answered⟩
  · exact absurd queued notQueued
  · obtain ⟨later, after, answered⟩ := eventually_answered_of_held run held
    exact ⟨later, ordered.trans after, answered⟩

/-- **Every accepted request is answered.** In a fair run in which a worker is
left whenever requests are queued, each request that the channel accepts is
rendered by a worker, and its caller gets the result of that render, or the news
that the worker crashed. A request whose call was cancelled may go with the pool. -/
theorem eventually_answered (run : FairRun config coreIds) (staffed : run.Staffed) {id : CallId}
    {time : Nat} (accepted : (run.state time).HasAccepted id) :
    ∃ later, time ≤ later ∧ (run.state later).ShowsRender config id := by
  obtain ⟨later, ordered, answered⟩ := run.hasAnswer_of_hasAccepted staffed accepted
  exact ⟨later, ordered,
    (run.sound later).showsRender (hasAccepted_later run ordered accepted) answered⟩

/-! ### A dropped pool ends its workers -/

theorem dropped_later (run : FairRun config coreIds) {time later : Nat} (ordered : time ≤ later)
    (dropped : (run.state time).alive = false) : (run.state later).alive = false :=
  run.toBehaviour.lasts (fun pool => pool.alive = false) ordered dropped
    fun _ _ _ happens before => by
      by_contra alive
      rw [(run.transition happens).alive (by simpa using alive)] at before
      contradiction

theorem dropped_helped (run : FairRun config coreIds) {time : Nat}
    (dropped : (run.state time).alive = false) :
    Execution.Behaviour.Helped potential (fun pool worker => pool.Ready worker) run.toBehaviour
      Event.worker? (fun pool => pool.NoWorkerLeft) time where
  helped := fun later ordered living =>
    (run.sound later).exists_ready living (Or.inr (dropped_later run ordered dropped))
  able := fun later worker _ _ ready => enabled_of_ready config ready
  moves := by
    intro later event ordered happens _ stillLiving
    have closedNow := dropped_later run ordered dropped
    cases run.advance happens with
    | waits caller workers lock queue closed started finished =>
        refine Or.inr ⟨?_, fun worker ready => ⟨by simp [caller],
          ready_of_waits workers lock queue (fun dropped => (closed dropped).1) ready⟩⟩
        have shorter := (closed closedNow).2
        rw [potential, potential, workersRank, workersRank, workers]
        omega
    | hands caller receiving isOpen workers queue started finished =>
        rw [isOpen] at closedNow
        contradiction
    | takes own receiving workers queue started finished =>
        have rank := workersRank_update workers
        simp only [receiving, Worker.rank] at rank
        rw [potential, potential, queue, List.length_cons]
        omega
    | moves own lower workers queue started finished =>
        have sameQueue := queue.resolve_right fun released => stillLiving released.1
        have rank := workersRank_update workers
        rw [potential, potential, sameQueue]
        omega

/-- No living worker is counted once all have ended. -/
theorem living_eq_zero {pool : Pool config.numThreads} (none : pool.NoWorkerLeft) :
    pool.living = 0 := by
  unfold living census
  exact Finset.sum_eq_zero fun worker _ => by simp [livingWorker, none worker]

/-- **A dropped pool shuts down.** In a fair run all worker threads end after the
drop of the pool, and the worker count is left at the number of panics. -/
theorem eventually_shut_down (run : FairRun config coreIds) {time : Nat}
    (dropped : (run.state time).alive = false) :
    ∃ later, time ≤ later ∧ (run.state later).NoWorkerLeft ∧
      (run.state later).workerCount = (run.state later).crashed := by
  obtain ⟨later, ordered, none⟩ := (dropped_helped run dropped).eventually run.fair
  obtain ⟨_, _, counted⟩ := counted_of_exec (run.exec_eventsBefore later)
  refine ⟨later, ordered, none, ?_⟩
  unfold Counted at counted
  rw [counted, living_eq_zero none, Nat.zero_add]

/-! ### Every call comes to an end -/

/-- Whatever a call has become, it has gone on to it. -/
theorem goesOn_later (run : FairRun config coreIds) {id : CallId} {time later : Nat} {call : Call}
    (present : (run.state time).calls id = some call) (ordered : time ≤ later) :
    ∃ after, (run.state later).calls id = some after ∧ call.GoesOn after := by
  refine run.toBehaviour.lasts
    (fun pool => ∃ after, pool.calls id = some after ∧ call.GoesOn after) ordered
    ⟨call, present, .refl call⟩ fun current event _ happens before => ?_
  obtain ⟨middle, middlePresent, first⟩ := before
  obtain ⟨after, afterPresent, second⟩ :=
    (run.sound current).goesOn (run.transition happens) middlePresent
  exact ⟨after, afterPresent, first.trans second⟩

/-- A caller with a deadline stops trying. -/
theorem eventually_sent (run : FairRun config coreIds) (callers : run.FairCallers) {timeout : Nat}
    (limited : config.requestTimeout = some timeout) {id : CallId} {time : Nat} {call : Call}
    {request : RenderRequest} {deadline : Option Nat}
    (present : (run.state time).calls id = some call)
    (sending : call.phase = .sending request deadline) :
    ∃ later, time ≤ later ∧ ∃ after, (run.state later).calls id = some after ∧
      (after.phase = .waiting ∨ after.inFlight = false) := by
  by_contra never
  have stillSending : ∀ later, time ≤ later → ∃ after,
      (run.state later).calls id = some after ∧ after.phase = .sending request deadline := by
    intro later ordered
    obtain ⟨after, afterPresent, goesOn⟩ := run.goesOn_later present ordered
    refine ⟨after, afterPresent, (goesOn.sending request deadline sending).resolve_right ?_⟩
    exact fun sent => never ⟨later, ordered, after, afterPresent, sent⟩
  have honest := honest_of_exec (run.exec_eventsBefore time)
  obtain ⟨began, rfl, _⟩ := honest.sending id call request deadline present sending
  obtain ⟨later, ordered, now, late, happens⟩ := callers.polled id time (began + timeout)
    fun later ordered =>
      have ⟨after, afterPresent, still⟩ := stillSending later ordered
      ⟨after, request, _, afterPresent, still⟩
  obtain ⟨before, beforePresent, beforeSending⟩ := stillSending later ordered
  obtain ⟨after, afterPresent, afterSending⟩ := stillSending (later + 1) ordered.step
  obtain ⟨url, data, tried, limit, response, accepted, triedPresent, attempt⟩ :=
    trySend_attempt (run.toBehaviour.step_of_some happens) afterPresent
  rw [beforePresent, Option.some.injEq] at triedPresent
  subst triedPresent
  rw [afterSending] at attempt
  cases attempt with
  | retries full early =>
      have tooEarly := early (began + timeout) (by rw [limited]; rfl)
      omega

/-- A result that is there is collected. -/
theorem eventually_collected (run : FairRun config coreIds) (callers : run.FairCallers)
    {id : CallId} {time : Nat} {call : Call} (present : (run.state time).calls id = some call)
    (waiting : call.phase = .waiting) (answered : call.response ≠ .pending) :
    ∃ later, time ≤ later ∧ ∃ after, (run.state later).calls id = some after ∧
      after.inFlight = false := by
  by_contra never
  have stillWaiting : ∀ later, time ≤ later → ∃ after, (run.state later).calls id = some after ∧
      after.phase = .waiting ∧ after.response ≠ .pending := by
    intro later ordered
    obtain ⟨after, afterPresent, goesOn⟩ := run.goesOn_later present ordered
    refine ⟨after, afterPresent, (goesOn.waiting waiting).resolve_right fun ended => ?_,
      goesOn.answered answered⟩
    exact never ⟨later, ordered, after, afterPresent, ended⟩
  obtain ⟨later, ordered, event, happens, own⟩ := callers.collected id time fun later ordered => by
    obtain ⟨⟨url, data, phase, response, accepted⟩, afterPresent, still, shown⟩ :=
      stillWaiting later ordered
    obtain rfl : phase = .waiting := still
    refine Execution.enabled_of_isSome (.receiveResponse id) rfl ?_
    simp only [step, receiveResponse, afterPresent]
    cases response with
    | pending => exact absurd rfl shown
    | sent result => cases result <;> rfl
    | dropped => rfl
  cases event with
  | receiveResponse collected =>
      obtain rfl := Option.some.inj own
      obtain ⟨after, afterPresent, still, _⟩ := stillWaiting (later + 1) ordered.step
      obtain ⟨_, result, _, returned⟩ :=
        receiveResponse_phase (run.toBehaviour.step_of_some happens) afterPresent
      rw [still] at returned
      contradiction
  | _ => contradiction

/-- With a timeout every call comes to an end. In a fair run in which a worker
is left whenever requests are queued, and whose callers are scheduled too, each
call that begins returns or is cancelled. -/
theorem eventually_ended (run : FairRun config coreIds) (staffed : run.Staffed)
    (callers : run.FairCallers) {timeout : Nat} (limited : config.requestTimeout = some timeout)
    {id : CallId} {time : Nat} {call : Call} (present : (run.state time).calls id = some call) :
    ∃ later, time ≤ later ∧ ∃ after, (run.state later).calls id = some after ∧
      after.inFlight = false := by
  have ofWaiting : ∀ {sent : Nat} {waiter : Call}, (run.state sent).calls id = some waiter →
      waiter.phase = .waiting → ∃ later, sent ≤ later ∧ ∃ after,
        (run.state later).calls id = some after ∧ after.inFlight = false := by
    intro sent waiter waiterPresent waiting
    obtain ⟨ledger, tracks⟩ := (run.sound sent).ledger
    obtain ⟨_, _, _, _, accepted⟩ := tracks.of_waiting waiterPresent waiting
    obtain ⟨shown, ordered, answer, answerPresent, answered⟩ :=
      run.hasAnswer_of_hasAccepted staffed ⟨waiter, waiterPresent, accepted.wasAccepted⟩
    obtain ⟨after, afterPresent, goesOn⟩ := run.goesOn_later waiterPresent ordered
    obtain rfl := Option.some.inj (answerPresent.symm.trans afterPresent)
    rcases goesOn.waiting waiting with still | ended
    · obtain ⟨later, after, ended⟩ :=
        run.eventually_collected callers answerPresent still answered
      exact ⟨later, ordered.trans after, ended⟩
    · exact ⟨shown, ordered, answer, answerPresent, ended⟩
  cases phase : call.phase with
  | sending request deadline =>
      obtain ⟨sent, ordered, after, afterPresent, waiting | ended⟩ :=
        run.eventually_sent callers limited present phase
      · obtain ⟨later, beyond, final⟩ := ofWaiting afterPresent waiting
        exact ⟨later, ordered.trans beyond, final⟩
      · exact ⟨sent, ordered, after, afterPresent, ended⟩
  | waiting => exact ofWaiting present phase
  | returned result => exact ⟨time, Nat.le_refl _, call, present, by simp [Call.inFlight, phase]⟩
  | cancelled => exact ⟨time, Nat.le_refl _, call, present, by simp [Call.inFlight, phase]⟩

/-! ### A run that ends -/

/-- No worker is left, and no call is under way. -/
structure AtRest {n : Nat} (pool : Pool n) : Prop where
  ended : pool.NoWorkerLeft
  unborrowed : ∀ id < pool.nextCall, ((pool.calls id).all fun call => !call.inFlight) = true

section AtRest

variable {n : Nat} {poolConfig : V8PoolConfig} {pool : Pool n}

theorem AtRest.settled (rest : AtRest pool) (sound : Sound poolConfig pool) {id : CallId}
    {call : Call} (present : pool.calls id = some call) : call.inFlight = false := by
  have below : id < pool.nextCall := by
    by_contra beyond
    rw [sound.fresh id (Nat.le_of_not_lt beyond)] at present
    contradiction
  have idle := rest.unborrowed id below
  rw [present, Option.all_some] at idle
  simpa using idle

theorem AtRest.not_enabled_worker (rest : AtRest pool) (sound : Sound poolConfig pool)
    (worker : Fin n) : ¬ Execution.Enabled (step poolConfig) Event.worker? pool worker := by
  rintro ⟨event, next, own, stepped⟩
  have living := (step_advance sound stepped).living own
  rw [rest.ended worker] at living
  contradiction

theorem AtRest.not_enabled_collector (rest : AtRest pool) (sound : Sound poolConfig pool)
    (id : CallId) : ¬ Execution.Enabled (step poolConfig) Event.collector? pool id := by
  rintro ⟨event, next, own, stepped⟩
  cases event with
  | receiveResponse collected =>
      change pool.receiveResponse collected = some next at stepped
      unfold receiveResponse at stepped
      split at stepped
      · rename_i waiting
        have ended := rest.settled sound waiting
        contradiction
      · contradiction
  | _ => contradiction

end AtRest

/-- One worker serves one call with a timeout, and the pool is dropped. -/
def servedEvents {n : Nat} (worker : Fin n) : List (Event n) :=
  [.call "/a" "{}" 0, .trySend 0 0, .pin worker, .initRuntime worker .ok, .lock worker,
    .recv worker, .render worker (.completed (.ok "page")), .reply worker, .receiveResponse 0,
    .drop, .lock worker, .recv worker, .leave worker]

theorem exists_served_run :
    ∃ run : FairRun ⟨1, 4, false, some 10, "renderPage"⟩ none,
      run.Staffed ∧ (run.state 2).HasAccepted 0 ∧ (run.state 10).alive = false := by
  obtain ⟨final, executed, rest, empty⟩ :
      ∃ final : Pool 1, Execution.exec (step ⟨1, 4, false, some 10, "renderPage"⟩)
        (new ⟨1, 4, false, some 10, "renderPage"⟩ none) (servedEvents 0) = some final ∧
      AtRest final ∧ final.queue = [] :=
    ⟨_, rfl, ⟨Fin.forall_fin_one.mpr rfl, by decide⟩, rfl⟩
  refine ⟨{ toBehaviour := Execution.Behaviour.ofEvents executed, start := rfl, fair := ?_ },
    ?_, ?_, ?_⟩
  · exact fun worker => Execution.Behaviour.weaklyFair_ofEvents executed
      (rest.not_enabled_worker (sound_of_exec executed) worker)
  · intro time queued none
    by_cases past : 13 ≤ time
    · exact queued ((congrArg Pool.queue
        (Execution.Behaviour.ofEvents_state executed past)).trans empty)
    · have during : ∀ time < 13, (Execution.exec (step ⟨1, 4, false, some 10, "renderPage"⟩)
          (new ⟨1, 4, false, some 10, "renderPage"⟩ Option.none) ((servedEvents 0).take time)).all
          (fun pool => pool.queue.isEmpty || !(pool.workers 0).hasEnded) = true := by decide
      have here := during time (Nat.lt_of_not_le past)
      rw [Execution.Behaviour.exec_take_ofEvents executed time, Option.all_some] at here
      have noneLeft := none 0
      simp_all
  · obtain ⟨middle, reached, accepted⟩ : ∃ middle : Pool 1,
        Execution.exec (step ⟨1, 4, false, some 10, "renderPage"⟩)
          (new ⟨1, 4, false, some 10, "renderPage"⟩ none) ((servedEvents 0).take 2) = some middle ∧
        middle.HasAccepted 0 := ⟨_, rfl, _, rfl, rfl⟩
    rw [Execution.Behaviour.exec_take_ofEvents executed 2] at reached
    exact Option.some.inj reached ▸ accepted
  · obtain ⟨middle, reached, dropped⟩ : ∃ middle : Pool 1,
        Execution.exec (step ⟨1, 4, false, some 10, "renderPage"⟩)
          (new ⟨1, 4, false, some 10, "renderPage"⟩ none) ((servedEvents 0).take 10) = some middle ∧
        middle.alive = false := ⟨_, rfl, rfl⟩
    rw [Execution.Behaviour.exec_take_ofEvents executed 10] at reached
    exact Option.some.inj reached ▸ dropped

theorem eventually_answered_of_served_run :
    ∃ run : FairRun ⟨1, 4, false, some 10, "renderPage"⟩ none, ∃ later,
      (run.state later).ShowsRender ⟨1, 4, false, some 10, "renderPage"⟩ 0 := by
  obtain ⟨run, staffed, accepted, _⟩ := exists_served_run
  obtain ⟨later, _, answered⟩ := run.eventually_answered staffed accepted
  exact ⟨run, later, answered⟩

theorem eventually_shut_down_of_served_run :
    ∃ run : FairRun ⟨1, 4, false, some 10, "renderPage"⟩ none, ∃ later,
      (run.state later).NoWorkerLeft := by
  obtain ⟨run, _, _, dropped⟩ := exists_served_run
  obtain ⟨later, _, none, _⟩ := run.eventually_shut_down dropped
  exact ⟨run, later, none⟩

end FairRun

end RustySsr.V8Pool.Pool
