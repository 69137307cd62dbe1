import RustySsr.V8Pool.Ledger

/-!
Owns the invariants of the pool machine: its desk always agrees with some
ledger, running calls keep the pool alive, the lock matches the worker that
receives, a normal exit means a dropped pool with an empty queue, and the
history of finished renders matches the workers. Each is preserved by every
transition, and `sound_of_exec` collects them for every run.
-/

namespace RustySsr.V8Pool.Pool

open RustySsr.Foundation

variable {n : Nat}

/-- The part of the pool that the ledger is about. -/
def desk (pool : Pool n) : Desk n where
  calls := pool.calls
  queue := pool.queue
  hands := fun worker => (pool.workers worker).request?
  started := pool.started
  finished := pool.finished

/-- Calls get their numbers in order. -/
def Fresh (pool : Pool n) : Prop := ∀ id, pool.nextCall ≤ id → pool.calls id = none

/-- A running call borrows a pool that has not been dropped. -/
def Borrowed (pool : Pool n) : Prop :=
  ∀ id call, pool.calls id = some call → call.inFlight = true → pool.alive = true

structure Sound (config : V8PoolConfig) (pool : Pool n) : Prop where
  ledger : ∃ ledger, Tracks config pool.desk ledger
  fresh : pool.Fresh
  borrowed : pool.Borrowed
  bounded : pool.queue.length ≤ config.queueCapacity
  lock : ∀ worker, pool.lockHolder = some worker ↔ pool.workers worker = .receiving
  closed : ∀ worker, pool.workers worker = .leaving .disconnected ∨
    pool.workers worker = .ended .disconnected → pool.alive = false ∧ pool.queue = []
  replying : ∀ worker request result, pool.workers worker = .replying request result →
    ⟨worker, request, .completed result⟩ ∈ pool.finished
  crashed : ∀ rendering ∈ pool.finished, rendering.outcome = .panicked →
    pool.workers rendering.worker = .ended .panicked

/-! ### The desk under each operation -/

theorem setHand_eq_self {desk : Desk n} {worker : Fin n} {request : Option RenderRequest}
    (same : desk.hands worker = request) : desk.setHand worker request = desk := by
  subst same
  simp [Desk.setHand]

theorem desk_setWorker (pool : Pool n) (worker : Fin n) (state : Worker) :
    (pool.setWorker worker state).desk = pool.desk.setHand worker state.request? := by
  have hands : (fun other => (Function.update pool.workers worker state other).request?) =
      Function.update (fun other => (pool.workers other).request?) worker state.request? := by
    funext other
    by_cases same : other = worker
    · subst same
      simp
    · simp [same]
  simp only [desk, setWorker, Desk.setHand, hands]

theorem desk_startRender (pool : Pool n) (worker : Fin n) (request : RenderRequest) :
    (pool.startRender worker request).desk =
      Desk.setHand { pool.desk with started := pool.started ++ [(worker, request)] } worker
        (some request) :=
  desk_setWorker
    { pool with lockHolder := none, started := pool.started ++ [(worker, request)] } worker
    (.rendering request)

@[simp] theorem finishRender_workers (pool : Pool n) (worker : Fin n) (request : RenderRequest)
    (outcome : RenderOutcome) :
    (pool.finishRender worker request outcome).workers = pool.workers := rfl

section Steps

variable {config : V8PoolConfig} {pool next : Pool n}

/-- Dropping the receiver keeps a ledger while no call waits. -/
theorem releaseReceiver_ledger (ledger : ∃ ledger, Tracks config pool.desk ledger)
    (borrowed : pool.Borrowed) : ∃ ledger, Tracks config pool.releaseReceiver.desk ledger := by
  obtain ⟨ledger, tracks⟩ := ledger
  by_cases owned : pool.receiverAlive = true
  · rw [releaseReceiver, if_pos owned]
    exact ⟨ledger, tracks⟩
  · rw [releaseReceiver, if_neg owned]
    refine ⟨_, tracks.discard fun id call present => ?_⟩
    by_contra inFlight
    have alive := borrowed id call present (by simpa using inFlight)
    simp [receiverAlive, alive] at owned

/-- A worker without a request stays without one. -/
theorem setWorker_ledger (ledger : ∃ ledger, Tracks config pool.desk ledger) {worker : Fin n}
    {state : Worker} (same : (pool.workers worker).request? = state.request?) :
    ∃ ledger, Tracks config (pool.setWorker worker state).desk ledger := by
  rw [desk_setWorker, setHand_eq_self same]
  exact ledger

/-- A change that puts no call in flight keeps the pool borrowed only while alive. -/
theorem Borrowed.updateCall (borrowed : pool.Borrowed) {id : CallId} {change : Call → Call}
    (keeps : ∀ call, (change call).inFlight = true → call.inFlight = true) :
    (pool.updateCall id change).Borrowed := by
  intro other call present inFlight
  by_cases same : other = id
  · subst same
    simp only [Pool.updateCall, Function.update_self, Option.map_eq_some_iff] at present
    obtain ⟨old, oldPresent, rfl⟩ := present
    exact borrowed other old oldPresent (keeps old inFlight)
  · simp only [Pool.updateCall, Function.update_of_ne same] at present
    exact borrowed other call present inFlight

/-- A pool that no call borrows may be dropped. -/
theorem Fresh.borrowed_of_unborrowed (fresh : pool.Fresh)
    (unborrowed : ∀ id < pool.nextCall, ∀ call, pool.calls id = some call →
      call.inFlight = false) : Borrowed { pool with alive := false } := by
  intro id call present inFlight
  by_cases below : id < pool.nextCall
  · rw [unborrowed id below call present] at inFlight
    contradiction
  · have absent := fresh id (Nat.le_of_not_lt below)
    change pool.calls id = some call at present
    rw [absent] at present
    contradiction

/-- A worker that moves has not ended. -/
theorem Sound.living_of_moves (sound : Sound config pool) {worker : Fin n} {state : Worker}
    (move : Move pool next worker (pool.workers worker) state) (exit : Exit) :
    pool.workers worker ≠ .ended exit := by
  intro ended
  rw [ended] at move
  cases move with
  | starts spawned reached => rcases spawned with spawned | pinned <;> contradiction
  | takes request receiving =>
      rcases receiving with receiving | blocked
      · contradiction
      · rw [(sound.lock worker).mp blocked] at ended
        contradiction
  | ends reason => rcases reason with leaving | ⟨spawned | pinned, _⟩ <;> contradiction

theorem Sound.transition_ledger (sound : Sound config pool) (step : Transition config pool next) :
    ∃ ledger, Tracks config next.desk ledger := by
  obtain ⟨ledger, tracks⟩ := sound.ledger
  cases step with
  | begins url data deadline alive =>
      refine ⟨_, tracks.begin (sound.fresh _ (Nat.le_refl _))
        ⟨rfl, by simp, Or.inl ⟨deadline, rfl, rfl⟩⟩⟩
  | retries => exact ⟨ledger, tracks⟩
  | givesUp present sending reason =>
      obtain ⟨unsent, notAccepted, _, _⟩ := tracks.of_sending present sending
      refine ⟨ledger, tracks.change _ present unsent (fun _ => ⟨rfl, rfl⟩)
        ⟨notAccepted, by simp, ?_⟩⟩
      rcases reason with timeout | ⟨disconnected, _⟩ | cancelled
      · exact Or.inr (Or.inl timeout)
      · exact Or.inr (Or.inr (Or.inl disconnected))
      · exact Or.inr (Or.inr (Or.inr cancelled))
  | enqueues present sending room =>
      obtain ⟨unsent, _, noResponse, rfl⟩ := tracks.of_sending present sending
      exact ⟨_, tracks.enqueue (fun call => { call with phase := .waiting, accepted := true })
        present unsent (fun _ => ⟨rfl, rfl⟩) ⟨rfl, noResponse, Or.inl rfl⟩⟩
  | hands present sending rendezvous blocked =>
      rename_i id call request deadline worker
      obtain ⟨unsent, _, noResponse, rfl⟩ := tracks.of_sending present sending
      have receiving := (sound.lock worker).mp blocked
      have emptyQueue : pool.queue = [] := by
        have bounded := sound.bounded
        rw [rendezvous] at bounded
        exact List.eq_nil_of_length_eq_zero (Nat.le_zero.mp bounded)
      have emptyHand : pool.desk.hands worker = none := by
        simp [desk, receiving, Worker.request?]
      show ∃ ledger, Tracks config (Desk.updateCall (pool.startRender worker _).desk id _) ledger
      rw [desk_startRender]
      exact tracks.hand (fun call => { call with phase := .waiting, accepted := true }) present
        unsent (fun _ => ⟨rfl, rfl⟩) ⟨rfl, noResponse, Or.inl rfl⟩ emptyQueue emptyHand
  | settles present waiting reason =>
      obtain ⟨place, ledgerEq, sent, kept, accepted⟩ := tracks.of_waiting present waiting
      rename_i id call phase
      have settled : Call.Accepted place.response { call with phase := phase } := by
        refine ⟨accepted.wasAccepted, accepted.shows, ?_⟩
        rcases reason with cancelled | ⟨result, returned, awaited⟩
        · exact Or.inr (Or.inl cancelled)
        · exact Or.inr (Or.inr ⟨result, returned, accepted.shows ▸ awaited⟩)
      exact ⟨ledger, tracks.change (fun call => { call with phase := phase }) present ledgerEq
        (fun _ => ⟨rfl, rfl⟩) (settled.at_place sent kept config id)⟩
  | drops unborrowed =>
      exact releaseReceiver_ledger ⟨ledger, tracks⟩ (sound.fresh.borrowed_of_unborrowed unborrowed)
  | starts nextCore before after =>
      refine setWorker_ledger ⟨ledger, tracks⟩ ?_
      rcases before with spawned | pinned <;> rcases after with rfl | rfl | ⟨_, rfl⟩ <;>
        simp_all [Worker.request?]
  | locks idle free =>
      exact setWorker_ledger ⟨ledger, tracks⟩ (by simp [idle, Worker.request?])
  | takes receiving queued =>
      rw [desk_startRender]
      refine ⟨_, tracks.take queued ?_⟩
      simp [desk, receiving, Worker.request?]
  | closes receiving empty dropped =>
      exact setWorker_ledger ⟨ledger, tracks⟩ (by simp [receiving, Worker.request?])
  | completes result rendering =>
      exact setWorker_ledger ⟨ledger, tracks.record _⟩ (by simp [rendering, Worker.request?])
  | crashes rendering =>
      rename_i worker request
      have recorded := tracks.record ⟨worker, request, .panicked⟩
      have hand : pool.desk.hands worker = some request := by
        simp [desk, rendering, Worker.request?]
      obtain ⟨_, call, present, accepted, phase⟩ := tracks.of_hand hand
      have settled := recorded.settle (fun call => { call with response := .dropped }) hand present
        (fun _ => ⟨rfl, rfl⟩) (List.mem_append_right _ (List.mem_singleton_self _))
        (Or.inl ⟨rfl, rfl⟩)
        ⟨accepted.wasAccepted, rfl, phase.imp id Or.inl⟩
      refine releaseReceiver_ledger ?_ (sound.borrowed.updateCall fun _ => id)
      rw [desk_setWorker]
      exact ⟨_, settled⟩
  | replies replying =>
      rename_i worker request result
      have hand : pool.desk.hands worker = some request := by
        simp [desk, replying, Worker.request?]
      obtain ⟨_, call, present, accepted, phase⟩ := tracks.of_hand hand
      have settled := tracks.settle (fun call => { call with response := .sent result }) hand
        present (fun _ => ⟨rfl, rfl⟩) (sound.replying worker request result replying)
        (Or.inr ⟨result, rfl, rfl⟩)
        ⟨accepted.wasAccepted, rfl, phase.imp id Or.inl⟩
      rw [desk_setWorker]
      exact ⟨_, settled⟩
  | ends workerCount nextCore before =>
      refine releaseReceiver_ledger (setWorker_ledger ⟨ledger, tracks⟩ ?_) sound.borrowed
      rcases before with leaving | ⟨spawned | pinned, _⟩ <;> simp_all [Worker.request?]

/-! ### The other invariants -/

theorem releaseReceiver_queue (pool : Pool n) :
    pool.releaseReceiver.queue = pool.queue ∨ pool.releaseReceiver.queue = [] := by
  unfold releaseReceiver
  split_ifs
  · exact Or.inl rfl
  · exact Or.inr rfl

/-- Dropping the receiver changes at most the response of a call. -/
theorem releaseReceiver_calls {id : CallId} {call : Call}
    (present : pool.releaseReceiver.calls id = some call) :
    ∃ old, pool.calls id = some old ∧ old.phase = call.phase := by
  unfold releaseReceiver at present
  split_ifs at present
  · exact ⟨call, present, rfl⟩
  · dsimp only at present
    split_ifs at present
    · obtain ⟨old, oldPresent, rfl⟩ := Option.map_eq_some_iff.mp present
      exact ⟨old, oldPresent, rfl⟩
    · exact ⟨call, present, rfl⟩

theorem Fresh.releaseReceiver (fresh : pool.Fresh) : pool.releaseReceiver.Fresh := by
  intro id above
  rw [releaseReceiver_nextCall] at above
  have absent := fresh id above
  unfold Pool.releaseReceiver
  split_ifs
  · exact absent
  · simp [absent]

theorem Fresh.updateCall (fresh : pool.Fresh) (id : CallId) (change : Call → Call) :
    (pool.updateCall id change).Fresh := by
  intro other above
  have absent := fresh other above
  by_cases same : other = id
  · subst same
    simp [Pool.updateCall, absent]
  · simp [Pool.updateCall, same, absent]

theorem Sound.transition_fresh (sound : Sound config pool) (step : Transition config pool next) :
    next.Fresh := by
  have fresh := sound.fresh
  cases step with
  | begins url data deadline alive =>
      intro id above
      simp only [Function.update_of_ne (Nat.ne_of_gt above)]
      exact fresh id (Nat.le_of_succ_le above)
  | retries => exact fresh
  | givesUp present sending reason => exact fresh.updateCall _ _
  | enqueues present sending room => exact fresh.updateCall _ _
  | hands present sending rendezvous blocked => exact fresh.updateCall _ _
  | settles present waiting reason => exact fresh.updateCall _ _
  | drops unborrowed => exact Fresh.releaseReceiver fresh
  | starts nextCore before after => exact fresh
  | locks idle free => exact fresh
  | takes receiving queued => exact fresh
  | closes receiving empty dropped => exact fresh
  | completes result rendering => exact fresh
  | crashes rendering => exact Fresh.releaseReceiver (fresh.updateCall _ _)
  | replies replying => exact fresh.updateCall _ _
  | ends workerCount nextCore before => exact Fresh.releaseReceiver fresh

theorem Borrowed.releaseReceiver (borrowed : pool.Borrowed) : pool.releaseReceiver.Borrowed := by
  intro id call present inFlight
  obtain ⟨old, oldPresent, samePhase⟩ := releaseReceiver_calls present
  rw [releaseReceiver_alive]
  exact borrowed id old oldPresent (by simpa [Call.inFlight, samePhase] using inFlight)

theorem Sound.transition_borrowed (sound : Sound config pool)
    (step : Transition config pool next) : next.Borrowed := by
  have borrowed := sound.borrowed
  cases step with
  | begins url data deadline alive => exact fun _ _ _ _ => alive
  | retries => exact borrowed
  | givesUp present sending reason =>
      refine borrowed.updateCall fun old running => ?_
      rcases reason with rfl | ⟨rfl, _⟩ | rfl <;> simp [Call.inFlight] at running
  | enqueues present sending room =>
      exact fun _ _ _ _ => borrowed _ _ present (by simp [Call.inFlight, sending])
  | hands present sending rendezvous blocked =>
      exact fun _ _ _ _ => borrowed _ _ present (by simp [Call.inFlight, sending])
  | settles present waiting reason =>
      exact fun _ _ _ _ => borrowed _ _ present (by simp [Call.inFlight, waiting])
  | drops unborrowed =>
      exact Borrowed.releaseReceiver (sound.fresh.borrowed_of_unborrowed unborrowed)
  | starts nextCore before after => exact borrowed
  | locks idle free => exact borrowed
  | takes receiving queued => exact borrowed
  | closes receiving empty dropped => exact borrowed
  | completes result rendering => exact borrowed
  | crashes rendering => exact Borrowed.releaseReceiver (borrowed.updateCall fun _ => id)
  | replies replying => exact borrowed.updateCall fun _ => id
  | ends workerCount nextCore before => exact Borrowed.releaseReceiver borrowed

theorem Sound.transition_bounded (sound : Sound config pool)
    (step : Transition config pool next) : next.queue.length ≤ config.queueCapacity := by
  have bounded := sound.bounded
  have released : ∀ other : Pool n, other.queue = pool.queue →
      other.releaseReceiver.queue.length ≤ config.queueCapacity := by
    intro other sameQueue
    rcases releaseReceiver_queue other with same | empty
    · rwa [same, sameQueue]
    · simp [empty]
  cases step with
  | enqueues present sending room =>
      simp only [updateCall, List.length_append, List.length_singleton]
      exact room
  | takes receiving queued =>
      rw [queued] at bounded
      exact Nat.le_of_succ_le bounded
  | drops unborrowed => exact released _ rfl
  | crashes rendering => exact released _ rfl
  | ends workerCount nextCore before => exact released _ rfl
  | _ => exact bounded

theorem Sound.transition_lock (sound : Sound config pool) (step : Transition config pool next)
    (other : Fin n) : next.lockHolder = some other ↔ next.workers other = .receiving := by
  have lock := sound.lock
  cases step with
  | begins url data deadline alive => exact lock other
  | retries => exact lock other
  | givesUp present sending reason => exact lock other
  | enqueues present sending room => exact lock other
  | hands present sending rendezvous blocked =>
      simp only [updateCall, startRender, setWorker, Function.update_apply]
      grind
  | settles present waiting reason => exact lock other
  | drops unborrowed => simpa using lock other
  | starts nextCore before after =>
      simp only [setWorker, Function.update_apply]
      grind
  | locks idle free =>
      simp only [setWorker, Function.update_apply]
      grind
  | takes receiving queued =>
      simp only [startRender, setWorker, Function.update_apply]
      grind
  | closes receiving empty dropped =>
      simp only [setWorker, Function.update_apply]
      grind
  | completes result rendering =>
      simp only [setWorker, finishRender, Function.update_apply]
      grind
  | crashes rendering =>
      simp only [endWorker, releaseReceiver_lockHolder, releaseReceiver_workers, setWorker,
        updateCall, finishRender, Function.update_apply]
      grind
  | replies replying =>
      simp only [setWorker, updateCall, Function.update_apply]
      grind
  | ends workerCount nextCore before =>
      simp only [endWorker, releaseReceiver_lockHolder, releaseReceiver_workers, setWorker,
        Function.update_apply]
      grind

/-- A dropped pool with an empty queue stays one. -/
theorem Sound.transition_dropped (sound : Sound config pool) (step : Transition config pool next)
    (dropped : pool.alive = false) (empty : pool.queue = []) :
    next.alive = false ∧ next.queue = [] := by
  have released : ∀ changed : Pool n, changed.alive = false → changed.queue = [] →
      changed.releaseReceiver.alive = false ∧ changed.releaseReceiver.queue = [] := by
    intro changed dropped empty
    rw [releaseReceiver_alive]
    rcases releaseReceiver_queue changed with same | none
    · exact ⟨dropped, same.trans empty⟩
    · exact ⟨dropped, none⟩
  cases step with
  | begins url data deadline alive =>
      rw [dropped] at alive
      contradiction
  | enqueues present sending room =>
      have alive := sound.borrowed _ _ present (by simp [Call.inFlight, sending])
      rw [dropped] at alive
      contradiction
  | takes receiving queued =>
      rw [empty] at queued
      contradiction
  | drops unborrowed => exact released _ rfl empty
  | crashes rendering => exact released _ dropped empty
  | ends workerCount nextCore before => exact released _ dropped empty
  | _ => exact ⟨dropped, empty⟩

theorem Sound.transition_closed (sound : Sound config pool) (step : Transition config pool next)
    (other : Fin n) (exited : next.workers other = .leaving .disconnected ∨
      next.workers other = .ended .disconnected) : next.alive = false ∧ next.queue = [] := by
  suffices closed : pool.alive = false ∧ pool.queue = [] from
    sound.transition_dropped step closed.1 closed.2
  rcases step.moves other with same | move
  · rw [same] at exited
    exact sound.closed other exited
  · generalize before : pool.workers other = old at move
    generalize next.workers other = new at move exited
    cases move with
    | closes dropped empty => exact ⟨dropped, empty⟩
    | ends reason =>
        rcases reason with leaving | ⟨_, rfl⟩
        · rcases exited with left | ended
          · cases left
          · cases ended
            exact sound.closed other (Or.inl (before.trans leaving))
        · rcases exited with left | ended
          · cases left
          · cases ended
    | starts spawned reached => rcases reached with rfl | rfl | ⟨message, rfl⟩ <;> simp at exited
    | locks => simp at exited
    | takes request receiving => simp at exited
    | completes recorded => simp at exited
    | crashes => simp at exited
    | replies => simp at exited

theorem Sound.transition_replying (sound : Sound config pool)
    (step : Transition config pool next) (other : Fin n) (request : RenderRequest)
    (result : Except String String) (replying : next.workers other = .replying request result) :
    ⟨other, request, .completed result⟩ ∈ next.finished := by
  rcases step.moves other with same | move
  · rw [same] at replying
    exact step.finished_subset (sound.replying other request result replying)
  · rw [replying] at move
    generalize pool.workers other = old at move
    cases move with
    | completes recorded => exact recorded
    | starts spawned reached => rcases reached with left | left | ⟨_, left⟩ <;> contradiction

theorem Sound.transition_crashed (sound : Sound config pool)
    (step : Transition config pool next) (rendering : Rendering n)
    (member : rendering ∈ next.finished) (panicked : rendering.outcome = .panicked) :
    next.workers rendering.worker = .ended .panicked := by
  rcases step.finished_cases member with old | new
  · have ended := sound.crashed rendering old panicked
    rcases step.moves rendering.worker with same | move
    · exact same.trans ended
    · exact absurd ended (sound.living_of_moves move _)
  · exact new panicked

/-- Every transition keeps the invariants. -/
theorem Sound.transition (sound : Sound config pool) (step : Transition config pool next) :
    Sound config next where
  ledger := sound.transition_ledger step
  fresh := sound.transition_fresh step
  borrowed := sound.transition_borrowed step
  bounded := sound.transition_bounded step
  lock := sound.transition_lock step
  closed := sound.transition_closed step
  replying := sound.transition_replying step
  crashed := sound.transition_crashed step

end Steps

/-! ### Every run -/

theorem sound_initial (config : V8PoolConfig) (n : Nat) (coreAffinity : Option (List Nat)) :
    Sound config (initial n coreAffinity) where
  ledger := by
    refine ⟨fun _ => none, ?_⟩
    constructor <;> simp [desk, initial, Worker.request?, Desk.queueIds, Desk.startedIds]
  fresh := fun _ _ => rfl
  borrowed := fun _ _ absent => by simp [initial] at absent
  bounded := Nat.zero_le _
  lock := by simp [initial]
  closed := by simp [initial]
  replying := by simp [initial]
  crashed := by simp [initial]

/-- The invariants hold after every run of a pool. -/
theorem sound_of_exec {config : V8PoolConfig} {coreAffinity : Option (List Nat)}
    {events : List (Event n)} {pool : Pool n}
    (executed : Execution.exec (step config) (initial n coreAffinity) events = some pool) :
    Sound config pool :=
  Execution.exec_invariant_always (fun _ current => Sound config current)
    (sound_initial config n coreAffinity)
    (fun _ _ _ _ sound stepped => sound.transition (step_transition stepped)) executed

end RustySsr.V8Pool.Pool
