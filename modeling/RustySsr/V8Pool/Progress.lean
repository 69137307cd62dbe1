import RustySsr.Foundation.Census
import RustySsr.Foundation.Fairness
import RustySsr.V8Pool.Calls
import RustySsr.V8Pool.Shutdown

/-!
Owns how the workers get on. `Worker.rank` counts the steps that a worker has
left before it waits again, `Ready` says which workers can act, and `step_advance`
says of every step that it lowers the rank of one worker, takes the first request
of the queue, or leaves the workers alone. From it follow a bound on the steps of
all workers and that a pool which cannot move has answered every request.
-/

namespace RustySsr.V8Pool

open RustySsr.Foundation

variable {n : Nat}

/-- The steps that a worker can make before it needs another request. -/
def Worker.rank : Worker → Nat
  | .spawned => 5
  | .pinned => 4
  | .idle => 3
  | .receiving => 2
  | .rendering _ => 5
  | .replying _ _ => 4
  | .leaving _ => 1
  | .ended _ => 0

namespace Pool

def workersRank (pool : Pool n) : Nat := census Worker.rank pool.workers

/-- The steps that the workers have left if no more requests are accepted. -/
def potential (pool : Pool n) : Nat := 4 * pool.queue.length + pool.workersRank

/-- The worker can make a step. An idle one waits for the lock, a receiving one
for a request or for the end of the channel. -/
def Ready (pool : Pool n) (worker : Fin n) : Prop :=
  match pool.workers worker with
  | .idle => pool.lockHolder = none
  | .receiving => pool.queue ≠ [] ∨ pool.alive = false
  | .ended _ => False
  | _ => True

/-- What a step does to the workers, the lock, the queue and the history. -/
inductive Advance (pool next : Pool n) (event : Event n) : Prop where
  /-- The workers stand still. -/
  | waits (caller : event.worker? = none) (workers : next.workers = pool.workers)
      (lock : next.lockHolder = pool.lockHolder)
      (queue : pool.queue <+: next.queue ∨ (next.NoWorkerLeft ∧ next.queue = []))
      (closed : pool.alive = false →
        next.alive = false ∧ next.queue.length ≤ pool.queue.length)
      (started : next.started = pool.started) (finished : next.finished = pool.finished)
  /-- A caller hands its request to the worker that waits in `recv`. -/
  | hands {worker : Fin n} {request : RenderRequest} (caller : event.worker? = none)
      (receiving : pool.workers worker = .receiving) (isOpen : pool.alive = true)
      (workers : next.workers = Function.update pool.workers worker (.rendering request))
      (queue : pool.queue = []) (started : next.started = pool.started ++ [(worker, request)])
      (finished : next.finished = pool.finished)
  /-- A worker takes the first request of the queue. -/
  | takes {worker : Fin n} {request : RenderRequest} (own : event.worker? = some worker)
      (receiving : pool.workers worker = .receiving)
      (workers : next.workers = Function.update pool.workers worker (.rendering request))
      (queue : pool.queue = request :: next.queue)
      (started : next.started = pool.started ++ [(worker, request)])
      (finished : next.finished = pool.finished)
  /-- A worker gets on with what it has. -/
  | moves {worker : Fin n} {after : Worker} (own : event.worker? = some worker)
      (lower : after.rank < (pool.workers worker).rank)
      (workers : next.workers = Function.update pool.workers worker after)
      (queue : next.queue = pool.queue ∨ (next.NoWorkerLeft ∧ next.queue = []))
      (started : next.started = pool.started)
      (finished : next.finished = pool.finished ∨ ∃ request outcome,
        event = .render worker outcome ∧ pool.workers worker = .rendering request ∧
          next.finished = pool.finished ++ [⟨worker, request, outcome⟩])

section Steps

variable {config : V8PoolConfig} {pool next : Pool n} {event : Event n}

/-- The receiver is released only when no worker is left. -/
theorem releaseReceiver_queue_cases (pool : Pool n) :
    pool.releaseReceiver.queue = pool.queue ∨
      (pool.releaseReceiver.NoWorkerLeft ∧ pool.releaseReceiver.queue = []) := by
  by_cases owned : pool.receiverAlive = true
  · rw [releaseReceiver, if_pos owned]
    exact Or.inl rfl
  · refine Or.inr ⟨fun worker => ?_, by rw [releaseReceiver, if_neg owned]⟩
    rw [releaseReceiver_workers]
    by_contra living
    exact owned (receiverAlive_of_living worker (by simpa using living))

/-- A worker that ends has no steps left. -/
theorem advance_of_end {changed : Pool n} {worker : Fin n} {exit : Exit}
    (own : event.worker? = some worker) (living : 0 < (pool.workers worker).rank)
    (workers : changed.workers = pool.workers) (queue : changed.queue = pool.queue)
    (started : changed.started = pool.started)
    (finished : changed.finished = pool.finished ∨ ∃ request outcome,
      event = .render worker outcome ∧ pool.workers worker = .rendering request ∧
        changed.finished = pool.finished ++ [⟨worker, request, outcome⟩]) :
    Advance pool (changed.endWorker worker exit) event := by
  refine .moves own (show (Worker.ended exit).rank < _ from living) ?_ ?_ ?_ ?_
  · rw [endWorker, releaseReceiver_workers, setWorker, workers]
  · rw [← queue]
    exact releaseReceiver_queue_cases _
  · rw [endWorker, releaseReceiver_started]
    exact started
  · rw [endWorker, releaseReceiver_finished]
    exact finished

/-- A step that touches neither the workers nor the queue. -/
theorem advance_of_same (caller : event.worker? = none) (workers : next.workers = pool.workers)
    (lock : next.lockHolder = pool.lockHolder) (queue : next.queue = pool.queue)
    (alive : next.alive = pool.alive) (started : next.started = pool.started)
    (finished : next.finished = pool.finished) : Advance pool next event :=
  .waits caller workers lock (Or.inl (by rw [queue]))
    (fun closed => ⟨alive.trans closed, by rw [queue]⟩) started finished

theorem trySend_advance {id : CallId} {now : Nat} (sound : Sound config pool)
    (sent : pool.trySend config id now = some next) : Advance pool next (.trySend id now) := by
  unfold trySend at sent
  split at sent
  · rename_i url data request deadline response accepted present
    have alive : pool.alive = true := sound.borrowed id _ present rfl
    rw [Option.some.injEq] at sent
    subst sent
    split
    · rename_i sentPool outcome
      unfold send at outcome
      split_ifs at outcome with _ rendezvous room
      · split at outcome
        · rename_i worker blocked
          obtain rfl := SendResult.ok.inj outcome
          have empty : pool.queue = [] := by
            have bounded := sound.bounded
            rw [rendezvous] at bounded
            exact List.eq_nil_of_length_eq_zero (Nat.le_zero.mp bounded)
          exact .hands rfl ((sound.lock worker).mp blocked) alive rfl empty rfl rfl
        · contradiction
      · obtain rfl := SendResult.ok.inj outcome
        refine .waits rfl rfl rfl (Or.inl (List.prefix_append _ _)) (fun closed => ?_) rfl rfl
        rw [alive] at closed
        contradiction
    · split
      · split_ifs <;> exact advance_of_same rfl rfl rfl rfl rfl rfl rfl
      · exact advance_of_same rfl rfl rfl rfl rfl rfl rfl
    · exact advance_of_same rfl rfl rfl rfl rfl rfl rfl
  · contradiction

theorem drop_advance (dropped : pool.drop = some next) : Advance pool next .drop := by
  unfold drop at dropped
  split_ifs at dropped
  obtain rfl := Option.some.inj dropped
  have queue := releaseReceiver_queue_cases { pool with alive := false }
  refine .waits rfl (releaseReceiver_workers _) (releaseReceiver_lockHolder _) ?_ ?_
    (releaseReceiver_started _) (releaseReceiver_finished _)
  · exact queue.imp (fun same => by rw [same]) id
  · refine fun _ => ⟨releaseReceiver_alive _, ?_⟩
    rcases queue with same | ⟨_, empty⟩
    · rw [same]
    · rw [empty]
      exact Nat.zero_le _

theorem pin_advance {worker : Fin n} (pinned : pool.pin worker = some next) :
    Advance pool next (.pin worker) := by
  unfold pin at pinned
  split at pinned
  · rename_i spawned
    split at pinned
    · obtain rfl := Option.some.inj pinned
      exact .moves rfl (by simp [spawned, Worker.rank]) rfl (Or.inl rfl) rfl (Or.inl rfl)
    · dsimp only at pinned
      split_ifs at pinned
      · obtain rfl := Option.some.inj pinned
        exact advance_of_end rfl (by simp [spawned, Worker.rank]) rfl rfl rfl (Or.inl rfl)
      · obtain rfl := Option.some.inj pinned
        exact .moves rfl (by simp [spawned, Worker.rank]) rfl (Or.inl rfl) rfl (Or.inl rfl)
  · contradiction

theorem initRuntime_advance {worker : Fin n} {outcome : InitOutcome}
    (initialised : pool.initRuntime worker outcome = some next) :
    Advance pool next (.initRuntime worker outcome) := by
  unfold initRuntime at initialised
  split at initialised
  · rename_i pinned
    cases outcome with
    | ok =>
        obtain rfl := Option.some.inj initialised
        exact .moves rfl (by simp [pinned, Worker.rank]) rfl (Or.inl rfl) rfl (Or.inl rfl)
    | err message =>
        obtain rfl := Option.some.inj initialised
        exact .moves rfl (by simp [pinned, Worker.rank]) rfl (Or.inl rfl) rfl (Or.inl rfl)
    | panicked =>
        obtain rfl := Option.some.inj initialised
        exact advance_of_end rfl (by simp [pinned, Worker.rank]) rfl rfl rfl (Or.inl rfl)
  · contradiction

theorem recv_advance {worker : Fin n} (received : pool.recv worker = some next) :
    Advance pool next (.recv worker) := by
  unfold recv at received
  split at received
  · rename_i receiving
    split at received
    · rename_i request rest queued
      obtain rfl := Option.some.inj received
      exact .takes rfl receiving rfl queued rfl rfl
    · split_ifs at received
      obtain rfl := Option.some.inj received
      exact .moves rfl (by simp [receiving, Worker.rank]) rfl (Or.inl rfl) rfl (Or.inl rfl)
  · contradiction

theorem render_advance {worker : Fin n} {outcome : RenderOutcome}
    (rendered : pool.render worker outcome = some next) :
    Advance pool next (.render worker outcome) := by
  unfold render at rendered
  split at rendered
  · rename_i request rendering
    obtain rfl := Option.some.inj rendered
    cases outcome with
    | completed result =>
        exact .moves rfl (by simp [rendering, Worker.rank]) rfl (Or.inl rfl) rfl
          (Or.inr ⟨request, _, rfl, rendering, rfl⟩)
    | panicked =>
        exact advance_of_end rfl (by simp [rendering, Worker.rank]) rfl rfl rfl
          (Or.inr ⟨request, _, rfl, rendering, rfl⟩)
  · contradiction

/-- Every step advances the pool in one of the ways listed. -/
theorem step_advance (sound : Sound config pool) (stepped : pool.step config event = some next) :
    Advance pool next event := by
  cases event with
  | call url data now =>
      change pool.call config url data now = some next at stepped
      unfold call at stepped
      split_ifs at stepped
      obtain rfl := Option.some.inj stepped
      exact advance_of_same rfl rfl rfl rfl rfl rfl rfl
  | trySend id now => exact trySend_advance sound stepped
  | cancel id =>
      change pool.cancel id = some next at stepped
      unfold cancel at stepped
      split at stepped <;> cases stepped <;> exact advance_of_same rfl rfl rfl rfl rfl rfl rfl
  | receiveResponse id =>
      change pool.receiveResponse id = some next at stepped
      unfold receiveResponse at stepped
      split at stepped
      · obtain ⟨result, _, rfl⟩ := Option.map_eq_some_iff.mp stepped
        exact advance_of_same rfl rfl rfl rfl rfl rfl rfl
      · contradiction
  | drop => exact drop_advance stepped
  | pin worker => exact pin_advance stepped
  | initRuntime worker outcome => exact initRuntime_advance stepped
  | lock worker =>
      change pool.lock worker = some next at stepped
      unfold lock at stepped
      split at stepped
      · rename_i idle _
        obtain rfl := Option.some.inj stepped
        exact .moves rfl (by simp [idle, Worker.rank]) rfl (Or.inl rfl) rfl (Or.inl rfl)
      · contradiction
  | recv worker => exact recv_advance stepped
  | render worker outcome => exact render_advance stepped
  | reply worker =>
      change pool.reply worker = some next at stepped
      unfold reply at stepped
      split at stepped
      · rename_i request result replying
        obtain rfl := Option.some.inj stepped
        exact .moves rfl (by simp [replying, Worker.rank]) rfl (Or.inl rfl) rfl (Or.inl rfl)
      · contradiction
  | leave worker =>
      change pool.leave worker = some next at stepped
      unfold leave at stepped
      split at stepped
      · rename_i exit leaving
        obtain rfl := Option.some.inj stepped
        exact advance_of_end rfl (by simp [leaving, Worker.rank]) rfl rfl rfl (Or.inl rfl)
      · contradiction

/-- Only a worker that has not ended makes steps. -/
theorem Advance.living {worker : Fin n} (advance : Advance pool next event)
    (own : event.worker? = some worker) : (pool.workers worker).hasEnded = false := by
  cases advance with
  | waits caller workers lock queue closed started finished =>
      rw [caller] at own
      contradiction
  | hands caller receiving isOpen workers queue started finished =>
      rw [caller] at own
      contradiction
  | takes owner receiving workers queue started finished =>
      obtain rfl := Option.some.inj (owner.symm.trans own)
      rw [receiving]
      rfl
  | moves owner lower workers queue started finished =>
      obtain rfl := Option.some.inj (owner.symm.trans own)
      cases state : pool.workers _ with
      | ended exit => simp [state, Worker.rank] at lower
      | _ => rfl

/-! ### The steps that are left -/

theorem workersRank_update {worker : Fin n} {after : Worker}
    (workers : next.workers = Function.update pool.workers worker after) :
    next.workersRank + (pool.workers worker).rank = pool.workersRank + after.rank := by
  unfold workersRank
  rw [workers]
  exact census_update Worker.rank pool.workers worker after

/-- A worker's step is paid for by its rank, or by the request it takes. -/
theorem Advance.rank (advance : Advance pool next event) :
    next.workersRank + (if event.worker?.isSome then 1 else 0) + 4 * pool.started.length ≤
      pool.workersRank + 4 * next.started.length := by
  cases advance with
  | waits caller workers lock queue closed started finished =>
      simp [workersRank, workers, caller, started]
  | hands caller receiving isOpen workers queue started finished =>
      have rank := workersRank_update workers
      simp only [receiving, Worker.rank] at rank
      simp only [caller, started, List.length_append, List.length_singleton, Option.isSome_none,
        Bool.false_eq_true, if_false]
      omega
  | takes own receiving workers queue started finished =>
      have rank := workersRank_update workers
      simp only [receiving, Worker.rank] at rank
      simp only [own, started, List.length_append, List.length_singleton, Option.isSome_some,
        if_true]
      omega
  | moves own lower workers queue started finished =>
      have rank := workersRank_update workers
      simp only [own, started, Option.isSome_some, if_true]
      omega

end Steps

/-- **No worker spins.** In every run of a pool its threads make at most five
steps each, and four more for every request that they start. -/
theorem workerSteps_le {config : V8PoolConfig} {coreIds : Option (List Nat)}
    {events : List (Event config.numThreads)} {pool : Pool config.numThreads}
    (executed : Execution.exec (step config) (new config coreIds) events = some pool) :
    events.countP (fun event => event.worker?.isSome) ≤
      5 * config.numThreads + 4 * pool.started.length := by
  have accounted : Sound config pool ∧
      pool.workersRank + events.countP (fun event => event.worker?.isSome) ≤
        5 * config.numThreads + 4 * pool.started.length := by
    refine Execution.exec_invariant_always (fun history current => Sound config current ∧
      current.workersRank + history.countP (fun event => event.worker?.isSome) ≤
        5 * config.numThreads + 4 * current.started.length) ?_ ?_ executed
    · refine ⟨sound_initial config _ _, ?_⟩
      simp [workersRank, census, new, initial, Worker.rank, Nat.mul_comm]
    · rintro history current event next ⟨sound, bound⟩ stepped
      have rank := (step_advance sound stepped).rank
      refine ⟨sound.transition (step_transition stepped), ?_⟩
      rw [List.countP_append, List.countP_singleton]
      omega
  omega

/-- One worker serves one request in seven steps. -/
theorem workerSteps_of_served_call :
    ∃ pool : Pool 1,
      Execution.exec (step ⟨1, 4, false, none, "renderPage"⟩)
        (new ⟨1, 4, false, none, "renderPage"⟩ none)
        [.call "/a" "{}" 0, .trySend 0 0, .pin 0, .initRuntime 0 .ok, .lock 0, .recv 0,
          .render 0 (.completed (.ok "page")), .reply 0, .lock 0] = some pool ∧
      7 ≤ 5 * 1 + 4 * pool.started.length := by
  obtain ⟨pool, executed⟩ := Option.isSome_iff_exists.mp (show (Execution.exec
    (step ⟨1, 4, false, none, "renderPage"⟩) (new ⟨1, 4, false, none, "renderPage"⟩ none)
    [.call "/a" "{}" 0, .trySend 0 0, .pin 0, .initRuntime 0 .ok, .lock 0, .recv 0,
      .render 0 (.completed (.ok "page")), .reply 0, .lock 0]).isSome = true from rfl)
  exact ⟨pool, executed, workerSteps_le executed⟩

/-! ### The workers that can move -/

section Ready

variable {config : V8PoolConfig} {pool next : Pool n} {event : Event n}

/-- A ready worker has a step. -/
theorem enabled_of_ready (config : V8PoolConfig) {worker : Fin n} (ready : pool.Ready worker) :
    Execution.Enabled (step config) Event.worker? pool worker := by
  unfold Ready at ready
  cases state : pool.workers worker with
  | spawned =>
      refine Execution.enabled_of_isSome (.pin worker) rfl ?_
      cases affinity : pool.coreAffinity with
      | none => simp [step, pin, state, affinity]
      | some cores =>
          simp only [step, pin, state, affinity]
          split_ifs <;> rfl
  | pinned =>
      exact Execution.enabled_of_isSome (.initRuntime worker .ok) rfl
        (by simp [step, initRuntime, state])
  | idle =>
      rw [state] at ready
      have free : pool.lockHolder = none := ready
      exact Execution.enabled_of_isSome (.lock worker) rfl (by simp [step, lock, state, free])
  | receiving =>
      rw [state] at ready
      refine Execution.enabled_of_isSome (.recv worker) rfl ?_
      cases queue : pool.queue with
      | nil =>
          have dropped : pool.alive = false := ready.resolve_left fun some => some queue
          simp [step, recv, state, queue, dropped]
      | cons request rest => simp [step, recv, state, queue]
  | rendering request =>
      exact Execution.enabled_of_isSome (.render worker (.completed (.ok ""))) rfl
        (by simp [step, render, state])
  | replying request result =>
      exact Execution.enabled_of_isSome (.reply worker) rfl (by simp [step, reply, state])
  | leaving exit =>
      exact Execution.enabled_of_isSome (.leave worker) rfl (by simp [step, leave, state])
  | ended exit => simp [state] at ready

/-- Callers do not stop a worker that is ready. -/
theorem ready_of_waits (workers : next.workers = pool.workers)
    (lock : next.lockHolder = pool.lockHolder)
    (queue : pool.queue <+: next.queue ∨ (next.NoWorkerLeft ∧ next.queue = []))
    (closed : pool.alive = false → next.alive = false) {worker : Fin n}
    (ready : pool.Ready worker) : next.Ready worker := by
  unfold Ready at ready ⊢
  rw [workers, lock]
  cases state : pool.workers worker with
  | receiving =>
      rw [state] at ready
      rcases ready with some | dropped
      · rcases queue with ⟨joined, grown⟩ | ⟨dead, _⟩
        · exact Or.inl (by simp [← grown, some])
        · have ended := dead worker
          rw [workers, state] at ended
          contradiction
      · exact Or.inr (closed dropped)
  | idle => rwa [state] at ready
  | ended exit => rwa [state] at ready
  | _ => trivial

/-- Work, or the end of the channel, is for some worker to see as long as one
lives: who waits for the lock waits for a worker that is ready. -/
theorem Sound.exists_ready (sound : Sound config pool) (living : ¬ pool.NoWorkerLeft)
    (work : pool.queue ≠ [] ∨ pool.alive = false) : ∃ worker, pool.Ready worker := by
  obtain ⟨worker, notEnded⟩ := not_forall.mp living
  have receiver : ∀ other, pool.workers other = .receiving → pool.Ready other := by
    intro other receiving
    unfold Ready
    rw [receiving]
    exact work
  cases state : pool.workers worker with
  | idle =>
      cases holder : pool.lockHolder with
      | none => exact ⟨worker, by unfold Ready; rw [state]; exact holder⟩
      | some other => exact ⟨other, receiver other ((sound.lock other).mp holder)⟩
  | receiving => exact ⟨worker, receiver worker state⟩
  | ended exit => simp [state, Worker.hasEnded] at notEnded
  | _ => exact ⟨worker, by unfold Ready; rw [state]; trivial⟩

/-- A worker with a request in its hands is ready. -/
theorem ready_of_hand {worker : Fin n} {request : RenderRequest}
    (hand : pool.desk.hands worker = some request) : pool.Ready worker := by
  unfold Ready
  cases state : pool.workers worker <;> simp_all [desk, Worker.request?]

end Ready

/-- **A pool cannot hang while a worker lives.** In every reachable state in
which no worker can move and one is left, every accepted request is answered. -/
theorem answered_of_stuck {config : V8PoolConfig} {coreIds : Option (List Nat)}
    {events : List (Event config.numThreads)} {pool : Pool config.numThreads}
    (executed : Execution.exec (step config) (new config coreIds) events = some pool)
    (living : ¬ pool.NoWorkerLeft)
    (stuck : ∀ event worker, event.worker? = some worker → pool.step config event = none)
    {id : CallId} {call : Call} (present : pool.calls id = some call)
    (accepted : call.accepted = true) : call.response ≠ .pending := by
  have sound := sound_of_exec executed
  have notReady : ∀ worker, ¬ pool.Ready worker := by
    intro worker ready
    obtain ⟨event, next, own, stepped⟩ := enabled_of_ready config ready
    rw [stuck event worker own] at stepped
    contradiction
  intro pending
  obtain ⟨ledger, tracks⟩ := sound.ledger
  rcases place_of_unanswered tracks present accepted pending with queued | inHands
  · have work : pool.queue ≠ [] := by
      rintro empty
      simp [Desk.queueIds, desk, empty] at queued
    obtain ⟨worker, ready⟩ := sound.exists_ready living (Or.inl work)
    exact notReady worker ready
  · obtain ⟨worker, request, hand, _⟩ := inHands
    exact notReady worker (ready_of_hand hand)

/-- A worker that has served its request waits, and the request is answered. -/
theorem answered_of_waiting_worker :
    ∃ pool : Pool 1,
      Execution.exec (step ⟨1, 4, false, none, "renderPage"⟩)
        (new ⟨1, 4, false, none, "renderPage"⟩ none)
        [.call "/a" "{}" 0, .trySend 0 0, .pin 0, .initRuntime 0 .ok, .lock 0, .recv 0,
          .render 0 (.completed (.ok "page")), .reply 0, .lock 0] = some pool ∧
      ∃ call, pool.calls 0 = some call ∧ call.response ≠ .pending := by
  obtain ⟨pool, executed, living, stuck, call, present, accepted⟩ : ∃ pool : Pool 1,
      Execution.exec (step ⟨1, 4, false, none, "renderPage"⟩)
        (new ⟨1, 4, false, none, "renderPage"⟩ none)
        [.call "/a" "{}" 0, .trySend 0 0, .pin 0, .initRuntime 0 .ok, .lock 0, .recv 0,
          .render 0 (.completed (.ok "page")), .reply 0, .lock 0] = some pool ∧
      ¬ pool.NoWorkerLeft ∧
      (∀ event worker, event.worker? = some worker →
        pool.step ⟨1, 4, false, none, "renderPage"⟩ event = none) ∧
      ∃ call, pool.calls 0 = some call ∧ call.accepted = true := by
    refine ⟨_, rfl, fun dead => Bool.false_ne_true (dead 0), ?_, _, rfl, rfl⟩
    intro event worker own
    have first : worker = 0 := Subsingleton.elim _ _
    subst first
    cases event <;> first | contradiction | (obtain rfl := Option.some.inj own; rfl)
  exact ⟨pool, executed, call, present, answered_of_stuck executed living stuck present accepted⟩

end Pool

end RustySsr.V8Pool
