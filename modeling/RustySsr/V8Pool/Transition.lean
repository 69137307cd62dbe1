import RustySsr.V8Pool.Pool

/-!
Owns what one step of the pool can do: `Transition` lists the possible changes
with the guards under which they happen, and `step_transition` reads every step
as one of them. Invariants are proved by cases on it, without unfolding a step.
-/

namespace RustySsr.V8Pool.Pool

variable {n : Nat}

/-- A step of the pool, by what changes and what was the case before. -/
inductive Transition (config : V8PoolConfig) (pool : Pool n) : Pool n → Prop where
  /-- A call begins. -/
  | begins (url data : String) (deadline : Option Nat) (alive : pool.alive = true) :
      Transition config pool
        { pool with
          calls := Function.update pool.calls pool.nextCall
            (some ⟨url, data, .sending ⟨url, data, config.renderFunction, pool.nextCall⟩ deadline,
              .pending, false⟩)
          nextCall := pool.nextCall + 1 }
  /-- The channel is full and the deadline has not passed. -/
  | retries : Transition config pool pool
  /-- A call ends before its request is accepted. -/
  | givesUp {id : CallId} {call : Call} {request : RenderRequest} {deadline : Option Nat}
      {phase : Phase} (present : pool.calls id = some call)
      (sending : call.phase = .sending request deadline)
      (reason : phase = .returned (.error .timeout) ∨
        (phase = .returned (.error .disconnected) ∧ pool.receiverAlive = false) ∨
          phase = .cancelled) :
      Transition config pool (pool.giveUp id phase)
  /-- The channel buffers the request. -/
  | enqueues {id : CallId} {call : Call} {request : RenderRequest} {deadline : Option Nat}
      (present : pool.calls id = some call) (sending : call.phase = .sending request deadline)
      (room : pool.queue.length < config.queueCapacity) :
      Transition config pool
        (updateCall { pool with queue := pool.queue ++ [request] } id fun call =>
          { call with phase := .waiting, accepted := true })
  /-- The channel hands the request to a blocked worker. -/
  | hands {id : CallId} {call : Call} {request : RenderRequest} {deadline : Option Nat}
      {worker : Fin n} (present : pool.calls id = some call)
      (sending : call.phase = .sending request deadline) (rendezvous : config.queueCapacity = 0)
      (blocked : pool.lockHolder = some worker) :
      Transition config pool
        ((pool.startRender worker request).updateCall id fun call =>
          { call with phase := .waiting, accepted := true })
  /-- A waiting call is cancelled or gets its result. -/
  | settles {id : CallId} {call : Call} {phase : Phase} (present : pool.calls id = some call)
      (waiting : call.phase = .waiting)
      (reason : phase = .cancelled ∨
        ∃ result, phase = .returned result ∧ call.response.awaited = some result) :
      Transition config pool (pool.updateCall id fun call => { call with phase := phase })
  /-- The pool is dropped. -/
  | drops (unborrowed : ∀ id < pool.nextCall, ∀ call, pool.calls id = some call →
        call.inFlight = false) :
      Transition config pool { pool with alive := false }.releaseReceiver
  /-- A worker gets on with its start. -/
  | starts {worker : Fin n} {state : Worker} (nextCore : Nat)
      (before : pool.workers worker = .spawned ∨ pool.workers worker = .pinned)
      (after : state = .pinned ∨ state = .idle ∨
        ∃ message, state = .leaving (.initFailed message)) :
      Transition config pool (setWorker { pool with nextCore := nextCore } worker state)
  /-- A worker takes the lock of the receiver. -/
  | locks {worker : Fin n} (idle : pool.workers worker = .idle) (free : pool.lockHolder = none) :
      Transition config pool { pool.setWorker worker .receiving with lockHolder := some worker }
  /-- A worker takes the first queued request. -/
  | takes {worker : Fin n} {request : RenderRequest} {rest : List RenderRequest}
      (receiving : pool.workers worker = .receiving) (queued : pool.queue = request :: rest) :
      Transition config pool (startRender { pool with queue := rest } worker request)
  /-- A worker sees that the channel is closed and empty. -/
  | closes {worker : Fin n} (receiving : pool.workers worker = .receiving)
      (empty : pool.queue = []) (dropped : pool.alive = false) :
      Transition config pool
        { pool.setWorker worker (.leaving .disconnected) with lockHolder := none }
  /-- A render completes. -/
  | completes {worker : Fin n} {request : RenderRequest} (result : Except String String)
      (rendering : pool.workers worker = .rendering request) :
      Transition config pool
        ((pool.finishRender worker request (.completed result)).setWorker worker
          (.replying request result))
  /-- A render panics and ends its worker. -/
  | crashes {worker : Fin n} {request : RenderRequest}
      (rendering : pool.workers worker = .rendering request) :
      Transition config pool
        (((pool.finishRender worker request .panicked).updateCall request.responseTx fun call =>
          { call with response := .dropped }).endWorker worker .panicked)
  /-- A worker sends its result. -/
  | replies {worker : Fin n} {request : RenderRequest} {result : Except String String}
      (replying : pool.workers worker = .replying request result) :
      Transition config pool
        ((pool.updateCall request.responseTx fun call =>
          { call with response := .sent result }).setWorker worker .idle)
  /-- A worker without a request ends. -/
  | ends {worker : Fin n} {exit : Exit} (workerCount nextCore : Nat)
      (before : pool.workers worker = .leaving exit ∨
        ((pool.workers worker = .spawned ∨ pool.workers worker = .pinned) ∧ exit = .panicked)) :
      Transition config pool
        (endWorker { pool with workerCount := workerCount, nextCore := nextCore } worker exit)

/-! ### The release of the receiver -/

@[simp] theorem releaseReceiver_alive (pool : Pool n) :
    pool.releaseReceiver.alive = pool.alive := by
  unfold releaseReceiver
  split_ifs <;> rfl

@[simp] theorem releaseReceiver_workers (pool : Pool n) :
    pool.releaseReceiver.workers = pool.workers := by
  unfold releaseReceiver
  split_ifs <;> rfl

@[simp] theorem releaseReceiver_lockHolder (pool : Pool n) :
    pool.releaseReceiver.lockHolder = pool.lockHolder := by
  unfold releaseReceiver
  split_ifs <;> rfl

@[simp] theorem releaseReceiver_nextCall (pool : Pool n) :
    pool.releaseReceiver.nextCall = pool.nextCall := by
  unfold releaseReceiver
  split_ifs <;> rfl

@[simp] theorem releaseReceiver_finished (pool : Pool n) :
    pool.releaseReceiver.finished = pool.finished := by
  unfold releaseReceiver
  split_ifs <;> rfl

/-! ### What a step does to a worker -/

/-- A worker goes from one state to another in a step between the pools. -/
inductive Move (pool next : Pool n) (worker : Fin n) : Worker → Worker → Prop where
  | starts {before after : Worker} (spawned : before = .spawned ∨ before = .pinned)
      (reached : after = .pinned ∨ after = .idle ∨
        ∃ message, after = .leaving (.initFailed message)) : Move pool next worker before after
  | locks : Move pool next worker .idle .receiving
  | takes {before : Worker} (request : RenderRequest)
      (receiving : before = .receiving ∨ pool.lockHolder = some worker) :
      Move pool next worker before (.rendering request)
  | closes (dropped : pool.alive = false) (empty : pool.queue = []) :
      Move pool next worker .receiving (.leaving .disconnected)
  | completes {request : RenderRequest} {result : Except String String}
      (recorded : ⟨worker, request, .completed result⟩ ∈ next.finished) :
      Move pool next worker (.rendering request) (.replying request result)
  | crashes {request : RenderRequest} :
      Move pool next worker (.rendering request) (.ended .panicked)
  | replies {request : RenderRequest} {result : Except String String} :
      Move pool next worker (.replying request result) .idle
  | ends {before : Worker} {exit : Exit} (reason : before = .leaving exit ∨
        ((before = .spawned ∨ before = .pinned) ∧ exit = .panicked)) :
      Move pool next worker before (.ended exit)

section Workers

variable {config : V8PoolConfig} {pool next : Pool n}

theorem moves_of_update {worker : Fin n} {before after : Worker}
    (present : pool.workers worker = before)
    (updated : next.workers = Function.update pool.workers worker after)
    (move : Move pool next worker before after) (other : Fin n) :
    next.workers other = pool.workers other ∨
      Move pool next other (pool.workers other) (next.workers other) := by
  by_cases same : other = worker
  · subst same
    rw [updated, Function.update_self, present]
    exact Or.inr move
  · rw [updated, Function.update_of_ne same]
    exact Or.inl rfl

/-- A step moves at most one worker. -/
theorem Transition.moves (step : Transition config pool next) (other : Fin n) :
    next.workers other = pool.workers other ∨
      Move pool next other (pool.workers other) (next.workers other) := by
  cases step with
  | begins url data deadline alive => exact Or.inl rfl
  | retries => exact Or.inl rfl
  | givesUp present sending reason => exact Or.inl rfl
  | enqueues present sending room => exact Or.inl rfl
  | settles present waiting reason => exact Or.inl rfl
  | drops unborrowed => exact Or.inl (by rw [releaseReceiver_workers])
  | hands present sending rendezvous blocked =>
      exact moves_of_update rfl rfl (.takes _ (Or.inr blocked)) other
  | starts nextCore before after => exact moves_of_update rfl rfl (.starts before after) other
  | locks idle free => exact moves_of_update idle rfl .locks other
  | takes receiving queued =>
      exact moves_of_update receiving rfl (.takes _ (Or.inl rfl)) other
  | closes receiving empty dropped =>
      exact moves_of_update receiving rfl (.closes dropped empty) other
  | completes result rendering =>
      refine moves_of_update rendering rfl (.completes ?_) other
      exact List.mem_append_right _ (List.mem_singleton_self _)
  | crashes rendering =>
      exact moves_of_update rendering (releaseReceiver_workers _) .crashes other
  | replies replying => exact moves_of_update replying rfl .replies other
  | ends workerCount nextCore before =>
      exact moves_of_update rfl (releaseReceiver_workers _) (.ends before) other

/-- The history of finished renders only grows. -/
theorem Transition.finished_subset (step : Transition config pool next) :
    pool.finished ⊆ next.finished := by
  cases step with
  | drops unborrowed => rw [releaseReceiver_finished]; exact List.Subset.refl _
  | completes result rendering => exact List.subset_append_left _ _
  | crashes rendering =>
      rw [endWorker, releaseReceiver_finished]
      exact List.subset_append_left _ _
  | ends workerCount nextCore before =>
      rw [endWorker, releaseReceiver_finished]
      exact List.Subset.refl _
  | _ => exact List.Subset.refl _

/-- A render that is new in the history has ended its worker if it panicked. -/
theorem Transition.finished_cases (step : Transition config pool next) {rendering : Rendering n}
    (member : rendering ∈ next.finished) :
    rendering ∈ pool.finished ∨
      (rendering.outcome = .panicked → next.workers rendering.worker = .ended .panicked) := by
  cases step with
  | drops unborrowed =>
      rw [releaseReceiver_finished] at member
      exact Or.inl member
  | completes result started =>
      rcases List.mem_append.mp member with old | new
      · exact Or.inl old
      · rw [List.mem_singleton.mp new]
        exact Or.inr fun panicked => by contradiction
  | crashes started =>
      rw [endWorker, releaseReceiver_finished] at member
      rcases List.mem_append.mp member with old | new
      · exact Or.inl old
      · rw [List.mem_singleton.mp new, endWorker, releaseReceiver_workers]
        exact Or.inr fun _ => Function.update_self _ _ _
  | ends workerCount nextCore before =>
      rw [endWorker, releaseReceiver_finished] at member
      exact Or.inl member
  | _ => exact Or.inl member

end Workers

section Operations

variable {config : V8PoolConfig} {pool next : Pool n}

theorem trySend_transition {id : CallId} {now : Nat}
    (sent : pool.trySend config id now = some next) : Transition config pool next := by
  unfold trySend at sent
  split at sent
  · rename_i url data request deadline response accepted present
    rw [Option.some.injEq] at sent
    subst sent
    split
    · rename_i sentPool outcome
      unfold send at outcome
      split_ifs at outcome with _ rendezvous room
      · split at outcome
        · rename_i worker blocked
          obtain rfl := SendResult.ok.inj outcome
          exact .hands present rfl rendezvous blocked
        · contradiction
      · obtain rfl := SendResult.ok.inj outcome
        exact .enqueues present rfl room
    · split
      · split_ifs
        · exact .givesUp present rfl (Or.inl rfl)
        · exact .retries
      · exact .retries
    · rename_i outcome
      refine .givesUp present rfl (Or.inr (Or.inl ⟨rfl, ?_⟩))
      unfold send at outcome
      split_ifs at outcome with gone
      · exact gone
      · split at outcome <;> contradiction
  · contradiction

theorem cancel_transition {id : CallId} (cancelled : pool.cancel id = some next) :
    Transition config pool next := by
  unfold cancel at cancelled
  split at cancelled
  · rename_i present
    obtain rfl := Option.some.inj cancelled
    exact .givesUp present rfl (Or.inr (Or.inr rfl))
  · rename_i present
    obtain rfl := Option.some.inj cancelled
    exact .settles present rfl (Or.inl rfl)
  · contradiction

theorem receiveResponse_transition {id : CallId}
    (received : pool.receiveResponse id = some next) : Transition config pool next := by
  unfold receiveResponse at received
  split at received
  · rename_i present
    obtain ⟨result, awaited, rfl⟩ := Option.map_eq_some_iff.mp received
    exact .settles present rfl (Or.inr ⟨result, rfl, awaited⟩)
  · contradiction

theorem drop_transition (dropped : pool.drop = some next) : Transition config pool next := by
  unfold drop at dropped
  split_ifs at dropped with guard
  obtain rfl := Option.some.inj dropped
  refine .drops fun id below call present => ?_
  have unborrowed := guard.2 id below
  simpa [present] using unborrowed

theorem pin_transition {worker : Fin n} (pinned : pool.pin worker = some next) :
    Transition config pool next := by
  unfold pin at pinned
  split at pinned
  · rename_i spawned
    split at pinned
    · obtain rfl := Option.some.inj pinned
      exact .starts pool.nextCore (Or.inl spawned) (Or.inl rfl)
    · dsimp only at pinned
      split_ifs at pinned
      · obtain rfl := Option.some.inj pinned
        exact .ends pool.workerCount (pool.nextCore + 1) (Or.inr ⟨Or.inl spawned, rfl⟩)
      · obtain rfl := Option.some.inj pinned
        exact .starts (pool.nextCore + 1) (Or.inl spawned) (Or.inl rfl)
  · contradiction

theorem initRuntime_transition {worker : Fin n} {outcome : InitOutcome}
    (initialised : pool.initRuntime worker outcome = some next) : Transition config pool next := by
  unfold initRuntime at initialised
  split at initialised
  · rename_i pinned
    cases outcome with
    | ok =>
        obtain rfl := Option.some.inj initialised
        exact .starts pool.nextCore (Or.inr pinned) (Or.inr (Or.inl rfl))
    | err message =>
        obtain rfl := Option.some.inj initialised
        exact .starts pool.nextCore (Or.inr pinned) (Or.inr (Or.inr ⟨message, rfl⟩))
    | panicked =>
        obtain rfl := Option.some.inj initialised
        exact .ends pool.workerCount pool.nextCore (Or.inr ⟨Or.inr pinned, rfl⟩)
  · contradiction

theorem lock_transition {worker : Fin n} (locked : pool.lock worker = some next) :
    Transition config pool next := by
  unfold lock at locked
  split at locked
  · rename_i idle free
    obtain rfl := Option.some.inj locked
    exact .locks idle free
  · contradiction

theorem recv_transition {worker : Fin n} (received : pool.recv worker = some next) :
    Transition config pool next := by
  unfold recv at received
  split at received
  · rename_i receiving
    split at received
    · rename_i queued
      obtain rfl := Option.some.inj received
      exact .takes receiving queued
    · rename_i empty
      split_ifs at received with alive
      obtain rfl := Option.some.inj received
      exact .closes receiving empty (Bool.eq_false_iff.mpr alive)
  · contradiction

theorem render_transition {worker : Fin n} {outcome : RenderOutcome}
    (rendered : pool.render worker outcome = some next) : Transition config pool next := by
  unfold render at rendered
  split at rendered
  · rename_i rendering
    obtain rfl := Option.some.inj rendered
    cases outcome with
    | completed result => exact .completes result rendering
    | panicked => exact .crashes rendering
  · contradiction

theorem reply_transition {worker : Fin n} (replied : pool.reply worker = some next) :
    Transition config pool next := by
  unfold reply at replied
  split at replied
  · rename_i replying
    obtain rfl := Option.some.inj replied
    exact .replies replying
  · contradiction

theorem leave_transition {worker : Fin n} (left : pool.leave worker = some next) :
    Transition config pool next := by
  unfold leave at left
  split at left
  · rename_i leaving
    obtain rfl := Option.some.inj left
    exact .ends (pool.workerCount - 1) pool.nextCore (Or.inl leaving)
  · contradiction

theorem Transition.alive (step : Transition config pool next) (alive : next.alive = true) :
    pool.alive = true := by
  cases step with
  | begins url data deadline before => exact before
  | drops unborrowed => simp at alive
  | crashes rendering => simpa [endWorker, setWorker, updateCall, finishRender] using alive
  | ends workerCount nextCore before => simpa [endWorker, setWorker] using alive
  | _ => exact alive

/-- While the pool exists, no attempt to send is refused as disconnected. -/
theorem send_ne_disconnected (alive : pool.alive = true) (request : RenderRequest) :
    pool.send config request ≠ .disconnected := by
  have owned : pool.receiverAlive = true := by simp [receiverAlive, alive]
  unfold send
  rw [if_neg (by simp [owned])]
  split_ifs
  · split <;> simp
  · simp
  · simp

end Operations

/-- Every step of the pool is one of the listed transitions. -/
theorem step_transition {config : V8PoolConfig} {pool next : Pool n} {event : Event n}
    (stepped : pool.step config event = some next) : Transition config pool next := by
  cases event with
  | call url data now =>
      change pool.call config url data now = some next at stepped
      unfold call at stepped
      split_ifs at stepped with alive
      obtain rfl := Option.some.inj stepped
      exact .begins url data _ alive
  | trySend id now => exact trySend_transition stepped
  | cancel id => exact cancel_transition stepped
  | receiveResponse id => exact receiveResponse_transition stepped
  | drop => exact drop_transition stepped
  | pin worker => exact pin_transition stepped
  | initRuntime worker outcome => exact initRuntime_transition stepped
  | lock worker => exact lock_transition stepped
  | recv worker => exact recv_transition stepped
  | render worker outcome => exact render_transition stepped
  | reply worker => exact reply_transition stepped
  | leave worker => exact leave_transition stepped

end RustySsr.V8Pool.Pool
