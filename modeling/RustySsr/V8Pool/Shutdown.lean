import RustySsr.V8Pool.Soundness

/-!
Owns what happens when every worker thread has ended. The pool itself keeps a
handle of the request receiver, so the channel stays connected as long as the
pool exists: a pool without workers accepts requests that nobody answers.
`refusesWhenDead_iff` states the exact condition under which no run gets there.
-/

namespace RustySsr.V8Pool.Pool

open RustySsr.Foundation

variable {n : Nat}

def NoWorkerLeft (pool : Pool n) : Prop := ∀ worker, (pool.workers worker).hasEnded = true

/-- Once no worker is left, no accepted call waits without an answer, and the
first attempt of a new call is refused as disconnected. -/
def RefusesWhenDead (config : V8PoolConfig) (pool : Pool n) : Prop :=
  pool.NoWorkerLeft →
    (∀ id call, pool.calls id = some call → call.accepted = true → call.phase = .waiting →
        call.response ≠ .pending) ∧
      ∀ url data now called, pool.call config url data now = some called →
        ∃ tried call, called.trySend config pool.nextCall now = some tried ∧
          tried.calls pool.nextCall = some call ∧
          call.phase = .returned (.error .disconnected)

/-- The event ends this worker thread. -/
def EndsWorker (pool : Pool n) (event : Event n) (worker : Fin n) : Prop :=
  match event with
  | .pin ending => ending = worker ∧ pool.workers ending = .spawned ∧ pool.coreAffinity = some []
  | .initRuntime ending .panicked => ending = worker ∧ pool.workers ending = .pinned
  | .render ending .panicked => ending = worker ∧
      ∃ request, pool.workers ending = .rendering request
  | .leave ending => ending = worker ∧ ∃ exit, pool.workers ending = .leaving exit
  | _ => False

/-- While the pool exists, the event does not end its last living worker. -/
def KeepsAWorker (pool : Pool n) (event : Event n) : Prop :=
  pool.alive = true → ∀ worker, pool.EndsWorker event worker →
    ∃ other, other ≠ worker ∧ (pool.workers other).hasEnded = false

section Steps

variable {config : V8PoolConfig} {pool next : Pool n} {event : Event n}

theorem setWorker_hasEnded {changed worker : Fin n} {state : Worker}
    (ended : ((pool.setWorker changed state).workers worker).hasEnded = true) :
    (pool.workers worker).hasEnded = true ∨ (changed = worker ∧ state.hasEnded = true) := by
  by_cases same : worker = changed
  · subst same
    exact Or.inr ⟨rfl, by simpa [setWorker] using ended⟩
  · exact Or.inl (by simpa [setWorker, same] using ended)

/-- A worker that goes on to a living state has not ended there. -/
theorem setWorker_living {changed worker : Fin n} {state : Worker} (living : state.hasEnded = false)
    (ended : ((pool.setWorker changed state).workers worker).hasEnded = true) :
    (pool.workers worker).hasEnded = true := by
  refine (setWorker_hasEnded ended).resolve_right fun moved => ?_
  rw [living] at moved
  exact Bool.false_ne_true moved.2

theorem endWorker_hasEnded {ending worker : Fin n} {exit : Exit}
    (ended : ((pool.endWorker ending exit).workers worker).hasEnded = true) :
    (pool.workers worker).hasEnded = true ∨ ending = worker := by
  rw [endWorker, releaseReceiver_workers] at ended
  exact (setWorker_hasEnded ended).imp_right And.left

/-! A worker that has ended after one of the operations had ended before it, or
is ended by it. -/

theorem trySend_hasEnded {id : CallId} {now : Nat} {worker : Fin n}
    (sent : pool.trySend config id now = some next)
    (ended : (next.workers worker).hasEnded = true) :
    (pool.workers worker).hasEnded = true := by
  unfold trySend at sent
  split at sent
  · rw [Option.some.injEq] at sent
    subst sent
    split at ended
    · rename_i sentPool outcome
      change (sentPool.workers worker).hasEnded = true at ended
      unfold send at outcome
      split_ifs at outcome
      · split at outcome
        · obtain rfl := SendResult.ok.inj outcome
          exact setWorker_living rfl ended
        · contradiction
      · obtain rfl := SendResult.ok.inj outcome
        exact ended
    · split at ended
      · split_ifs at ended <;> exact ended
      · exact ended
    · exact ended
  · contradiction

theorem pin_hasEnded {starting worker : Fin n} (pinned : pool.pin starting = some next)
    (ended : (next.workers worker).hasEnded = true) :
    (pool.workers worker).hasEnded = true ∨ pool.EndsWorker (.pin starting) worker := by
  unfold pin at pinned
  split at pinned
  · rename_i spawned
    split at pinned
    · obtain rfl := Option.some.inj pinned
      exact Or.inl (setWorker_living rfl ended)
    · rename_i cores affinity
      dsimp only at pinned
      split_ifs at pinned with none
      · obtain rfl := Option.some.inj pinned
        rw [List.length_eq_zero_iff] at none
        subst none
        exact (endWorker_hasEnded ended).imp id fun same => ⟨same, spawned, affinity⟩
      · obtain rfl := Option.some.inj pinned
        exact Or.inl (setWorker_living rfl ended)
  · contradiction

theorem initRuntime_hasEnded {starting worker : Fin n} {outcome : InitOutcome}
    (initialised : pool.initRuntime starting outcome = some next)
    (ended : (next.workers worker).hasEnded = true) :
    (pool.workers worker).hasEnded = true ∨
      pool.EndsWorker (.initRuntime starting outcome) worker := by
  unfold initRuntime at initialised
  split at initialised
  · rename_i pinned
    cases outcome with
    | ok =>
        obtain rfl := Option.some.inj initialised
        exact Or.inl (setWorker_living rfl ended)
    | err message =>
        obtain rfl := Option.some.inj initialised
        exact Or.inl (setWorker_living rfl ended)
    | panicked =>
        obtain rfl := Option.some.inj initialised
        exact (endWorker_hasEnded ended).imp id fun same => ⟨same, pinned⟩
  · contradiction

theorem recv_hasEnded {receiving worker : Fin n} (received : pool.recv receiving = some next)
    (ended : (next.workers worker).hasEnded = true) :
    (pool.workers worker).hasEnded = true := by
  unfold recv at received
  split at received
  · split at received
    · obtain rfl := Option.some.inj received
      exact setWorker_living rfl ended
    · split_ifs at received
      obtain rfl := Option.some.inj received
      exact setWorker_living rfl ended
  · contradiction

theorem render_hasEnded {rendering worker : Fin n} {outcome : RenderOutcome}
    (rendered : pool.render rendering outcome = some next)
    (ended : (next.workers worker).hasEnded = true) :
    (pool.workers worker).hasEnded = true ∨
      pool.EndsWorker (.render rendering outcome) worker := by
  unfold render at rendered
  split at rendered
  · rename_i request started
    obtain rfl := Option.some.inj rendered
    cases outcome with
    | completed result => exact Or.inl (setWorker_living rfl ended)
    | panicked => exact (endWorker_hasEnded ended).imp id fun same => ⟨same, request, started⟩
  · contradiction

/-- A worker that has ended after a step had ended before it, or is ended by it. -/
theorem step_hasEnded (stepped : pool.step config event = some next) (worker : Fin n)
    (ended : (next.workers worker).hasEnded = true) :
    (pool.workers worker).hasEnded = true ∨ pool.EndsWorker event worker := by
  cases event with
  | call url data now =>
      change pool.call config url data now = some next at stepped
      unfold call at stepped
      split_ifs at stepped
      obtain rfl := Option.some.inj stepped
      exact Or.inl ended
  | trySend id now => exact Or.inl (trySend_hasEnded stepped ended)
  | cancel id =>
      change pool.cancel id = some next at stepped
      unfold cancel at stepped
      split at stepped <;> cases stepped <;> exact Or.inl ended
  | receiveResponse id =>
      change pool.receiveResponse id = some next at stepped
      unfold receiveResponse at stepped
      split at stepped
      · obtain ⟨result, _, rfl⟩ := Option.map_eq_some_iff.mp stepped
        exact Or.inl ended
      · contradiction
  | drop =>
      change pool.drop = some next at stepped
      unfold drop at stepped
      split_ifs at stepped
      obtain rfl := Option.some.inj stepped
      rw [releaseReceiver_workers] at ended
      exact Or.inl ended
  | pin starting => exact pin_hasEnded stepped ended
  | initRuntime starting outcome => exact initRuntime_hasEnded stepped ended
  | lock locking =>
      change pool.lock locking = some next at stepped
      unfold lock at stepped
      split at stepped
      · obtain rfl := Option.some.inj stepped
        exact Or.inl (setWorker_living rfl ended)
      · contradiction
  | recv receiving => exact Or.inl (recv_hasEnded stepped ended)
  | render rendering outcome => exact render_hasEnded stepped ended
  | reply replying =>
      change pool.reply replying = some next at stepped
      unfold reply at stepped
      split at stepped
      · obtain rfl := Option.some.inj stepped
        exact Or.inl (setWorker_living rfl ended)
      · contradiction
  | leave leaving =>
      change pool.leave leaving = some next at stepped
      unfold leave at stepped
      split at stepped
      · rename_i exit left
        obtain rfl := Option.some.inj stepped
        exact (endWorker_hasEnded ended).imp id fun same => ⟨same, exit, left⟩
      · contradiction

theorem endsWorker_unique {worker other : Fin n} (ends : pool.EndsWorker event worker)
    (otherEnds : pool.EndsWorker event other) : worker = other := by
  cases event with
  | pin starting => exact ends.1.symm.trans otherEnds.1
  | initRuntime starting outcome =>
      cases outcome with
      | panicked => exact ends.1.symm.trans otherEnds.1
      | ok => exact ends.elim
      | err message => exact ends.elim
  | render rendering outcome =>
      cases outcome with
      | panicked => exact ends.1.symm.trans otherEnds.1
      | completed result => exact ends.elim
  | leave leaving => exact ends.1.symm.trans otherEnds.1
  | _ => exact ends.elim

/-- A step that ends the last living worker leaves none, and the pool as it was. -/
theorem noWorkerLeft_of_endsWorker (stepped : pool.step config event = some next) {worker : Fin n}
    (ends : pool.EndsWorker event worker)
    (last : ∀ other, other ≠ worker → (pool.workers other).hasEnded = true) :
    next.NoWorkerLeft ∧ next.alive = pool.alive := by
  have ended : ∀ (changed : Pool n) (exit : Exit), changed.workers = pool.workers →
      (changed.endWorker worker exit).NoWorkerLeft := by
    intro changed exit sameWorkers other
    rw [endWorker, releaseReceiver_workers]
    by_cases same : other = worker
    · subst same
      simp [setWorker, Worker.hasEnded]
    · simpa [setWorker, same, sameWorkers] using last other same
  have alive : ∀ (changed : Pool n) (exit : Exit), changed.alive = pool.alive →
      (changed.endWorker worker exit).alive = pool.alive := by
    intro changed exit sameAlive
    rw [endWorker, releaseReceiver_alive]
    exact sameAlive
  cases event with
  | pin starting =>
      obtain ⟨rfl, spawned, affinity⟩ := ends
      simp only [step, pin, spawned, affinity, List.length_nil, if_true,
        Option.some.injEq] at stepped
      subst stepped
      exact ⟨ended _ _ rfl, alive _ _ rfl⟩
  | initRuntime starting outcome =>
      cases outcome with
      | panicked =>
          obtain ⟨rfl, pinned⟩ := ends
          simp only [step, initRuntime, pinned, Option.some.injEq] at stepped
          subst stepped
          exact ⟨ended _ _ rfl, alive _ _ rfl⟩
      | ok => exact ends.elim
      | err message => exact ends.elim
  | render rendering outcome =>
      cases outcome with
      | panicked =>
          obtain ⟨rfl, request, started⟩ := ends
          simp only [step, render, started, Option.some.injEq] at stepped
          subst stepped
          exact ⟨ended _ _ rfl, alive _ _ rfl⟩
      | completed result => exact ends.elim
  | leave leaving =>
      obtain ⟨rfl, exit, left⟩ := ends
      simp only [step, leave, left, Option.some.injEq] at stepped
      subst stepped
      exact ⟨ended _ _ rfl, alive _ _ rfl⟩
  | _ => exact ends.elim

/-- A pool that exists without a worker does not refuse what it should. -/
theorem not_refusesWhenDead (alive : pool.alive = true) (dead : pool.NoWorkerLeft) :
    ¬ RefusesWhenDead config pool := by
  intro refuses
  have called : pool.call config "" "" 0 = some { pool with
      calls := Function.update pool.calls pool.nextCall
        (some ⟨"", "", .sending ⟨"", "", config.renderFunction, pool.nextCall⟩
          (config.requestTimeout.map fun timeout => 0 + timeout), .pending, false⟩)
      nextCall := pool.nextCall + 1 } := by
    simp [call, alive]
  obtain ⟨tried, result, attempt, present, refused⟩ := (refuses dead).2 "" "" 0 _ called
  simp only [trySend, Function.update_self, Option.some.injEq] at attempt
  subst attempt
  split at present
  · rename_i sentPool outcome
    simp only [updateCall, Function.update_self, Option.map_eq_some_iff] at present
    obtain ⟨_, _, rfl⟩ := present
    contradiction
  · split at present
    · split_ifs at present
      · simp only [giveUp, updateCall, Function.update_self, Option.map_some,
          Option.some.injEq] at present
        subst present
        simp at refused
      · simp only [Function.update_self, Option.some.injEq] at present
        subst present
        simp at refused
    · simp only [Function.update_self, Option.some.injEq] at present
      subst present
      simp at refused
  · rename_i outcome
    refine absurd outcome (send_ne_disconnected ?_ _)
    exact alive

end Steps

/-- **No request is accepted by a dead pool, exactly when the pool never loses
its last worker.** In every state of a run, a pool without living workers
answers or refuses all calls if and only if no step of the run ends the last
living worker while the pool exists. -/
theorem refusesWhenDead_iff {config : V8PoolConfig} {coreIds : Option (List Nat)}
    (threads : 1 ≤ config.numThreads) {events : List (Event config.numThreads)}
    {final : Pool config.numThreads}
    (executed : Execution.exec (step config) (new config coreIds) events = some final) :
    (∀ earlier later pool, events = earlier ++ later →
        Execution.exec (step config) (new config coreIds) earlier = some pool →
          RefusesWhenDead config pool) ↔
      Execution.ExecGuarded (step config) KeepsAWorker (new config coreIds) events := by
  constructor
  · intro refuses earlier event later middle split reached alive worker ends
    by_contra none
    have last : ∀ other, other ≠ worker → (middle.workers other).hasEnded = true := by
      intro other different
      by_contra living
      exact none ⟨other, different, by simpa using living⟩
    have splitNext : events = (earlier ++ [event]) ++ later := by simp [split]
    obtain ⟨next, stepped, executedNext⟩ :=
      Execution.exec_next_of_reached _ (split ▸ executed) reached
    obtain ⟨dead, sameAlive⟩ := noWorkerLeft_of_endsWorker stepped ends last
    exact not_refusesWhenDead (sameAlive.trans alive) dead
      (refuses (earlier ++ [event]) later next splitNext executedNext)
  · rintro keeps earlier later pool rfl reached
    have living : pool.alive = true → ¬ pool.NoWorkerLeft := by
      refine Execution.exec_invariant (fun _ current => current.alive = true →
        ¬ current.NoWorkerLeft) ?_ ?_ keeps.initial reached
      · intro _ dead
        have ended := dead ⟨0, threads⟩
        simp [new, initial, Worker.hasEnded] at ended
      · intro _ current event next livingNow kept stepped alive dead
        have wasAlive := (step_transition stepped).alive alive
        refine livingNow wasAlive fun worker => ?_
        by_contra wasLiving
        have ends := (step_hasEnded stepped worker (dead worker)).resolve_left wasLiving
        obtain ⟨other, different, otherLiving⟩ := kept wasAlive worker ends
        have otherEnds := (step_hasEnded stepped other (dead other)).resolve_left (by
          simp [otherLiving])
        exact different (endsWorker_unique otherEnds ends)
    have sound := sound_of_exec reached
    intro dead
    have dropped : pool.alive = false := by
      by_contra alive
      exact living (by simpa using alive) dead
    refine ⟨fun id call present accepted waiting => ?_, fun url data now called begun => ?_⟩
    · have alive := sound.borrowed id call present (by simp [Call.inFlight, waiting])
      rw [dropped] at alive
      contradiction
    · simp [call, dropped] at begun

/-- A pool of two workers survives the failed start of one of them. -/
theorem refuses_after_one_failed_start :
    ∃ pool : Pool 2,
      Execution.exec (step ⟨2, 4, false, none, "renderPage"⟩)
        (new ⟨2, 4, false, none, "renderPage"⟩ none)
        [.pin 0, .initRuntime 0 (.err "bundle"), .leave 0] = some pool ∧
      RefusesWhenDead ⟨2, 4, false, none, "renderPage"⟩ pool := by
  obtain ⟨pool, executed⟩ := Option.isSome_iff_exists.mp (show (Execution.exec
    (step ⟨2, 4, false, none, "renderPage"⟩) (new ⟨2, 4, false, none, "renderPage"⟩ none)
    [.pin 0, .initRuntime 0 (.err "bundle"), .leave 0]).isSome = true from rfl)
  refine ⟨pool, executed, (refusesWhenDead_iff (by decide) executed).mpr ?_ _ [] pool
    (by simp) executed⟩
  refine Execution.execGuarded_cons_some (fun _ _ ends => ?_) rfl ?_
  · exact absurd ends.2.2 (by simp [new, initial])
  refine Execution.execGuarded_cons_some (fun _ _ ends => ends.elim) rfl ?_
  refine Execution.execGuarded_cons (fun _ worker ends => ?_) fun _ _ =>
    Execution.execGuarded_nil _ _
  obtain ⟨rfl, _⟩ := ends
  exact ⟨1, by decide, rfl⟩

/-- A worker whose runtime fails to start leaves a pool that accepts a request
which nobody will answer. -/
theorem dead_pool_accepts :
    ¬ ∀ (config : V8PoolConfig) coreIds events pool, 1 ≤ config.numThreads →
      1 ≤ config.queueCapacity →
        Execution.exec (step config) (new config coreIds) events = some pool →
          RefusesWhenDead config pool := by
  intro refuses
  obtain ⟨pool, executed, dead, call, present, accepted, waiting, pending⟩ : ∃ pool,
      Execution.exec (step ⟨1, 1, false, none, "renderPage"⟩)
        (new ⟨1, 1, false, none, "renderPage"⟩ none)
        [.pin 0, .initRuntime 0 (.err "bundle"), .leave 0, .call "/a" "{}" 0, .trySend 0 0] =
          some pool ∧
      pool.NoWorkerLeft ∧ ∃ call, pool.calls 0 = some call ∧ call.accepted = true ∧
        call.phase = .waiting ∧ call.response = .pending :=
    ⟨_, rfl, Fin.forall_fin_one.mpr rfl, _, rfl, rfl, rfl, rfl⟩
  exact (refuses _ none _ pool (by decide) (by decide) executed dead).1 0 call present accepted
    waiting pending

end RustySsr.V8Pool.Pool
