import RustySsr.Foundation.Census
import RustySsr.V8Pool.Soundness

/-!
Owns what `worker_count` counts. A worker is counted from its spawn; the two
exits by hand lower the count, and a panic does not. `workerCount_iff` states
that the count is the number of living workers exactly as long as no worker has
panicked.
-/

namespace RustySsr.V8Pool.Pool

open RustySsr.Foundation

variable {n : Nat}

def livingWorker (worker : Worker) : Nat := if worker.hasEnded then 0 else 1

/-- The number of worker threads that have been spawned and not ended. -/
def living (pool : Pool n) : Nat := census livingWorker pool.workers

def crashedWorker : Worker → Nat
  | .ended .panicked => 1
  | _ => 0

/-- The number of worker threads that a panic has ended. -/
def crashed (pool : Pool n) : Nat := census crashedWorker pool.workers

/-- The event makes a worker panic: while pinning with an empty list of cores,
while the runtime starts, or while a render runs. -/
def Panics (pool : Pool n) : Event n → Prop
  | .pin worker => pool.workers worker = .spawned ∧ pool.coreAffinity = some []
  | .initRuntime _ .panicked => True
  | .render _ .panicked => True
  | _ => False

/-- What a step does to the workers and to their count. -/
inductive WorkerChange (pool next : Pool n) (event : Event n) : Prop where
  | none (same : next.workers = pool.workers) (count : next.workerCount = pool.workerCount)
      (calm : ¬ pool.Panics event)
  | goesOn {worker : Fin n} {after : Worker} (living : (pool.workers worker).hasEnded = false)
      (updated : next.workers = Function.update pool.workers worker after)
      (stays : after.hasEnded = false) (orderly : after ≠ .leaving .panicked)
      (count : next.workerCount = pool.workerCount) (calm : ¬ pool.Panics event)
  | panics {worker : Fin n} (living : (pool.workers worker).hasEnded = false)
      (updated : next.workers = Function.update pool.workers worker (.ended .panicked))
      (count : next.workerCount = pool.workerCount) (panics : pool.Panics event)
  | leaves {worker : Fin n} {exit : Exit} (leaving : pool.workers worker = .leaving exit)
      (updated : next.workers = Function.update pool.workers worker (.ended exit))
      (count : next.workerCount = pool.workerCount - 1) (calm : ¬ pool.Panics event)

section Steps

variable {config : V8PoolConfig} {pool next : Pool n} {event : Event n}

@[simp] theorem releaseReceiver_workerCount (pool : Pool n) :
    pool.releaseReceiver.workerCount = pool.workerCount := by
  unfold releaseReceiver
  split_ifs <;> rfl

theorem trySend_workers {id : CallId} {now : Nat} (sound : Sound config pool)
    (sent : pool.trySend config id now = some next) :
    WorkerChange pool next (.trySend id now) := by
  unfold trySend at sent
  split at sent
  · rw [Option.some.injEq] at sent
    subst sent
    split
    · rename_i sentPool outcome
      unfold send at outcome
      split_ifs at outcome
      · split at outcome
        · rename_i worker blocked
          obtain rfl := SendResult.ok.inj outcome
          have receiving := (sound.lock worker).mp blocked
          exact .goesOn (by rw [receiving]; rfl) rfl rfl Worker.noConfusion rfl not_false
        · contradiction
      · obtain rfl := SendResult.ok.inj outcome
        exact .none rfl rfl not_false
    · split
      · split_ifs <;> exact .none rfl rfl not_false
      · exact .none rfl rfl not_false
    · exact .none rfl rfl not_false
  · contradiction

theorem pin_workers {worker : Fin n} (pinned : pool.pin worker = some next) :
    WorkerChange pool next (.pin worker) := by
  unfold pin at pinned
  split at pinned
  · rename_i spawned
    have living : (pool.workers worker).hasEnded = false := by rw [spawned]; rfl
    split at pinned
    · rename_i unpinned
      obtain rfl := Option.some.inj pinned
      exact .goesOn living rfl rfl Worker.noConfusion rfl
        (fun panics => Option.some_ne_none _ (panics.2.symm.trans unpinned))
    · rename_i cores affinity
      dsimp only at pinned
      split_ifs at pinned with empty
      · obtain rfl := Option.some.inj pinned
        exact .panics living (releaseReceiver_workers _) (releaseReceiver_workerCount _)
          ⟨spawned, by rw [affinity, List.length_eq_zero_iff.mp empty]⟩
      · obtain rfl := Option.some.inj pinned
        refine .goesOn living rfl rfl Worker.noConfusion rfl fun panics => empty ?_
        rw [Option.some.inj (affinity.symm.trans panics.2)]
        rfl
  · contradiction

theorem initRuntime_workers {worker : Fin n} {outcome : InitOutcome}
    (started : pool.initRuntime worker outcome = some next) :
    WorkerChange pool next (.initRuntime worker outcome) := by
  unfold initRuntime at started
  split at started
  · rename_i pinned
    have living : (pool.workers worker).hasEnded = false := by rw [pinned]; rfl
    cases outcome with
    | ok =>
        obtain rfl := Option.some.inj started
        exact .goesOn living rfl rfl Worker.noConfusion rfl not_false
    | err message =>
        obtain rfl := Option.some.inj started
        exact .goesOn living rfl rfl (by simp) rfl not_false
    | panicked =>
        obtain rfl := Option.some.inj started
        exact .panics living (releaseReceiver_workers _) (releaseReceiver_workerCount _) trivial
  · contradiction

theorem recv_workers {worker : Fin n} (received : pool.recv worker = some next) :
    WorkerChange pool next (.recv worker) := by
  unfold recv at received
  split at received
  · rename_i receiving
    have living : (pool.workers worker).hasEnded = false := by rw [receiving]; rfl
    split at received
    · obtain rfl := Option.some.inj received
      exact .goesOn living rfl rfl Worker.noConfusion rfl not_false
    · split_ifs at received
      obtain rfl := Option.some.inj received
      exact .goesOn living rfl rfl (by simp) rfl not_false
  · contradiction

theorem render_workers {worker : Fin n} {outcome : RenderOutcome}
    (rendered : pool.render worker outcome = some next) :
    WorkerChange pool next (.render worker outcome) := by
  unfold render at rendered
  split at rendered
  · rename_i rendering
    have living : (pool.workers worker).hasEnded = false := by rw [rendering]; rfl
    obtain rfl := Option.some.inj rendered
    cases outcome with
    | completed result => exact .goesOn living rfl rfl Worker.noConfusion rfl not_false
    | panicked =>
        exact .panics living (releaseReceiver_workers _) (releaseReceiver_workerCount _) trivial
  · contradiction

/-- Every step changes the workers and their count in one of the ways listed. -/
theorem step_workers (sound : Sound config pool)
    (stepped : pool.step config event = some next) : WorkerChange pool next event := by
  cases event with
  | call url data now =>
      change pool.call config url data now = some next at stepped
      unfold call at stepped
      split_ifs at stepped
      obtain rfl := Option.some.inj stepped
      exact .none rfl rfl not_false
  | trySend id now => exact trySend_workers sound stepped
  | cancel id =>
      change pool.cancel id = some next at stepped
      unfold cancel at stepped
      split at stepped <;> cases stepped <;> exact .none rfl rfl not_false
  | receiveResponse id =>
      change pool.receiveResponse id = some next at stepped
      unfold receiveResponse at stepped
      split at stepped
      · obtain ⟨result, _, rfl⟩ := Option.map_eq_some_iff.mp stepped
        exact .none rfl rfl not_false
      · contradiction
  | drop =>
      change pool.drop = some next at stepped
      unfold drop at stepped
      split_ifs at stepped
      obtain rfl := Option.some.inj stepped
      exact .none (releaseReceiver_workers _) (releaseReceiver_workerCount _) not_false
  | pin worker => exact pin_workers stepped
  | initRuntime worker outcome => exact initRuntime_workers stepped
  | lock worker =>
      change pool.lock worker = some next at stepped
      unfold lock at stepped
      split at stepped
      · rename_i idle _
        obtain rfl := Option.some.inj stepped
        exact .goesOn (by rw [idle]; rfl) rfl rfl Worker.noConfusion rfl not_false
      · contradiction
  | recv worker => exact recv_workers stepped
  | render worker outcome => exact render_workers stepped
  | reply worker =>
      change pool.reply worker = some next at stepped
      unfold reply at stepped
      split at stepped
      · rename_i replying
        obtain rfl := Option.some.inj stepped
        exact .goesOn (by rw [replying]; rfl) rfl rfl Worker.noConfusion rfl not_false
      · contradiction
  | leave worker =>
      change pool.leave worker = some next at stepped
      unfold leave at stepped
      split at stepped
      · rename_i exit leaving
        obtain rfl := Option.some.inj stepped
        exact .leaves leaving (releaseReceiver_workers _) (releaseReceiver_workerCount _) not_false
      · contradiction

section Count

/-- The exits by hand are no panics. -/
def Orderly (pool : Pool n) : Prop := ∀ worker, pool.workers worker ≠ .leaving .panicked

/-- Every worker that is counted lives or has crashed. -/
def Counted (pool : Pool n) : Prop := pool.workerCount = pool.living + pool.crashed

variable {worker : Fin n} {after : Worker}

theorem living_update
    (updated : next.workers = Function.update pool.workers worker after) :
    next.living + livingWorker (pool.workers worker) = pool.living + livingWorker after := by
  unfold living
  rw [updated]
  exact census_update livingWorker pool.workers worker after

theorem crashed_update
    (updated : next.workers = Function.update pool.workers worker after) :
    next.crashed + crashedWorker (pool.workers worker) = pool.crashed + crashedWorker after := by
  unfold crashed
  rw [updated]
  exact census_update crashedWorker pool.workers worker after

theorem livingWorker_of_living {state : Worker} (living : state.hasEnded = false) :
    livingWorker state = 1 := by
  simp [livingWorker, living]

theorem crashedWorker_of_living {state : Worker} (living : state.hasEnded = false) :
    crashedWorker state = 0 := by
  cases state <;> first | rfl | contradiction

theorem crashedWorker_of_ne {exit : Exit} (orderly : exit ≠ .panicked) :
    crashedWorker (.ended exit) = 0 := by
  cases exit <;> first | rfl | contradiction

theorem WorkerChange.orderly (change : WorkerChange pool next event) (orderly : pool.Orderly) :
    next.Orderly := by
  intro other
  cases change with
  | none same count calm => exact same ▸ orderly other
  | @goesOn worker after living updated stays afterOrderly count calm =>
      rw [updated]
      by_cases same : other = worker
      · subst same
        simpa using afterOrderly
      · simpa [Function.update_of_ne same] using orderly other
  | @panics worker living updated count panics =>
      rw [updated]
      by_cases same : other = worker
      · subst same
        simp
      · simpa [Function.update_of_ne same] using orderly other
  | @leaves worker exit leaving updated count calm =>
      rw [updated]
      by_cases same : other = worker
      · subst same
        simp
      · simpa [Function.update_of_ne same] using orderly other

/-- A worker stays counted until it leaves, and a panic is no leaving. -/
theorem WorkerChange.counted (change : WorkerChange pool next event) (orderly : pool.Orderly)
    (counted : pool.Counted) :
    next.Counted ∧ (next.crashed = 0 ↔ pool.crashed = 0 ∧ ¬ pool.Panics event) := by
  unfold Counted at counted ⊢
  cases change with
  | none same count calm =>
      simp [living, crashed, same, count, calm, counted]
  | goesOn isLiving updated stays _ count calm =>
      have livingSame := living_update updated
      have crashedSame := crashed_update updated
      rw [livingWorker_of_living isLiving, livingWorker_of_living stays] at livingSame
      rw [crashedWorker_of_living isLiving, crashedWorker_of_living stays] at crashedSame
      simp only [calm, not_false_eq_true, and_true]
      omega
  | panics isLiving updated count panics =>
      have livingLess := living_update updated
      have crashedMore := crashed_update updated
      rw [livingWorker_of_living isLiving] at livingLess
      rw [crashedWorker_of_living isLiving] at crashedMore
      simp only [panics, not_true_eq_false, and_false, iff_false]
      simp only [livingWorker, Worker.hasEnded, crashedWorker, if_true] at livingLess crashedMore
      omega
  | @leaves worker exit leaving updated count calm =>
      have isLiving : (pool.workers worker).hasEnded = false := by rw [leaving]; rfl
      have exitOrderly : exit ≠ .panicked := by
        rintro rfl
        exact orderly worker leaving
      have livingLess := living_update updated
      have crashedSame := crashed_update updated
      rw [livingWorker_of_living isLiving] at livingLess
      rw [crashedWorker_of_living isLiving, crashedWorker_of_ne exitOrderly] at crashedSame
      simp only [calm, not_false_eq_true, and_true]
      simp only [livingWorker, Worker.hasEnded, if_true] at livingLess
      omega

end Count

end Steps

theorem counted_new (config : V8PoolConfig) (coreIds : Option (List Nat)) :
    (new config coreIds).Orderly ∧ (new config coreIds).Counted ∧
      (new config coreIds).crashed = 0 := by
  simp [Orderly, Counted, living, crashed, census, new, initial, livingWorker, crashedWorker,
    Worker.hasEnded]

/-- In every state of a run, each worker that is counted lives or has crashed. -/
theorem counted_of_exec {config : V8PoolConfig} {coreIds : Option (List Nat)}
    {events : List (Event config.numThreads)} {pool : Pool config.numThreads}
    (executed : Execution.exec (step config) (new config coreIds) events = some pool) :
    Sound config pool ∧ pool.Orderly ∧ pool.Counted := by
  refine Execution.exec_invariant_always
    (fun _ current => Sound config current ∧ current.Orderly ∧ current.Counted) ?_ ?_ executed
  · have start := counted_new config coreIds
    exact ⟨sound_initial config _ _, start.1, start.2.1⟩
  · rintro _ current event next ⟨sound, orderly, counted⟩ stepped
    have change := step_workers sound stepped
    exact ⟨sound.transition (step_transition stepped), change.orderly orderly,
      (change.counted orderly counted).1⟩

/-- **`worker_count()` is the number of living workers exactly as long as none
has panicked.** It holds in every state of every run of a new pool, whatever its
size, its pinning and the cores that the system reports. -/
theorem workerCount_iff {config : V8PoolConfig} {coreIds : Option (List Nat)}
    {events : List (Event config.numThreads)} {final : Pool config.numThreads}
    (executed : Execution.exec (step config) (new config coreIds) events = some final) :
    final.workerCount = final.living ↔
      Execution.ExecGuarded (step config) (fun pool event => ¬ pool.Panics event)
        (new config coreIds) events := by
  have uncrashed : final.crashed = 0 ↔
      Execution.ExecGuarded (step config) (fun pool event => ¬ pool.Panics event)
        (new config coreIds) events := by
    refine Execution.exec_property_iff_guarded (fun current => current.crashed = 0)
      (counted_new config coreIds).2.2 ?_ executed
    intro history current event next reached stepped
    obtain ⟨sound, orderly, counted⟩ := counted_of_exec reached
    exact ((step_workers sound stepped).counted orderly counted).2
  obtain ⟨_, _, counted⟩ := counted_of_exec executed
  unfold Counted at counted
  rw [← uncrashed]
  omega

/-- A failed start leaves one worker of two, and it is counted. -/
theorem workerCount_after_failed_start :
    ∃ pool : Pool 2,
      Execution.exec (step ⟨2, 4, true, none, "renderPage"⟩)
        (new ⟨2, 4, true, none, "renderPage"⟩ (some [0, 1]))
        [.pin 0, .initRuntime 0 (.err "bundle"), .leave 0, .pin 1, .initRuntime 1 .ok] =
          some pool ∧
      pool.workerCount = pool.living := by
  obtain ⟨pool, executed⟩ := Option.isSome_iff_exists.mp (show (Execution.exec
    (step ⟨2, 4, true, none, "renderPage"⟩) (new ⟨2, 4, true, none, "renderPage"⟩ (some [0, 1]))
    [.pin 0, .initRuntime 0 (.err "bundle"), .leave 0, .pin 1, .initRuntime 1 .ok]).isSome = true
      from rfl)
  refine ⟨pool, executed, (workerCount_iff executed).mpr ?_⟩
  refine Execution.execGuarded_cons_some (fun panics => ?_) rfl ?_
  · exact absurd panics.2 (by simp [new, initial])
  refine Execution.execGuarded_cons_some not_false rfl ?_
  refine Execution.execGuarded_cons_some not_false rfl ?_
  refine Execution.execGuarded_cons_some (fun panics => ?_) rfl ?_
  · exact absurd panics.2 (by decide)
  exact Execution.execGuarded_cons not_false fun _ _ => Execution.execGuarded_nil _ _

/-- A pool whose only worker panics in `get_bundle`, since no bundle is set,
still counts it. -/
theorem counts_a_crashed_worker :
    ¬ ∀ (config : V8PoolConfig) coreIds events pool,
      Execution.exec (step config) (new config coreIds) events = some pool →
        (∀ worker exit, pool.workers worker ≠ .leaving exit) →
          pool.workerCount = pool.living := by
  intro counts
  obtain ⟨pool, executed, ended, counted⟩ : ∃ pool,
      Execution.exec (step ⟨1, 1, false, none, "renderPage"⟩)
        (new ⟨1, 1, false, none, "renderPage"⟩ none) [.pin 0, .initRuntime 0 .panicked] =
          some pool ∧
      (∀ worker, pool.workers worker = .ended .panicked) ∧ pool.workerCount = 1 :=
    ⟨_, rfl, Fin.forall_fin_one.mpr rfl, rfl⟩
  have same := counts _ none _ pool executed fun worker exit => by simp [ended]
  rw [counted] at same
  simp [living, census, ended, livingWorker, Worker.hasEnded] at same

end RustySsr.V8Pool.Pool
