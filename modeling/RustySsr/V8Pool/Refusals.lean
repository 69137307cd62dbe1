import RustySsr.V8Pool.Calls

/-!
Owns when the pool refuses a call. `step_phase` is the frame: the phase of a call
changes only in its caller's own steps. With it, every run shows of each timeout
the attempt that reported it: the channel was full, and the time since the call
began had passed. A disconnected channel is never reported.
-/

namespace RustySsr.V8Pool.Pool

open RustySsr.Foundation

variable {n : Nat}

/-- The call begins with the event. -/
def Begins (id : CallId) (began : Nat) (pool : Pool n) (event : Event n) : Prop :=
  pool.nextCall = id ∧ ∃ url data, event = .call url data began

/-- A call gave up at an attempt: the channel was full when it was made, and the
time that the call had was over. -/
def TimedOut (config : V8PoolConfig) (began : Nat) (id : CallId) (pool : Pool n) :
    Event n → Prop
  | .trySend other now => other = id ∧ ∃ timeout request deadline url data response accepted,
      config.requestTimeout = some timeout ∧ began + timeout ≤ now ∧
        pool.calls id = some ⟨url, data, .sending request deadline, response, accepted⟩ ∧
        pool.send config request = .full
  | _ => False

section Frame

variable {config : V8PoolConfig} {pool next : Pool n} {event : Event n} {id : CallId}
  {after : Call}

/-- The call had this phase before. -/
def HadPhase (pool : Pool n) (id : CallId) (after : Call) : Prop :=
  ∃ call, pool.calls id = some call ∧ call.phase = after.phase

theorem hadPhase_of_updateCall (pool : Pool n) (changed : CallId) {change : Call → Call}
    (present : (pool.updateCall changed change).calls id = some after)
    (keeps : ∀ call, (change call).phase = call.phase) : pool.HadPhase id after := by
  by_cases same : id = changed
  · subst same
    simp only [updateCall, Function.update_self, Option.map_eq_some_iff] at present
    obtain ⟨old, oldPresent, rfl⟩ := present
    exact ⟨old, oldPresent, (keeps old).symm⟩
  · simp only [updateCall, Function.update_of_ne same] at present
    exact ⟨after, present, rfl⟩

theorem hadPhase_or_own {changed : CallId} {change : Call → Call}
    (present : (pool.updateCall changed change).calls id = some after) :
    pool.HadPhase id after ∨ changed = id := by
  by_cases same : id = changed
  · exact Or.inr same.symm
  · simp only [updateCall, Function.update_of_ne same] at present
    exact Or.inl ⟨after, present, rfl⟩

theorem trySend_phase {changed : CallId} {now : Nat}
    (sent : pool.trySend config changed now = some next)
    (present : next.calls id = some after) : pool.HadPhase id after ∨ changed = id := by
  unfold trySend at sent
  split at sent
  · rw [Option.some.injEq] at sent
    subst sent
    split at present
    · rename_i sentPool outcome
      have sameCalls : sentPool.calls = pool.calls := by
        unfold send at outcome
        split_ifs at outcome
        · split at outcome
          · obtain rfl := SendResult.ok.inj outcome
            rfl
          · contradiction
        · obtain rfl := SendResult.ok.inj outcome
          rfl
      rcases hadPhase_or_own present with ⟨call, old, phase⟩ | own
      · exact Or.inl ⟨call, sameCalls ▸ old, phase⟩
      · exact Or.inr own
    · split at present
      · split_ifs at present
        · exact hadPhase_or_own present
        · exact Or.inl ⟨after, present, rfl⟩
      · exact Or.inl ⟨after, present, rfl⟩
    · exact hadPhase_or_own present
  · contradiction

theorem hadPhase_of_endWorker {changed : Pool n} {worker : Fin n} {exit : Exit}
    (present : (changed.endWorker worker exit).calls id = some after)
    (sameCalls : changed.calls = pool.calls) : pool.HadPhase id after := by
  obtain ⟨old, oldPresent, phase⟩ := releaseReceiver_calls present
  exact ⟨old, sameCalls ▸ oldPresent, phase⟩

/-- No worker changes the phase of a call. -/
theorem workerStep_phase {worker : Fin n} (own : event.worker? = some worker)
    (stepped : pool.step config event = some next) (present : next.calls id = some after) :
    pool.HadPhase id after := by
  have kept : ∀ {changed : Pool n}, changed.calls id = some after → changed.calls = pool.calls →
      pool.HadPhase id after := fun present sameCalls => ⟨after, sameCalls ▸ present, rfl⟩
  cases event with
  | pin worker =>
      change pool.pin worker = some next at stepped
      unfold pin at stepped
      split at stepped
      · split at stepped
        · obtain rfl := Option.some.inj stepped
          exact kept present rfl
        · dsimp only at stepped
          split_ifs at stepped
          · obtain rfl := Option.some.inj stepped
            exact hadPhase_of_endWorker present rfl
          · obtain rfl := Option.some.inj stepped
            exact kept present rfl
      · contradiction
  | initRuntime worker outcome =>
      change pool.initRuntime worker outcome = some next at stepped
      unfold initRuntime at stepped
      split at stepped
      · cases outcome with
        | ok =>
            obtain rfl := Option.some.inj stepped
            exact kept present rfl
        | err message =>
            obtain rfl := Option.some.inj stepped
            exact kept present rfl
        | panicked =>
            obtain rfl := Option.some.inj stepped
            exact hadPhase_of_endWorker present rfl
      · contradiction
  | lock worker =>
      change pool.lock worker = some next at stepped
      unfold lock at stepped
      split at stepped
      · obtain rfl := Option.some.inj stepped
        exact kept present rfl
      · contradiction
  | recv worker =>
      change pool.recv worker = some next at stepped
      unfold recv at stepped
      split at stepped
      · split at stepped
        · obtain rfl := Option.some.inj stepped
          exact kept present rfl
        · split_ifs at stepped
          obtain rfl := Option.some.inj stepped
          exact kept present rfl
      · contradiction
  | render worker outcome =>
      change pool.render worker outcome = some next at stepped
      unfold render at stepped
      split at stepped
      · rename_i request _
        obtain rfl := Option.some.inj stepped
        cases outcome with
        | completed result => exact kept present rfl
        | panicked =>
            obtain ⟨old, oldPresent, phase⟩ := releaseReceiver_calls present
            obtain ⟨call, callPresent, before⟩ := hadPhase_of_updateCall pool request.responseTx
              oldPresent fun _ => rfl
            exact ⟨call, callPresent, before.trans phase⟩
      · contradiction
  | reply worker =>
      change pool.reply worker = some next at stepped
      unfold reply at stepped
      split at stepped
      · obtain rfl := Option.some.inj stepped
        exact hadPhase_of_updateCall pool _ present fun _ => rfl
      · contradiction
  | leave worker =>
      change pool.leave worker = some next at stepped
      unfold leave at stepped
      split at stepped
      · obtain rfl := Option.some.inj stepped
        exact hadPhase_of_endWorker present rfl
      · contradiction
  | _ => contradiction

/-- The phase of a call changes only in the steps of its own caller. -/
theorem step_phase (stepped : pool.step config event = some next)
    (present : next.calls id = some after) :
    pool.HadPhase id after ∨ event.caller? = some id ∨
      ∃ url data now, event = .call url data now ∧ id = pool.nextCall ∧
        after.phase = .sending ⟨url, data, config.renderFunction, id⟩
          (config.requestTimeout.map fun timeout => now + timeout) := by
  cases event with
  | call url data now =>
      change pool.call config url data now = some next at stepped
      unfold call at stepped
      split_ifs at stepped
      obtain rfl := Option.some.inj stepped
      by_cases same : id = pool.nextCall
      · subst same
        simp only [Function.update_self, Option.some.injEq] at present
        subst present
        exact Or.inr (Or.inr ⟨url, data, now, rfl, rfl, rfl⟩)
      · simp only [Function.update_of_ne same] at present
        exact Or.inl ⟨after, present, rfl⟩
  | trySend changed now =>
      exact (trySend_phase stepped present).imp_right fun own => Or.inl (congrArg some own)
  | cancel changed =>
      change pool.cancel changed = some next at stepped
      unfold cancel at stepped
      split at stepped
      · obtain rfl := Option.some.inj stepped
        exact (hadPhase_or_own present).imp_right fun own => Or.inl (congrArg some own)
      · obtain rfl := Option.some.inj stepped
        exact (hadPhase_or_own present).imp_right fun own => Or.inl (congrArg some own)
      · contradiction
  | receiveResponse changed =>
      change pool.receiveResponse changed = some next at stepped
      unfold receiveResponse at stepped
      split at stepped
      · obtain ⟨result, _, rfl⟩ := Option.map_eq_some_iff.mp stepped
        exact (hadPhase_or_own present).imp_right fun own => Or.inl (congrArg some own)
      · contradiction
  | drop =>
      change pool.drop = some next at stepped
      unfold drop at stepped
      split_ifs at stepped
      obtain rfl := Option.some.inj stepped
      obtain ⟨old, oldPresent, phase⟩ := releaseReceiver_calls present
      exact Or.inl ⟨old, oldPresent, phase⟩
  | _ => exact Or.inl (workerStep_phase rfl stepped present)

/-- What an attempt to send makes of its call. -/
inductive Attempt (config : V8PoolConfig) (pool : Pool n) (request : RenderRequest)
    (deadline : Option Nat) (now : Nat) : Phase → Prop where
  | accepted : Attempt config pool request deadline now .waiting
  | retries (full : pool.send config request = .full)
      (early : ∀ time, deadline = some time → now < time) :
      Attempt config pool request deadline now (.sending request deadline)
  | timesOut {time : Nat} (full : pool.send config request = .full)
      (limited : deadline = some time) (late : time ≤ now) :
      Attempt config pool request deadline now (.returned (.error .timeout))
  | refused (closed : pool.send config request = .disconnected) :
      Attempt config pool request deadline now (.returned (.error .disconnected))

theorem trySend_attempt {now : Nat} (sent : pool.trySend config id now = some next)
    (present : next.calls id = some after) :
    ∃ url data request deadline response accepted,
      pool.calls id = some ⟨url, data, .sending request deadline, response, accepted⟩ ∧
        Attempt config pool request deadline now after.phase := by
  unfold trySend at sent
  split at sent
  · rename_i url data request deadline response accepted sending
    refine ⟨url, data, request, deadline, response, accepted, sending, ?_⟩
    rw [Option.some.injEq] at sent
    subst sent
    split at present
    · simp only [updateCall, Function.update_self, Option.map_eq_some_iff] at present
      obtain ⟨_, _, rfl⟩ := present
      exact .accepted
    · rename_i full
      split at present
      · rename_i time
        split_ifs at present with late
        · simp only [giveUp, updateCall, Function.update_self, sending, Option.map_some,
            Option.some.injEq] at present
          subst present
          exact .timesOut full rfl late
        · obtain rfl := Option.some.inj (sending.symm.trans present)
          exact .retries full fun other same => by
            obtain rfl := Option.some.inj same
            exact Nat.lt_of_not_le late
      · obtain rfl := Option.some.inj (sending.symm.trans present)
        exact .retries full fun other same => by contradiction
    · rename_i closed
      simp only [giveUp, updateCall, Function.update_self, sending, Option.map_some,
        Option.some.injEq] at present
      subst present
      exact .refused closed
  · contradiction

theorem cancel_phase (cancelled : pool.cancel id = some next)
    (present : next.calls id = some after) : after.phase = .cancelled := by
  unfold cancel at cancelled
  split at cancelled
  · obtain rfl := Option.some.inj cancelled
    simp only [giveUp, updateCall, Function.update_self, Option.map_eq_some_iff] at present
    obtain ⟨_, _, rfl⟩ := present
    rfl
  · obtain rfl := Option.some.inj cancelled
    simp only [updateCall, Function.update_self, Option.map_eq_some_iff] at present
    obtain ⟨_, _, rfl⟩ := present
    rfl
  · contradiction

theorem receiveResponse_phase (received : pool.receiveResponse id = some next)
    (present : next.calls id = some after) :
    ∃ response : Response, ∃ result, response.awaited = some result ∧
      after.phase = .returned result := by
  unfold receiveResponse at received
  split at received
  · rename_i response accepted waiting
    obtain ⟨result, awaited, rfl⟩ := Option.map_eq_some_iff.mp received
    simp only [updateCall, Function.update_self, waiting, Option.map_some,
      Option.some.injEq] at present
    subst present
    exact ⟨response, result, awaited, rfl⟩
  · contradiction

/-- A call is cancelled by its own caller alone. -/
theorem cancelled_cases (stepped : pool.step config event = some next)
    (present : next.calls id = some after) (cancelled : after.phase = .cancelled) :
    pool.HadPhase id after ∨ event = .cancel id := by
  rcases step_phase stepped present with before | own | begins
  · exact Or.inl before
  · cases event with
    | trySend changed now =>
        obtain rfl := Option.some.inj own
        obtain ⟨_, _, _, _, _, _, _, attempt⟩ := trySend_attempt stepped present
        rw [cancelled] at attempt
        cases attempt
    | cancel changed => exact Or.inr (congrArg Event.cancel (Option.some.inj own))
    | receiveResponse changed =>
        obtain rfl := Option.some.inj own
        obtain ⟨_, result, _, returned⟩ := receiveResponse_phase stepped present
        rw [cancelled] at returned
        contradiction
    | _ => contradiction
  · obtain ⟨url, data, now, _, _, phase⟩ := begins
    rw [cancelled] at phase
    contradiction

/-! ### The drop of the pool -/

theorem trySend_alive {now : Nat} (sent : pool.trySend config id now = some next) :
    next.alive = pool.alive := by
  unfold trySend at sent
  split at sent
  · obtain rfl := Option.some.inj sent
    split
    · rename_i sentPool outcome
      unfold send at outcome
      split_ifs at outcome
      · split at outcome
        · obtain rfl := SendResult.ok.inj outcome
          rfl
        · contradiction
      · obtain rfl := SendResult.ok.inj outcome
        rfl
    · split
      · split_ifs <;> rfl
      · rfl
    · rfl
  · contradiction

/-- No worker drops the pool. -/
theorem workerStep_alive {worker : Fin n} (own : event.worker? = some worker)
    (stepped : pool.step config event = some next) : next.alive = pool.alive := by
  cases event with
  | pin worker =>
      change pool.pin worker = some next at stepped
      unfold pin at stepped
      split at stepped
      · split at stepped
        · obtain rfl := Option.some.inj stepped
          rfl
        · dsimp only at stepped
          split_ifs at stepped
          · obtain rfl := Option.some.inj stepped
            exact releaseReceiver_alive _
          · obtain rfl := Option.some.inj stepped
            rfl
      · contradiction
  | initRuntime worker outcome =>
      change pool.initRuntime worker outcome = some next at stepped
      unfold initRuntime at stepped
      split at stepped
      · cases outcome with
        | ok =>
            obtain rfl := Option.some.inj stepped
            rfl
        | err message =>
            obtain rfl := Option.some.inj stepped
            rfl
        | panicked =>
            obtain rfl := Option.some.inj stepped
            exact releaseReceiver_alive _
      · contradiction
  | lock worker =>
      change pool.lock worker = some next at stepped
      unfold lock at stepped
      split at stepped
      · obtain rfl := Option.some.inj stepped
        rfl
      · contradiction
  | recv worker =>
      change pool.recv worker = some next at stepped
      unfold recv at stepped
      split at stepped
      · split at stepped
        · obtain rfl := Option.some.inj stepped
          rfl
        · split_ifs at stepped
          obtain rfl := Option.some.inj stepped
          rfl
      · contradiction
  | render worker outcome =>
      change pool.render worker outcome = some next at stepped
      unfold render at stepped
      split at stepped
      · obtain rfl := Option.some.inj stepped
        cases outcome with
        | completed result => rfl
        | panicked => exact releaseReceiver_alive _
      · contradiction
  | reply worker =>
      change pool.reply worker = some next at stepped
      unfold reply at stepped
      split at stepped
      · obtain rfl := Option.some.inj stepped
        rfl
      · contradiction
  | leave worker =>
      change pool.leave worker = some next at stepped
      unfold leave at stepped
      split at stepped
      · obtain rfl := Option.some.inj stepped
        exact releaseReceiver_alive _
      · contradiction
  | _ => contradiction

/-- The pool ends with its drop alone. -/
theorem alive_of_ne_drop (stepped : pool.step config event = some next) (other : event ≠ .drop) :
    next.alive = pool.alive := by
  cases event with
  | call url data now =>
      change pool.call config url data now = some next at stepped
      unfold call at stepped
      split_ifs at stepped
      obtain rfl := Option.some.inj stepped
      rfl
  | trySend id now => exact trySend_alive stepped
  | cancel id =>
      change pool.cancel id = some next at stepped
      unfold cancel at stepped
      split at stepped
      · obtain rfl := Option.some.inj stepped
        rfl
      · obtain rfl := Option.some.inj stepped
        rfl
      · contradiction
  | receiveResponse id =>
      change pool.receiveResponse id = some next at stepped
      unfold receiveResponse at stepped
      split at stepped
      · obtain ⟨result, _, rfl⟩ := Option.map_eq_some_iff.mp stepped
        rfl
      · contradiction
  | drop => contradiction
  | _ => exact workerStep_alive rfl stepped

end Frame

/-! ### Every run -/

/-- What a run shows of the calls that still send or were refused. -/
structure Honest (config : V8PoolConfig) (start : Pool n) (history : List (Event n))
    (pool : Pool n) : Prop where
  sound : Sound config pool
  reached : Execution.exec (step config) start history = some pool
  sending : ∀ id call request deadline, pool.calls id = some call →
    call.phase = .sending request deadline → ∃ began,
      deadline = config.requestTimeout.map (fun timeout => began + timeout) ∧
        Execution.ExecOccurs (step config) (Begins id began) start history
  timedOut : ∀ id call, pool.calls id = some call → call.phase = .returned (.error .timeout) →
    ∃ began, Execution.ExecOccurs (step config) (Begins id began) start history ∧
      Execution.ExecOccurs (step config) (TimedOut config began id) start history
  connected : ∀ id call, pool.calls id = some call →
    call.phase ≠ .returned (.error .disconnected)

section Steps

variable {config : V8PoolConfig} {start pool next : Pool n} {history : List (Event n)}
  {event : Event n}

/-- While a call sends, the pool is there to send to. -/
theorem Honest.step (honest : Honest config start history pool)
    (stepped : pool.step config event = some next) :
    Honest config start (history ++ [event]) next := by
  have occurs : ∀ {condition : Pool n → Event n → Prop},
      Execution.ExecOccurs (Pool.step config) condition start history →
        Execution.ExecOccurs (Pool.step config) condition start (history ++ [event]) :=
    fun before => before.append [event]
  have last : ∀ {condition : Pool n → Event n → Prop}, condition pool event →
      Execution.ExecOccurs (Pool.step config) condition start (history ++ [event]) :=
    fun met => Execution.execOccurs_last honest.reached met
  refine
    { sound := honest.sound.transition (step_transition stepped)
      reached := (Execution.exec_snoc_some_iff _).mpr ⟨pool, honest.reached, stepped⟩
      sending := ?_
      timedOut := ?_
      connected := ?_ }
  · intro id after request deadline present sending
    rcases step_phase stepped present with ⟨call, old, phase⟩ | own | begins
    · obtain ⟨began, limit, begun⟩ := honest.sending id call request deadline old
        (phase.trans sending)
      exact ⟨began, limit, occurs begun⟩
    · cases event with
      | trySend changed now =>
          obtain rfl := Option.some.inj own
          obtain ⟨url, data, oldRequest, oldDeadline, response, accepted, old, attempt⟩ :=
            trySend_attempt stepped present
          rw [sending] at attempt
          cases attempt with
          | retries full early =>
              obtain ⟨began, limit, begun⟩ := honest.sending _ _ request deadline old rfl
              exact ⟨began, limit, occurs begun⟩
      | cancel changed =>
          obtain rfl := Option.some.inj own
          rw [cancel_phase stepped present] at sending
          contradiction
      | receiveResponse changed =>
          obtain rfl := Option.some.inj own
          obtain ⟨_, result, _, returned⟩ := receiveResponse_phase stepped present
          rw [returned] at sending
          contradiction
      | _ => contradiction
    · obtain ⟨url, data, now, rfl, same, phase⟩ := begins
      rw [sending, Phase.sending.injEq] at phase
      exact ⟨now, phase.2, last ⟨same.symm, url, data, rfl⟩⟩
  · intro id after present timedOut
    rcases step_phase stepped present with ⟨call, old, phase⟩ | own | begins
    · obtain ⟨began, begun, gaveUp⟩ := honest.timedOut id call old (phase.trans timedOut)
      exact ⟨began, occurs begun, occurs gaveUp⟩
    · cases event with
      | trySend changed now =>
          obtain rfl := Option.some.inj own
          obtain ⟨url, data, request, deadline, response, accepted, old, attempt⟩ :=
            trySend_attempt stepped present
          rw [timedOut] at attempt
          cases attempt with
          | timesOut full limited late =>
              obtain ⟨began, limit, begun⟩ := honest.sending _ _ request deadline old rfl
              obtain ⟨timeout, configured, rfl⟩ :=
                Option.map_eq_some_iff.mp (limit.symm.trans limited)
              exact ⟨began, occurs begun, last ⟨rfl, timeout, request, deadline, url, data,
                response, accepted, configured, late, old, full⟩⟩
      | cancel changed =>
          obtain rfl := Option.some.inj own
          rw [cancel_phase stepped present] at timedOut
          contradiction
      | receiveResponse changed =>
          obtain rfl := Option.some.inj own
          obtain ⟨_, result, awaited, returned⟩ := receiveResponse_phase stepped present
          rw [returned, Phase.returned.injEq] at timedOut
          exact absurd timedOut (not_refusal_of_awaited awaited).1
      | _ => contradiction
    · obtain ⟨url, data, now, rfl, same, phase⟩ := begins
      rw [timedOut] at phase
      contradiction
  · intro id after present refused
    rcases step_phase stepped present with ⟨call, old, phase⟩ | own | begins
    · exact honest.connected id call old (phase.trans refused)
    · cases event with
      | trySend changed now =>
          obtain rfl := Option.some.inj own
          obtain ⟨url, data, request, deadline, response, accepted, old, attempt⟩ :=
            trySend_attempt stepped present
          rw [refused] at attempt
          cases attempt with
          | refused closed =>
              exact send_ne_disconnected (honest.sound.borrowed _ _ old rfl) request closed
      | cancel changed =>
          obtain rfl := Option.some.inj own
          rw [cancel_phase stepped present] at refused
          contradiction
      | receiveResponse changed =>
          obtain rfl := Option.some.inj own
          obtain ⟨_, result, awaited, returned⟩ := receiveResponse_phase stepped present
          rw [returned, Phase.returned.injEq] at refused
          exact (not_refusal_of_awaited awaited).2 refused
      | _ => contradiction
    · obtain ⟨url, data, now, rfl, same, phase⟩ := begins
      rw [refused] at phase
      contradiction

end Steps

theorem honest_of_exec {config : V8PoolConfig} {coreAffinity : Option (List Nat)}
    {events : List (Event n)} {pool : Pool n}
    (executed : Execution.exec (step config) (initial n coreAffinity) events = some pool) :
    Honest config (initial n coreAffinity) events pool := by
  refine Execution.exec_invariant_always
    (fun history current => Honest config (initial n coreAffinity) history current) ?_
    (fun _ _ _ _ honest stepped => honest.step stepped) executed
  exact
    { sound := sound_initial config n coreAffinity
      reached := rfl
      sending := fun id call request deadline present => by contradiction
      timedOut := fun id call present => by contradiction
      connected := fun id call present => by contradiction }

/-- **Refusals are honest.** No run refuses a call as disconnected, and where it
reports a timeout, one is configured, and an attempt of that call found the
channel full when the time since the call began had passed. -/
theorem refusals_of_exec {config : V8PoolConfig} {coreAffinity : Option (List Nat)}
    {events : List (Event n)} {pool : Pool n}
    (executed : Execution.exec (step config) (initial n coreAffinity) events = some pool)
    {id : CallId} {call : Call} (present : pool.calls id = some call) :
    call.phase ≠ .returned (.error .disconnected) ∧
      (call.phase = .returned (.error .timeout) → ∃ began,
        Execution.ExecOccurs (step config) (Begins id began) (initial n coreAffinity) events ∧
          Execution.ExecOccurs (step config) (TimedOut config began id) (initial n coreAffinity)
            events) :=
  have honest := honest_of_exec executed
  ⟨honest.connected id call present, honest.timedOut id call present⟩

/-- A pool without workers times a call out once its ten milliseconds are over. -/
theorem refusals_of_stub :
    ∃ pool : Pool 0,
      Execution.exec (step ⟨0, 0, false, some 10, "renderPage"⟩) newStubWith
        [.call "/a" "{}" 5, .trySend 0 5, .trySend 0 14, .trySend 0 15] = some pool ∧
      Execution.ExecOccurs (step ⟨0, 0, false, some 10, "renderPage"⟩)
        (fun pool event =>
          ∃ began, TimedOut ⟨0, 0, false, some 10, "renderPage"⟩ began 0 pool event)
        newStubWith [.call "/a" "{}" 5, .trySend 0 5, .trySend 0 14, .trySend 0 15] := by
  obtain ⟨pool, executed, call, present, returned⟩ : ∃ pool : Pool 0,
      Execution.exec (step ⟨0, 0, false, some 10, "renderPage"⟩) newStubWith
        [.call "/a" "{}" 5, .trySend 0 5, .trySend 0 14, .trySend 0 15] = some pool ∧
      ∃ call, pool.calls 0 = some call ∧ call.phase = .returned (.error .timeout) :=
    ⟨_, rfl, _, rfl, rfl⟩
  obtain ⟨began, _, earlier, event, later, middle, split, reached, gaveUp⟩ :=
    (refusals_of_exec executed present).2 returned
  exact ⟨pool, executed, earlier, event, later, middle, split, reached, began, gaveUp⟩

end RustySsr.V8Pool.Pool
