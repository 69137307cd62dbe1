import RustySsr.Engine.ServiceOutcome
import RustySsr.V8Pool.Liveness

/-!
Owns that calls on the engine come to an end. A fair run of the engine contains
a fair run of its pool, so the pool call of every call ends. The engine cannot be
dropped under a call that has still to enter the pool, and a pool call is
cancelled only by the call it belongs to: so each call can enter, and can finish
once its pool call has returned.
-/

namespace RustySsr.Engine.Service

open RustySsr.Cache
open RustySsr.V8Pool
open RustySsr.Foundation

variable {n : Nat}

/-! ### What a running call can rely on -/

/-- Calls that run find the pool, and what they wait for is not cancelled. -/
structure Awaited (state : Service n) : Prop where
  unused : ∀ id, state.nextUncached ≤ id → state.uncached id = none
  entered : ∀ id call, state.uncached id = some call → call.stage ≠ .missed
  owned : ∀ id call, state.calls id = some call → call.stage = .missed → state.pool.alive = true
  kept : ∀ name poolCall pooled, state.Owns name poolCall →
    state.pool.calls poolCall = some pooled → pooled.phase ≠ .cancelled

/-- The call whose caller makes the step, other than by dropping the call. -/
def Event.caller? (event : Event n) : Option (CallId ⊕ CallId) :=
  match event.action with
  | .enter id => some (.inl id)
  | .finish id _ _ => some (.inl id)
  | .finishUncached id => some (.inr id)
  | _ => none

/-- Where a step may take a call: into the pool, or to its end. -/
inductive Moves : Stage → Stage → Prop where
  | enters (poolCall : CallId) : Moves .missed (.pooled poolCall)
  | ends (poolCall : CallId) {stage : Stage} (ended : stage.running = false) :
      Moves (.pooled poolCall) stage

section Entries

variable {state : Service n} {id : CallId} {name : CallId ⊕ CallId} {call : ServiceCall}

theorem entry_setStage_self (present : state.calls id = some call) (stage : Stage) :
    (state.setStage id stage).entry (.inl id) = some { call with stage := stage } := by
  simp [entry, setStage, present]

theorem entry_setStage_other (other : name ≠ .inl id) (stage : Stage) :
    (state.setStage id stage).entry name = state.entry name := by
  cases name with
  | inl otherId => exact Function.update_of_ne (fun same => other (congrArg Sum.inl same)) _ _
  | inr otherId => rfl

theorem entry_setUncached_self (present : state.uncached id = some call) (stage : Stage) :
    (state.setUncached id stage).entry (.inr id) = some { call with stage := stage } := by
  simp [entry, setUncached, present]

theorem entry_setUncached_other (other : name ≠ .inr id) (stage : Stage) :
    (state.setUncached id stage).entry name = state.entry name := by
  cases name with
  | inl otherId => rfl
  | inr otherId => exact Function.update_of_ne (fun same => other (congrArg Sum.inr same)) _ _

end Entries

section Steps

variable {hashUrl : String → UInt64} {config : V8PoolConfig} {state next : Service n}
  {event : Event n} {name : CallId ⊕ CallId} {call : ServiceCall}

/-- What becomes of the call that is given a stage, and of the others. -/
theorem moves_of_setStage {id : CallId} {changed : ServiceCall}
    (present : state.entry name = some call) (held : state.calls id = some changed) {stage : Stage}
    (moves : Moves changed.stage stage) :
    ∃ after, (state.setStage id stage).entry name = some after ∧
      (after = call ∨ Moves call.stage after.stage) := by
  by_cases same : name = .inl id
  · subst same
    obtain rfl : changed = call := Option.some.inj (held.symm.trans present)
    exact ⟨_, entry_setStage_self held stage, Or.inr moves⟩
  · exact ⟨call, (entry_setStage_other same stage).trans present, Or.inl rfl⟩

theorem moves_of_setUncached {id : CallId} {changed : ServiceCall}
    (present : state.entry name = some call) (held : state.uncached id = some changed)
    {stage : Stage} (moves : Moves changed.stage stage) :
    ∃ after, (state.setUncached id stage).entry name = some after ∧
      (after = call ∨ Moves call.stage after.stage) := by
  by_cases same : name = .inr id
  · subst same
    obtain rfl : changed = call := Option.some.inj (held.symm.trans present)
    exact ⟨_, entry_setUncached_self held stage, Or.inr moves⟩
  · exact ⟨call, (entry_setUncached_other same stage).trans present, Or.inl rfl⟩

/-- A step leaves a call as it is, or moves it on. -/
theorem Awaited.moves (awaited : Awaited state) (served : Served config state)
    (step : Transition hashUrl config state event next) (present : state.entry name = some call) :
    ∃ after, next.entry name = some after ∧ (after = call ∨ Moves call.stage after.stage) := by
  cases step with
  | looks action answer =>
      refine ⟨call, ?_, Or.inl rfl⟩
      cases name with
      | inr id => exact present
      | inl id =>
          refine (Function.update_of_ne ?_ _ _).trans present
          rintro rfl
          rw [entry, Sum.elim_inl, served.unused _ (Nat.le_refl _)] at present
          contradiction
  | enters action missed called => exact moves_of_setStage present missed (.enters _)
  | stores action pooled served => exact moves_of_setStage present pooled (.ends _ rfl)
  | fails action pooled failed => exact moves_of_setStage present pooled (.ends _ rfl)
  | cancels action pooled cancelled => exact moves_of_setStage present pooled (.ends _ rfl)
  | entersUncached action called =>
      refine ⟨call, ?_, Or.inl rfl⟩
      cases name with
      | inl id => exact present
      | inr id =>
          refine (Function.update_of_ne ?_ _ _).trans present
          rintro rfl
          rw [entry, Sum.elim_inr, awaited.unused _ (Nat.le_refl _)] at present
          contradiction
  | finishesUncached action pooled returned =>
      exact moves_of_setUncached present pooled (.ends _ rfl)
  | cancelsUncached action pooled cancelled =>
      exact moves_of_setUncached present pooled (.ends _ rfl)
  | works action inner stepped => exact ⟨call, present, Or.inl rfl⟩
  | invalidates same acted => exact ⟨call, present, Or.inl rfl⟩
  | drops action unborrowed dropped => exact ⟨call, present, Or.inl rfl⟩

/-- The caller of a call steps only while the call runs, and moves it on. -/
theorem moves_of_caller (step : Transition hashUrl config state event next)
    (own : event.caller? = some name) :
    ∃ call after, state.entry name = some call ∧ call.stage.running = true ∧
      next.entry name = some after ∧ after.stage ≠ call.stage := by
  unfold Event.caller? at own
  cases step with
  | enters action missed called =>
      rw [action] at own
      obtain rfl := Option.some.inj own
      exact ⟨_, _, missed, rfl, entry_setStage_self missed _, by simp⟩
  | stores action pooled served =>
      rw [action] at own
      obtain rfl := Option.some.inj own
      exact ⟨_, _, pooled, rfl, entry_setStage_self pooled _, by simp⟩
  | fails action pooled failed =>
      rw [action] at own
      obtain rfl := Option.some.inj own
      exact ⟨_, _, pooled, rfl, entry_setStage_self pooled _, by simp⟩
  | finishesUncached action pooled returned =>
      rw [action] at own
      obtain rfl := Option.some.inj own
      exact ⟨_, _, pooled, rfl, entry_setUncached_self pooled _, by simp⟩
  | invalidates same acted => cases action : event.action <;> simp_all [Action.invalidation?]
  | looks action answer => rw [action] at own; contradiction
  | cancels action pooled cancelled => rw [action] at own; contradiction
  | entersUncached action called => rw [action] at own; contradiction
  | cancelsUncached action pooled cancelled => rw [action] at own; contradiction
  | works action inner stepped => rw [action] at own; contradiction
  | drops action unborrowed dropped => rw [action] at own; contradiction

/-! ### Every step keeps it -/

theorem not_owns_of_entry {poolCall : CallId} {after : ServiceCall}
    (present : next.entry name = some after) (ended : after.stage.running = false) :
    ¬ next.Owns name poolCall := by
  rintro ⟨url, data, pooled⟩
  obtain rfl := Option.some.inj (pooled.symm.trans present)
  contradiction

/-- The pool is dropped with the engine, and a pool call is cancelled together
with the call that waits for it. -/
theorem Transition.pool_event (step : Transition hashUrl config state event next) :
    next.pool = state.pool ∨ ∃ poolEvent, state.pool.step config poolEvent = some next.pool ∧
      (poolEvent = .drop → event.action = .drop) ∧
      ∀ poolCall, poolEvent = .cancel poolCall →
        ∃ name, state.Owns name poolCall ∧ ¬ next.Owns name poolCall := by
  cases step with
  | enters action missed called => exact Or.inr ⟨.call _ _ _, called, by simp, by simp⟩
  | @cancels id poolCall url data pool action pooled cancelled =>
      refine Or.inr ⟨.cancel poolCall, cancelled, by simp, ?_⟩
      rintro _ ⟨⟩
      refine ⟨.inl id, ⟨url, data, pooled⟩, ?_⟩
      exact not_owns_of_entry (entry_setStage_self pooled .cancelled) rfl
  | entersUncached action called => exact Or.inr ⟨.call _ _ _, called, by simp, by simp⟩
  | @cancelsUncached id poolCall url data pool action pooled cancelled =>
      refine Or.inr ⟨.cancel poolCall, cancelled, by simp, ?_⟩
      rintro _ ⟨⟩
      refine ⟨.inr id, ⟨url, data, pooled⟩, ?_⟩
      exact not_owns_of_entry (entry_setUncached_self pooled .cancelled) rfl
  | works action inner stepped =>
      refine Or.inr ⟨_, stepped, ?_, ?_⟩
      · rintro rfl
        contradiction
      · rintro poolCall rfl
        contradiction
  | drops action unborrowed dropped => exact Or.inr ⟨.drop, dropped, fun _ => action, by simp⟩
  | _ => exact Or.inl rfl

theorem Transition.pool_alive (step : Transition hashUrl config state event next)
    (other : event.action ≠ .drop) : next.pool.alive = state.pool.alive := by
  rcases step.pool_event with same | ⟨poolEvent, stepped, drops, _⟩
  · rw [same]
  · exact Pool.alive_of_ne_drop stepped fun dropped => other (drops dropped)

/-- A call that has not looked up before the step finds the engine. -/
theorem alive_of_lookup {thread : ThreadId} {url data : String}
    (stepped : state.step hashUrl config event = some next)
    (action : event.action = .lookup thread url data) : state.pool.alive = true := by
  unfold step at stepped
  split_ifs at stepped
  rw [action] at stepped
  change lookup hashUrl { state with clock := event.now } thread url data event.now = _ at stepped
  unfold lookup at stepped
  split_ifs at stepped with alive
  exact alive

/-- Where the stage of a call comes from. -/
theorem Transition.entry_cases (step : Transition hashUrl config state event next)
    (name : CallId ⊕ CallId) {after : ServiceCall} (present : next.entry name = some after) :
    state.entry name = some after ∨
      (∃ before, state.entry name = some before ∧ Moves before.stage after.stage) ∨
      (name = .inl state.nextCall ∧ ∃ thread url data, event.action = .lookup thread url data) ∨
      (name = .inr state.nextUncached ∧ next.nextUncached = state.nextUncached + 1 ∧
        after.stage ≠ .missed) := by
  have ofStage : ∀ {id : CallId} {changed : ServiceCall} {stage : Stage},
      state.calls id = some changed → Moves changed.stage stage →
        (state.setStage id stage).entry name = some after → state.entry name = some after ∨
          ∃ before, state.entry name = some before ∧ Moves before.stage after.stage := by
    intro id changed stage held moves present
    rcases setStage_entry state present with old | ⟨rfl, old, oldPresent, rfl⟩
    · exact Or.inl old
    · obtain rfl := Option.some.inj (held.symm.trans oldPresent)
      exact Or.inr ⟨changed, held, moves⟩
  have ofUncached : ∀ {id : CallId} {changed : ServiceCall} {stage : Stage},
      state.uncached id = some changed → Moves changed.stage stage →
        (state.setUncached id stage).entry name = some after → state.entry name = some after ∨
          ∃ before, state.entry name = some before ∧ Moves before.stage after.stage := by
    intro id changed stage held moves present
    rcases setUncached_entry state present with old | ⟨rfl, old, oldPresent, rfl⟩
    · exact Or.inl old
    · obtain rfl := Option.some.inj (held.symm.trans oldPresent)
      exact Or.inr ⟨changed, held, moves⟩
  have changed (cases : state.entry name = some after ∨
      ∃ before, state.entry name = some before ∧ Moves before.stage after.stage) :
      state.entry name = some after ∨
      (∃ before, state.entry name = some before ∧ Moves before.stage after.stage) ∨
      (name = .inl state.nextCall ∧ ∃ thread url data, event.action = .lookup thread url data) ∨
      (name = .inr state.nextUncached ∧ next.nextUncached = state.nextUncached + 1 ∧
        after.stage ≠ .missed) := cases.imp_right Or.inl
  cases step with
  | looks action answer =>
      cases name with
      | inr id => exact Or.inl present
      | inl id =>
          by_cases new : id = state.nextCall
          · exact Or.inr (Or.inr (Or.inl ⟨congrArg Sum.inl new, _, _, _, action⟩))
          · exact Or.inl ((Function.update_of_ne new _ _).symm.trans present)
  | enters action missed called => exact changed (ofStage missed (.enters _) present)
  | stores action pooled served => exact changed (ofStage pooled (.ends _ rfl) present)
  | fails action pooled failed => exact changed (ofStage pooled (.ends _ rfl) present)
  | cancels action pooled cancelled => exact changed (ofStage pooled (.ends _ rfl) present)
  | entersUncached action called =>
      cases name with
      | inl id => exact Or.inl present
      | inr id =>
          by_cases new : id = state.nextUncached
          · subst new
            change Function.update state.uncached state.nextUncached _ _ = some after at present
            rw [Function.update_self, Option.some.injEq] at present
            exact Or.inr (Or.inr (Or.inr ⟨rfl, rfl, by simp [← present]⟩))
          · exact Or.inl ((Function.update_of_ne new _ _).symm.trans present)
  | finishesUncached action pooled returned =>
      exact changed (ofUncached pooled (.ends _ rfl) present)
  | cancelsUncached action pooled cancelled =>
      exact changed (ofUncached pooled (.ends _ rfl) present)
  | works action inner stepped => exact Or.inl present
  | invalidates same acted => exact Or.inl present
  | drops action unborrowed dropped => exact Or.inl present

theorem Transition.nextUncached_le (step : Transition hashUrl config state event next) :
    state.nextUncached ≤ next.nextUncached := by
  cases step with
  | entersUncached action called => exact Nat.le_succ _
  | _ => exact Nat.le_refl _

theorem Transition.unborrowed (step : Transition hashUrl config state event next)
    (drop : event.action = .drop) : state.Unborrowed := by
  cases step with
  | drops _ unborrowed _ => exact unborrowed
  | invalidates same acted =>
      rw [drop] at same
      contradiction
  | _ => simp_all

theorem Unborrowed.settled (unborrowed : state.Unborrowed) (served : Served config state)
    (awaited : Awaited state) (present : state.entry name = some call) :
    call.stage.running = false := by
  cases name with
  | inl id =>
      have held : state.calls id = some call := present
      have below : id < state.nextCall := by
        by_contra beyond
        rw [served.unused id (Nat.le_of_not_lt beyond)] at held
        contradiction
      have idle := unborrowed.1 id below
      rw [held, Option.all_some] at idle
      simpa using idle
  | inr id =>
      have held : state.uncached id = some call := present
      have below : id < state.nextUncached := by
        by_contra beyond
        rw [awaited.unused id (Nat.le_of_not_lt beyond)] at held
        contradiction
      have idle := unborrowed.2 id below
      rw [held, Option.all_some] at idle
      simpa using idle

/-- No step takes a call back to where it has still to enter the pool. -/
theorem Moves.ne_missed {stage after : Stage} (moves : Moves stage after) : after ≠ .missed := by
  rintro rfl
  cases moves with
  | ends poolCall ended => contradiction

/-- Two steps lead no further than one from before the pool. -/
theorem Moves.goesOn {first middle last : Stage}
    (sofar : middle = first ∨ middle.running = false ∨
      (first = .missed ∧ ∃ poolCall, middle = .pooled poolCall))
    (moves : Moves middle last) :
    last.running = false ∨ (first = .missed ∧ ∃ poolCall, last = .pooled poolCall) := by
  cases moves with
  | enters poolCall =>
      rcases sofar with same | ended | ⟨_, _, entered⟩
      · exact Or.inr ⟨same.symm, poolCall, rfl⟩
      · contradiction
      · contradiction
  | ends poolCall ended => exact Or.inl ended

theorem Awaited.step (awaited : Awaited state) (served : Served config state)
    (stepped : state.step hashUrl config event = some next) : Awaited next where
  unused := by
    intro id beyond
    have step := step_transition stepped
    have before := awaited.unused id (step.nextUncached_le.trans beyond)
    by_contra present
    obtain ⟨after, present⟩ := Option.ne_none_iff_exists'.mp present
    rcases step.entry_cases (.inr id) present with old | ⟨old, oldPresent, _⟩ |
      ⟨other, _⟩ | ⟨same, advanced, _⟩
    · exact absurd (old.symm.trans before) (by simp)
    · exact absurd (oldPresent.symm.trans before) (by simp)
    · contradiction
    · rw [advanced, Sum.inr.inj same] at beyond
      exact Nat.not_succ_le_self _ beyond
  entered := by
    intro id after present
    rcases (step_transition stepped).entry_cases (.inr id) present with old |
      ⟨_, _, moves⟩ | ⟨other, _⟩ | ⟨_, _, pooled⟩
    · exact awaited.entered id after old
    · exact moves.ne_missed
    · contradiction
    · exact pooled
  owned := by
    intro id after present missed
    have step := step_transition stepped
    rcases step.entry_cases (.inl id) present with old | ⟨_, _, moves⟩ |
      ⟨_, thread, url, data, action⟩ | ⟨other, _⟩
    · refine (step.pool_alive fun drop => ?_).trans (awaited.owned id after old missed)
      have settled := (step.unborrowed drop).settled served awaited old
      rw [missed] at settled
      contradiction
    · exact absurd missed moves.ne_missed
    · rw [step.pool_alive (by simp [action])]
      exact alive_of_lookup stepped action
    · contradiction
  kept := by
    intro name poolCall pooled owns present cancelled
    have step := step_transition stepped
    have wasKept (before : state.Owns name poolCall)
        (had : state.pool.HadPhase poolCall pooled) : False := by
      obtain ⟨old, oldPresent, phase⟩ := had
      exact awaited.kept name poolCall old before oldPresent (phase.trans cancelled)
    obtain ⟨url, data, entered⟩ := owns
    rcases step.pooled_cases entered with old | ⟨rfl, called, _⟩
    · rcases step.pool_event with same | ⟨poolEvent, poolStepped, _, cancels⟩
      · exact wasKept ⟨url, data, old⟩ ⟨pooled, same ▸ present, rfl⟩
      · rcases Pool.cancelled_cases poolStepped present cancelled with had | rfl
        · exact wasKept ⟨url, data, old⟩ had
        · obtain ⟨other, owned, left⟩ := cancels poolCall rfl
          obtain rfl := served.apart name other poolCall ⟨url, data, old⟩ owned
          exact left ⟨url, data, entered⟩
    · -- A pool call that has just begun sends.
      have begun : state.pool.step config (.call url data event.now) = some next.pool := called
      rcases Pool.cancelled_cases begun present cancelled with ⟨old, oldPresent, _⟩ | other
      · rw [served.sound.fresh _ (Nat.le_refl _)] at oldPresent
        contradiction
      · contradiction

/-! ### Who can go on -/

theorem enabled_enter (hashUrl : String → UInt64) {id : CallId}
    (present : state.calls id = some call) (missed : call.stage = .missed)
    (alive : state.pool.alive = true) :
    Execution.Enabled (step hashUrl config) Event.caller? state (.inl id) := by
  obtain ⟨url, data, stage⟩ := call
  obtain rfl : stage = .missed := missed
  refine Execution.enabled_of_isSome ⟨state.clock, .enter id⟩ rfl ?_
  simp [step, act, enter, present, Pool.call, alive]

theorem enabled_finish (hashUrl : String → UInt64) {poolCall : CallId}
    {result : Except PoolError String} (owns : state.Owns name poolCall)
    (returned : poolResult state.pool poolCall = some result) :
    Execution.Enabled (step hashUrl config) Event.caller? state name := by
  obtain ⟨url, data, present⟩ := owns
  cases name with
  | inl id =>
      refine Execution.enabled_of_isSome
        ⟨state.clock, .finish id 0 Platform.VisitOrder.stored⟩ rfl ?_
      have held : state.calls id = some ⟨url, data, .pooled poolCall⟩ := present
      simp [step, act, finish, held, returned]
  | inr id =>
      refine Execution.enabled_of_isSome ⟨state.clock, .finishUncached id⟩ rfl ?_
      have held : state.uncached id = some ⟨url, data, .pooled poolCall⟩ := present
      simp [step, act, finishUncached, held, returned]

theorem awaited_initial (config : SsrConfig) (coreIds : Option (List Nat)) :
    Awaited (initial config coreIds) where
  unused := fun _ _ => rfl
  entered := fun _ _ present => by contradiction
  owned := fun _ _ present => by contradiction
  kept := by rintro (id | id) poolCall pooled ⟨url, data, present⟩ <;> contradiction

end Steps

theorem awaited_of_exec {hashUrl : String → UInt64} {config : SsrConfig}
    {coreIds : Option (List Nat)} {events : List (Event (SsrEngine.poolConfig config).numThreads)}
    {final : Service (SsrEngine.poolConfig config).numThreads}
    (executed : Execution.exec (step hashUrl (SsrEngine.poolConfig config))
      (initial config coreIds) events = some final) : Awaited final :=
  (Execution.exec_invariant_always
    (fun _ (state : Service (SsrEngine.poolConfig config).numThreads) =>
      Served (SsrEngine.poolConfig config) state ∧ Awaited state)
    ⟨served_initial config coreIds, awaited_initial config coreIds⟩
    (fun _ _ _ _ holds stepped =>
      ⟨holds.1.transition (step_transition stepped), holds.2.step holds.1 stepped⟩) executed).2

/-! ### A fair run of the engine -/

/-- Who makes the step, where the pool makes it. -/
def Event.ofPool {ι : Type*} (agent : Pool.Event n → Option ι) (event : Event n) : Option ι :=
  match event.action with
  | .pool poolEvent => agent poolEvent
  | _ => none

/-- An endless run of a new engine that keeps no worker thread from its next step.
The start of a runtime and a render are such steps: none of them runs forever. -/
structure FairRun (hashUrl : String → UInt64) (config : SsrConfig)
    (coreIds : Option (List Nat))
    extends Execution.Behaviour (step (n := (SsrEngine.poolConfig config).numThreads) hashUrl
      (SsrEngine.poolConfig config)) where
  start : state 0 = initial config coreIds
  fair : ∀ worker, toBehaviour.WeaklyFair (Event.ofPool Pool.Event.worker?) worker

/-- The callers are scheduled as well: whoever can enter the pool, collect a result
or finish does so, and who tries to send tries again at later and later times. -/
structure FairRun.FairCallers {hashUrl : String → UInt64} {config : SsrConfig}
    {coreIds : Option (List Nat)} (run : FairRun hashUrl config coreIds) : Prop where
  called : ∀ name, run.toBehaviour.WeaklyFair Event.caller? name
  collected : ∀ id, run.toBehaviour.WeaklyFair (Event.ofPool Pool.Event.collector?) id
  polled : ∀ id time bound, (∀ later, time ≤ later → ∃ call request deadline,
      (run.state later).pool.calls id = some call ∧ call.phase = .sending request deadline) →
    ∃ later, time ≤ later ∧ ∃ now, bound ≤ now ∧
      run.event later = some ⟨now, .pool (.trySend id now)⟩

theorem poolEvents_cases (state : Service n) (event : Event n) :
    poolEvents state event = [] ∨ ∃ poolEvent, poolEvents state event = [poolEvent] := by
  unfold poolEvents
  split
  · rename_i id action
    cases state.calls id with
    | none => exact Or.inl rfl
    | some call => exact Or.inr ⟨_, rfl⟩
  · rename_i id action
    cases (state.calls id).bind ServiceCall.poolCall? with
    | none => exact Or.inl rfl
    | some poolCall => exact Or.inr ⟨_, rfl⟩
  · exact Or.inr ⟨_, rfl⟩
  · rename_i id action
    cases (state.uncached id).bind ServiceCall.poolCall? with
    | none => exact Or.inl rfl
    | some poolCall => exact Or.inr ⟨_, rfl⟩
  · exact Or.inr ⟨_, rfl⟩
  · exact Or.inr ⟨_, rfl⟩
  · exact Or.inl rfl

theorem isInner_of_worker {now : Nat} {poolEvent : Pool.Event n} {worker : Fin n}
    (own : poolEvent.worker? = some worker) : isInner now poolEvent = true := by
  cases poolEvent <;> first | rfl | contradiction

theorem isInner_of_collector {now : Nat} {poolEvent : Pool.Event n} {id : CallId}
    (own : poolEvent.collector? = some id) : isInner now poolEvent = true := by
  cases poolEvent <;> first | rfl | contradiction

namespace FairRun

variable {hashUrl : String → UInt64} {config : SsrConfig} {coreIds : Option (List Nat)}
  (run : FairRun hashUrl config coreIds)

theorem served (time : Nat) : Served (SsrEngine.poolConfig config) (run.state time) := by
  have executed := run.toBehaviour.exec_eventsBefore time
  rw [run.start] at executed
  exact (served_of_exec executed).1

theorem awaited (time : Nat) : Awaited (run.state time) := by
  have executed := run.toBehaviour.exec_eventsBefore time
  rw [run.start] at executed
  exact awaited_of_exec executed

/-! ### The run of its pool -/

/-- The pool of the engine, at the same times. -/
def poolBehaviour : Execution.Behaviour (Pool.step (n := (SsrEngine.poolConfig config).numThreads)
    (SsrEngine.poolConfig config)) where
  state time := (run.state time).pool
  event time := (run.event time).bind fun event => (poolEvents (run.state time) event).head?
  advances time := by
    cases happens : run.event time with
    | none => simp [run.toBehaviour.state_of_none happens]
    | some event =>
        obtain ⟨after, executed, same⟩ := pool_simulates hashUrl (SsrEngine.poolConfig config)
          (run.state time) _ event (run.state (time + 1)) rfl
          (run.toBehaviour.step_of_some happens)
        subst same
        rw [Option.bind_some]
        rcases poolEvents_cases (run.state time) event with none | ⟨poolEvent, single⟩
        · rw [none] at executed ⊢
          exact executed
        · rw [single] at executed ⊢
          obtain ⟨next, stepped, ended⟩ := (Execution.exec_cons_some_iff _).mp executed
          exact stepped.trans ended

theorem poolBehaviour_event {time now : Nat}
    {poolEvent : Pool.Event (SsrEngine.poolConfig config).numThreads}
    (happens : run.event time = some ⟨now, .pool poolEvent⟩) :
    run.poolBehaviour.event time = some poolEvent := by
  show (run.event time).bind _ = _
  rw [happens]
  rfl

/-- Who is scheduled in the engine is scheduled in its pool. -/
theorem weaklyFair_pool {ι : Type*}
    {agent : Pool.Event (SsrEngine.poolConfig config).numThreads → Option ι} {member : ι}
    (inner : ∀ now poolEvent, agent poolEvent = some member → isInner now poolEvent = true)
    (fair : run.toBehaviour.WeaklyFair (Event.ofPool agent) member) :
    run.poolBehaviour.WeaklyFair agent member := by
  intro time always
  obtain ⟨later, ordered, ⟨now, action⟩, happens, own⟩ := fair time fun later ordered => by
    obtain ⟨poolEvent, next, own, stepped⟩ := always later ordered
    change (run.state later).pool.step _ poolEvent = some next at stepped
    refine Execution.enabled_of_isSome ⟨(run.state later).clock, .pool poolEvent⟩ own ?_
    simp [step, act, inner _ poolEvent own, stepped]
  cases action with
  | pool poolEvent => exact ⟨later, ordered, poolEvent, run.poolBehaviour_event happens, own⟩
  | _ => contradiction

def poolRun : Pool.FairRun (SsrEngine.poolConfig config) coreIds where
  toBehaviour := run.poolBehaviour
  start := by
    show (run.state 0).pool = _
    rw [run.start]
    rfl
  fair worker := run.weaklyFair_pool (fun _ _ own => isInner_of_worker own) (run.fair worker)

variable {run}

theorem FairCallers.poolRun (callers : run.FairCallers) : run.poolRun.FairCallers where
  polled := by
    intro id time bound sending
    obtain ⟨later, ordered, now, late, happens⟩ := callers.polled id time bound sending
    exact ⟨later, ordered, now, late, run.poolBehaviour_event happens⟩
  collected := fun id =>
    run.weaklyFair_pool (fun _ _ own => isInner_of_collector own) (callers.collected id)

/-! ### Every call comes to an end -/

variable (run)

/-- A call stays as it is, or has entered the pool, or has ended. -/
theorem entry_later {name : CallId ⊕ CallId} {call : ServiceCall} {time later : Nat}
    (present : (run.state time).entry name = some call) (ordered : time ≤ later) :
    ∃ after, (run.state later).entry name = some after ∧
      (after = call ∨ after.stage.running = false ∨
        (call.stage = .missed ∧ ∃ poolCall, after.stage = .pooled poolCall)) := by
  refine run.toBehaviour.lasts (fun state => ∃ after, state.entry name = some after ∧
    (after = call ∨ after.stage.running = false ∨
      (call.stage = .missed ∧ ∃ poolCall, after.stage = .pooled poolCall))) ordered
    ⟨call, present, Or.inl rfl⟩ ?_
  rintro current event - happens ⟨before, beforePresent, sofar⟩
  obtain ⟨after, afterPresent, same | moves⟩ := (run.awaited current).moves (run.served current)
    (step_transition (run.toBehaviour.step_of_some happens)) beforePresent
  · exact ⟨after, afterPresent, same ▸ sofar⟩
  · have goesOn := moves.goesOn (sofar.imp_left (congrArg ServiceCall.stage))
    exact ⟨after, afterPresent, Or.inr goesOn⟩

variable {run}

/-- A caller that could always go on does. -/
theorem eventually_moves (callers : run.FairCallers) {name : CallId ⊕ CallId} {call : ServiceCall}
    {time : Nat} (present : (run.state time).entry name = some call)
    (able : ∀ later after, time ≤ later → (run.state later).entry name = some after →
      after.stage = call.stage → Execution.Enabled
        (step hashUrl (SsrEngine.poolConfig config)) Event.caller? (run.state later) name) :
    ∃ later, time ≤ later ∧ ∃ after, (run.state later).entry name = some after ∧
      after.stage ≠ call.stage := by
  by_contra never
  have stays : ∀ later, time ≤ later → ∃ after,
      (run.state later).entry name = some after ∧ after.stage = call.stage := by
    intro later ordered
    obtain ⟨after, afterPresent, _⟩ := run.entry_later present ordered
    refine ⟨after, afterPresent, ?_⟩
    by_contra moved
    exact never ⟨later, ordered, after, afterPresent, moved⟩
  obtain ⟨later, ordered, event, happens, own⟩ := callers.called name time fun later ordered =>
    have ⟨after, afterPresent, same⟩ := stays later ordered
    able later after ordered afterPresent same
  obtain ⟨before, beforePresent, same⟩ := stays later ordered
  obtain ⟨acting, after, actingPresent, _, afterPresent, moved⟩ := moves_of_caller
    (step_transition (run.toBehaviour.step_of_some happens)) own
  obtain rfl := Option.some.inj (beforePresent.symm.trans actingPresent)
  exact never ⟨later + 1, ordered.step, after, afterPresent, same ▸ moved⟩

/-- A call whose pool call has returned finishes. -/
theorem eventually_finishes (callers : run.FairCallers) {name : CallId ⊕ CallId}
    {call : ServiceCall} {poolCall : CallId} {time : Nat}
    (present : (run.state time).entry name = some call) (stage : call.stage = .pooled poolCall)
    {pooled : Call} (pooledPresent : (run.state time).pool.calls poolCall = some pooled)
    (ended : pooled.inFlight = false) :
    ∃ later, time ≤ later ∧ ∃ after, (run.state later).entry name = some after ∧
      after.stage.running = false := by
  obtain ⟨later, ordered, after, afterPresent, moved⟩ :=
    eventually_moves callers present fun later after ordered afterPresent same => by
      obtain ⟨last, lastPresent, goesOn⟩ := run.poolRun.goesOn_later pooledPresent ordered
      have owns : (run.state later).Owns name poolCall :=
        ⟨after.url, after.data, by rw [afterPresent, ← stage, ← same]⟩
      have notCancelled := (run.awaited later).kept name poolCall last owns lastPresent
      have phase := goesOn.ended ended
      cases returned : last.phase with
      | returned result =>
          exact enabled_finish hashUrl owns
            (poolResult_eq_some_iff.mpr ⟨last, lastPresent, returned⟩)
      | cancelled => exact absurd returned notCancelled
      | _ => simp [Call.inFlight, ← phase, returned] at ended
  obtain ⟨again, againPresent, same | ended | ⟨missed, _⟩⟩ := run.entry_later present ordered
  · obtain rfl := Option.some.inj (afterPresent.symm.trans againPresent)
    exact absurd (congrArg ServiceCall.stage same) moved
  · exact ⟨later, ordered, again, againPresent, ended⟩
  · rw [stage] at missed
    contradiction

/-- **With a request timeout every call on the engine comes to an end.** In a fair
run of the engine, where each runtime start and each render returns, in which a
worker is left whenever requests are queued, and whose callers are scheduled too,
each call is answered from the cache, returns its result, or is dropped by its
caller. -/
theorem eventually_settled (run : FairRun hashUrl config coreIds) (callers : run.FairCallers)
    (staffed : run.poolRun.Staffed) {timeout : Nat} (limited : config.requestTimeout = some timeout)
    {name : CallId ⊕ CallId} {call : ServiceCall} {time : Nat}
    (present : (run.state time).entry name = some call) :
    ∃ later, time ≤ later ∧ ∃ after, (run.state later).entry name = some after ∧
      after.stage.running = false := by
  have ofPooled : ∀ {entered : Nat} {waiting : ServiceCall} {poolCall : CallId},
      (run.state entered).entry name = some waiting → waiting.stage = .pooled poolCall →
        ∃ later, entered ≤ later ∧ ∃ after, (run.state later).entry name = some after ∧
          after.stage.running = false := by
    rintro entered ⟨url, data, _⟩ poolCall waitingPresent rfl
    obtain ⟨pooled, pooledPresent, _⟩ :=
      (run.served entered).owned name url data poolCall waitingPresent
    obtain ⟨later, ordered, ended, endedPresent, finished⟩ :=
      run.poolRun.eventually_ended staffed callers.poolRun limited pooledPresent
    obtain ⟨after, afterPresent, same | settled | ⟨missed, _⟩⟩ :=
      run.entry_later waitingPresent ordered
    · obtain ⟨last, beyond, final⟩ :=
        eventually_finishes callers afterPresent (congrArg ServiceCall.stage same) endedPresent
          finished
      exact ⟨last, ordered.trans beyond, final⟩
    · exact ⟨later, ordered, after, afterPresent, settled⟩
    · contradiction
  cases stage : call.stage with
  | missed =>
      obtain ⟨later, ordered, after, afterPresent, moved⟩ :=
        eventually_moves callers present fun later after ordered afterPresent same => by
          cases name with
          | inl id =>
              have missed := same.trans stage
              exact enabled_enter hashUrl afterPresent missed
                ((run.awaited later).owned id after afterPresent missed)
          | inr id => exact absurd stage ((run.awaited time).entered id call present)
      obtain ⟨again, againPresent, same | ended | ⟨_, poolCall, entered⟩⟩ :=
        run.entry_later present ordered
      · obtain rfl := Option.some.inj (afterPresent.symm.trans againPresent)
        exact absurd (congrArg ServiceCall.stage same) moved
      · exact ⟨later, ordered, again, againPresent, ended⟩
      · obtain ⟨last, beyond, final⟩ := ofPooled againPresent entered
        exact ⟨last, ordered.trans beyond, final⟩
  | pooled poolCall => exact ofPooled present stage
  | _ => exact ⟨time, Nat.le_refl _, call, present, by rw [stage]; rfl⟩

/-! ### A run that ends -/

/-- When no call runs, no caller can go on. -/
theorem not_enabled_caller {n : Nat} {poolConfig : V8PoolConfig} {state : Service n}
    (unborrowed : state.Unborrowed) (served : Served poolConfig state) (awaited : Awaited state)
    (name : CallId ⊕ CallId) :
    ¬ Execution.Enabled (step hashUrl poolConfig) Event.caller? state name := by
  rintro ⟨event, next, own, stepped⟩
  obtain ⟨call, _, present, running, _⟩ := moves_of_caller (step_transition stepped) own
  rw [unborrowed.settled served awaited present] at running
  contradiction

/-- What the pool cannot do the engine cannot do. -/
theorem not_enabled_pool {n : Nat} {ι : Type*} {poolConfig : V8PoolConfig} {state : Service n}
    {agent : Pool.Event n → Option ι} {member : ι}
    (stuck : ¬ Execution.Enabled (Pool.step poolConfig) agent state.pool member) :
    ¬ Execution.Enabled (step hashUrl poolConfig) (Event.ofPool agent) state member := by
  rintro ⟨⟨now, action⟩, next, own, stepped⟩
  cases action with
  | pool poolEvent =>
      have stepped := step_transition stepped
      cases stepped with
      | works action inner poolStepped =>
          obtain rfl := Action.pool.inj action
          exact stuck ⟨_, _, own, poolStepped⟩
      | _ => simp_all [Action.invalidation?]
  | _ => contradiction

/-- One worker serves one call that misses the cache, and the engine is dropped. -/
def settledEvents : List (Event 1) :=
  let worker : Fin 1 := Fin.last 0
  [⟨0, .lookup 0 "/a" "\x7b\x7d"⟩, ⟨0, .enter 0⟩, ⟨0, .pool (.trySend 0 0)⟩,
    ⟨1, .pool (.pin worker)⟩, ⟨1, .pool (.initRuntime worker .ok)⟩, ⟨1, .pool (.lock worker)⟩,
    ⟨1, .pool (.recv worker)⟩, ⟨2, .pool (.render worker (.completed (.ok "page")))⟩,
    ⟨2, .pool (.reply worker)⟩, ⟨2, .pool (.receiveResponse 0)⟩,
    ⟨3, .finish 0 0 Platform.VisitOrder.stored⟩, ⟨4, .drop⟩, ⟨4, .pool (.lock worker)⟩,
    ⟨4, .pool (.recv worker)⟩, ⟨4, .pool (.leave worker)⟩]

def limitedConfig : SsrConfig := { SsrEngine.smallConfig with requestTimeout := some 10 }

theorem exists_settled_run :
    ∃ run : FairRun SsrCache.hashOfTwo limitedConfig none, run.FairCallers ∧
      run.poolRun.Staffed ∧ ∃ call, (run.state 1).entry (.inl 0) = some call := by
  obtain ⟨final, executed, unborrowed, rest, empty⟩ : ∃ final : Service 1,
      Execution.exec (step SsrCache.hashOfTwo (SsrEngine.poolConfig limitedConfig))
        (initial limitedConfig none) settledEvents = some final ∧
      final.Unborrowed ∧ Pool.FairRun.AtRest final.pool ∧ final.pool.queue = [] :=
    ⟨_, rfl, ⟨by decide, by decide⟩, ⟨Fin.forall_fin_one.mpr rfl, by decide⟩, rfl⟩
  have served := (served_of_exec executed).1
  have awaited := awaited_of_exec executed
  let run : FairRun SsrCache.hashOfTwo limitedConfig none :=
    { toBehaviour := Execution.Behaviour.ofEvents executed
      start := rfl
      fair := fun worker => Execution.Behaviour.weaklyFair_ofEvents executed
        (not_enabled_pool (rest.not_enabled_worker served.sound worker)) }
  refine ⟨run, ⟨?_, ?_, ?_⟩, ?_, ?_⟩
  · exact fun name => Execution.Behaviour.weaklyFair_ofEvents executed
      (not_enabled_caller unborrowed served awaited name)
  · exact fun id => Execution.Behaviour.weaklyFair_ofEvents executed
      (not_enabled_pool (rest.not_enabled_collector served.sound id))
  · intro id time bound sending
    obtain ⟨call, request, deadline, present, phase⟩ :=
      sending (max time 15) (Nat.le_max_left _ _)
    rw [show run.state (max time 15) = final from
      Execution.Behaviour.ofEvents_state executed (Nat.le_max_right _ _)] at present
    have settled := rest.settled served.sound present
    simp [Call.inFlight, phase] at settled
  · intro time queued none
    change (run.state time).pool.queue ≠ [] at queued
    by_cases past : 15 ≤ time
    · rw [show run.state time = final from Execution.Behaviour.ofEvents_state executed past]
        at queued
      exact queued empty
    · have during : ∀ time < 15, (Execution.exec
          (step SsrCache.hashOfTwo (SsrEngine.poolConfig limitedConfig))
          (initial limitedConfig Option.none) (settledEvents.take time)).all
          (fun state : Service 1 =>
            state.pool.queue.isEmpty || !(state.pool.workers 0).hasEnded) = true := by decide
      have here := during time (Nat.lt_of_not_le past)
      rw [Execution.Behaviour.exec_take_ofEvents executed time] at here
      change ((run.state time).pool.queue.isEmpty ||
        !((run.state time).pool.workers (0 : Fin 1)).hasEnded) = true at here
      rw [Bool.or_eq_true, Bool.not_eq_true'] at here
      rcases here with idle | living
      · exact queued (List.isEmpty_iff.mp idle)
      · exact Bool.false_ne_true (living.symm.trans (none (0 : Fin 1)))
  · obtain ⟨middle, reached, call, present⟩ : ∃ middle : Service 1,
        Execution.exec (step SsrCache.hashOfTwo (SsrEngine.poolConfig limitedConfig))
          (initial limitedConfig none) (settledEvents.take 1) = some middle ∧
        ∃ call, middle.entry (.inl 0) = some call := ⟨_, rfl, _, rfl⟩
    rw [Execution.Behaviour.exec_take_ofEvents executed 1] at reached
    exact ⟨call, Option.some.inj reached ▸ present⟩

theorem eventually_settled_of_served :
    ∃ run : FairRun SsrCache.hashOfTwo limitedConfig none, ∃ later after,
      (run.state later).entry (.inl 0) = some after ∧ after.stage.running = false := by
  obtain ⟨run, callers, staffed, call, present⟩ := exists_settled_run
  obtain ⟨later, _, after, afterPresent, ended⟩ :=
    run.eventually_settled callers staffed rfl present
  exact ⟨run, later, after, afterPresent, ended⟩

end FairRun

end RustySsr.Engine.Service
