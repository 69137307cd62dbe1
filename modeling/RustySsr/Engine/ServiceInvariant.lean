import RustySsr.Engine.Service

/-!
Owns the invariant of the engine with its pool: the pool is in a state that it
can reach by itself, and every call that has entered it waits for a pool call of
its own, made for its URL and data. `Transition.pooled_cases` says how a call
comes to wait, and `Served.transition` that every step keeps the invariant.
-/

namespace RustySsr.Engine.Service

open RustySsr.Cache
open RustySsr.V8Pool
open RustySsr.Foundation

variable {n : Nat}

/-- A call of either kind, by its number. -/
def entry (state : Service n) : CallId ⊕ CallId → Option ServiceCall :=
  Sum.elim state.calls state.uncached

/-- The call of this name waits for this pool call. -/
def Owns (state : Service n) (name : CallId ⊕ CallId) (poolCall : CallId) : Prop :=
  ∃ url data, state.entry name = some ⟨url, data, .pooled poolCall⟩

structure Served (config : V8PoolConfig) (state : Service n) : Prop where
  sound : Pool.Sound config state.pool
  finishedOnce : state.pool.FinishedOnce
  unused : ∀ id, state.nextCall ≤ id → state.calls id = none
  owned : ∀ name url data poolCall, state.entry name = some ⟨url, data, .pooled poolCall⟩ →
    ∃ call, state.pool.calls poolCall = some call ∧ call.url = url ∧ call.data = data
  apart : ∀ name other poolCall, state.Owns name poolCall → state.Owns other poolCall →
    name = other

section Steps

variable {hashUrl : String → UInt64} {config : V8PoolConfig} {state next : Service n}
  {event : Event n}

/-- The pool takes a step of its own or none. -/
theorem Transition.pool_step (step : Transition hashUrl config state event next) :
    next.pool = state.pool ∨ ∃ poolEvent, state.pool.step config poolEvent = some next.pool := by
  cases step with
  | enters action missed called => exact Or.inr ⟨.call _ _ _, called⟩
  | cancels action pooled cancelled => exact Or.inr ⟨.cancel _, cancelled⟩
  | entersUncached action called => exact Or.inr ⟨.call _ _ _, called⟩
  | cancelsUncached action pooled cancelled => exact Or.inr ⟨.cancel _, cancelled⟩
  | works action inner stepped => exact Or.inr ⟨_, stepped⟩
  | drops action unborrowed dropped => exact Or.inr ⟨.drop, dropped⟩
  | _ => exact Or.inl rfl

theorem setStage_entry (state : Service n) {id : CallId} {name : CallId ⊕ CallId} {stage : Stage}
    {call : ServiceCall} (present : (state.setStage id stage).entry name = some call) :
    state.entry name = some call ∨
      (name = .inl id ∧ ∃ old, state.calls id = some old ∧ call = { old with stage := stage }) := by
  cases name with
  | inr other => exact Or.inl present
  | inl other =>
      change Function.update state.calls id _ other = some call at present
      by_cases same : other = id
      · subst same
        rw [Function.update_self, Option.map_eq_some_iff] at present
        obtain ⟨old, oldPresent, callEq⟩ := present
        exact Or.inr ⟨rfl, old, oldPresent, callEq.symm⟩
      · rw [Function.update_of_ne same] at present
        exact Or.inl present

theorem setUncached_entry (state : Service n) {id : CallId} {name : CallId ⊕ CallId}
    {stage : Stage} {call : ServiceCall}
    (present : (state.setUncached id stage).entry name = some call) :
    state.entry name = some call ∨
      (name = .inr id ∧ ∃ old, state.uncached id = some old ∧
        call = { old with stage := stage }) := by
  cases name with
  | inl other => exact Or.inl present
  | inr other =>
      change Function.update state.uncached id _ other = some call at present
      by_cases same : other = id
      · subst same
        rw [Function.update_self, Option.map_eq_some_iff] at present
        obtain ⟨old, oldPresent, callEq⟩ := present
        exact Or.inr ⟨rfl, old, oldPresent, callEq.symm⟩
      · rw [Function.update_of_ne same] at present
        exact Or.inl present

/-- Who is given another stage no longer waits for a pool call. -/
theorem pooled_of_setStage (state : Service n) {id : CallId} {name : CallId ⊕ CallId}
    {stage : Stage} {url data : String} {poolCall : CallId}
    (different : ∀ poolCall, stage ≠ .pooled poolCall)
    (pooled : (state.setStage id stage).entry name = some ⟨url, data, .pooled poolCall⟩) :
    state.entry name = some ⟨url, data, .pooled poolCall⟩ := by
  rcases setStage_entry state pooled with old | ⟨_, old, _, callEq⟩
  · exact old
  · exact absurd (congrArg ServiceCall.stage callEq).symm (different poolCall)

theorem pooled_of_setUncached (state : Service n) {id : CallId} {name : CallId ⊕ CallId}
    {stage : Stage} {url data : String} {poolCall : CallId}
    (different : ∀ poolCall, stage ≠ .pooled poolCall)
    (pooled : (state.setUncached id stage).entry name = some ⟨url, data, .pooled poolCall⟩) :
    state.entry name = some ⟨url, data, .pooled poolCall⟩ := by
  rcases setUncached_entry state pooled with old | ⟨_, old, _, callEq⟩
  · exact old
  · exact absurd (congrArg ServiceCall.stage callEq).symm (different poolCall)

/-- A call waits for a pool call since before the step, or it has entered the
pool with it now. -/
theorem Transition.pooled_cases (step : Transition hashUrl config state event next)
    {name : CallId ⊕ CallId} {url data : String} {poolCall : CallId}
    (pooled : next.entry name = some ⟨url, data, .pooled poolCall⟩) :
    state.entry name = some ⟨url, data, .pooled poolCall⟩ ∨
      (poolCall = state.pool.nextCall ∧
        state.pool.call config url data event.now = some next.pool ∧
          ∀ other otherUrl otherData otherCall,
            next.entry other = some ⟨otherUrl, otherData, .pooled otherCall⟩ → other ≠ name →
              state.entry other = some ⟨otherUrl, otherData, .pooled otherCall⟩) := by
  cases step with
  | @looks thread lookedUrl lookedData stage action answer =>
      cases name with
      | inr other => exact Or.inl pooled
      | inl other =>
          change Function.update state.calls state.nextCall _ other = _ at pooled
          by_cases same : other = state.nextCall
          · rw [same, Function.update_self, Option.some.injEq] at pooled
            have stageEq := congrArg ServiceCall.stage pooled
            rcases answer with ⟨html, rfl, _⟩ | ⟨rfl, _⟩ <;> contradiction
          · rw [Function.update_of_ne same] at pooled
            exact Or.inl pooled
  | @enters id missedUrl missedData pool action missed called =>
      rcases setStage_entry { state with clock := event.now, pool := pool } pooled with
        old | ⟨rfl, old, present, callEq⟩
      · exact Or.inl old
      · obtain rfl := Option.some.inj (missed.symm.trans present)
        obtain ⟨rfl, rfl, stageEq⟩ := ServiceCall.mk.inj callEq
        refine Or.inr ⟨Stage.pooled.inj stageEq, called, ?_⟩
        intro other otherUrl otherData otherCall otherPooled different
        rcases setStage_entry { state with clock := event.now, pool := pool }
          otherPooled with before | ⟨same, _⟩
        · exact before
        · exact absurd same different
  | stores action oldPooled served =>
      exact Or.inl (pooled_of_setStage { state with clock := event.now } (by simp) pooled)
  | fails action oldPooled failed =>
      exact Or.inl (pooled_of_setStage { state with clock := event.now } (by simp) pooled)
  | cancels action oldPooled cancelled =>
      exact Or.inl (pooled_of_setStage { state with clock := event.now } (by simp) pooled)
  | @entersUncached enteredUrl enteredData pool action called =>
      cases name with
      | inl other => exact Or.inl pooled
      | inr other =>
          change Function.update state.uncached state.nextUncached _ other = _ at pooled
          by_cases same : other = state.nextUncached
          · subst same
            rw [Function.update_self, Option.some.injEq] at pooled
            obtain ⟨rfl, rfl, stageEq⟩ := ServiceCall.mk.inj pooled
            refine Or.inr ⟨(Stage.pooled.inj stageEq).symm, called, ?_⟩
            rintro (id | id) otherUrl otherData otherCall otherPooled different
            · exact otherPooled
            · change Function.update state.uncached state.nextUncached _ id = _ at otherPooled
              rwa [Function.update_of_ne (fun same => different (congrArg _ same))] at otherPooled
          · rw [Function.update_of_ne same] at pooled
            exact Or.inl pooled
  | finishesUncached action oldPooled returned =>
      exact Or.inl (pooled_of_setUncached { state with clock := event.now } (by simp)
        pooled)
  | cancelsUncached action oldPooled cancelled =>
      exact Or.inl (pooled_of_setUncached { state with clock := event.now } (by simp)
        pooled)
  | works action inner stepped => exact Or.inl pooled
  | invalidates same acted => exact Or.inl pooled
  | drops action unborrowed dropped => exact Or.inl pooled

/-- Calls are numbered in order. -/
theorem Transition.unused (step : Transition hashUrl config state event next)
    (unused : ∀ id, state.nextCall ≤ id → state.calls id = none) (id : CallId)
    (beyond : next.nextCall ≤ id) : next.calls id = none := by
  have setStage_none : ∀ {changed : CallId} {stage : Stage}, state.nextCall ≤ id →
      Function.update state.calls changed
        ((state.calls changed).map fun call => { call with stage := stage }) id = none := by
    intro changed stage beyond
    by_cases same : id = changed
    · subst same
      rw [Function.update_self, unused id beyond]
      rfl
    · rw [Function.update_of_ne same, unused id beyond]
  cases step with
  | looks action answer =>
      have later : state.nextCall < id := beyond
      show Function.update state.calls state.nextCall _ id = none
      rw [Function.update_of_ne later.ne']
      exact unused id later.le
  | enters action missed called => exact setStage_none beyond
  | stores action pooled served => exact setStage_none beyond
  | fails action pooled failed => exact setStage_none beyond
  | cancels action pooled cancelled => exact setStage_none beyond
  | _ => exact unused id beyond

/-- A new pool call is nobody's yet. -/
theorem Served.not_owns_next (served : Served config state) (name : CallId ⊕ CallId) :
    ¬ state.Owns name state.pool.nextCall := by
  rintro ⟨url, data, pooled⟩
  obtain ⟨call, present, _⟩ := served.owned name url data _ pooled
  rw [served.sound.fresh _ (Nat.le_refl _)] at present
  contradiction

theorem Served.transition (served : Served config state)
    (step : Transition hashUrl config state event next) : Served config next where
  sound := by
    rcases step.pool_step with same | ⟨poolEvent, stepped⟩
    · rw [same]
      exact served.sound
    · exact served.sound.transition (Pool.step_transition stepped)
  finishedOnce := by
    rcases step.pool_step with same | ⟨poolEvent, stepped⟩
    · rw [same]
      exact served.finishedOnce
    · exact served.finishedOnce.advance served.sound
        (served.sound.transition (Pool.step_transition stepped))
        (Pool.step_advance served.sound stepped)
  unused := step.unused served.unused
  owned := by
    intro name url data poolCall pooled
    rcases step.pooled_cases pooled with old | ⟨rfl, called, _⟩
    · obtain ⟨call, present, sameUrl, sameData⟩ := served.owned name url data poolCall old
      rcases step.pool_step with same | ⟨poolEvent, stepped⟩
      · exact ⟨call, by rw [same]; exact present, sameUrl, sameData⟩
      · obtain ⟨after, afterPresent, goesOn⟩ :=
          served.sound.goesOn (Pool.step_transition stepped) present
        exact ⟨after, afterPresent, goesOn.same.1.trans sameUrl, goesOn.same.2.trans sameData⟩
    · unfold Pool.call at called
      split_ifs at called
      obtain poolEq := Option.some.inj called
      rw [← poolEq]
      exact ⟨_, Function.update_self _ _ _, rfl, rfl⟩
  apart := by
    rintro name other poolCall ⟨url, data, pooled⟩ ⟨otherUrl, otherData, otherPooled⟩
    by_contra different
    rcases step.pooled_cases pooled with old | ⟨rfl, _, others⟩
    · rcases step.pooled_cases otherPooled with otherOld | ⟨rfl, _, others⟩
      · exact different (served.apart name other poolCall ⟨url, data, old⟩
          ⟨otherUrl, otherData, otherOld⟩)
      · exact served.not_owns_next name ⟨url, data, old⟩
    · exact served.not_owns_next other ⟨otherUrl, otherData,
        others other otherUrl otherData _ otherPooled (Ne.symm different)⟩

end Steps

theorem served_initial (config : SsrConfig) (coreIds : Option (List Nat)) :
    Served (SsrEngine.poolConfig config) (initial config coreIds) where
  sound := Pool.sound_initial _ _ _
  finishedOnce := ⟨List.nodup_nil, fun _ member => absurd member List.not_mem_nil,
    fun _ _ _ => List.not_mem_nil⟩
  unused := fun _ _ => rfl
  owned := by rintro (id | id) url data poolCall present <;> contradiction
  apart := by rintro (id | id) other poolCall ⟨url, data, present⟩ <;> contradiction

end RustySsr.Engine.Service
