import Mathlib.Order.WellFounded
import RustySsr.Foundation.Execution

/-!
Owns endless executions of partial machines: the weak fairness that a scheduler
grants to an agent, and the rule by which fair agents reach a goal. The rule
asks for a measure in a well-order and for helpful agents: every step lowers the
measure, or keeps it together with the helpful agents and is none of theirs.
Nothing here knows what the machines compute.
-/

namespace RustySsr.Foundation.Execution

universe u v w x

variable {σ : Type u} {ε : Type v} {ι : Type w}

/-- An execution without end. At a time without an event nothing changes. -/
structure Behaviour (step : σ → ε → Option σ) where
  state : Nat → σ
  event : Nat → Option ε
  advances : ∀ time, (event time).elim (some (state time)) (step (state time)) =
    some (state (time + 1))

/-- An event of the agent is possible in the state. -/
def Enabled (step : σ → ε → Option σ) (agent : ε → Option ι) (state : σ) (member : ι) : Prop :=
  ∃ event next, agent event = some member ∧ step state event = some next

theorem enabled_of_isSome {step : σ → ε → Option σ} {agent : ε → Option ι} {state : σ} {member : ι}
    (event : ε) (own : agent event = some member) (possible : (step state event).isSome = true) :
    Enabled step agent state member :=
  have ⟨next, stepped⟩ := Option.isSome_iff_exists.mp possible
  ⟨event, next, own, stepped⟩

namespace Behaviour

variable {step : σ → ε → Option σ} (behaviour : Behaviour step)

theorem state_of_none {time : Nat} (idle : behaviour.event time = none) :
    behaviour.state (time + 1) = behaviour.state time := by
  have advances := behaviour.advances time
  rw [idle] at advances
  exact (Option.some.inj advances).symm

theorem step_of_some {time : Nat} {event : ε} (happens : behaviour.event time = some event) :
    step (behaviour.state time) event = some (behaviour.state (time + 1)) := by
  have advances := behaviour.advances time
  rwa [happens] at advances

/-- The events before a time, in order. -/
def eventsBefore (time : Nat) : List ε := (List.range time).filterMap behaviour.event

/-- A run of finitely many events leads to the state at every time. -/
theorem exec_eventsBefore (time : Nat) :
    exec step (behaviour.state 0) (behaviour.eventsBefore time) = some (behaviour.state time) := by
  induction time with
  | zero => rfl
  | succ time inductionHypothesis =>
      rw [eventsBefore, List.range_succ, List.filterMap_append, exec_append]
      change (exec step (behaviour.state 0) (behaviour.eventsBefore time)).bind _ = _
      rw [inductionHypothesis, Option.bind_some]
      cases happens : behaviour.event time with
      | none => simp [happens, behaviour.state_of_none happens]
      | some event => simp [happens, exec, behaviour.step_of_some happens]

/-- What no event undoes lasts. -/
theorem lasts (property : σ → Prop) {first last : Nat} (ordered : first ≤ last)
    (holds : property (behaviour.state first))
    (kept : ∀ time event, first ≤ time → behaviour.event time = some event →
      property (behaviour.state time) → property (behaviour.state (time + 1))) :
    property (behaviour.state last) := by
  induction last, ordered using Nat.le_induction with
  | base => exact holds
  | succ last later inductionHypothesis =>
      cases happens : behaviour.event last with
      | none => rwa [behaviour.state_of_none happens]
      | some event => exact kept last event later happens inductionHypothesis

/-- An agent that could always act from some time on does act. -/
def WeaklyFair (agent : ε → Option ι) (member : ι) : Prop :=
  ∀ time, (∀ later, time ≤ later → Enabled step agent (behaviour.state later) member) →
    ∃ later, time ≤ later ∧ ∃ event, behaviour.event later = some event ∧
      agent event = some member

/-- A run reaches a state after each of its events. -/
theorem exists_exec_take {start final : σ} {events : List ε}
    (executed : exec step start events = some final) (count : Nat) :
    ∃ middle, exec step start (events.take count) = some middle := by
  rw [← List.take_append_drop count events] at executed
  obtain ⟨middle, reached, _⟩ := (exec_append_some_iff step).mp executed
  exact ⟨middle, reached⟩

/-- A run of finitely many events after which nothing happens. -/
def ofEvents {start final : σ} {events : List ε} (executed : exec step start events = some final) :
    Behaviour step where
  state time := (exec step start (events.take time)).getD final
  event time := events[time]?
  advances time := by
    obtain ⟨next, reachedNext⟩ := exists_exec_take executed (time + 1)
    cases happens : events[time]? with
    | none =>
        have past : events.length ≤ time := List.getElem?_eq_none_iff.mp happens
        simp [List.take_of_length_le past, List.take_of_length_le past.step]
    | some event =>
        rw [reachedNext]
        rw [List.take_add_one, happens, Option.toList_some] at reachedNext
        obtain ⟨middle, reachedMiddle, stepped⟩ := (exec_snoc_some_iff step).mp reachedNext
        simp [reachedMiddle, stepped]

theorem exec_take_ofEvents {start final : σ} {events : List ε}
    (executed : exec step start events = some final) (time : Nat) :
    exec step start (events.take time) = some ((ofEvents executed).state time) := by
  obtain ⟨middle, reached⟩ := exists_exec_take executed time
  simp [ofEvents, reached]

theorem ofEvents_state {start final : σ} {events : List ε}
    (executed : exec step start events = some final) {time : Nat} (past : events.length ≤ time) :
    (ofEvents executed).state time = final := by
  simp [ofEvents, List.take_of_length_le past, executed]

/-- Who cannot act in the end has been treated fairly. -/
theorem weaklyFair_ofEvents {agent : ε → Option ι} {member : ι} {start final : σ}
    {events : List ε} (executed : exec step start events = some final)
    (stuck : ¬ Enabled step agent final member) :
    (ofEvents executed).WeaklyFair agent member := by
  intro time always
  have enabled := always (max time events.length) (Nat.le_max_left _ _)
  rw [ofEvents_state executed (Nat.le_max_right _ _)] at enabled
  exact absurd enabled stuck

variable {behaviour}

section Response

variable {α : Type x} [LinearOrder α] {agent : ε → Option ι} (measure : σ → α)
  (helpful : σ → ι → Prop) {start : Nat}

/-- As long as the goal is missed, some agent is helpful and can act, and each
step lowers the measure or leaves it and the helpful agents as they are. -/
structure Helped (behaviour : Behaviour step) (agent : ε → Option ι) (goal : σ → Prop)
    (start : Nat) : Prop where
  helped : ∀ time, start ≤ time → ¬ goal (behaviour.state time) →
    ∃ member, helpful (behaviour.state time) member
  able : ∀ time member, start ≤ time → ¬ goal (behaviour.state time) →
    helpful (behaviour.state time) member → Enabled step agent (behaviour.state time) member
  moves : ∀ time event, start ≤ time → behaviour.event time = some event →
    ¬ goal (behaviour.state time) → ¬ goal (behaviour.state (time + 1)) →
      measure (behaviour.state (time + 1)) < measure (behaviour.state time) ∨
        (measure (behaviour.state (time + 1)) ≤ measure (behaviour.state time) ∧
          ∀ member, helpful (behaviour.state time) member →
            agent event ≠ some member ∧ helpful (behaviour.state (time + 1)) member)

variable {measure helpful}

/-- A fair helpful agent brings the measure down. -/
theorem Helped.measure_falls {goal : σ → Prop}
    (help : Helped measure helpful behaviour agent goal start)
    (fair : ∀ member, behaviour.WeaklyFair agent member)
    (missed : ∀ time, start ≤ time → ¬ goal (behaviour.state time)) {time : Nat}
    (after : start ≤ time) :
    ∃ later, time ≤ later ∧ measure (behaviour.state later) < measure (behaviour.state time) := by
  by_contra never
  have neverFalls : ∀ later, time ≤ later →
      measure (behaviour.state time) ≤ measure (behaviour.state later) :=
    fun later ordered => not_lt.mp fun falls => never ⟨later, ordered, falls⟩
  obtain ⟨member, helps⟩ := help.helped time after (missed time after)
  have moves : ∀ later event, time ≤ later → behaviour.event later = some event →
      measure (behaviour.state later) ≤ measure (behaviour.state time) →
      measure (behaviour.state (later + 1)) ≤ measure (behaviour.state later) ∧
        ∀ other, helpful (behaviour.state later) other →
          agent event ≠ some other ∧ helpful (behaviour.state (later + 1)) other := by
    intro later event ordered happens atMost
    refine (help.moves later event (after.trans ordered) happens (missed _ (after.trans ordered))
      (missed _ (after.trans ordered).step)).resolve_left fun falls => ?_
    exact absurd (neverFalls (later + 1) ordered.step) (not_le.mpr (falls.trans_le atMost))
  -- So the measure stays where it is, and the agent stays helpful.
  have stays : ∀ later, time ≤ later →
      measure (behaviour.state later) ≤ measure (behaviour.state time) ∧
        helpful (behaviour.state later) member := by
    intro later ordered
    refine behaviour.lasts (fun state =>
      measure state ≤ measure (behaviour.state time) ∧ helpful state member) ordered
      ⟨le_refl _, helps⟩ fun current event beyond happens held => ?_
    obtain ⟨keeps, others⟩ := moves current event beyond happens held.1
    exact ⟨keeps.trans held.1, (others member held.2).2⟩
  obtain ⟨later, ordered, event, happens, own⟩ := fair member time fun later ordered =>
    help.able later member (after.trans ordered) (missed later (after.trans ordered))
      (stays later ordered).2
  obtain ⟨atMost, stillHelps⟩ := stays later ordered
  exact ((moves later event ordered happens atMost).2 member stillHelps).1 own

/-- Fair agents reach the goal towards which they are helped. -/
theorem Helped.eventually [WellFoundedLT α] {goal : σ → Prop}
    (help : Helped measure helpful behaviour agent goal start)
    (fair : ∀ member, behaviour.WeaklyFair agent member) :
    ∃ later, start ≤ later ∧ goal (behaviour.state later) := by
  by_contra never
  have missed : ∀ time, start ≤ time → ¬ goal (behaviour.state time) :=
    fun time after reached => never ⟨time, after, reached⟩
  -- The measure would fall for ever.
  suffices endless : ∀ value time, start ≤ time → measure (behaviour.state time) = value → False
    from endless _ start (Nat.le_refl _) rfl
  intro value
  induction value using WellFoundedLT.induction with
  | ind value inductionHypothesis =>
      intro time after sameValue
      obtain ⟨later, ordered, falls⟩ := help.measure_falls fair missed after
      exact inductionHypothesis _ (sameValue ▸ falls) later (after.trans ordered) rfl

end Response

end Behaviour

end RustySsr.Foundation.Execution
