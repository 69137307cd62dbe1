import Mathlib.Data.List.Induction
import Mathlib.Data.List.Infix

/-!
Owns executions of machines whose events fix their steps: total machines, where
every event is possible, and partial ones, where `none` disables an event. An
invariant may speak of the events so far, and a guard restricts each event in
the state it happens in. Nothing here knows what the machines compute.
-/

namespace RustySsr.Foundation.Execution

universe u v

variable {σ : Type u} {ε : Type v}

/-! ### Total machines -/

section Total

variable (step : σ → ε → σ)

/-- The state after the events, in order. -/
def run (state : σ) (events : List ε) : σ := events.foldl step state

theorem run_append (state : σ) (first second : List ε) :
    run step state (first ++ second) = run step (run step state first) second :=
  List.foldl_append

@[simp] theorem run_snoc (state : σ) (events : List ε) (event : ε) :
    run step state (events ++ [event]) = step (run step state events) event := by
  rw [run_append]
  rfl

/-- Every event meets the guard in the state in which it happens. -/
def Guarded (guard : σ → ε → Prop) (state : σ) (events : List ε) : Prop :=
  ∀ earlier event later, events = earlier ++ event :: later →
    guard (run step state earlier) event

variable {step}

theorem guarded_nil (guard : σ → ε → Prop) (state : σ) : Guarded step guard state [] :=
  fun _ _ _ split => by simp at split

theorem guarded_cons_iff {guard : σ → ε → Prop} {state : σ} {event : ε} {events : List ε} :
    Guarded step guard state (event :: events) ↔
      guard state event ∧ Guarded step guard (step state event) events := by
  constructor
  · intro guarded
    exact ⟨guarded [] event events rfl, fun earlier next later split =>
      guarded (event :: earlier) next later (by rw [split, List.cons_append])⟩
  · rintro ⟨first, rest⟩ earlier next later split
    cases earlier with
    | nil =>
        obtain ⟨rfl, rfl⟩ := List.cons.inj split
        exact first
    | cons head earlier =>
        obtain ⟨rfl, restSplit⟩ := List.cons.inj split
        exact rest earlier next later restSplit

/-- A run is checked against a decidable guard event by event. -/
instance decidableGuarded {guard : σ → ε → Prop} [∀ state event, Decidable (guard state event)] :
    (state : σ) → (events : List ε) → Decidable (Guarded step guard state events)
  | state, [] => isTrue (guarded_nil guard state)
  | state, event :: events =>
      have : Decidable (Guarded step guard (step state event) events) :=
        decidableGuarded (step state event) events
      decidable_of_iff' _ guarded_cons_iff

theorem Guarded.initial {guard : σ → ε → Prop} {state : σ} {first second : List ε}
    (guarded : Guarded step guard state (first ++ second)) :
    Guarded step guard state first := by
  intro earlier event later split
  exact guarded earlier event (later ++ second) (by simp [split])

theorem Guarded.last {guard : σ → ε → Prop} {state : σ} {events : List ε} {event : ε}
    (guarded : Guarded step guard state (events ++ [event])) :
    guard (run step state events) event :=
  guarded events event [] rfl

/-- What holds initially and survives every guarded event holds after every
guarded run; the invariant may mention the events so far. -/
theorem run_invariant {guard : σ → ε → Prop} (invariant : List ε → σ → Prop) {state : σ}
    {events : List ε} (start : invariant [] state)
    (preserved : ∀ history current event, invariant history current → guard current event →
      invariant (history ++ [event]) (step current event))
    (guarded : Guarded step guard state events) :
    invariant events (run step state events) := by
  induction events using List.reverseRecOn with
  | nil => exact start
  | append_singleton events event inductionHypothesis =>
      rw [run_snoc]
      exact preserved events _ event (inductionHypothesis guarded.initial) guarded.last

/-- The unguarded case of `run_invariant`. -/
theorem run_invariant_always (invariant : List ε → σ → Prop) {state : σ} {events : List ε}
    (start : invariant [] state)
    (preserved : ∀ history current event, invariant history current →
      invariant (history ++ [event]) (step current event)) :
    invariant events (run step state events) :=
  have unguarded : Guarded step (fun _ _ => True) state events := fun _ _ _ _ => trivial
  run_invariant invariant start
    (fun history current event holds _ => preserved history current event holds) unguarded

theorem le_measure_run {measure : σ → Nat}
    (grows : ∀ current event, measure current ≤ measure (step current event)) (state : σ)
    (events : List ε) : measure state ≤ measure (run step state events) := by
  induction events generalizing state with
  | nil => exact Nat.le_refl _
  | cons event events inductionHypothesis =>
      exact (grows state event).trans (inductionHypothesis (step state event))

/-- A bound on what only grows holds after every event if it holds at the end. -/
theorem guarded_of_measure_run {measure : σ → Nat}
    (grows : ∀ current event, measure current ≤ measure (step current event)) {state : σ}
    {events : List ε} {bound : Nat} (final : measure (run step state events) < bound) :
    Guarded step (fun current event => measure (step current event) < bound) state events := by
  intro earlier event later split
  rw [split, run_append] at final
  exact (le_measure_run grows _ later).trans_lt final

/-- Where the guard says of every event exactly when it keeps a property, the
guarded runs are those in which the property always holds. -/
theorem forall_run_iff_guarded {guard : σ → ε → Prop} {property : σ → Prop} {state : σ}
    (start : property state)
    (exact : ∀ current event, property current →
      (property (step current event) ↔ guard current event)) (events : List ε) :
    (∀ upTo, upTo <+: events → property (run step state upTo)) ↔
      Guarded step guard state events := by
  constructor
  · intro holds earlier event later split
    have before := holds earlier ⟨event :: later, split.symm⟩
    have after := holds (earlier ++ [event]) ⟨later, by simp [split]⟩
    rw [run_snoc] at after
    exact (exact _ _ before).mp after
  · rintro guarded upTo ⟨rest, rfl⟩
    exact run_invariant (fun _ current => property current) start
      (fun _ current event holds allowed => (exact current event holds).mpr allowed)
      guarded.initial

/-- What the events of a run record, in order. -/
def trace {β : Type*} (step : σ → ε → σ) (record : σ → ε → List β) (state : σ) :
    List ε → List β
  | [] => []
  | event :: events => record state event ++ trace step record (step state event) events

theorem trace_snoc {β : Type*} (record : σ → ε → List β) (state : σ) (events : List ε)
    (event : ε) :
    trace step record state (events ++ [event]) =
      trace step record state events ++ record (run step state events) event := by
  induction events generalizing state with
  | nil => exact List.append_nil _
  | cons first events inductionHypothesis =>
      rw [List.cons_append, trace, inductionHypothesis, ← List.append_assoc]
      rfl

end Total

/-! ### Machines that answer -/

section Answering

variable {τ : Type*} {α : Type*}

/-- The answers to the events, in order. -/
def transcript (respond : σ → ε → α × σ) : σ → List ε → List α
  | _, [] => []
  | state, event :: events =>
      (respond state event).1 :: transcript respond (respond state event).2 events

/-- The state after the events. -/
def settle (respond : σ → ε → α × σ) (state : σ) (events : List ε) : σ :=
  run (fun current event => (respond current event).2) state events

/-- An answer is given to an event in the state in which it happens. -/
theorem mem_transcript_iff {respond : σ → ε → α × σ} {state : σ} {events : List ε} {answer : α} :
    answer ∈ transcript respond state events ↔
      ∃ earlier event later, events = earlier ++ event :: later ∧
        (respond (settle respond state earlier) event).1 = answer := by
  induction events generalizing state with
  | nil => simp [transcript]
  | cons first events inductionHypothesis =>
      rw [transcript, List.mem_cons, inductionHypothesis]
      constructor
      · rintro (rfl | ⟨earlier, event, later, rfl, answered⟩)
        · exact ⟨[], first, events, rfl, rfl⟩
        · exact ⟨first :: earlier, event, later, rfl, answered⟩
      · rintro ⟨earlier, event, later, split, answered⟩
        cases earlier with
        | nil =>
            obtain ⟨rfl, rfl⟩ := List.cons.inj split
            exact Or.inl answered.symm
        | cons head earlier =>
            obtain ⟨rfl, rfl⟩ := List.cons.inj split
            exact Or.inr ⟨earlier, event, later, rfl, answered⟩

/-- Two machines in step: if every event that the reference allows is answered
alike and keeps them related, then a whole run is. -/
theorem simulates {respond : σ → ε → α × σ} {reference : τ → ε → α × τ}
    {relation : σ → τ → Prop} {guard : τ → ε → Prop}
    (preserved : ∀ state model event, relation state model → guard model event →
      (respond state event).1 = (reference model event).1 ∧
        relation (respond state event).2 (reference model event).2)
    {state : σ} {model : τ} {events : List ε} (start : relation state model)
    (guarded : Guarded (fun current event => (reference current event).2) guard model events) :
    transcript respond state events = transcript reference model events ∧
      relation (settle respond state events) (settle reference model events) := by
  induction events generalizing state model with
  | nil => exact ⟨rfl, start⟩
  | cons event events inductionHypothesis =>
      obtain ⟨allowed, rest⟩ := guarded_cons_iff.mp guarded
      obtain ⟨sameAnswer, related⟩ := preserved state model event start allowed
      obtain ⟨sameAnswers, final⟩ := inductionHypothesis related rest
      exact ⟨congrArg₂ List.cons sameAnswer sameAnswers, final⟩

/-- The same where the relation may speak of the events so far, and a step may
use which run it belongs to. -/
theorem simulates_within {respond : σ → ε → α × σ} {reference : τ → ε → α × τ}
    {relation : List ε → σ → τ → Prop} {guard : τ → ε → Prop} {events : List ε}
    (preserved : ∀ earlier event later state model, events = earlier ++ event :: later →
      relation earlier state model → guard model event →
      (respond state event).1 = (reference model event).1 ∧
        relation (earlier ++ [event]) (respond state event).2 (reference model event).2)
    {state : σ} {model : τ} (start : relation [] state model)
    (guarded : Guarded (fun current event => (reference current event).2) guard model events) :
    transcript respond state events = transcript reference model events ∧
      relation events (settle respond state events) (settle reference model events) := by
  have along : ∀ rest earlier (current : σ) (abstract : τ), events = earlier ++ rest →
      relation earlier current abstract →
      Guarded (fun current event => (reference current event).2) guard abstract rest →
      transcript respond current rest = transcript reference abstract rest ∧
        relation events (settle respond current rest) (settle reference abstract rest) := by
    intro rest
    induction rest with
    | nil =>
        intro earlier current abstract split related _
        rw [List.append_nil] at split
        exact ⟨rfl, split ▸ related⟩
    | cons event rest inductionHypothesis =>
        intro earlier current abstract split related guarded
        obtain ⟨allowed, guardedRest⟩ := guarded_cons_iff.mp guarded
        obtain ⟨sameAnswer, nextRelated⟩ :=
          preserved earlier event rest current abstract split related allowed
        obtain ⟨sameAnswers, final⟩ := inductionHypothesis (earlier ++ [event]) _ _
          (by rw [split, List.append_assoc, List.singleton_append]) nextRelated guardedRest
        exact ⟨congrArg₂ List.cons sameAnswer sameAnswers, final⟩
  exact along events [] state model rfl start guarded

end Answering

/-! ### Partial machines -/

section Partial

variable (step : σ → ε → Option σ)

/-- The state after the events, if each is possible in its turn. -/
def exec (state : σ) (events : List ε) : Option σ := events.foldlM step state

@[simp] theorem exec_nil (state : σ) : exec step state [] = some state := rfl

theorem exec_append (state : σ) (first second : List ε) :
    exec step state (first ++ second) =
      (exec step state first).bind fun middle => exec step middle second :=
  List.foldlM_append

theorem exec_snoc_some_iff {state final : σ} {events : List ε} {event : ε} :
    exec step state (events ++ [event]) = some final ↔
      ∃ middle, exec step state events = some middle ∧ step middle event = some final := by
  rw [exec_append, Option.bind_eq_some_iff]
  simp [exec]

theorem exec_cons_some_iff {state final : σ} {event : ε} {events : List ε} :
    exec step state (event :: events) = some final ↔
      ∃ next, step state event = some next ∧ exec step next events = some final :=
  Option.bind_eq_some_iff

theorem exec_append_some_iff {state final : σ} {first second : List ε} :
    exec step state (first ++ second) = some final ↔
      ∃ middle, exec step state first = some middle ∧ exec step middle second = some final := by
  rw [exec_append, Option.bind_eq_some_iff]

/-- A run goes on from every state it reaches with its next event. -/
theorem exec_next_of_reached {state middle final : σ} {earlier later : List ε} {event : ε}
    (executed : exec step state (earlier ++ event :: later) = some final)
    (reached : exec step state earlier = some middle) :
    ∃ next, step middle event = some next ∧ exec step state (earlier ++ [event]) = some next := by
  obtain ⟨before, reachedBefore, rest⟩ := (exec_append_some_iff step).mp executed
  obtain rfl : middle = before := Option.some.inj (reached.symm.trans reachedBefore)
  obtain ⟨next, stepped, _⟩ := (exec_cons_some_iff step).mp rest
  exact ⟨next, stepped, (exec_snoc_some_iff step).mpr ⟨middle, reached, stepped⟩⟩

/-- Every event meets the guard in the state in which it happens. -/
def ExecGuarded (guard : σ → ε → Prop) (state : σ) (events : List ε) : Prop :=
  ∀ earlier event later middle, events = earlier ++ event :: later →
    exec step state earlier = some middle → guard middle event

variable {step}

theorem execGuarded_nil (guard : σ → ε → Prop) (state : σ) :
    ExecGuarded step guard state [] :=
  fun _ _ _ _ split => by simp at split

theorem execGuarded_cons {guard : σ → ε → Prop} {state : σ} {event : ε} {events : List ε}
    (first : guard state event)
    (rest : ∀ next, step state event = some next → ExecGuarded step guard next events) :
    ExecGuarded step guard state (event :: events) := by
  intro earlier next later middle split reached
  cases earlier with
  | nil =>
      obtain ⟨rfl, rfl⟩ := List.cons.inj split
      obtain rfl := Option.some.inj reached
      exact first
  | cons head earlier =>
      obtain ⟨rfl, restSplit⟩ := List.cons.inj split
      obtain ⟨after, stepped, continued⟩ := (exec_cons_some_iff step).mp reached
      exact rest after stepped earlier next later middle restSplit continued

/-- The case of `execGuarded_cons` where the step is known, as on a concrete run. -/
theorem execGuarded_cons_some {guard : σ → ε → Prop} {state next : σ} {event : ε} {events : List ε}
    (first : guard state event) (stepped : step state event = some next)
    (rest : ExecGuarded step guard next events) :
    ExecGuarded step guard state (event :: events) :=
  execGuarded_cons first fun _ other => Option.some.inj (stepped.symm.trans other) ▸ rest

/-- Events that the guard allows in every state. -/
theorem execGuarded_of_forall {guard : σ → ε → Prop} {events : List ε} (state : σ)
    (allowed : ∀ event ∈ events, ∀ current, guard current event) :
    ExecGuarded step guard state events := by
  rintro earlier event later middle rfl _
  exact allowed event (List.mem_append_right _ List.mem_cons_self) middle

theorem ExecGuarded.initial {guard : σ → ε → Prop} {state : σ} {first second : List ε}
    (guarded : ExecGuarded step guard state (first ++ second)) :
    ExecGuarded step guard state first := by
  intro earlier event later middle split reached
  exact guarded earlier event (later ++ second) middle (by simp [split]) reached

/-- Some event meets the condition in the state in which it happens. -/
def ExecOccurs (step : σ → ε → Option σ) (condition : σ → ε → Prop) (state : σ)
    (events : List ε) : Prop :=
  ∃ earlier event later middle, events = earlier ++ event :: later ∧
    exec step state earlier = some middle ∧ condition middle event

theorem ExecOccurs.append {condition : σ → ε → Prop} {state : σ} {first : List ε}
    (occurs : ExecOccurs step condition state first) (second : List ε) :
    ExecOccurs step condition state (first ++ second) := by
  obtain ⟨earlier, event, later, middle, split, reached, met⟩ := occurs
  exact ⟨earlier, event, later ++ second, middle, by simp [split], reached, met⟩

/-- What occurs in a run occurs before or after any state of it. -/
theorem ExecOccurs.split {condition : σ → ε → Prop} {state middle : σ} {first second : List ε}
    (occurs : ExecOccurs step condition state (first ++ second))
    (reached : exec step state first = some middle) :
    ExecOccurs step condition state first ∨ ExecOccurs step condition middle second := by
  obtain ⟨earlier, event, later, current, split, reachedCurrent, met⟩ := occurs
  rcases List.append_eq_append_iff.mp split with ⟨between, rfl, secondEq⟩ | ⟨between, rfl, restEq⟩
  · obtain ⟨again, reachedAgain, continued⟩ := (exec_append_some_iff step).mp reachedCurrent
    obtain rfl : middle = again := Option.some.inj (reached.symm.trans reachedAgain)
    exact Or.inr ⟨between, event, later, current, secondEq, continued, met⟩
  · cases between with
    | nil =>
        obtain rfl : middle = current :=
          Option.some.inj (reached.symm.trans (by simpa using reachedCurrent))
        exact Or.inr ⟨[], event, later, middle, restEq.symm, rfl, met⟩
    | cons head between =>
        obtain ⟨rfl, _⟩ := List.cons.inj restEq
        exact Or.inl ⟨earlier, event, between, current, rfl, reachedCurrent, met⟩

theorem execOccurs_singleton_iff {condition : σ → ε → Prop} {state : σ} {event : ε} :
    ExecOccurs step condition state [event] ↔ condition state event := by
  constructor
  · rintro ⟨earlier, only, later, middle, split, reached, met⟩
    rcases List.singleton_eq_append_iff.mp split with ⟨rfl, same⟩ | ⟨_, absurdEq⟩
    · obtain ⟨rfl, -⟩ := List.cons.inj same
      exact Option.some.inj reached ▸ met
    · contradiction
  · exact fun met => ⟨[], event, [], state, rfl, rfl, met⟩

theorem execOccurs_last {condition : σ → ε → Prop} {state current : σ} {events : List ε}
    {event : ε} (reached : exec step state events = some current) (met : condition current event) :
    ExecOccurs step condition state (events ++ [event]) :=
  ⟨events, event, [], current, rfl, reached, met⟩

/-- What holds initially and survives every possible guarded event holds after
every guarded run; the invariant may mention the events so far. -/
theorem exec_invariant {guard : σ → ε → Prop} (invariant : List ε → σ → Prop) {state final : σ}
    {events : List ε} (start : invariant [] state)
    (preserved : ∀ history current event next, invariant history current → guard current event →
      step current event = some next → invariant (history ++ [event]) next)
    (guarded : ExecGuarded step guard state events)
    (executed : exec step state events = some final) : invariant events final := by
  induction events using List.reverseRecOn generalizing final with
  | nil =>
      rw [exec_nil, Option.some.injEq] at executed
      exact executed ▸ start
  | append_singleton events event inductionHypothesis =>
      obtain ⟨middle, reached, stepped⟩ := (exec_snoc_some_iff step).mp executed
      exact preserved events middle event final (inductionHypothesis guarded.initial reached)
        (guarded events event [] middle rfl reached) stepped

/-- The unguarded case of `exec_invariant`. -/
theorem exec_invariant_always (invariant : List ε → σ → Prop) {state final : σ} {events : List ε}
    (start : invariant [] state)
    (preserved : ∀ history current event next, invariant history current →
      step current event = some next → invariant (history ++ [event]) next)
    (executed : exec step state events = some final) : invariant events final :=
  have unguarded : ExecGuarded step (fun _ _ => True) state events := fun _ _ _ _ _ _ => trivial
  exec_invariant invariant start
    (fun history current event next holds _ => preserved history current event next holds)
    unguarded executed

theorem execGuarded_snoc_iff {guard : σ → ε → Prop} {state current : σ} {events : List ε}
    {event : ε} (reached : exec step state events = some current) :
    ExecGuarded step guard state (events ++ [event]) ↔
      ExecGuarded step guard state events ∧ guard current event := by
  constructor
  · intro guarded
    exact ⟨guarded.initial, guarded events event [] current rfl reached⟩
  · rintro ⟨guarded, last⟩ earlier next later middle split reachedEarlier
    rcases List.eq_nil_or_concat later with rfl | ⟨later, final, rfl⟩
    · obtain ⟨rfl, sameEvent⟩ := List.append_inj' split rfl
      obtain rfl := List.singleton_inj.mp sameEvent
      obtain rfl := Option.some.inj (reached.symm.trans reachedEarlier)
      exact last
    · have splitBefore : events ++ [event] = (earlier ++ next :: later) ++ [final] := by
        simpa using split
      exact guarded earlier next later middle (List.append_inj' splitBefore rfl).1 reachedEarlier

/-- Where a property survives a step exactly if it held and the guard allows the
event, it holds at the end of exactly the guarded runs. -/
theorem exec_property_iff_guarded {guard : σ → ε → Prop} (property : σ → Prop)
    {state final : σ} {events : List ε} (start : property state)
    (exact : ∀ history current event next, exec step state history = some current →
      step current event = some next → (property next ↔ property current ∧ guard current event))
    (executed : exec step state events = some final) :
    property final ↔ ExecGuarded step guard state events := by
  induction events using List.reverseRecOn generalizing final with
  | nil =>
      obtain rfl := Option.some.inj executed
      exact iff_of_true start (execGuarded_nil guard state)
  | append_singleton events event inductionHypothesis =>
      obtain ⟨current, reached, stepped⟩ := (exec_snoc_some_iff step).mp executed
      rw [exact events current event final reached stepped, inductionHypothesis reached,
        execGuarded_snoc_iff reached]

end Partial

end RustySsr.Foundation.Execution
