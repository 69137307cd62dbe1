/-!
Owns operations made of several steps on a shared state: a step from a stage
leaves another stage or the answer. `Completes` is such an operation run without
interruption, and `Completes.lift` carries a run into an operation that embeds
it. Nothing here knows what the operations do, or how several of them interleave.
-/

namespace RustySsr.Foundation.Staged

universe u v w

/-- What a step leaves of an operation: the next stage, or its answer. -/
inductive Outcome (stage : Type u) (answer : Type v) where
  | continues (next : stage)
  | returns (result : answer)

namespace Outcome

variable {stage stage' : Type u} {answer answer' : Type v}

/-- The step as a step of a larger operation. -/
def bind (outcome : Outcome stage answer) (wrap : stage → stage')
    (resume : answer → Outcome stage' answer') : Outcome stage' answer' :=
  match outcome with
  | .continues next => .continues (wrap next)
  | .returns result => resume result

@[simp] theorem bind_continues (next : stage) (wrap : stage → stage')
    (resume : answer → Outcome stage' answer') :
    (Outcome.continues next).bind wrap resume = .continues (wrap next) := rfl

@[simp] theorem bind_returns (result : answer) (wrap : stage → stage')
    (resume : answer → Outcome stage' answer') :
    (Outcome.returns result : Outcome stage answer).bind wrap resume = resume result := rfl

theorem bind_eq_continues_iff {outcome : Outcome stage answer} {wrap : stage → stage'}
    {rename : answer → answer'} {following : stage'} :
    (outcome.bind wrap fun result => .returns (rename result)) = .continues following ↔
      ∃ next, outcome = .continues next ∧ wrap next = following := by
  cases outcome <;> simp [bind]

theorem bind_eq_returns_iff {outcome : Outcome stage answer} {wrap : stage → stage'}
    {rename : answer → answer'} {renamed : answer'} :
    (outcome.bind wrap fun result => .returns (rename result)) = .returns renamed ↔
      ∃ result, outcome = .returns result ∧ rename result = renamed := by
  cases outcome <;> simp [bind]

end Outcome

section Runs

variable {σ τ : Type w} {stage stage' : Type u} {answer answer' : Type v}

/-- The operation runs from the stage to its answer, with nothing in between. -/
inductive Completes (step : σ → stage → σ × Outcome stage answer) :
    σ → stage → answer → σ → Prop where
  | returns {state final : σ} {current : stage} {result : answer}
      (stepped : step state current = (final, .returns result)) :
      Completes step state current result final
  | continues {state middle final : σ} {current next : stage} {result : answer}
      (stepped : step state current = (middle, .continues next))
      (rest : Completes step middle next result final) :
      Completes step state current result final

/-- What is left of the larger operation after its part has returned. -/
inductive Resumes (step : σ → stage → σ × Outcome stage answer) (state : σ) :
    Outcome stage answer → answer → σ → Prop where
  | returns (result : answer) : Resumes step state (.returns result) result state
  | continues {next : stage} {result : answer} {final : σ}
      (rest : Completes step state next result final) :
      Resumes step state (.continues next) result final

/-- A step followed by what it leaves to do. -/
theorem Completes.of_step {step : σ → stage → σ × Outcome stage answer} {state middle final : σ}
    {current : stage} {outcome : Outcome stage answer} {result : answer}
    (stepped : step state current = (middle, outcome))
    (rest : Resumes step middle outcome result final) :
    Completes step state current result final := by
  cases rest with
  | returns => exact .returns stepped
  | continues rest => exact .continues stepped rest

/-- A run of a part is a run of the larger operation up to where it resumes. -/
theorem Completes.lift {inner : τ → stage' → τ × Outcome stage' answer'}
    {outer : σ → stage → σ × Outcome stage answer} (embed : τ → σ) (wrap : stage' → stage)
    {resume : answer' → Outcome stage answer}
    (simulates : ∀ state current, outer (embed state) (wrap current) =
      (embed (inner state current).1, (inner state current).2.bind wrap resume))
    {state middle : τ} {current : stage'} {part : answer'} {result : answer} {final : σ}
    (run : Completes inner state current part middle)
    (rest : Resumes outer (embed middle) (resume part) result final) :
    Completes outer (embed state) (wrap current) result final := by
  induction run with
  | @returns state final current part stepped =>
      have outerStepped : outer (embed state) (wrap current) = (embed final, resume part) := by
        rw [simulates, stepped]
        rfl
      exact .of_step outerStepped rest
  | continues stepped _ inductionHypothesis =>
      refine .continues ?_ (inductionHypothesis rest)
      rw [simulates, stepped]
      rfl

end Runs

end RustySsr.Foundation.Staged
