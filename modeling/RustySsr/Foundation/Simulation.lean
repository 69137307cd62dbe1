import RustySsr.Foundation.Execution

/-!
Owns forward simulations between partial machines. A step of the detailed machine
is matched by any number of steps of the coarse one, none included, and
`translation` says which. Nothing here knows what the machines compute.
-/

namespace RustySsr.Foundation.Execution

universe u v w x

variable {σ : Type u} {ε : Type v} {τ : Type w} {α : Type x}

/-- The coarse events of a run, event by event. -/
def translation (step : σ → ε → Option σ) (translate : σ → ε → List α) :
    σ → List ε → List α
  | _, [] => []
  | state, event :: events =>
      translate state event ++
        (step state event).elim [] fun next => translation step translate next events

section Translation

variable {step : σ → ε → Option σ} {translate : σ → ε → List α}

theorem translation_cons {state next : σ} {event : ε} (stepped : step state event = some next)
    (events : List ε) :
    translation step translate state (event :: events) =
      translate state event ++ translation step translate next events := by
  rw [translation, stepped, Option.elim_some]

variable {coarse : τ → α → Option τ}

/-- Every step of the detailed machine is matched between related states. -/
def Simulates (step : σ → ε → Option σ) (coarse : τ → α → Option τ)
    (translate : σ → ε → List α) (relation : σ → τ → Prop) : Prop :=
  ∀ state model event next, relation state model → step state event = some next →
    ∃ final, exec coarse model (translate state event) = some final ∧ relation next final

/-- A matched run ends in related states. -/
theorem Simulates.exec {relation : σ → τ → Prop}
    (simulates : Simulates step coarse translate relation) {state final : σ} {model : τ}
    {events : List ε} (related : relation state model)
    (executed : exec step state events = some final) :
    ∃ finalModel, Execution.exec coarse model (translation step translate state events) =
      some finalModel ∧ relation final finalModel := by
  induction events generalizing state model with
  | nil =>
      obtain rfl := Option.some.inj executed
      exact ⟨model, rfl, related⟩
  | cons event events inductionHypothesis =>
      obtain ⟨next, stepped, continued⟩ := (exec_cons_some_iff step).mp executed
      obtain ⟨middle, matched, nextRelated⟩ := simulates state model event next related stepped
      obtain ⟨finalModel, rest, finalRelated⟩ := inductionHypothesis nextRelated continued
      refine ⟨finalModel, ?_, finalRelated⟩
      rw [translation_cons stepped]
      exact (exec_append_some_iff coarse).mpr ⟨middle, matched, rest⟩

end Translation

end RustySsr.Foundation.Execution
