import RustySsr.Cache.Interleaved.Barrier

/-!
Owns where pages come from while operations interleave. Whatever the threads do
between two steps of a lookup, each page in a tier and each page a lookup holds
was given to an insertion that had started, under a URL with the same hash. It
does not own which of several such pages a lookup returns.
-/

namespace RustySsr.Cache.Interleaved

open RustySsr.Platform
open RustySsr.Foundation
open RustySsr.Foundation.Staged
open RustySsr.Cache.SsrCache

section Statements

variable (hashUrl : String → UInt64)

/-- An insertion of this page under the key has started. -/
def GivenUnder (state : Interleaved) (key : UInt64) (html : String) : Prop :=
  ∃ op source answer, hashUrl source = key ∧ state.calls op = some ⟨.insert source html, answer⟩

/-- Every page in a tier, in the hands of a lookup or in its answer was given to
an insertion. -/
structure Supplied (state : Interleaved) : Prop where
  pages : Pages (fun key _ html _ => GivenUnder hashUrl state key html)
    (fun _ _ key entry => GivenUnder hashUrl state key entry.html) state.cache
  flights : ∀ {thread op target stage html}, state.threads thread = .tryGet op target stage →
    stage.held = some html → GivenUnder hashUrl state (hashUrl target) html
  answers : ∀ {op target html},
    state.calls op = some ⟨.tryGet target, some (.found (some html))⟩ →
      GivenUnder hashUrl state (hashUrl target) html

end Statements

section Steps

variable {hashUrl : String → UInt64} {state following : Interleaved} {event : Event}

theorem GivenUnder.step {key : UInt64} {html : String} (given : GivenUnder hashUrl state key html)
    (registered : Registered state) (stepped : state.step hashUrl event = some following) :
    GivenUnder hashUrl following key html := by
  obtain ⟨op, source, _, sameHash, present⟩ := given
  obtain ⟨answer, kept, _⟩ := step_calls registered stepped present
  exact ⟨op, source, answer, sameHash, kept⟩

theorem givenUnder_of_inserting (registered : Registered state) {thread : ThreadId} {op : OpId}
    {source html : String} {stage : InsertStage}
    (inserting : state.threads thread = .insert op source html stage) :
    GivenUnder hashUrl state (hashUrl source) html :=
  ⟨op, source, none, rfl, registered.current (by rw [inserting]; rfl)⟩

theorem supplied_initial (maxColdEntries ttlSecs : Nat) :
    Supplied hashUrl (initial maxColdEntries ttlSecs) where
  pages := pages_withTtl _ _ _ _
  flights := fun flying => by simp [initial] at flying
  answers := fun answered => by simp [initial] at answered

/-- A lookup takes a page from a tier only, whichever thread has moved. -/
theorem Supplied.step_flights (supplied : Supplied hashUrl state)
    (stepped : state.step hashUrl event = some following) {thread : ThreadId} {op : OpId}
    {target html : String} {stage : LookupStage}
    (flying : following.threads thread = .tryGet op target stage)
    (holds : stage.held = some html) : GivenUnder hashUrl state (hashUrl target) html := by
  rcases step_held stepped flying holds with ⟨earlier, flew, held⟩ |
    ⟨hot, entry, present, exposed, rfl⟩ | ⟨pageUrl, createdAt, page⟩
  · exact supplied.flights flew held
  · exact supplied.pages.hot present exposed
  · exact supplied.pages.cold page

theorem Supplied.step (supplied : Supplied hashUrl state) (registered : Registered state)
    (stepped : state.step hashUrl event = some following) : Supplied hashUrl following where
  pages := by
    refine step_pages (supplied.pages.mono (fun given => given.step registered stepped)
      fun given => given.step registered stepped) ?_ ?_ stepped
    · intro thread op target html hot now promoting _
      exact (supplied.flights promoting rfl).step registered stepped
    · intro thread op source html stage now inserting
      have given : GivenUnder hashUrl state (hashUrl source) html :=
        givenUnder_of_inserting registered inserting
      have stays := given.step registered stepped
      exact ⟨stays, fun _ => stays⟩
  flights := fun flying holds =>
    (supplied.step_flights stepped flying holds).step registered stepped
  answers := by
    intro op target html answered
    rcases step_answers registered stepped answered with
      before | ⟨thread, _, now, cache, runs, advanced, _⟩
    · exact (supplied.answers before).step registered stepped
    · obtain ⟨ranTarget, stage, control, moved⟩ := next_returns_found advanced
      rw [control] at runs
      obtain ⟨_, rfl⟩ : op = op ∧ ranTarget = target := by simpa [Control.running] using runs
      have holds := tryGetStep_returns (congrArg Prod.snd moved)
      exact (supplied.flights control holds).step registered stepped

end Steps

variable {hashUrl : String → UInt64}

/-- **No interleaving makes up a page.** In every state of every interleaving,
the page that a lookup has returned was given to an insertion that had started,
under a URL with the same hash. -/
theorem found_given {maxColdEntries ttlSecs : Nat} {events : List Event} {final : Interleaved}
    (executed : Execution.exec (step hashUrl) (initial maxColdEntries ttlSecs) events = some final)
    {lookup : OpId} {url html : String}
    (hit : final.calls lookup = some ⟨.tryGet url, some (.found (some html))⟩) :
    ∃ op source answer, hashUrl source = hashUrl url ∧
      final.calls op = some ⟨.insert source html, answer⟩ := by
  obtain ⟨_, supplied⟩ := Execution.exec_invariant_always
    (fun _ current => Consistent hashUrl current ∧ Supplied hashUrl current)
    ⟨consistent_of_exec (Execution.exec_nil (step hashUrl) (initial maxColdEntries ttlSecs)),
      supplied_initial maxColdEntries ttlSecs⟩
    (fun _ _ _ _ holds stepped =>
      ⟨holds.1.step stepped, holds.2.step holds.1.registered stepped⟩) executed
  exact supplied.answers hit

/-- The lookup reads the page of one insertion, and returns it after another
insertion has stored a second page under the URL. -/
def overtakenLookup : List Event :=
  .start 0 (.insert "/a" "old") :: advances 0 7 ++ .start 1 (.tryGet "/a") :: advances 1 4 ++
    .start 0 (.insert "/a" "new") :: advances 0 7 ++ advances 1 3

theorem found_given_of_overtaken :
    ∃ final op source answer,
      Execution.exec (step hashOfTwo) (initial 4 0) overtakenLookup = some final ∧
      hashOfTwo source = hashOfTwo "/a" ∧ final.calls op = some ⟨.insert source "old", answer⟩ := by
  obtain ⟨final, executed, answered⟩ := Option.map_eq_some_iff.mp
    (show (Execution.exec (step hashOfTwo) (initial 4 0) overtakenLookup).map
        (fun state => state.calls 1) = some (some ⟨.tryGet "/a", some (.found (some "old"))⟩) by
      decide +kernel)
  obtain ⟨op, source, answer, sameHash, given⟩ := found_given executed answered
  exact ⟨final, op, source, answer, executed, sameHash, given⟩

end RustySsr.Cache.Interleaved
