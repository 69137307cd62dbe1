import Mathlib.Logic.Function.Basic
import RustySsr.Engine.Model
import RustySsr.Foundation.Execution

/-!
Owns the process-wide bundle of `src/v8_pool/bundle.rs`: the three calls that
initialise it, step by step, with the files they read and the runtimes that load
it. The polyfills' text, and the `Debug` text of a path, are parameters.
`initialised_sound` states for every interleaving what a returned call
guarantees, and what `SsrEngine::new` may rely on.
-/

namespace RustySsr.Engine.Bundle

open RustySsr.Foundation

abbrev CallId := Nat

abbrev WorkerId := Nat

/-- A call that initialises the bundle. -/
inductive Call where
  | initBundle (path : String)
  | initBundleFromString (bundle : String)
  | initBundleRaw (bundle : String)
deriving DecidableEq, Repr

/-- Where a call stands: before `SSR_BUNDLE.get()`, before `read_to_string`,
before `SSR_BUNDLE.set` of its full bundle, or returned. -/
inductive Stage where
  | check (path : String)
  | read (path : String)
  | set (fullBundle : String)
  | returned (result : Except SsrError Unit)

/-- `SSR_BUNDLE`, the files with the texts of their IO errors, the calls, and
the bundle code that each worker's runtime has executed. -/
structure State where
  ssrBundle : Option String
  files : String → Except String String
  calls : CallId → Option (Call × Stage)
  runtimes : WorkerId → Option String

/-- A step of the process. `initRuntime` carries whether the runtime executed
the bundle without an error. -/
inductive Event where
  | start (id : CallId) (call : Call)
  | advance (id : CallId)
  | write (path : String) (contents : Except String String)
  | initRuntime (worker : WorkerId) (executed : Bool)

def initial (files : String → Except String String) : State where
  ssrBundle := none
  files := files
  calls := fun _ => none
  runtimes := fun _ => none

def State.setStage (state : State) (id : CallId) (call : Call) (stage : Stage) : State :=
  { state with calls := Function.update state.calls id (some (call, stage)) }

/-- `SSR_BUNDLE.set(full_bundle)` with its error mapped. -/
def State.setBundle (state : State) (fullBundle : String) : Except SsrError Unit × State :=
  match state.ssrBundle with
  | none => (.ok (), { state with ssrBundle := some fullBundle })
  | some _ => (.error (.bundleLoad "Bundle already initialized"), state)

/-- `get_bundle`, where `none` is its panic. -/
def State.getBundle (state : State) : Option String := state.ssrBundle

/-- `init_runtime` on a worker's thread, which panics without a bundle and
fails if the bundle does not execute. -/
def State.initRuntime (state : State) (worker : WorkerId) (executed : Bool) : State :=
  match state.runtimes worker with
  | some _ => state
  | none =>
      if executed then
        { state with runtimes := Function.update state.runtimes worker state.getBundle }
      else state

section Machine

variable (polyfills : String) (debug : String → String)

/-- `format!("{}\n{}", BROWSER_POLYFILLS, bundle)`. -/
def withPolyfills (bundle : String) : String := polyfills ++ "\n" ++ bundle

/-- The first step of a call. -/
def Call.entry : Call → Stage
  | .initBundle path => .check path
  | .initBundleFromString bundle => .set (withPolyfills polyfills bundle)
  | .initBundleRaw bundle => .set bundle

/-- The next step of a call. -/
def advance (state : State) : Stage → Option (Stage × State)
  | .check path =>
      if state.ssrBundle.isSome then some (.returned (.ok ()), state) else some (.read path, state)
  | .read path =>
      match state.files path with
      | .error error => some (.returned (.error (.bundleLoad
          ("Failed to read SSR bundle from " ++ debug path ++ ": " ++ error))), state)
      | .ok userBundle => some (.set (withPolyfills polyfills userBundle), state)
  | .set fullBundle =>
      some (.returned (state.setBundle fullBundle).1, (state.setBundle fullBundle).2)
  | .returned _ => none

def step (state : State) : Event → Option State
  | .start id call =>
      match state.calls id with
      | some _ => none
      | none => some (state.setStage id call (call.entry polyfills))
  | .advance id =>
      match state.calls id with
      | none => none
      | some (call, stage) =>
          (advance polyfills debug state stage).map fun next => next.2.setStage id call next.1
  | .write path contents => some { state with files := Function.update state.files path contents }
  | .initRuntime worker executed => some (state.initRuntime worker executed)

end Machine

/-! ### What a step can do -/

section Steps

variable {polyfills : String} {debug : String → String} {state next : State} {event : Event}

/-- A step of a call that installs nothing. -/
inductive Moves (polyfills : String) (debug : String → String) (state : State) :
    Stage → Stage → Prop where
  | found {path installed : String} (present : state.ssrBundle = some installed) :
      Moves polyfills debug state (.check path) (.returned (.ok ()))
  | absent {path : String} (empty : state.ssrBundle = none) :
      Moves polyfills debug state (.check path) (.read path)
  | unread {path error : String} (failed : state.files path = .error error) :
      Moves polyfills debug state (.read path) (.returned (.error (.bundleLoad
        ("Failed to read SSR bundle from " ++ debug path ++ ": " ++ error))))
  | reads {path userBundle : String} (contents : state.files path = .ok userBundle) :
      Moves polyfills debug state (.read path) (.set (withPolyfills polyfills userBundle))
  | late {fullBundle installed : String} (present : state.ssrBundle = some installed) :
      Moves polyfills debug state (.set fullBundle)
        (.returned (.error (.bundleLoad "Bundle already initialized")))

/-- A step, by what changes and what was the case before. -/
inductive Transition (polyfills : String) (debug : String → String) (state : State) :
    Event → State → Prop where
  | starts {id : CallId} {call : Call} (unused : state.calls id = none) :
      Transition polyfills debug state (.start id call)
        (state.setStage id call (call.entry polyfills))
  | moves {id : CallId} {call : Call} {stage following : Stage}
      (present : state.calls id = some (call, stage))
      (moved : Moves polyfills debug state stage following) :
      Transition polyfills debug state (.advance id) (state.setStage id call following)
  | installs {id : CallId} {call : Call} {fullBundle : String}
      (present : state.calls id = some (call, .set fullBundle)) (empty : state.ssrBundle = none) :
      Transition polyfills debug state (.advance id)
        ({ state with ssrBundle := some fullBundle }.setStage id call (.returned (.ok ())))
  | writes (path : String) (contents : Except String String) :
      Transition polyfills debug state (.write path contents)
        { state with files := Function.update state.files path contents }
  | loads {worker : WorkerId} (executed : Bool) (fresh : state.runtimes worker = none) :
      Transition polyfills debug state (.initRuntime worker executed)
        { state with runtimes := Function.update state.runtimes worker state.ssrBundle }
  | idles (worker : WorkerId) (executed : Bool) :
      Transition polyfills debug state (.initRuntime worker executed) state

/-- A call installs its bundle, or makes a step that installs nothing. -/
theorem advance_cases {stage following : Stage}
    (advanced : advance polyfills debug state stage = some (following, next)) :
    (Moves polyfills debug state stage following ∧ next = state) ∨
      ∃ fullBundle, stage = .set fullBundle ∧ state.ssrBundle = none ∧
        following = .returned (.ok ()) ∧ next = { state with ssrBundle := some fullBundle } := by
  cases stage with
  | check path =>
      unfold advance at advanced
      split_ifs at advanced with installed
      · obtain ⟨bundle, bundleEq⟩ := Option.isSome_iff_exists.mp installed
        cases advanced
        exact Or.inl ⟨.found bundleEq, rfl⟩
      · cases advanced
        exact Or.inl ⟨.absent (Option.not_isSome_iff_eq_none.mp installed), rfl⟩
  | read path =>
      simp only [advance] at advanced
      cases contents : state.files path with
      | error error =>
          rw [contents] at advanced
          cases advanced
          exact Or.inl ⟨.unread contents, rfl⟩
      | ok userBundle =>
          rw [contents] at advanced
          cases advanced
          exact Or.inl ⟨.reads contents, rfl⟩
  | set fullBundle =>
      simp only [advance, State.setBundle] at advanced
      cases installed : state.ssrBundle with
      | none =>
          rw [installed] at advanced
          cases advanced
          exact Or.inr ⟨fullBundle, rfl, rfl, rfl, rfl⟩
      | some bundle =>
          rw [installed] at advanced
          cases advanced
          exact Or.inl ⟨.late installed, rfl⟩
  | returned result => simp [advance] at advanced

theorem step_transition (stepped : step polyfills debug state event = some next) :
    Transition polyfills debug state event next := by
  cases event with
  | start id call =>
      unfold step at stepped
      cases unused : state.calls id with
      | some _ => simp [unused] at stepped
      | none =>
          simp only [unused, Option.some.injEq] at stepped
          subst stepped
          exact .starts unused
  | advance id =>
      unfold step at stepped
      cases present : state.calls id with
      | none => simp [present] at stepped
      | some progress =>
          simp only [present, Option.map_eq_some_iff] at stepped
          obtain ⟨result, advanced, nextEq⟩ := stepped
          rcases advance_cases advanced with ⟨moved, kept⟩ |
            ⟨fullBundle, atSet, empty, returns, installs⟩
          · rw [← nextEq, kept]
            exact .moves present moved
          · rw [← nextEq, returns, installs]
            have atInstall : state.calls id = some (progress.1, .set fullBundle) := by
              rw [present, ← atSet]
            exact .installs atInstall empty
  | write path contents =>
      rw [← Option.some.inj stepped]
      exact .writes path contents
  | initRuntime worker executed =>
      rw [← Option.some.inj stepped, State.initRuntime, State.getBundle]
      cases fresh : state.runtimes worker with
      | some _ => exact .idles worker executed
      | none =>
          dsimp only
          split_ifs
          · exact .loads executed fresh
          · exact .idles worker executed

theorem step_keeps_bundle (stepped : step polyfills debug state event = some next)
    {bundle : String} (installed : state.ssrBundle = some bundle) :
    next.ssrBundle = some bundle := by
  cases step_transition stepped with
  | installs _ empty => simp [installed] at empty
  | _ => exact installed

/-- Only a call that thereby returns `Ok` changes the bundle. -/
theorem step_changes_bundle (stepped : step polyfills debug state event = some next)
    (changed : next.ssrBundle ≠ state.ssrBundle) :
    ∃ id call, event = .advance id ∧ next.calls id = some (call, .returned (.ok ())) := by
  cases step_transition stepped with
  | @installs id call fullBundle present empty =>
      exact ⟨id, call, rfl, Function.update_self _ _ _⟩
  | _ => exact absurd rfl changed

theorem step_keeps_returned (stepped : step polyfills debug state event = some next)
    {id : CallId} {call : Call} {result : Except SsrError Unit}
    (returned : state.calls id = some (call, .returned result)) :
    next.calls id = some (call, .returned result) := by
  -- A step of another call, since this one has no further step.
  have others {other : CallId} {otherCall : Call} {stage : Stage} (different : id ≠ other) :
      (state.setStage other otherCall stage).calls id = some (call, .returned result) :=
    (Function.update_of_ne different _ _).trans returned
  cases step_transition stepped with
  | starts unused => exact others fun same => by simp [← same, returned] at unused
  | moves present moved =>
      refine others fun same => ?_
      rw [← same, returned, Option.some.injEq, Prod.mk.injEq] at present
      rw [← present.2] at moved
      cases moved
  | installs present empty =>
      refine others fun same => ?_
      simp [← same, returned] at present
  | writes path contents => exact returned
  | loads executed fresh => exact returned
  | idles worker executed => exact returned

/-- A call does not go back to its check. -/
theorem step_past_check (stepped : step polyfills debug state event = some next) {id : CallId}
    {call : Call} {stage : Stage} (present : state.calls id = some (call, stage))
    (past : ∀ path, stage ≠ .check path) :
    ∃ following, next.calls id = some (call, following) ∧ ∀ path, following ≠ .check path := by
  have others {other : CallId} {otherCall : Call} {otherStage : Stage} (different : id ≠ other) :
      (state.setStage other otherCall otherStage).calls id = some (call, stage) :=
    (Function.update_of_ne different _ _).trans present
  cases step_transition stepped with
  | starts unused =>
      exact ⟨stage, others fun same => by simp [← same, present] at unused, past⟩
  | @moves mover moverCall before following atBefore moved =>
      by_cases same : id = mover
      · subst same
        obtain ⟨rfl, rfl⟩ := Prod.mk.inj (Option.some.inj (present.symm.trans atBefore))
        refine ⟨following, Function.update_self _ _ _, fun path back => ?_⟩
        rw [back] at moved
        cases moved
      · exact ⟨stage, others same, past⟩
  | @installs installer installerCall fullBundle atSet empty =>
      by_cases same : id = installer
      · subst same
        obtain ⟨rfl, rfl⟩ := Prod.mk.inj (Option.some.inj (present.symm.trans atSet))
        exact ⟨_, Function.update_self _ _ _, fun _ => Stage.noConfusion⟩
      · exact ⟨stage, others same, past⟩
  | writes path contents => exact ⟨stage, present, past⟩
  | loads executed fresh => exact ⟨stage, present, past⟩
  | idles worker executed => exact ⟨stage, present, past⟩

/-- Every runtime has executed the bundle that is installed. -/
def RuntimesAgree (state : State) : Prop :=
  ∀ worker code, state.runtimes worker = some code → state.ssrBundle = some code

theorem RuntimesAgree.step (agree : RuntimesAgree state)
    (stepped : step polyfills debug state event = some next) : RuntimesAgree next := by
  intro worker code executed
  have before : state.runtimes worker = some code → next.ssrBundle = some code :=
    fun loaded => step_keeps_bundle stepped (agree worker code loaded)
  cases step_transition stepped with
  | @loads loader executes fresh =>
      by_cases same : worker = loader
      · subst same
        simpa using executed
      · exact before (by simpa [same] using executed)
  | _ => exact before executed

end Steps

/-! ### What a run has done for a call -/

section History

variable (polyfills : String) (debug : String → String) (files : String → Except String String)

/-- A run from a process without a bundle. -/
def Reaches (events : List Event) (state : State) : Prop :=
  Execution.exec (step polyfills debug) (initial files) events = some state

/-- In the run, the call read this text from the file at the path. -/
def ReadBy (events : List Event) (id : CallId) (path text : String) : Prop :=
  Execution.ExecOccurs (step polyfills debug) (fun state event => event = .advance id ∧
    state.calls id = some (.initBundle path, .read path) ∧ state.files path = .ok text)
    (initial files) events

/-- In the run, the check of the call found this bundle installed. -/
def FoundBy (events : List Event) (id : CallId) (path installed : String) : Prop :=
  Execution.ExecOccurs (step polyfills debug) (fun state event => event = .advance id ∧
    state.calls id = some (.initBundle path, .check path) ∧ state.ssrBundle = some installed)
    (initial files) events

/-- In the run, the call went to its file, whether it could read it or not. -/
def TriesToRead (events : List Event) (id : CallId) : Prop :=
  Execution.ExecOccurs (step polyfills debug) (fun state event => event = .advance id ∧
    ∃ call path, state.calls id = some (call, .read path)) (initial files) events

/-- The bundle that a call is given, as it is to be installed. -/
def Given (events : List Event) (id : CallId) (call : Call) (fullBundle : String) : Prop :=
  match call with
  | .initBundle path => ∃ text, ReadBy polyfills debug files events id path text ∧
      fullBundle = withPolyfills polyfills text
  | .initBundleFromString bundle => fullBundle = withPolyfills polyfills bundle
  | .initBundleRaw bundle => fullBundle = bundle

/-- What a call that returned `Ok` has left: its own bundle, or the bundle that
its check found. -/
def Succeeded (events : List Event) (state : State) (id : CallId) (call : Call) : Prop :=
  (∃ fullBundle, Given polyfills debug files events id call fullBundle ∧
      state.getBundle = some fullBundle) ∨
    ∃ path installed, call = .initBundle path ∧
      FoundBy polyfills debug files events id path installed ∧ state.getBundle = some installed

/-- What is known of a call at each of its stages. -/
def Progress (events : List Event) (state : State) (id : CallId) (call : Call) : Stage → Prop
  | .check path => call = .initBundle path
  | .read path => call = .initBundle path
  | .set fullBundle => Given polyfills debug files events id call fullBundle
  | .returned (.ok _) => Succeeded polyfills debug files events state id call
  | .returned (.error _) => True

end History

section Runs

variable {polyfills : String} {debug : String → String} {files : String → Except String String}
  {events : List Event} {state next final : State}

theorem Given.append {id : CallId} {call : Call} {fullBundle : String}
    (given : Given polyfills debug files events id call fullBundle) (more : List Event) :
    Given polyfills debug files (events ++ more) id call fullBundle := by
  cases call with
  | initBundle path =>
      obtain ⟨text, read, fullEq⟩ := given
      exact ⟨text, read.append more, fullEq⟩
  | initBundleFromString bundle => exact given
  | initBundleRaw bundle => exact given

/-- What is known of a call survives the steps of the others. -/
theorem Progress.mono {id : CallId} {call : Call} {stage : Stage}
    (progress : Progress polyfills debug files events state id call stage) (more : List Event)
    (kept : ∀ bundle, state.ssrBundle = some bundle → next.ssrBundle = some bundle) :
    Progress polyfills debug files (events ++ more) next id call stage := by
  cases stage with
  | check path => exact progress
  | read path => exact progress
  | set fullBundle => exact progress.append more
  | returned result =>
      cases result with
      | error error => trivial
      | ok _ =>
          rcases progress with ⟨fullBundle, given, installed⟩ |
            ⟨path, installed, callEq, found, same⟩
          · exact Or.inl ⟨fullBundle, given.append more, kept _ installed⟩
          · exact Or.inr ⟨path, installed, callEq, found.append more, kept _ same⟩

/-- Every call of the state is where its run has brought it. -/
def Tracked (polyfills : String) (debug : String → String)
    (files : String → Except String String) (events : List Event) (state : State) : Prop :=
  ∀ id call stage, state.calls id = some (call, stage) →
    Progress polyfills debug files events state id call stage

/-- A step that installs nothing brings its call to what is known there. -/
theorem Progress.moves {id : CallId} {call : Call} {stage following : Stage}
    (progress : Progress polyfills debug files events state id call stage)
    (reached : Reaches polyfills debug files events state)
    (present : state.calls id = some (call, stage))
    (moved : Moves polyfills debug state stage following) :
    Progress polyfills debug files (events ++ [.advance id]) (state.setStage id call following) id
      call following := by
  cases moved with
  | @found path installed foundBundle =>
      change call = .initBundle path at progress
      rw [progress] at present
      exact Or.inr ⟨path, installed, progress,
        Execution.execOccurs_last reached ⟨rfl, present, foundBundle⟩, foundBundle⟩
  | absent empty => exact progress
  | unread failed => trivial
  | @reads path userBundle contents =>
      change call = .initBundle path at progress
      subst progress
      exact ⟨userBundle, Execution.execOccurs_last reached ⟨rfl, present, contents⟩, rfl⟩
  | late installed => trivial

theorem Tracked.step {event : Event} (tracked : Tracked polyfills debug files events state)
    (reached : Reaches polyfills debug files events state)
    (stepped : step polyfills debug state event = some next) :
    Tracked polyfills debug files (events ++ [event]) next := by
  have kept : ∀ bundle, state.ssrBundle = some bundle → next.ssrBundle = some bundle :=
    fun _ installed => step_keeps_bundle stepped installed
  have others {id : CallId} {call : Call} {stage : Stage}
      (present : state.calls id = some (call, stage)) :
      Progress polyfills debug files (events ++ [event]) next id call stage :=
    (tracked id call stage present).mono [event] kept
  intro id call stage present
  cases step_transition stepped with
  | @starts started startedCall unused =>
      by_cases same : id = started
      · subst same
        have entered := (Function.update_self _ _ _).symm.trans present
        rw [Option.some.injEq, Prod.mk.injEq] at entered
        obtain ⟨rfl, rfl⟩ := entered
        cases startedCall with
        | initBundle path => rfl
        | initBundleFromString bundle => rfl
        | initBundleRaw bundle => rfl
      · exact others ((Function.update_of_ne same _ _).symm.trans present)
  | @moves mover moverCall before following atBefore moved =>
      by_cases same : id = mover
      · subst same
        have entered := (Function.update_self _ _ _).symm.trans present
        rw [Option.some.injEq, Prod.mk.injEq] at entered
        obtain ⟨rfl, rfl⟩ := entered
        exact (tracked id moverCall before atBefore).moves reached atBefore moved
      · exact others ((Function.update_of_ne same _ _).symm.trans present)
  | @installs installer installerCall fullBundle atSet empty =>
      by_cases same : id = installer
      · subst same
        have entered := (Function.update_self _ _ _).symm.trans present
        rw [Option.some.injEq, Prod.mk.injEq] at entered
        obtain ⟨rfl, rfl⟩ := entered
        have given : Given polyfills debug files events id installerCall fullBundle :=
          tracked id installerCall _ atSet
        exact Or.inl ⟨fullBundle, given.append _, rfl⟩
      · exact others ((Function.update_of_ne same _ _).symm.trans present)
  | writes path contents => exact others present
  | loads executed fresh => exact others present
  | idles worker executed => exact others present

theorem tracked_of_reaches (reached : Reaches polyfills debug files events final) :
    Tracked polyfills debug files events final ∧ RuntimesAgree final := by
  have always := Execution.exec_invariant_always (fun history state =>
    Reaches polyfills debug files history state ∧ Tracked polyfills debug files history state ∧
      RuntimesAgree state)
    ⟨rfl, fun _ _ _ absent => by simp [initial] at absent,
      fun _ _ absent => by simp [initial] at absent⟩
    (fun history state event next holds stepped =>
      ⟨(Execution.exec_snoc_some_iff _).mpr ⟨state, holds.1, stepped⟩,
        holds.2.1.step holds.1 stepped, holds.2.2.step stepped⟩) reached
  exact always.2

/-- A bundle that is set stays for the rest of the run. -/
theorem bundle_stays {bundle : String} (installed : state.ssrBundle = some bundle)
    (executed : Execution.exec (step polyfills debug) state events = some final) :
    final.ssrBundle = some bundle :=
  Execution.exec_invariant_always (fun _ current => current.ssrBundle = some bundle) installed
    (fun _ _ _ _ holds stepped => step_keeps_bundle stepped holds) executed

theorem returned_stays {id : CallId} {call : Call} {result : Except SsrError Unit}
    (returned : state.calls id = some (call, .returned result))
    (executed : Execution.exec (step polyfills debug) state events = some final) :
    final.calls id = some (call, .returned result) :=
  Execution.exec_invariant_always
    (fun _ current => current.calls id = some (call, .returned result)) returned
    (fun _ _ _ _ holds stepped => step_keeps_returned stepped holds) executed

theorem past_check_stays {id : CallId} {call : Call} {stage : Stage}
    (present : state.calls id = some (call, stage)) (past : ∀ path, stage ≠ .check path)
    (executed : Execution.exec (step polyfills debug) state events = some final) :
    ∃ following, final.calls id = some (call, following) ∧ ∀ path, following ≠ .check path :=
  Execution.exec_invariant_always (fun _ current =>
    ∃ following, current.calls id = some (call, following) ∧ ∀ path, following ≠ .check path)
    ⟨stage, present, past⟩
    (fun _ _ _ _ ⟨_, holds, pastCheck⟩ stepped => step_past_check stepped holds pastCheck) executed

/-- A call whose check finds a bundle has not gone to its file, returns `Ok` at
once and leaves that bundle. -/
theorem found_returns {id : CallId} {path installed : String}
    (present : state.calls id = some (.initBundle path, .check path))
    (found : state.ssrBundle = some installed)
    (stepped : step polyfills debug state (.advance id) = some next) :
    next.calls id = some (.initBundle path, .returned (.ok ())) ∧
      next.ssrBundle = some installed := by
  refine ⟨?_, step_keeps_bundle stepped found⟩
  simp only [step, present, advance, found, Option.isSome_some, if_true, Option.map_some,
    Option.some.injEq] at stepped
  rw [← stepped]
  exact Function.update_self _ _ _

end Runs

/-! ### What a returned call guarantees -/

/-- `SsrEngine::new`, with the result of its `init_bundle`. -/
def createEngine (config : SsrConfig) (initialised : Except SsrError Unit) :
    Except SsrError SsrEngine :=
  initialised.map fun _ => SsrEngine.new config

/-- What holds at the end of a run of the calls that have returned. -/
structure Initialised (polyfills : String) (debug : String → String)
    (files : String → Except String String) (events : List Event) (final : State) : Prop where
  /-- A call that returned `Ok` left its own bundle, or the one its check found. -/
  ok : ∀ id call, final.calls id = some (call, .returned (.ok ())) →
    Succeeded polyfills debug files events final id call
  /-- A call whose check found a bundle went to no file, returned `Ok` and left
  that bundle. -/
  found : ∀ id path installed, FoundBy polyfills debug files events id path installed →
    final.calls id = some (.initBundle path, .returned (.ok ())) ∧
      final.getBundle = some installed ∧ ¬ TriesToRead polyfills debug files events id
  /-- No step of a call that returned `Err` changed the bundle. -/
  err : ∀ id call error, final.calls id = some (call, .returned (.error error)) →
    ∀ earlier later before after, events = earlier ++ .advance id :: later →
      Reaches polyfills debug files earlier before →
        step polyfills debug before (.advance id) = some after →
          after.getBundle = before.getBundle
  /-- Once set, the bundle is the same at the end. -/
  once : ∀ earlier later middle bundle, events = earlier ++ later →
    Reaches polyfills debug files earlier middle → middle.getBundle = some bundle →
      final.getBundle = some bundle
  /-- The runtimes execute the code at the path of an engine that was created,
  or the bundle that its check found. -/
  engine : ∀ id config result engine,
    final.calls id = some (.initBundle config.bundlePath, .returned result) →
      createEngine config result = .ok engine →
        ∀ worker code, final.runtimes worker = some code →
          (∃ text, ReadBy polyfills debug files events id config.bundlePath text ∧
            code = withPolyfills polyfills text) ∨
              FoundBy polyfills debug files events id config.bundlePath code

section Sound

variable {polyfills : String} {debug : String → String} {files : String → Except String String}
  {events : List Event} {final : State}

theorem succeeded_of_reaches (reached : Reaches polyfills debug files events final) {id : CallId}
    {call : Call} (returned : final.calls id = some (call, .returned (.ok ()))) :
    Succeeded polyfills debug files events final id call :=
  (tracked_of_reaches reached).1 id call _ returned

/-- A call that goes to its file is past its check. -/
theorem not_triesToRead_of_check (reached : Reaches polyfills debug files events final)
    {id : CallId} {call : Call} {path : String}
    (present : final.calls id = some (call, .check path)) :
    ¬ TriesToRead polyfills debug files events id := by
  rintro ⟨earlier, _, later, middle, rfl, reachedMiddle, rfl, reader, readPath, reading⟩
  obtain ⟨again, reachedAgain, continued⟩ := (Execution.exec_append_some_iff _).mp reached
  obtain rfl : middle = again := Option.some.inj (reachedMiddle.symm.trans reachedAgain)
  obtain ⟨stage, atEnd, past⟩ := past_check_stays reading (fun _ => Stage.noConfusion) continued
  obtain ⟨-, rfl⟩ := Prod.mk.inj (Option.some.inj (present.symm.trans atEnd))
  exact past path rfl

/-- A call that has returned goes to no file any more. -/
theorem not_occurs_read_of_returned {id : CallId} {call : Call} {result : Except SsrError Unit}
    {state : State} (returned : state.calls id = some (call, .returned result)) :
    ¬ Execution.ExecOccurs (step polyfills debug) (fun current event => event = .advance id ∧
      ∃ other path, current.calls id = some (other, .read path)) state events := by
  rintro ⟨earlier, _, later, middle, _, reached, rfl, other, path, reading⟩
  simp [returned_stays returned reached] at reading

theorem found_of_foundBy (reached : Reaches polyfills debug files events final) {id : CallId}
    {path installed : String} (foundBy : FoundBy polyfills debug files events id path installed) :
    final.calls id = some (.initBundle path, .returned (.ok ())) ∧
      final.getBundle = some installed ∧ ¬ TriesToRead polyfills debug files events id := by
  obtain ⟨earlier, _, later, before, rfl, reachedBefore, rfl, present, found⟩ := foundBy
  obtain ⟨after, stepped, reachedAfter⟩ := Execution.exec_next_of_reached _ reached reachedBefore
  obtain ⟨returned, kept⟩ := found_returns present found stepped
  have splitNext : earlier ++ .advance id :: later = (earlier ++ [.advance id]) ++ later := by simp
  obtain ⟨again, reachedAgain, continued⟩ :=
    (Execution.exec_append_some_iff _).mp (splitNext ▸ reached)
  obtain rfl : after = again := Option.some.inj (reachedAfter.symm.trans reachedAgain)
  refine ⟨returned_stays returned continued, bundle_stays kept continued, fun tries => ?_⟩
  rw [splitNext] at tries
  rcases Execution.ExecOccurs.split tries reachedAfter with earlierRead | laterRead
  · rcases Execution.ExecOccurs.split earlierRead reachedBefore with read | atCheck
    · exact not_triesToRead_of_check reachedBefore present read
    · obtain ⟨_, other, readPath, reading⟩ := Execution.execOccurs_singleton_iff.mp atCheck
      simp [present] at reading
  · exact not_occurs_read_of_returned returned laterRead

/-- A step of a call that changes the bundle ends the call with `Ok`. -/
theorem bundle_kept_of_error (reached : Reaches polyfills debug files events final) {id : CallId}
    {call : Call} {error : SsrError}
    (returned : final.calls id = some (call, .returned (.error error))) {earlier later : List Event}
    {before after : State} (split : events = earlier ++ .advance id :: later)
    (reachedBefore : Reaches polyfills debug files earlier before)
    (stepped : step polyfills debug before (.advance id) = some after) :
    after.ssrBundle = before.ssrBundle := by
  by_contra changed
  obtain ⟨changer, changerCall, sameEvent, succeeded⟩ := step_changes_bundle stepped changed
  obtain rfl := Event.advance.inj sameEvent
  subst split
  obtain ⟨middle, reachedMiddle, rest⟩ := (Execution.exec_append_some_iff _).mp reached
  obtain rfl := Option.some.inj (reachedBefore.symm.trans reachedMiddle)
  obtain ⟨next, steppedNext, continued⟩ := (Execution.exec_cons_some_iff _).mp rest
  obtain rfl := Option.some.inj (stepped.symm.trans steppedNext)
  have kept := returned_stays succeeded continued
  simp [kept] at returned

theorem engine_code (reached : Reaches polyfills debug files events final) {id : CallId}
    {config : SsrConfig} {result : Except SsrError Unit} {engine : SsrEngine}
    (returned : final.calls id = some (.initBundle config.bundlePath, .returned result))
    (created : createEngine config result = .ok engine) {worker : WorkerId} {code : String}
    (executed : final.runtimes worker = some code) :
    (∃ text, ReadBy polyfills debug files events id config.bundlePath text ∧
      code = withPolyfills polyfills text) ∨
        FoundBy polyfills debug files events id config.bundlePath code := by
  have installed : final.getBundle = some code := (tracked_of_reaches reached).2 worker code executed
  cases result with
  | error error => simp [createEngine, Except.map] at created
  | ok _ =>
      rcases succeeded_of_reaches reached returned with
        ⟨fullBundle, ⟨text, read, fullEq⟩, same⟩ | ⟨path, found, samePath, foundBy, same⟩
      · obtain rfl := Option.some.inj (installed.symm.trans same)
        exact Or.inl ⟨text, read, fullEq⟩
      · obtain rfl := Option.some.inj (installed.symm.trans same)
        obtain rfl := Call.initBundle.inj samePath
        exact Or.inr foundBy

/-- **In every interleaving, a call that returns `Ok` leaves its own bundle
unless its check found one installed, a call that returns `Err` changes nothing,
and the bundle never changes once set.** -/
theorem initialised_sound (reached : Reaches polyfills debug files events final) :
    Initialised polyfills debug files events final where
  ok := fun _ _ returned => succeeded_of_reaches reached returned
  found := fun _ _ _ foundBy => found_of_foundBy reached foundBy
  err := fun _ _ _ returned _ _ _ _ split reachedBefore stepped =>
    bundle_kept_of_error reached returned split reachedBefore stepped
  once := by
    intro earlier later middle bundle split reachedMiddle installed
    subst split
    obtain ⟨between, reachedBetween, rest⟩ := (Execution.exec_append_some_iff _).mp reached
    obtain rfl := Option.some.inj (reachedMiddle.symm.trans reachedBetween)
    exact bundle_stays installed rest
  engine := fun _ _ _ _ returned created _ _ executed =>
    engine_code reached returned created executed

end Sound

/-- Two files with a bundle each. -/
def twoBundles (path : String) : Except String String :=
  if path = "a.js" then .ok "A" else if path = "b.js" then .ok "B" else .error "not found"

/-- Two engines with different bundles, one after the other. -/
def twoEngines : List Event :=
  [.start 0 (.initBundle "a.js"), .advance 0, .advance 0, .advance 0, .initRuntime 0 true,
    .start 1 (.initBundle "b.js"), .advance 1, .initRuntime 1 true]

theorem initialised_twoEngines :
    ∃ final, Reaches "P" id twoBundles twoEngines final ∧
      Initialised "P" id twoBundles twoEngines final := by
  obtain ⟨final, reached⟩ := Option.isSome_iff_exists.mp
    (show (Execution.exec (step "P" id) (initial twoBundles) twoEngines).isSome = true from rfl)
  exact ⟨final, reached, initialised_sound reached⟩

/-- The second engine is created and its `init_bundle` returns `Ok`, and the
bundle is still that of the first. -/
theorem second_bundle_ignored :
    ¬ ∀ polyfills debug files events final, Reaches polyfills debug files events final →
      (∀ path contents, .write path contents ∉ events) →
        ∀ id path text, final.calls id = some (.initBundle path, .returned (.ok ())) →
          files path = .ok text → final.getBundle = some (withPolyfills polyfills text) := by
  intro installs
  obtain ⟨final, reached, second, bundle⟩ : ∃ final,
      Reaches "P" id twoBundles twoEngines final ∧
        final.calls 1 = some (.initBundle "b.js", .returned (.ok ())) ∧
          final.getBundle = some "P\nA" := ⟨_, rfl, rfl, rfl⟩
  have own := installs "P" id twoBundles twoEngines final reached (by simp [twoEngines]) 1 "b.js" "B"
    second rfl
  exact absurd (bundle.symm.trans own) (by decide)

end RustySsr.Engine.Bundle
