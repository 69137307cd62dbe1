import RustySsr.Cache.Interleaved.Tracking

/-!
Owns what every run of the interleaved cache keeps: the table of calls agrees
with what the threads are doing, the generation counter with the number of
bumps, no hot cache is ahead of it, and every cold page belongs to an insertion
in the table.
-/

namespace RustySsr.Cache.Interleaved

open RustySsr.Platform
open RustySsr.Foundation
open RustySsr.Foundation.Staged
open RustySsr.Cache.SsrCache

/-! ### The two kinds of steps -/

section Leave

variable (state : Interleaved) (thread : ThreadId) (op : OpId) (cache : SsrCache)
  (outcome : Outcome Control CacheAnswer)

@[simp] theorem leave_cache : (state.leave thread op cache outcome).cache = cache := by
  cases outcome <;> rfl

@[simp] theorem leave_nextOp : (state.leave thread op cache outcome).nextOp = state.nextOp := by
  cases outcome <;> rfl

@[simp] theorem leave_bumped : (state.leave thread op cache outcome).bumped =
    state.bumped + (state.threads thread).bumps := by
  cases outcome <;> rfl

theorem leave_threads_other {other : ThreadId} (different : other ≠ thread) :
    (state.leave thread op cache outcome).threads other = state.threads other := by
  cases outcome <;> exact Function.update_of_ne different _ _

theorem leave_calls_other {other : OpId} (different : other ≠ op) :
    (state.leave thread op cache outcome).calls other = state.calls other := by
  cases outcome with
  | continues following => rfl
  | returns answer => exact Function.update_of_ne different _ _

end Leave

variable {hashUrl : String → UInt64} {state following : Interleaved} {event : Event}

theorem step_cases (stepped : state.step hashUrl event = some following) :
    (∃ thread call, state.threads thread = .idle ∧ following = state.enter thread call) ∨
      ∃ thread orders now cache op outcome,
        next hashUrl state.cache thread orders now (state.threads thread) =
            some (cache, op, outcome) ∧
          following = state.leave thread op cache outcome := by
  cases event with
  | start thread call =>
      simp only [step, start] at stepped
      split at stepped
      · rename_i idle
        exact Or.inl ⟨thread, call, idle, (Option.some.inj stepped).symm⟩
      · contradiction
  | advance thread orders now =>
      simp only [step, Option.map_eq_some_iff] at stepped
      obtain ⟨⟨cache, op, outcome⟩, advanced, left⟩ := stepped
      exact Or.inr ⟨thread, orders, now, cache, op, outcome, advanced, left.symm⟩

@[simp] theorem start_running (op : OpId) (call : CacheCall) :
    (call.start op).running = some (op, call) := by
  cases call <;> rfl

/-! ### The table of calls -/

/-- The table of calls agrees with what the threads are doing. -/
structure Registered (state : Interleaved) : Prop where
  current : ∀ {thread op call}, (state.threads thread).running = some (op, call) →
    state.calls op = some ⟨call, none⟩
  apart : ∀ {thread other op call otherCall}, (state.threads thread).running = some (op, call) →
    (state.threads other).running = some (op, otherCall) → thread = other
  unused : ∀ {op}, state.nextOp ≤ op → state.calls op = none

theorem Registered.below (registered : Registered state) {op : OpId} {record : CallRecord}
    (present : state.calls op = some record) : op < state.nextOp := by
  by_contra beyond
  rw [registered.unused (not_lt.mp beyond)] at present
  contradiction

theorem registered_initial (maxColdEntries ttlSecs : Nat) :
    Registered (initial maxColdEntries ttlSecs) where
  current := fun running => by simp [initial, Control.running] at running
  apart := fun running => by simp [initial, Control.running] at running
  unused := fun _ => rfl

theorem Registered.enter (registered : Registered state) (thread : ThreadId) (call : CacheCall) :
    Registered (state.enter thread call) := by
  have fresh : ∀ {other op otherCall}, (state.threads other).running = some (op, otherCall) →
      op ≠ state.nextOp := by
    intro other op otherCall running
    exact (registered.below (registered.current running)).ne
  constructor
  · intro other op otherCall running
    by_cases same : other = thread
    · simp only [Interleaved.enter, same, Function.update_self, start_running, Option.some.injEq,
        Prod.mk.injEq] at running ⊢
      rw [← running.1, Function.update_self, running.2]
    · simp only [Interleaved.enter, Function.update_of_ne same] at running ⊢
      rw [Function.update_of_ne (fresh running)]
      exact registered.current running
  · intro first second op firstCall secondCall runningFirst runningSecond
    by_cases sameFirst : first = thread <;> by_cases sameSecond : second = thread
    · exact sameFirst.trans sameSecond.symm
    · simp only [Interleaved.enter, sameFirst, Function.update_self, start_running,
        Option.some.injEq, Prod.mk.injEq] at runningFirst
      simp only [Interleaved.enter, Function.update_of_ne sameSecond] at runningSecond
      exact absurd runningFirst.1.symm (fresh runningSecond)
    · simp only [Interleaved.enter, sameSecond, Function.update_self, start_running,
        Option.some.injEq, Prod.mk.injEq] at runningSecond
      simp only [Interleaved.enter, Function.update_of_ne sameFirst] at runningFirst
      exact absurd runningSecond.1.symm (fresh runningFirst)
    · simp only [Interleaved.enter, Function.update_of_ne sameFirst] at runningFirst
      simp only [Interleaved.enter, Function.update_of_ne sameSecond] at runningSecond
      exact registered.apart runningFirst runningSecond
  · intro op beyond
    have later : state.nextOp < op := Nat.lt_of_succ_le beyond
    simp only [Interleaved.enter, Function.update_of_ne later.ne']
    exact registered.unused later.le

section Advance

variable {thread : ThreadId} {orders : ColdCache.Orders} {now : Nat} {cache : SsrCache}
  {op : OpId} {outcome : Outcome Control CacheAnswer}

theorem step_of_next
    (advanced : next hashUrl state.cache thread orders now (state.threads thread) =
      some (cache, op, outcome)) :
    state.step hashUrl (.advance thread orders now) =
      some (state.leave thread op cache outcome) := by
  simp [Interleaved.step, advanced]

/-- The threads run the calls they ran before, except for one that returns. -/
theorem leave_running
    (stepped : next hashUrl state.cache thread orders now (state.threads thread) =
      some (cache, op, outcome)) {other : ThreadId} {running : OpId × CacheCall}
    (runs : ((state.leave thread op cache outcome).threads other).running = some running) :
    (state.threads other).running = some running ∧
      (other = thread → ∃ control, outcome = .continues control) := by
  obtain ⟨call, runsBefore, kept⟩ := next_running stepped
  by_cases same : other = thread
  · subst same
    cases outcome with
    | continues control =>
        simp only [leave, Function.update_self] at runs
        rw [kept control rfl] at runs
        exact ⟨runsBefore.trans runs, fun _ => ⟨control, rfl⟩⟩
    | returns answer =>
        simp only [leave, Function.update_self, Control.running] at runs
        contradiction
  · rw [leave_threads_other state thread op cache outcome same] at runs
    exact ⟨runs, fun absurdly => absurd absurdly same⟩

theorem Registered.leave (registered : Registered state)
    (stepped : next hashUrl state.cache thread orders now (state.threads thread) =
      some (cache, op, outcome)) : Registered (state.leave thread op cache outcome) := by
  obtain ⟨call, runsBefore, _⟩ := next_running stepped
  constructor
  · intro other otherOp otherCall runs
    obtain ⟨ran, staysOn⟩ := leave_running stepped runs
    have present := registered.current ran
    by_cases same : otherOp = op
    · subst same
      obtain ⟨control, rfl⟩ := staysOn (registered.apart ran runsBefore)
      exact present
    · rw [leave_calls_other state thread op cache outcome same]
      exact present
  · intro first second otherOp firstCall secondCall runsFirst runsSecond
    exact registered.apart (leave_running stepped runsFirst).1 (leave_running stepped runsSecond).1
  · intro otherOp beyond
    rw [leave_nextOp] at beyond
    have different : otherOp ≠ op :=
      ((registered.below (registered.current runsBefore)).trans_le beyond).ne'
    rw [leave_calls_other state thread op cache outcome different]
    exact registered.unused beyond

end Advance

theorem Registered.step (registered : Registered state)
    (stepped : state.step hashUrl event = some following) : Registered following := by
  rcases step_cases stepped with ⟨thread, call, _, rfl⟩ | ⟨_, _, _, _, _, _, advanced, rfl⟩
  · exact registered.enter thread call
  · exact registered.leave advanced

/-- A call stays in the table; at most its answer is added. -/
theorem step_calls (registered : Registered state)
    (stepped : state.step hashUrl event = some following) {op : OpId} {record : CallRecord}
    (present : state.calls op = some record) :
    ∃ answer, following.calls op = some ⟨record.call, answer⟩ ∧
      (record.answer ≠ none → answer = record.answer) := by
  rcases step_cases stepped with ⟨thread, call, _, rfl⟩ |
    ⟨thread, _, _, cache, ran, outcome, advanced, rfl⟩
  · refine ⟨record.answer, ?_, fun _ => rfl⟩
    simp only [Interleaved.enter, Function.update_of_ne (registered.below present).ne]
    exact present
  · obtain ⟨call, runs, _⟩ := next_running advanced
    by_cases same : op = ran
    · subst same
      obtain rfl := Option.some.inj (present.symm.trans (registered.current runs))
      cases outcome with
      | continues control => exact ⟨none, present, fun answered => absurd rfl answered⟩
      | returns answer =>
          refine ⟨some answer, ?_, fun answered => absurd rfl answered⟩
          simp [leave, present]
    · refine ⟨record.answer, ?_, fun _ => rfl⟩
      rw [leave_calls_other state thread ran cache outcome same]
      exact present

/-- An answer was in the table, or the step has returned it. -/
theorem step_answers (registered : Registered state)
    (stepped : state.step hashUrl event = some following) {op : OpId} {call : CacheCall}
    {answer : CacheAnswer} (answered : following.calls op = some ⟨call, some answer⟩) :
    state.calls op = some ⟨call, some answer⟩ ∨
      ∃ thread orders now cache, (state.threads thread).running = some (op, call) ∧
        next hashUrl state.cache thread orders now (state.threads thread) =
            some (cache, op, .returns answer) ∧
          following = state.leave thread op cache (.returns answer) := by
  rcases step_cases stepped with ⟨thread, started, _, rfl⟩ |
    ⟨thread, orders, now, cache, ran, outcome, advanced, rfl⟩
  · left
    by_cases same : op = state.nextOp
    · simp [enter, same] at answered
    · simpa only [enter, Function.update_of_ne same] using answered
  · obtain ⟨ranCall, runs, _⟩ := next_running advanced
    by_cases same : op = ran
    · subst same
      have present := registered.current runs
      cases outcome with
      | continues control => exact Or.inl answered
      | returns result =>
          simp only [leave, Function.update_self, present, Option.map_some, Option.some.injEq,
            CallRecord.mk.injEq] at answered
          obtain ⟨rfl, rfl⟩ := answered
          exact Or.inr ⟨thread, orders, now, cache, runs, advanced, rfl⟩
    · rw [leave_calls_other state thread ran cache outcome same] at answered
      exact Or.inl answered

/-! ### The generation counter -/

/-- The generation counter is the number of bumps, and no hot cache is ahead. -/
structure Counted (state : Interleaved) : Prop where
  generation : state.cache.generation.toNat = state.bumped
  behind : ∀ {thread hot}, state.cache.hotCache thread = some hot →
    hot.generation.toNat ≤ state.bumped

theorem counted_initial (maxColdEntries ttlSecs : Nat) :
    Counted (initial maxColdEntries ttlSecs) where
  generation := rfl
  behind := fun absent => by simp [initial, withTtl] at absent

theorem step_bumped (stepped : state.step hashUrl event = some following) :
    state.bumped ≤ following.bumped := by
  rcases step_cases stepped with ⟨thread, call, _, rfl⟩ | ⟨_, _, _, _, _, _, _, rfl⟩
  · exact Nat.le_refl _
  · rw [leave_bumped]
    omega

theorem Counted.step (counted : Counted state)
    (stepped : state.step hashUrl event = some following) (room : following.bumped < 2 ^ 64) :
    Counted following := by
  rcases step_cases stepped with ⟨thread, call, _, rfl⟩ |
    ⟨thread, orders, now, cache, op, outcome, advanced, rfl⟩
  · exact ⟨counted.generation, counted.behind⟩
  · have change := next_change advanced
    rw [leave_bumped] at room
    have generation := change.generation (by rw [counted.generation]; exact room)
    rw [counted.generation] at generation
    refine ⟨?_, fun {other hot} present => ?_⟩
    · rw [leave_cache, leave_bumped, generation]
    · rw [leave_cache] at present
      rw [leave_bumped]
      by_cases same : other = thread
      · subst same
        rcases change.hotGeneration_own with kept | ⟨_, current⟩
        · rw [present, Option.map_some, eq_comm, Option.map_eq_some_iff] at kept
          obtain ⟨old, oldPresent, sameGeneration⟩ := kept
          have notAhead := counted.behind oldPresent
          rw [sameGeneration] at notAhead
          omega
        · rw [present, Option.map_some, Option.some.injEq] at current
          rw [current, counted.generation]
          omega
      · rw [change.hotCache_other same] at present
        have notAhead := counted.behind present
        omega

/-! ### The URLs of cold pages -/

/-- The URLs that the calls so far have used. -/
def urls (state : Interleaved) : Set String :=
  {url | ∃ op record, state.calls op = some record ∧ record.call.url = some url}

theorem step_urls (registered : Registered state)
    (stepped : state.step hashUrl event = some following) : state.urls ⊆ following.urls := by
  rintro url ⟨op, record, present, uses⟩
  obtain ⟨answer, kept, _⟩ := step_calls registered stepped present
  exact ⟨op, _, kept, uses⟩

theorem exec_grows {events : List Event} (registered : Registered state)
    (executed : Execution.exec (step hashUrl) state events = some following) :
    state.bumped ≤ following.bumped ∧ state.urls ⊆ following.urls := by
  induction events generalizing state with
  | nil => exact Option.some.inj executed ▸ ⟨Nat.le_refl _, Set.Subset.refl _⟩
  | cons event events inductionHypothesis =>
      obtain ⟨next, stepped, rest⟩ := (Execution.exec_cons_some_iff _).mp executed
      have grown := inductionHypothesis (registered.step stepped) rest
      exact ⟨(step_bumped stepped).trans grown.1, (step_urls registered stepped).trans grown.2⟩

/-- The pages of a step, given what its lookups and insertions may add. -/
theorem step_pages {C : ColdPredicate} {H : HotPredicate} (pages : Pages C H state.cache)
    (promoted : ∀ {thread op url html hot} now,
      state.threads thread = .tryGet op url (.promote html) →
        state.cache.hotCache thread = some hot →
          H thread hot.generation (hashUrl url) ⟨hashUrl url, html, now⟩)
    (inserted : ∀ {thread op url html stage} now,
      state.threads thread = .insert op url html stage → C (hashUrl url) url html now ∧
        ∀ {hot}, state.cache.hotCache thread = some hot →
          H thread hot.generation (hashUrl url) ⟨hashUrl url, html, now⟩)
    (stepped : state.step hashUrl event = some following) : Pages C H following.cache := by
  rcases step_cases stepped with ⟨thread, call, _, rfl⟩ |
    ⟨thread, orders, now, cache, op, outcome, advanced, rfl⟩
  · exact pages
  · rw [leave_cache]
    exact (next_change advanced).pages pages
      (fun _ _ _ promoting _ present => promoted now promoting present)
      (fun _ _ _ _ inserting => ⟨fun createdAt => (inserted createdAt inserting).1,
        fun _ present => (inserted now inserting).2 present⟩)

/-- A cold page has the key of its URL, which some call has used. -/
abbrev UsedPages (hashUrl : String → UInt64) (state : Interleaved) : Prop :=
  Pages (fun key url _ _ => key = hashUrl url ∧ url ∈ state.urls) (fun _ _ _ _ => True) state.cache

theorem UsedPages.step (used : UsedPages hashUrl state) (registered : Registered state)
    (stepped : state.step hashUrl event = some following) : UsedPages hashUrl following := by
  have grown := step_urls registered stepped
  have pages : Pages (fun key url _ _ => key = hashUrl url ∧ url ∈ following.urls)
      (fun _ _ _ _ => True) state.cache :=
    used.mono (fun page => ⟨page.1, grown page.2⟩) id
  refine step_pages pages (fun _ _ _ => trivial) (fun _ inserting => ⟨⟨rfl, ?_⟩, fun _ => trivial⟩)
    stepped
  exact grown ⟨_, _, registered.current (by rw [inserting]; rfl), rfl⟩

/-! ### Runs -/

/-- What holds in every state of every run, while the counter has not wrapped. -/
structure Consistent (hashUrl : String → UInt64) (state : Interleaved) : Prop where
  registered : Registered state
  counted : state.bumped < 2 ^ 64 → Counted state
  used : UsedPages hashUrl state

theorem Consistent.step (consistent : Consistent hashUrl state)
    (stepped : state.step hashUrl event = some following) : Consistent hashUrl following where
  registered := consistent.registered.step stepped
  counted := fun room =>
    (consistent.counted ((step_bumped stepped).trans_lt room)).step stepped room
  used := consistent.used.step consistent.registered stepped

theorem consistent_of_exec {maxColdEntries ttlSecs : Nat} {events : List Event}
    {final : Interleaved}
    (executed : Execution.exec (step hashUrl) (initial maxColdEntries ttlSecs) events =
      some final) : Consistent hashUrl final :=
  Execution.exec_invariant_always (fun _ current => Consistent hashUrl current)
    ⟨registered_initial _ _, fun _ => counted_initial _ _, pages_withTtl _ _ _ _⟩
    (fun _ _ _ _ consistent stepped => consistent.step stepped) executed

end RustySsr.Cache.Interleaved
