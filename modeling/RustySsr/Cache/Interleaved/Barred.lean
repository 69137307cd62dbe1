import RustySsr.Cache.Interleaved.Consistency

/-!
Owns the state of affairs that a barrier brings about for one URL. A lookup
loads the generation before it reads the cold cache, and a barrier removes from
the cold cache before it bumps: so once it has bumped, a page read before the
removal can only be promoted into a hot cache of an older generation. `Barred`
states this, and every step keeps it. It does not own how a barrier gets there.
-/

namespace RustySsr.Cache.Interleaved

open RustySsr.Platform
open RustySsr.Foundation
open RustySsr.Foundation.Staged
open RustySsr.Cache.SsrCache

def Returned (state : Interleaved) (op : OpId) : Prop :=
  ∃ call answer, state.calls op = some ⟨call, some answer⟩

section Statements

variable (hashUrl : String → UInt64) (before : Interleaved) (url : String)

/-- An insertion of this page, under the key of the URL, is in the table and had
not returned in the first state. -/
def Fresh (state : Interleaved) (html : String) : Prop :=
  ∃ op source answer, hashUrl source = hashUrl url ∧
    state.calls op = some ⟨.insert source html, answer⟩ ∧ ¬ before.Returned op

/-- Every cold page of the URL is fresh, unless its key is still to be removed. -/
def RemovedExcept (keys : List UInt64) (state : Interleaved) : Prop :=
  ∀ pageUrl html createdAt, state.cache.coldCache.HasPage (hashUrl url) pageUrl html createdAt →
    Fresh hashUrl before url state html ∨ hashUrl url ∈ keys

/-- The thread's hot cache, if any, has an older generation. -/
def Behind (generation : Nat) (state : Interleaved) (thread : ThreadId) : Prop :=
  ∀ hot, state.cache.hotCache thread = some hot → hot.generation.toNat < generation

/-- From this generation on, every page of the URL is fresh, and a lookup that
holds another one can only bring it into an older hot cache. -/
structure Barred (generation : Nat) (state : Interleaved) : Prop where
  pages : Pages
    (fun key _ html _ => key = hashUrl url → Fresh hashUrl before url state html)
    (fun _ hotGeneration key entry => key = hashUrl url → generation ≤ hotGeneration.toNat →
      Fresh hashUrl before url state entry.html) state.cache
  flights : ∀ {thread op target stage html}, state.threads thread = .tryGet op target stage →
    hashUrl target = hashUrl url → stage.held = some html →
      Fresh hashUrl before url state html ∨ Behind generation state thread
  reached : generation ≤ state.bumped

end Statements

variable {hashUrl : String → UInt64} {before state following : Interleaved} {url : String}
  {event : Event}

/-! ### Fresh pages -/

/-- The calls in progress had not returned in the first state. -/
structure Since (before state : Interleaved) : Prop where
  live : ∀ {thread op call}, (state.threads thread).running = some (op, call) →
    ¬ before.Returned op
  later : before.nextOp ≤ state.nextOp

theorem Registered.since (registered : Registered state) : Since state state where
  live := by
    rintro thread op call runs ⟨_, answer, present⟩
    rw [registered.current runs] at present
    simp at present
  later := Nat.le_refl _

theorem Since.step (since : Since before state) (registered : Registered before)
    (stepped : state.step hashUrl event = some following) : Since before following := by
  rcases step_cases stepped with ⟨thread, call, _, rfl⟩ |
    ⟨thread, _, _, cache, op, outcome, advanced, rfl⟩
  · refine ⟨fun {other ran otherCall} runs => ?_, since.later.trans (Nat.le_succ _)⟩
    by_cases same : other = thread
    · simp only [enter, same, Function.update_self, start_running, Option.some.injEq,
        Prod.mk.injEq] at runs
      rintro ⟨_, _, present⟩
      rw [← runs.1, registered.unused since.later] at present
      contradiction
    · simp only [enter, Function.update_of_ne same] at runs
      exact since.live runs
  · refine ⟨fun runs => since.live (leave_running advanced runs).1, ?_⟩
    rw [leave_nextOp]
    exact since.later

theorem Fresh.step {html : String} (fresh : Fresh hashUrl before url state html)
    (registered : Registered state) (stepped : state.step hashUrl event = some following) :
    Fresh hashUrl before url following html := by
  obtain ⟨op, source, _, sameHash, present, notReturned⟩ := fresh
  obtain ⟨answer, kept, _⟩ := step_calls registered stepped present
  exact ⟨op, source, answer, sameHash, kept, notReturned⟩

/-- The page of an insertion in progress is fresh. -/
theorem fresh_of_inserting (registered : Registered state) (since : Since before state)
    {thread : ThreadId} {op : OpId} {source html : String} {stage : InsertStage}
    (inserting : state.threads thread = .insert op source html stage)
    (sameHash : hashUrl source = hashUrl url) : Fresh hashUrl before url state html := by
  have runs : (state.threads thread).running = some (op, .insert source html) := by
    rw [inserting]
    rfl
  exact ⟨op, source, none, sameHash, registered.current runs, since.live runs⟩

theorem RemovedExcept.step {keys : List UInt64}
    (removed : RemovedExcept hashUrl before url keys state)
    (registered : Registered state) (since : Since before state)
    (stepped : state.step hashUrl event = some following) :
    RemovedExcept hashUrl before url keys following := by
  have pages : Pages (fun key _ html _ => key = hashUrl url →
      Fresh hashUrl before url following html ∨ hashUrl url ∈ keys) (fun _ _ _ _ => True)
      state.cache :=
    ⟨fun page sameKey => (removed _ _ _ (sameKey ▸ page)).imp_left (fun fresh =>
      fresh.step registered stepped), fun _ _ => trivial⟩
  have kept := step_pages pages (fun _ _ _ => trivial) (fun _ inserting => ⟨fun sameHash =>
    Or.inl ((fresh_of_inserting registered since inserting sameHash).step registered stepped),
      fun _ => trivial⟩) stepped
  exact fun _ _ _ page => kept.cold page rfl

/-! ### A barred URL stays barred -/

/-- A lookup in flight after a step has just started, or was as far before the step
of another thread, or is moved on by its own. -/
theorem step_flying (stepped : state.step hashUrl event = some following) {thread : ThreadId}
    {op : OpId} {target : String} {stage : LookupStage}
    (flying : following.threads thread = .tryGet op target stage) :
    stage = .countLookup ∨
      (state.threads thread = .tryGet op target stage ∧
        following.cache.hotCache thread = state.cache.hotCache thread) ∨
      ∃ now earlier, state.threads thread = .tryGet op target earlier ∧
        state.cache.tryGetStep hashUrl thread target now earlier =
          (following.cache, .continues stage) ∧
        Change hashUrl state.cache thread now (state.threads thread) following.cache := by
  rcases step_cases stepped with ⟨mover, call, _, rfl⟩ |
    ⟨mover, _, now, cache, ran, outcome, advanced, rfl⟩
  · by_cases same : thread = mover
    · simp only [enter, same, Function.update_self] at flying
      cases call <;> cases flying
      exact Or.inl rfl
    · simp only [enter, Function.update_of_ne same] at flying
      exact Or.inr (Or.inl ⟨flying, rfl⟩)
  · rw [leave_cache]
    by_cases same : thread = mover
    · subst same
      cases outcome with
      | returns answer => simp [leave] at flying
      | continues control =>
          obtain rfl : control = .tryGet op target stage := by simpa [leave] using flying
          obtain ⟨earlier, flew, moved⟩ := next_continues_tryGet advanced
          exact Or.inr (Or.inr ⟨now, earlier, flew, moved, next_change advanced⟩)
    · rw [leave_threads_other _ _ _ _ _ same] at flying
      exact Or.inr (Or.inl ⟨flying, (next_change advanced).hotCache_other same⟩)

/-- A lookup that holds a page held it before the step, or the step found it in
one of the tiers. -/
theorem step_held (stepped : state.step hashUrl event = some following) {thread : ThreadId}
    {op : OpId} {target html : String} {stage : LookupStage}
    (flying : following.threads thread = .tryGet op target stage)
    (holds : stage.held = some html) :
    (∃ earlier, state.threads thread = .tryGet op target earlier ∧ earlier.held = some html) ∨
      (∃ hot entry, state.cache.hotCache thread = some hot ∧
        hot.cache.Exposes (hashUrl target) entry ∧ entry.html = html) ∨
      ∃ pageUrl createdAt,
        state.cache.coldCache.HasPage (hashUrl target) pageUrl html createdAt := by
  rcases step_flying stepped flying with rfl | ⟨flew, _⟩ | ⟨now, earlier, flew, moved, _⟩
  · contradiction
  · exact Or.inl ⟨stage, flew, holds⟩
  · rcases tryGetStep_held (congrArg Prod.snd moved) holds with held | peeked | page
    · exact Or.inl ⟨earlier, flew, held⟩
    · obtain ⟨hot, present, answer⟩ := Option.bind_eq_some_iff.mp peeked
      obtain ⟨entry, exposed, sameHtml, _⟩ := HotCache.peek_some answer
      exact Or.inr (Or.inl ⟨hot, entry, present, exposed, sameHtml⟩)
    · exact Or.inr (Or.inr page)

/-- A step of a thread that then holds a page does not synchronise. -/
theorem Behind.step {generation : Nat} {thread : ThreadId}
    (behind : Behind generation state thread)
    (stepped : state.step hashUrl event = some following) {op : OpId} {target html : String}
    {stage : LookupStage} (flying : following.threads thread = .tryGet op target stage)
    (holds : stage.held = some html) : Behind generation following thread := by
  intro hot present
  rcases step_flying stepped flying with rfl | ⟨_, sameHot⟩ | ⟨now, earlier, flew, moved, change⟩
  · contradiction
  · exact behind hot (sameHot ▸ present)
  · rcases change.hotGeneration_own with kept | ⟨syncing, _⟩
    · rw [present, Option.map_some, eq_comm, Option.map_eq_some_iff] at kept
      obtain ⟨old, oldPresent, sameGeneration⟩ := kept
      rw [← sameGeneration]
      exact behind old oldPresent
    · rw [flew] at syncing
      cases earlier <;> simp only [Control.synchronises, Bool.false_eq_true] at syncing
      obtain rfl := Outcome.continues.inj (congrArg Prod.snd moved)
      contradiction

theorem Barred.step {generation : Nat} (barred : Barred hashUrl before url generation state)
    (registered : Registered state) (since : Since before state)
    (stepped : state.step hashUrl event = some following) :
    Barred hashUrl before url generation following := by
  have stays : ∀ {html}, Fresh hashUrl before url state html →
      Fresh hashUrl before url following html := fun fresh => fresh.step registered stepped
  constructor
  · refine step_pages (barred.pages.mono (fun fresh sameHash => stays (fresh sameHash))
      (fun fresh sameHash reached => stays (fresh sameHash reached))) ?_ ?_ stepped
    · intro thread op target html hot now promoting present sameHash reached
      rcases barred.flights promoting sameHash rfl with fresh | behind
      · exact stays fresh
      · exact absurd (behind hot present) (not_lt.mpr reached)
    · intro thread op source html stage now inserting
      have fresh (sameHash : hashUrl source = hashUrl url) :
          Fresh hashUrl before url following html :=
        stays (fresh_of_inserting registered since inserting sameHash)
      exact ⟨fresh, fun _ sameHash _ => fresh sameHash⟩
  · intro thread op target stage html flying sameHash holds
    have found : Fresh hashUrl before url state html ∨ Behind generation state thread := by
      rcases step_held stepped flying holds with ⟨earlier, flew, held⟩ |
        ⟨hot, entry, present, exposed, rfl⟩ | ⟨pageUrl, createdAt, page⟩
      · exact barred.flights flew sameHash held
      · by_cases reached : generation ≤ hot.generation.toNat
        · exact Or.inl (barred.pages.hot present exposed sameHash reached)
        · refine Or.inr fun other otherPresent => ?_
          obtain rfl := Option.some.inj (present.symm.trans otherPresent)
          exact not_le.mp reached
      · exact Or.inl (barred.pages.cold page sameHash)
    exact found.imp stays fun behind => behind.step stepped flying holds
  · exact barred.reached.trans (step_bumped stepped)

/-! ### From a removal to a barred URL -/

/-- Without an old cold page, a bump bars the URL: no hot cache has the new
generation yet. -/
theorem barred_of_removed (removed : RemovedExcept hashUrl before url [] state)
    (older : ∀ {thread hot}, state.cache.hotCache thread = some hot →
      hot.generation.toNat < state.bumped) :
    Barred hashUrl before url state.bumped state where
  pages :=
    { cold := fun page sameKey => by
        subst sameKey
        simpa using removed _ _ _ page
      hot := fun present _ _ reached => absurd (older present) (not_lt.mpr reached) }
  flights := fun _ _ _ => Or.inr fun _ present => older present
  reached := Nat.le_refl _

theorem barred_of_bump (removed : RemovedExcept hashUrl before url [] state)
    (registered : Registered state) (since : Since before state) (counted : Counted state)
    (stepped : state.step hashUrl event = some following)
    (hotCache : following.cache.hotCache = state.cache.hotCache)
    (bumped : following.bumped = state.bumped + 1) :
    Barred hashUrl before url following.bumped following := by
  refine barred_of_removed (removed.step registered since stepped) fun present => ?_
  rw [bumped]
  exact Nat.lt_succ_of_le (counted.behind (hotCache ▸ present))

/-! ### Runs -/

theorem exec_since {events : List Event} (earlier : Registered before)
    (consistent : Consistent hashUrl state) (since : Since before state)
    (executed : Execution.exec (step hashUrl) state events = some following) :
    Consistent hashUrl following ∧ Since before following :=
  Execution.exec_invariant_always
    (fun _ current => Consistent hashUrl current ∧ Since before current) ⟨consistent, since⟩
    (fun _ _ _ _ holds stepped => ⟨holds.1.step stepped, holds.2.step earlier stepped⟩) executed

/-- What a step preserves while the counter has room and the calls use no other
URLs, a run preserves that ends so. -/
theorem exec_within {urls : Set String} (invariant : Interleaved → Prop) {events : List Event}
    (earlier : Registered before) (consistent : Consistent hashUrl state)
    (since : Since before state) (holds : invariant state)
    (preserved : ∀ {current event next}, Consistent hashUrl current → Since before current →
      current.bumped < 2 ^ 64 → current.urls ⊆ urls → invariant current →
        current.step hashUrl event = some next → invariant next)
    (executed : Execution.exec (step hashUrl) state events = some following)
    (room : following.bumped < 2 ^ 64) (inside : following.urls ⊆ urls) : invariant following := by
  induction events generalizing state with
  | nil => exact Option.some.inj executed ▸ holds
  | cons event events inductionHypothesis =>
      obtain ⟨next, stepped, rest⟩ := (Execution.exec_cons_some_iff _).mp executed
      have grown := exec_grows consistent.registered executed
      exact inductionHypothesis (consistent.step stepped) (since.step earlier stepped)
        (preserved consistent since (grown.1.trans_lt room) (grown.2.trans inside) holds stepped)
        rest

end RustySsr.Cache.Interleaved
