import Mathlib.Data.Prod.Lex
import RustySsr.Cache.Interleaved.Supply
import RustySsr.Foundation.Fairness

/-!
Owns that every call on the cache returns. A pass over the map may collect any
number of keys, as many as other threads have put there by then, so the steps
left to a call are counted by its stage first and by the keys it still has to
remove second. Each step of its thread lowers the pair and the steps of other
threads leave it alone: no thread waits for another.
-/

namespace RustySsr.Cache

open RustySsr.Platform
open RustySsr.Foundation
open RustySsr.Foundation.Staged
open RustySsr.Cache.SsrCache

/-! ### The steps left -/

/-- What is left of a call: its stage, and the keys or counters before the next. -/
abbrev Remaining := ℕ ×ₗ ℕ

def LookupStage.remaining : LookupStage → Remaining
  | .countLookup => toLex (6, 0)
  | .sync => toLex (5, 0)
  | .peek => toLex (4, 0)
  | .cold .read => toLex (3, 0)
  | .cold .removeExpired => toLex (2, 0)
  | .countColdHit _ => toLex (2, 0)
  | .promote _ => toLex (1, 0)
  | .countHotHit _ => toLex (0, 0)
  | .countPromotion _ => toLex (0, 0)
  | .countMiss => toLex (0, 0)

def InsertStage.remaining : InsertStage → Remaining
  | .cold .checkLength => toLex (10, 0)
  | .cold .takeFlag => toLex (9, 0)
  | .cold .scan => toLex (8, 0)
  | .cold (.evict keys _) => toLex (7, keys.length)
  | .cold (.stamp _) => toLex (6, 0)
  | .cold (.create _ _) => toLex (5, 0)
  | .cold (.store _ _ _) => toLex (4, 0)
  | .countInsertion _ => toLex (3, 0)
  | .countEvictions _ => toLex (2, 0)
  | .sync => toLex (1, 0)
  | .hot => toLex (0, 0)

def InvalidateStage.remaining : InvalidateStage → Remaining
  | .cold => toLex (1, 0)
  | .bump => toLex (0, 0)

def PrefixStage.remaining : PrefixStage → Remaining
  | .cold .scan => toLex (2, 0)
  | .cold (.remove keys _) => toLex (1, keys.length)
  | .bump _ => toLex (0, 0)

def ClearStage.remaining : ClearStage → Remaining
  | .cold => toLex (2, 0)
  | .bump => toLex (1, 0)
  | .reset counters => toLex (0, counters.length)

def Control.remaining : Control → Remaining
  | .idle => toLex (0, 0)
  | .tryGet _ _ stage => stage.remaining
  | .insert _ _ _ stage => stage.remaining
  | .invalidate _ _ stage => stage.remaining
  | .invalidatePrefix _ _ stage => stage.remaining
  | .clear _ stage => stage.remaining

theorem toLex_lt_of_fst {stage later keys others : ℕ} (lower : stage < later) :
    (toLex (stage, keys) : Remaining) < toLex (later, others) :=
  Prod.Lex.toLex_lt_toLex.mpr (Or.inl lower)

theorem toLex_lt_of_snd {stage keys others : ℕ} (fewer : keys < others) :
    (toLex (stage, keys) : Remaining) < toLex (stage, others) :=
  Prod.Lex.toLex_lt_toLex.mpr (Or.inr ⟨rfl, fewer⟩)

section Steps

variable {hashUrl : String → UInt64} {cache : SsrCache} {thread : ThreadId} {now : Nat}

theorem tryGetStep_lowers {url : String} {stage following : LookupStage}
    (stepped : (cache.tryGetStep hashUrl thread url now stage).2 = .continues following) :
    following.remaining < stage.remaining := by
  cases stage with
  | countLookup =>
      obtain rfl := Outcome.continues.inj stepped
      exact toLex_lt_of_fst (by decide)
  | sync =>
      obtain rfl := Outcome.continues.inj stepped
      exact toLex_lt_of_fst (by decide)
  | peek =>
      rw [tryGetStep] at stepped
      split at stepped <;> obtain rfl := Outcome.continues.inj stepped <;>
        exact toLex_lt_of_fst (by decide)
  | cold stage =>
      cases stage with
      | read =>
          simp only [tryGetStep, ColdCache.getStep] at stepped
          split at stepped
          · obtain rfl := Outcome.continues.inj stepped
            exact toLex_lt_of_fst (by decide)
          · split_ifs at stepped <;> obtain rfl := Outcome.continues.inj stepped <;>
              exact toLex_lt_of_fst (by decide)
      | removeExpired =>
          obtain rfl := Outcome.continues.inj stepped
          exact toLex_lt_of_fst (by decide)
  | countColdHit html =>
      obtain rfl := Outcome.continues.inj stepped
      exact toLex_lt_of_fst (by decide)
  | promote html =>
      obtain rfl := Outcome.continues.inj stepped
      exact toLex_lt_of_fst (by decide)
  | countHotHit html => contradiction
  | countPromotion html => contradiction
  | countMiss => contradiction

theorem insertStep_lowers {orders : ColdCache.Orders} {url html : String}
    {stage following : InsertStage}
    (stepped : (cache.insertStep hashUrl thread orders url html now stage).2 =
      .continues following) : following.remaining < stage.remaining := by
  cases stage with
  | cold stage =>
      cases stage with
      | checkLength =>
          obtain rfl := Outcome.continues.inj stepped
          split_ifs <;> exact toLex_lt_of_fst (by decide)
      | takeFlag =>
          simp only [SsrCache.insertStep, ColdCache.insertStep] at stepped
          split_ifs at stepped <;> obtain rfl := Outcome.continues.inj stepped <;>
            exact toLex_lt_of_fst (by decide)
      | scan =>
          obtain rfl := Outcome.continues.inj stepped
          exact toLex_lt_of_fst (by decide)
      | evict keys evicted =>
          cases keys with
          | nil =>
              obtain rfl := Outcome.continues.inj stepped
              exact toLex_lt_of_fst (by decide)
          | cons key rest =>
              obtain rfl := Outcome.continues.inj stepped
              exact toLex_lt_of_snd (Nat.lt_succ_self rest.length)
      | stamp evicted =>
          obtain rfl := Outcome.continues.inj stepped
          exact toLex_lt_of_fst (by decide)
      | create evicted newAccess =>
          obtain rfl := Outcome.continues.inj stepped
          exact toLex_lt_of_fst (by decide)
      | store evicted newAccess createdAt =>
          obtain rfl := Outcome.continues.inj stepped
          exact toLex_lt_of_fst (by decide)
  | countInsertion evicted =>
      obtain rfl := Outcome.continues.inj stepped
      split_ifs <;> exact toLex_lt_of_fst (by decide)
  | countEvictions evicted =>
      obtain rfl := Outcome.continues.inj stepped
      exact toLex_lt_of_fst (by decide)
  | sync =>
      obtain rfl := Outcome.continues.inj stepped
      exact toLex_lt_of_fst (by decide)
  | hot => contradiction

theorem invalidateStep_lowers {url : String} {stage following : InvalidateStage}
    (stepped : (cache.invalidateStep hashUrl url stage).2 = .continues following) :
    following.remaining < stage.remaining := by
  cases stage with
  | cold =>
      simp only [invalidateStep] at stepped
      split_ifs at stepped
      obtain rfl := Outcome.continues.inj stepped
      exact toLex_lt_of_fst (by decide)
  | bump => contradiction

theorem invalidatePrefixStep_lowers {order : ScanOrder} {urlPrefix : String}
    {stage following : PrefixStage}
    (stepped : (cache.invalidatePrefixStep order urlPrefix stage).2 = .continues following) :
    following.remaining < stage.remaining := by
  cases stage with
  | cold stage =>
      cases stage with
      | scan =>
          obtain rfl := Outcome.continues.inj stepped
          exact toLex_lt_of_fst (by decide)
      | remove keys count =>
          cases keys with
          | nil =>
              simp only [invalidatePrefixStep, ColdCache.removeByPrefixStep,
                Outcome.bind_returns] at stepped
              split_ifs at stepped
              obtain rfl := Outcome.continues.inj stepped
              exact toLex_lt_of_fst (by decide)
          | cons key rest =>
              obtain rfl := Outcome.continues.inj stepped
              exact toLex_lt_of_snd (Nat.lt_succ_self rest.length)
  | bump removed => contradiction

theorem clearStep_lowers {stage following : ClearStage}
    (stepped : (cache.clearStep stage).2 = .continues following) :
    following.remaining < stage.remaining := by
  cases stage with
  | cold =>
      obtain rfl := Outcome.continues.inj stepped
      exact toLex_lt_of_fst (by decide)
  | bump =>
      obtain rfl := Outcome.continues.inj stepped
      exact toLex_lt_of_fst (by decide)
  | reset counters =>
      cases counters with
      | nil => contradiction
      | cons counter rest =>
          obtain rfl := Outcome.continues.inj stepped
          exact toLex_lt_of_snd (Nat.lt_succ_self rest.length)

end Steps

namespace Interleaved

/-- A step that does not return lowers what is left of the call. -/
theorem next_lowers {hashUrl : String → UInt64} {cache after : SsrCache} {thread : ThreadId}
    {orders : ColdCache.Orders} {now : Nat} {control following : Control} {op : OpId}
    (stepped : next hashUrl cache thread orders now control =
      some (after, op, .continues following)) : following.remaining < control.remaining := by
  cases control with
  | idle => contradiction
  | tryGet id url stage =>
      simp only [next, Option.some.injEq, Prod.mk.injEq, Outcome.bind_eq_continues_iff] at stepped
      obtain ⟨_, _, current, continues, rfl⟩ := stepped
      exact tryGetStep_lowers continues
  | insert id url html stage =>
      simp only [next, Option.some.injEq, Prod.mk.injEq, Outcome.bind_eq_continues_iff] at stepped
      obtain ⟨_, _, current, continues, rfl⟩ := stepped
      exact insertStep_lowers continues
  | invalidate id url stage =>
      simp only [next, Option.some.injEq, Prod.mk.injEq, Outcome.bind_eq_continues_iff] at stepped
      obtain ⟨_, _, current, continues, rfl⟩ := stepped
      exact invalidateStep_lowers continues
  | invalidatePrefix id urlPrefix stage =>
      simp only [next, Option.some.injEq, Prod.mk.injEq, Outcome.bind_eq_continues_iff] at stepped
      obtain ⟨_, _, current, continues, rfl⟩ := stepped
      exact invalidatePrefixStep_lowers continues
  | clear id stage =>
      simp only [next, Option.some.injEq, Prod.mk.injEq, Outcome.bind_eq_continues_iff] at stepped
      obtain ⟨_, _, current, continues, rfl⟩ := stepped
      exact clearStep_lowers continues

/-! ### The thread of a call -/

/-- The thread whose call the event moves on. -/
def Event.mover? : Event → Option ThreadId
  | .advance thread _ _ => some thread
  | .start _ _ => none

/-- Every call without an answer has a thread in it. -/
def Attended (state : Interleaved) : Prop :=
  ∀ op call, state.calls op = some ⟨call, none⟩ →
    ∃ thread, (state.threads thread).running = some (op, call)

section Runs

variable {hashUrl : String → UInt64} {state following : Interleaved} {event : Event}

theorem Attended.step (attended : Attended state) (registered : Registered state)
    (stepped : state.step hashUrl event = some following) : Attended following := by
  intro op call present
  rcases step_cases stepped with ⟨thread, started, idle, rfl⟩ |
    ⟨thread, orders, now, cache, ran, outcome, advanced, rfl⟩
  · by_cases new : op = state.nextOp
    · simp only [enter, new, Function.update_self, Option.some.injEq, CallRecord.mk.injEq,
        and_true] at present
      refine ⟨thread, ?_⟩
      simp [enter, present, new]
    · simp only [enter, Function.update_of_ne new] at present
      obtain ⟨other, runs⟩ := attended op call present
      refine ⟨other, ?_⟩
      have different : other ≠ thread := by
        rintro rfl
        rw [idle] at runs
        contradiction
      simpa [enter, Function.update_of_ne different] using runs
  · obtain ⟨ranCall, runs, kept⟩ := next_running advanced
    by_cases same : op = ran
    · subst same
      cases outcome with
      | returns answer => simp [leave, registered.current runs] at present
      | continues control =>
          have before : state.calls op = some ⟨call, none⟩ := present
          rw [registered.current runs, Option.some.injEq, CallRecord.mk.injEq] at before
          refine ⟨thread, ?_⟩
          rw [← before.1]
          simpa [leave] using kept control rfl
    · rw [leave_calls_other _ _ _ _ _ same] at present
      obtain ⟨other, otherRuns⟩ := attended op call present
      refine ⟨other, ?_⟩
      have different : other ≠ thread := by
        rintro rfl
        rw [runs, Option.some.injEq, Prod.mk.injEq] at otherRuns
        exact same otherRuns.1.symm
      rwa [leave_threads_other _ _ _ _ _ different]

/-- A thread that is in a call can move it on. -/
theorem enabled_of_running (hashUrl : String → UInt64) {thread : ThreadId}
    {running : OpId × CacheCall} (runs : (state.threads thread).running = some running) :
    Execution.Enabled (step hashUrl) Event.mover? state thread := by
  refine Execution.enabled_of_isSome
    (.advance thread ⟨VisitOrder.stored, VisitOrder.stored⟩ 0) rfl ?_
  rw [step, Option.isSome_map]
  cases control : state.threads thread with
  | idle => simp [control, Control.running] at runs
  | _ => rfl

/-- A thread in a call stays in it until the call has returned; its own steps
lower what is left of it, and other steps change nothing of it. -/
theorem step_thread (registered : Registered state)
    (stepped : state.step hashUrl event = some following) {thread : ThreadId} {op : OpId}
    {call : CacheCall} (runs : (state.threads thread).running = some (op, call)) :
    following.Returned op ∨ ((following.threads thread).running = some (op, call) ∧
      ((following.threads thread).remaining < (state.threads thread).remaining ∨
        (following.threads thread = state.threads thread ∧ event.mover? ≠ some thread))) := by
  cases event with
  | start mover started =>
      simp only [step, start] at stepped
      split at stepped
      · rename_i idle
        obtain rfl := Option.some.inj stepped
        have different : thread ≠ mover := by
          rintro rfl
          rw [idle] at runs
          contradiction
        have unchanged : (state.enter mover started).threads thread = state.threads thread :=
          Function.update_of_ne different _ _
        exact Or.inr ⟨unchanged ▸ runs, Or.inr ⟨unchanged, by simp [Event.mover?]⟩⟩
      · contradiction
  | advance mover orders now =>
      obtain ⟨⟨cache, ran, outcome⟩, advanced, left⟩ := Option.map_eq_some_iff.mp stepped
      dsimp only at left
      subst left
      by_cases same : thread = mover
      · subst same
        obtain ⟨ranCall, ranRuns, kept⟩ := next_running advanced
        obtain ⟨rfl, rfl⟩ := Prod.mk.inj (Option.some.inj (runs.symm.trans ranRuns))
        cases outcome with
        | returns answer =>
            refine Or.inl ⟨call, answer, ?_⟩
            simp [leave, registered.current runs]
        | continues control =>
            have moved : (state.leave thread op cache (.continues control)).threads thread =
                control := Function.update_self _ _ _
            rw [moved]
            exact Or.inr ⟨kept control rfl, Or.inl (next_lowers advanced)⟩
      · have unchanged := leave_threads_other state mover ran cache outcome same
        refine Or.inr ⟨unchanged ▸ runs, Or.inr ⟨unchanged, ?_⟩⟩
        simpa [Event.mover?] using Ne.symm same

/-- A thread that is in a call after a step and was in one before is in the same. -/
theorem step_running {thread : ThreadId} {before after : OpId × CacheCall}
    (stepped : state.step hashUrl event = some following)
    (runs : (state.threads thread).running = some before)
    (still : (following.threads thread).running = some after) : after = before := by
  rcases step_cases stepped with ⟨mover, call, idle, rfl⟩ |
    ⟨mover, orders, now, cache, op, outcome, advanced, rfl⟩
  · have different : thread ≠ mover := by
      rintro rfl
      rw [idle] at runs
      contradiction
    simp only [enter, Function.update_of_ne different, runs, Option.some.injEq] at still
    exact still.symm
  · rw [(leave_running advanced still).1] at runs
    exact Option.some.inj runs

end Runs

/-! ### Every call returns -/

/-- An endless interleaving on a new cache that keeps no thread from going on
with its call. -/
structure FairRun (hashUrl : String → UInt64) (maxColdEntries ttlSecs : Nat)
    extends Execution.Behaviour (step hashUrl) where
  begins : state 0 = initial maxColdEntries ttlSecs
  fair : ∀ thread, toBehaviour.WeaklyFair Event.mover? thread

namespace FairRun

variable {hashUrl : String → UInt64} {maxColdEntries ttlSecs : Nat}
  (run : FairRun hashUrl maxColdEntries ttlSecs)

theorem registered_and_attended (time : Nat) :
    Registered (run.state time) ∧ Attended (run.state time) := by
  refine run.toBehaviour.lasts (fun state => Registered state ∧ Attended state)
    (Nat.zero_le time) ?_ ?_
  · rw [run.begins]
    exact ⟨registered_initial _ _, fun op call present => by simp [initial] at present⟩
  · rintro earlier event - happens ⟨registered, attended⟩
    have stepped := run.toBehaviour.step_of_some happens
    exact ⟨registered.step stepped, attended.step registered stepped⟩

/-- While the call has not returned, its thread stays in it. -/
theorem running_later {thread : ThreadId} {op : OpId} {call : CacheCall} {time later : Nat}
    (runs : ((run.state time).threads thread).running = some (op, call)) (ordered : time ≤ later) :
    (run.state later).Returned op ∨
      ((run.state later).threads thread).running = some (op, call) := by
  refine run.toBehaviour.lasts (fun state => state.Returned op ∨
    (state.threads thread).running = some (op, call)) ordered (Or.inr runs) ?_
  intro current event _ happens before
  have registered := (run.registered_and_attended current).1
  have stepped := run.toBehaviour.step_of_some happens
  rcases before with ⟨done, answer, present⟩ | stillRuns
  · obtain ⟨again, kept, same⟩ := step_calls registered stepped present
    rw [same (by simp)] at kept
    exact Or.inl ⟨done, answer, kept⟩
  · exact (step_thread registered stepped stillRuns).imp_right And.left

theorem running_helped {thread : ThreadId} {op : OpId} {call : CacheCall} {time : Nat}
    (runs : ((run.state time).threads thread).running = some (op, call)) :
    Execution.Behaviour.Helped (fun state => (state.threads thread).remaining)
      (fun _ member => member = thread) run.toBehaviour Event.mover?
      (fun state => state.Returned op) time where
  helped := fun _ _ _ => ⟨thread, rfl⟩
  able := by
    rintro later member ordered missed rfl
    exact enabled_of_running hashUrl ((run.running_later runs ordered).resolve_left missed)
  moves := by
    intro later event ordered happens missed missedNext
    have stillRuns := (run.running_later runs ordered).resolve_left missed
    have moved := step_thread (run.registered_and_attended later).1
      (run.toBehaviour.step_of_some happens) stillRuns
    obtain ⟨_, lower | ⟨unchanged, others⟩⟩ := moved.resolve_left missedNext
    · exact Or.inl lower
    · refine Or.inr ⟨(congrArg Control.remaining unchanged).le, ?_⟩
      rintro member rfl
      exact ⟨others, rfl⟩

/-- **Every call returns.** In an interleaving that keeps no thread from going on,
each lookup, insertion, invalidation and clear that has started returns,
whatever the other threads do. -/
theorem eventually_returned {op : OpId} {record : CallRecord} {time : Nat}
    (present : (run.state time).calls op = some record) :
    ∃ later, time ≤ later ∧ (run.state later).Returned op := by
  obtain ⟨call, answer⟩ := record
  cases answer with
  | some answer => exact ⟨time, Nat.le_refl _, call, answer, present⟩
  | none =>
      obtain ⟨thread, runs⟩ := (run.registered_and_attended time).2 op call present
      exact (run.running_helped runs).eventually run.fair

/-- A page is evicted while another thread looks it up. -/
def evictedLookup : List Event :=
  .start 0 (.insert "/a" "page") :: advances 0 7 ++ .start 1 (.tryGet "/a") :: advances 1 3 ++
    .start 0 (.insert "/b" "other") :: advances 0 12 ++ advances 1 2

/-- Nobody can move once every call has its answer. -/
theorem not_enabled_of_answered {state : Interleaved} (registered : Registered state)
    (answered : ∀ op < state.nextOp, ∀ call, state.calls op ≠ some ⟨call, none⟩)
    (thread : ThreadId) : ¬ Execution.Enabled (step hashUrl) Event.mover? state thread := by
  rintro ⟨event, following, moves, stepped⟩
  cases event with
  | start mover call => contradiction
  | advance mover orders now =>
      obtain ⟨⟨cache, op, outcome⟩, advanced, _⟩ := Option.map_eq_some_iff.mp stepped
      obtain ⟨call, runs, _⟩ := next_running advanced
      have present := registered.current runs
      exact answered op (registered.below present) call present

theorem exists_fair_run :
    ∃ run : FairRun hashOfTwo 1 0, ∀ time,
      Execution.exec (step hashOfTwo) (initial 1 0) (evictedLookup.take time) =
        some (run.state time) := by
  obtain ⟨final, executed, ended⟩ := Option.map_eq_some_iff.mp
    (show (Execution.exec (step hashOfTwo) (initial 1 0) evictedLookup).map
        (fun state => (state.nextOp, (List.range 3).map state.calls)) =
      some (3, [some ⟨.insert "/a" "page", some .inserted⟩,
        some ⟨.tryGet "/a", some (.found none)⟩, some ⟨.insert "/b" "other", some .inserted⟩]) by
      decide +kernel)
  obtain ⟨nextOp, table⟩ := Prod.mk.inj ended
  have answered : ∀ op < final.nextOp, ∀ call, final.calls op ≠ some ⟨call, none⟩ := by
    intro op below call present
    have member : some ⟨call, none⟩ ∈ (List.range 3).map final.calls :=
      present ▸ List.mem_map_of_mem (List.mem_range.mpr (nextOp ▸ below))
    simp [table] at member
  have registered := (consistent_of_exec executed).registered
  refine ⟨{ toBehaviour := Execution.Behaviour.ofEvents executed, begins := rfl, fair := ?_ }, ?_⟩
  · exact fun thread => Execution.Behaviour.weaklyFair_ofEvents executed
      (not_enabled_of_answered registered answered thread)
  · exact Execution.Behaviour.exec_take_ofEvents executed

theorem eventually_returned_of_evicted :
    ∃ run : FairRun hashOfTwo 1 0, ∃ later, (run.state later).Returned 1 := by
  obtain ⟨run, follows⟩ := exists_fair_run
  have started : (run.state 9).calls 1 = some ⟨.tryGet "/a", none⟩ := by
    obtain ⟨state, reached, present⟩ := Option.map_eq_some_iff.mp
      (show (Execution.exec (step hashOfTwo) (initial 1 0) (evictedLookup.take 9)).map
        (fun state => state.calls 1) = some (some ⟨.tryGet "/a", none⟩) by decide)
    exact Option.some.inj (reached.symm.trans (follows 9)) ▸ present
  obtain ⟨later, _, returned⟩ := run.eventually_returned started
  exact ⟨run, later, returned⟩

end FairRun

end Interleaved

end RustySsr.Cache
