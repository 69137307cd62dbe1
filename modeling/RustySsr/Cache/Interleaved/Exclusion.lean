import RustySsr.Cache.Cold.Overshoot
import RustySsr.Cache.Interleaved.Returning

/-!
Owns the eviction flag among all the calls on the cache. The flag is up exactly
while one thread is inside an eviction, and in a fair interleaving the thread
that took it keeps it until it lowers it itself: nobody else evicts meanwhile,
and no eviction leaves the flag behind.
-/

namespace RustySsr.Cache

open RustySsr.Platform
open RustySsr.Foundation
open RustySsr.Foundation.Staged
open RustySsr.Cache.SsrCache

/-! ### How a step moves the flag -/

/-- The thread has taken the eviction flag and not lowered it yet. -/
def Control.evicts : Control → Bool
  | .insert _ _ _ (.cold stage) => ColdCache.Inserters.evicts stage
  | _ => false

/-- What a thread is doing after a step of its call. -/
def Control.after : Outcome Control CacheAnswer → Control
  | .continues control => control
  | .returns _ => .idle

/-- The flag and whether the thread is inside an eviction, before and after a
step of the thread. -/
inductive FlagMove : Bool → Bool → Bool → Bool → Prop where
  | keeps {flag evicts : Bool} : FlagMove flag evicts flag evicts
  | takes : FlagMove false false true true
  | lowers {flag : Bool} : FlagMove flag true false false

namespace Interleaved

/-- The holder of the flag is the one thread inside an eviction; without a holder
the flag is down and no thread is. -/
structure HeldBy (state : Interleaved) (holder : Option ThreadId) : Prop where
  flag : state.cache.coldCache.evicting = holder.isSome
  evictor : ∀ thread, (state.threads thread).evicts = true ↔ holder = some thread

theorem heldBy_initial (maxColdEntries ttlSecs : Nat) :
    (initial maxColdEntries ttlSecs).HeldBy none where
  flag := rfl
  evictor := fun thread => by simp [initial, Control.evicts]

section Steps

variable {hashUrl : String → UInt64} {cache after : SsrCache} {thread : ThreadId}
  {orders : ColdCache.Orders} {now : Nat} {control : Control} {op : OpId}
  {outcome : Outcome Control CacheAnswer}

theorem tryGetStep_evicting (cache : SsrCache) (url : String) (stage : LookupStage) :
    (cache.tryGetStep hashUrl thread url now stage).1.coldCache.evicting =
      cache.coldCache.evicting := by
  cases stage with
  | peek =>
      rw [tryGetStep]
      split <;> rfl
  | cold stage => exact ColdCache.getStep_evicting _ _ _ stage
  | _ => rfl

/-- An insertion takes a free flag, and lowers the flag it has taken. -/
theorem insertStep_flagMove (cache : SsrCache) (url html : String) (stage : InsertStage) :
    FlagMove cache.coldCache.evicting (Control.evicts (.insert op url html stage))
      (cache.insertStep hashUrl thread orders url html now stage).1.coldCache.evicting
      (Control.evicts (Control.after
        ((cache.insertStep hashUrl thread orders url html now stage).2.bind
          (.insert op url html) fun _ => .returns .inserted))) := by
  cases stage with
  | cold stage =>
      cases stage with
      | checkLength =>
          simp only [insertStep, ColdCache.insertStep]
          split_ifs <;> exact .keeps
      | takeFlag =>
          simp only [insertStep, ColdCache.insertStep]
          split_ifs with taken
          · exact .keeps
          · rw [Bool.not_eq_true] at taken
            rw [taken]
            exact .takes
      | scan => exact .keeps
      | evict keys evicted =>
          cases keys with
          | nil => exact .lowers
          | cons key rest => exact .keeps
      | stamp evicted => exact .keeps
      | create evicted newAccess => exact .keeps
      | store evicted newAccess createdAt => exact .keeps
  | countInsertion evicted =>
      simp only [insertStep]
      split_ifs <;> exact .keeps
  | countEvictions evicted => exact .keeps
  | sync => exact .keeps
  | hot => exact .keeps

/-- No thread but one in an insertion is inside an eviction. -/
theorem evicts_running (inside : control.evicts = true) :
    ∃ op url html, control.running = some (op, .insert url html) := by
  cases control with
  | insert op url html stage => exact ⟨op, url, html, rfl⟩
  | _ => contradiction

theorem flagMove_of_next
    (advanced : next hashUrl cache thread orders now control = some (after, op, outcome)) :
    FlagMove cache.coldCache.evicting control.evicts after.coldCache.evicting
      (Control.after outcome).evicts := by
  -- Outside an insertion neither side of the flag moves.
  have keeps : (∀ op url html, control.running ≠ some (op, .insert url html)) →
      after.coldCache.evicting = cache.coldCache.evicting →
        FlagMove cache.coldCache.evicting control.evicts after.coldCache.evicting
          (Control.after outcome).evicts := by
    intro other unchanged
    obtain ⟨call, runs, stays⟩ := next_running advanced
    have before : control.evicts = false := by
      by_contra inside
      obtain ⟨ran, url, html, same⟩ := evicts_running (Bool.not_eq_false _ ▸ inside)
      exact other ran url html same
    have later : (Control.after outcome).evicts = false := by
      by_contra inside
      obtain ⟨ran, url, html, same⟩ := evicts_running (Bool.not_eq_false _ ▸ inside)
      cases outcome with
      | continues following =>
          rw [Control.after, stays following rfl] at same
          exact other ran url html (runs.trans same)
      | returns answer => contradiction
    rw [unchanged, before, later]
    exact .keeps
  cases control with
  | idle => contradiction
  | tryGet id url stage =>
      cases advanced
      exact keeps (by simp [Control.running]) (tryGetStep_evicting cache url stage)
  | insert id url html stage =>
      cases advanced
      exact insertStep_flagMove cache url html stage
  | invalidate id url stage =>
      cases advanced
      exact keeps (by simp [Control.running]) (by cases stage <;> rfl)
  | invalidatePrefix id urlPrefix stage =>
      cases advanced
      refine keeps (by simp [Control.running]) ?_
      cases stage with
      | cold stage => exact ColdCache.removeByPrefixStep_evicting _ _ _ stage
      | bump removed => rfl
  | clear id stage =>
      cases advanced
      refine keeps (by simp [Control.running]) ?_
      cases stage with
      | reset counters => cases counters <;> rfl
      | _ => rfl

end Steps

/-! ### One holder -/

section Runs

variable {hashUrl : String → UInt64} {state following : Interleaved} {event : Event}
  {holder : Option ThreadId}

/-- One thread moves and the flag with it: the flag passes from nobody to the
thread, from the thread to nobody, or stays where it is. -/
theorem HeldBy.leave (held : state.HeldBy holder) (thread : ThreadId) (op : OpId)
    {after : SsrCache} {outcome : Outcome Control CacheAnswer}
    (moved : FlagMove state.cache.coldCache.evicting (state.threads thread).evicts
      after.coldCache.evicting (Control.after outcome).evicts) :
    ∃ heir, (state.leave thread op after outcome).HeldBy heir ∧
      (heir = holder ∨ holder = none ∨ heir = none) := by
  have own : (state.leave thread op after outcome).threads thread = Control.after outcome := by
    cases outcome <;> exact Function.update_self _ _ _
  have others : ∀ other, other ≠ thread →
      (((state.leave thread op after outcome).threads other).evicts = true ↔
        holder = some other) := by
    intro other different
    rw [leave_threads_other _ _ _ _ _ different]
    exact held.evictor other
  obtain ⟨flag, evictor⟩ := held
  have before := evictor thread
  generalize state.cache.coldCache.evicting = flagBefore at moved flag
  generalize (state.threads thread).evicts = inside at moved before
  generalize flagAfter : after.coldCache.evicting = up at moved
  generalize insideAfter : (Control.after outcome).evicts = stays at moved
  cases moved with
  | keeps =>
      refine ⟨holder, ⟨?_, fun other => ?_⟩, Or.inl rfl⟩
      · rw [leave_cache, flagAfter, flag]
      · by_cases same : other = thread
        · rw [same, own, insideAfter, before]
        · exact others other same
  | takes =>
      obtain rfl : holder = none := Option.not_isSome_iff_eq_none.mp (by simp [← flag])
      refine ⟨some thread, ⟨?_, fun other => ?_⟩, Or.inr (Or.inl rfl)⟩
      · rw [leave_cache, flagAfter, Option.isSome_some]
      · by_cases same : other = thread
        · simp [same, own, insideAfter]
        · simpa [Ne.symm same] using others other same
  | lowers =>
      obtain rfl : holder = some thread := before.mp rfl
      refine ⟨none, ⟨?_, fun other => ?_⟩, Or.inr (Or.inr rfl)⟩
      · rw [leave_cache, flagAfter, Option.isSome_none]
      · by_cases same : other = thread
        · simp [same, own, insideAfter]
        · simpa [Ne.symm same] using others other same

theorem HeldBy.step (held : state.HeldBy holder)
    (stepped : state.step hashUrl event = some following) :
    ∃ heir, following.HeldBy heir ∧ (heir = holder ∨ holder = none ∨ heir = none) := by
  rcases step_cases stepped with ⟨thread, call, idle, rfl⟩ |
    ⟨thread, orders, now, cache, op, outcome, advanced, rfl⟩
  · refine ⟨holder, ⟨held.flag, fun other => ?_⟩, Or.inl rfl⟩
    rw [← held.evictor other]
    by_cases same : other = thread
    · subst same
      rw [idle]
      simp only [enter, Function.update_self]
      cases call <;> rfl
    · simp only [enter, Function.update_of_ne same]
  · exact held.leave thread op (flagMove_of_next advanced)

theorem exists_heldBy_step (held : ∃ holder, state.HeldBy holder)
    (stepped : state.step hashUrl event = some following) : ∃ heir, following.HeldBy heir := by
  obtain ⟨holder, held⟩ := held
  obtain ⟨heir, inherited, _⟩ := held.step stepped
  exact ⟨heir, inherited⟩

/-- **One thread evicts at a time.** In every interleaving of calls on a new
cache the eviction flag is up exactly while a thread is inside an eviction, and
then this thread is the only one. -/
theorem heldBy_of_exec {maxColdEntries ttlSecs : Nat} {events : List Event}
    (executed : Execution.exec (step hashUrl) (initial maxColdEntries ttlSecs) events =
      some state) : ∃ holder, state.HeldBy holder := by
  refine Execution.exec_invariant_always (fun _ current => ∃ holder, current.HeldBy holder)
    ⟨none, heldBy_initial _ _⟩ ?_ executed
  intro _ current event next held stepped
  exact exists_heldBy_step held stepped

theorem flag_of_evictedLookup :
    ∃ state, Execution.exec (step hashOfTwo) (initial 1 0)
        (FairRun.evictedLookup.take 15) = some state ∧
      state.cache.coldCache.evicting = true :=
  Option.map_eq_some_iff.mp
    (show (Execution.exec (step hashOfTwo) (initial 1 0)
        (FairRun.evictedLookup.take 15)).map (fun state => state.cache.coldCache.evicting) =
      some true by decide)

/-- The second insertion has found the cache full. -/
theorem heldBy_of_evictedLookup :
    ∃ state holder, Execution.exec (step hashOfTwo) (initial 1 0)
        (FairRun.evictedLookup.take 15) = some state ∧ state.HeldBy holder := by
  obtain ⟨state, executed, _⟩ := flag_of_evictedLookup
  obtain ⟨holder, held⟩ := heldBy_of_exec executed
  exact ⟨state, holder, executed, held⟩

end Runs

/-! ### The flag comes down -/

namespace FairRun

variable {hashUrl : String → UInt64} {maxColdEntries ttlSecs : Nat}
  (run : FairRun hashUrl maxColdEntries ttlSecs)

/-- No thread keeps the flag: the call in which it evicts returns. -/
theorem not_held_forever (thread : ThreadId) (time : Nat) :
    ∃ later, time ≤ later ∧ ¬ (run.state later).HeldBy (some thread) := by
  by_contra never
  have always : ∀ later, time ≤ later → (run.state later).HeldBy (some thread) :=
    fun later ordered => by_contra fun given => never ⟨later, ordered, given⟩
  have inside : ∀ later, time ≤ later →
      ((run.state later).threads thread).evicts = true :=
    fun later ordered => ((always later ordered).evictor thread).mpr rfl
  obtain ⟨op, url, html, runs⟩ := evicts_running (inside time (Nat.le_refl _))
  obtain ⟨later, ordered, call, answer, returned⟩ := (run.running_helped runs).eventually run.fair
  -- The thread never leaves the insertion, which has returned all the same.
  have stays : ((run.state later).threads thread).running = some (op, .insert url html) := by
    refine run.toBehaviour.lasts
      (fun state => (state.threads thread).running = some (op, .insert url html)) ordered runs ?_
    intro current event after happens before
    obtain ⟨next, nextUrl, nextHtml, still⟩ := evicts_running (inside (current + 1) after.step)
    rw [still, step_running (run.toBehaviour.step_of_some happens) before still]
  rw [(run.registered_and_attended later).1.current stays] at returned
  simp at returned

theorem heldBy (time : Nat) : ∃ holder, (run.state time).HeldBy holder := by
  refine run.toBehaviour.lasts (fun state => ∃ holder, state.HeldBy holder) (Nat.zero_le time)
    ?_ ?_
  · rw [run.begins]
    exact ⟨none, heldBy_initial _ _⟩
  · intro current event _ happens held
    exact exists_heldBy_step held (run.toBehaviour.step_of_some happens)

/-- **An eviction ends.** In an interleaving that keeps no thread from going on,
a flag that is up is held by one thread until this thread lowers it. -/
theorem eventually_lowered {time : Nat}
    (up : (run.state time).cache.coldCache.evicting = true) :
    ∃ thread later, time < later ∧
      (∀ between, time ≤ between → between < later → (run.state between).HeldBy (some thread)) ∧
      (run.state later).HeldBy none := by
  classical
  obtain ⟨holder, held⟩ := run.heldBy time
  obtain ⟨thread, rfl⟩ := Option.isSome_iff_exists.mp (held.flag.symm.trans up)
  have given := run.not_held_forever thread time
  obtain ⟨ordered, lowered⟩ := Nat.find_spec given
  have tenure : ∀ between, time ≤ between → between < Nat.find given →
      (run.state between).HeldBy (some thread) := by
    intro between after before
    by_contra lost
    exact Nat.find_min given before ⟨after, lost⟩
  have later : time < Nat.find given :=
    ordered.lt_of_ne fun same => lowered (same ▸ held)
  refine ⟨thread, Nat.find given, later, tenure, ?_⟩
  obtain ⟨last, next⟩ := Nat.exists_eq_succ_of_ne_zero (Nat.ne_zero_of_lt later)
  rw [next] at later lowered ⊢
  have lastHeld := tenure last (Nat.le_of_lt_succ later) (by omega)
  cases happens : run.event last with
  | none =>
      rw [run.toBehaviour.state_of_none happens] at lowered
      exact absurd lastHeld lowered
  | some event =>
      obtain ⟨heir, inherited, passed⟩ := lastHeld.step (run.toBehaviour.step_of_some happens)
      rcases passed with rfl | impossible | rfl
      · exact absurd inherited lowered
      · contradiction
      · exact inherited

theorem eventually_lowered_of_evictedLookup :
    ∃ run : FairRun hashOfTwo 1 0, ∃ thread later, 15 < later ∧
      (∀ between, 15 ≤ between → between < later → (run.state between).HeldBy (some thread)) ∧
      (run.state later).HeldBy none := by
  obtain ⟨run, follows⟩ := exists_fair_run
  obtain ⟨state, executed, up⟩ := flag_of_evictedLookup
  rw [follows 15] at executed
  obtain rfl := Option.some.inj executed
  exact ⟨run, run.eventually_lowered up⟩

end FairRun

end Interleaved

end RustySsr.Cache
