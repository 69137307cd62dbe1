import RustySsr.Cache.Interleaved.Balance

/-!
Owns what one step of a thread does to the counters that lookups are counted in,
and what it leaves for the thread to count and to reset.
-/

namespace RustySsr.Cache

open RustySsr.Foundation
open RustySsr.Foundation.Staged

/-- The counters that a lookup at this stage has been counted in. -/
def LookupStage.counted : LookupStage → List Counter
  | .countLookup => []
  | .promote _ => [.lookups, .coldHits]
  | .countPromotion _ => [.lookups, .coldHits]
  | _ => [.lookups]

def Control.counted : Control → List Counter
  | .tryGet _ _ stage => stage.counted
  | _ => []

/-- What a lookup can have been counted in before it returns. -/
def Counter.partway : List (List Counter) := [[.lookups], [.lookups, .coldHits]]

theorem Control.counted_partway {control : Control} (counted : control.counted ≠ []) :
    control.counted ∈ Counter.partway := by
  cases control with
  | tryGet op url stage =>
      cases stage <;> simp_all [Control.counted, LookupStage.counted, Counter.partway]
  | _ => exact absurd rfl counted

/-- A step that counts a lookup in a further counter is between its counters. -/
theorem Control.counting_between {control : Control} {counter : Counter}
    (counting : control.counting = some counter) :
    (counter = .lookups ∧ control.counted = []) ∨
      (counter ≠ .lookups ∧ control.counted ≠ [] ∧ counter ∉ control.counted) := by
  cases control with
  | tryGet op url stage =>
      cases stage <;> cases counting <;> simp [Control.counted, LookupStage.counted]
  | _ => contradiction

/-- A step that counts resets nothing. -/
theorem Control.counting_toReset {control : Control} {counter : Counter}
    (counting : control.counting = some counter) : control.toReset = [] := by
  cases control with
  | tryGet op url stage => rfl
  | _ => contradiction

/-- What a lookup that has returned was counted in. -/
def Counter.complete : List (List Counter) :=
  [[.lookups, .hotHits], [.lookups, .misses], [.lookups, .coldHits, .promotions]]

theorem Control.counted_incomplete (control : Control) :
    control.counted ∉ Counter.complete := by
  have apart : ∀ shape ∈ [] :: Counter.partway, shape ∉ Counter.complete := by decide
  refine apart control.counted ?_
  by_cases counted : control.counted = []
  · rw [counted]
    exact List.mem_cons_self
  · exact List.mem_cons_of_mem _ (Control.counted_partway counted)

/-- The counters after a step of the thread. -/
def Control.tally (control : Control) (counts : Counter → Nat) : Counter → Nat :=
  match control.counting with
  | some counter => Function.update counts counter (counts counter + 1)
  | none =>
      match control.toReset with
      | counter :: _ => Function.update counts counter 0
      | [] => counts

/-- What a thread is doing after a step. -/
def Control.following : Outcome Control CacheAnswer → Control
  | .continues control => control
  | .returns _ => .idle

namespace Interleaved

open RustySsr.Cache.SsrCache

variable {hashUrl : String → UInt64} {cache after : SsrCache} {thread : ThreadId}
  {orders : ColdCache.Orders} {now : Nat} {control : Control} {op : OpId}
  {outcome : Outcome Control CacheAnswer}

/-- A step changes the counters of lookups as its kind says. -/
theorem next_get
    (stepped : next hashUrl cache thread orders now control = some (after, op, outcome))
    {counter : Counter} (member : counter ∈ Counter.ofLookups) :
    after.metrics.get counter = control.tally cache.metrics.get counter := by
  cases control with
  | idle => contradiction
  | tryGet id url stage =>
      cases stepped
      cases stage with
      | peek =>
          rw [tryGetStep]
          split <;> rfl
      | countLookup => cases counter <;> rfl
      | countHotHit html => cases counter <;> rfl
      | countColdHit html => cases counter <;> rfl
      | countPromotion html => cases counter <;> rfl
      | countMiss => cases counter <;> rfl
      | _ => rfl
  | insert id url html stage =>
      cases stepped
      cases stage with
      | countInsertion evicted => cases counter <;> first | rfl | exact absurd member (by decide)
      | countEvictions evicted => cases counter <;> first | rfl | exact absurd member (by decide)
      | _ => rfl
  | invalidate id url stage =>
      cases stepped
      cases stage <;> rfl
  | invalidatePrefix id urlPrefix stage =>
      cases stepped
      cases stage <;> rfl
  | clear id stage =>
      cases stepped
      cases stage with
      | reset counters =>
          cases counters with
          | nil => rfl
          | cons first rest => cases first <;> cases counter <;> rfl
      | _ => rfl

/-- A thread in a call of another kind has counted no lookup. -/
theorem counted_of_running {call : CacheCall} (notLookup : ∀ url, call ≠ .tryGet url)
    (keeps : ∀ continued, outcome = .continues continued → continued.running = some (op, call)) :
    (Control.following outcome).counted = [] := by
  cases outcome with
  | returns answer => rfl
  | continues continued =>
      have running := keeps continued rfl
      cases continued with
      | tryGet id url stage =>
          exact absurd (congrArg Prod.snd (Option.some.inj running)).symm (notLookup url)
      | _ => rfl

/-- A thread in a call of another kind resets no counter. -/
theorem toReset_of_running {call : CacheCall} (notClear : call ≠ .clear)
    (keeps : ∀ continued, outcome = .continues continued → continued.running = some (op, call)) :
    (Control.following outcome).toReset = [] := by
  cases outcome with
  | returns answer => rfl
  | continues continued =>
      have running := keeps continued rfl
      cases continued with
      | clear id stage =>
          exact absurd (congrArg Prod.snd (Option.some.inj running)).symm notClear
      | _ => rfl

/-- A lookup that is counted in its last counter has returned. -/
theorem next_counted
    (stepped : next hashUrl cache thread orders now control = some (after, op, outcome)) :
    (Control.following outcome).counted =
      if control.counted ++ control.counting.toList ∈ Counter.complete then []
      else control.counted ++ control.counting.toList := by
  cases control with
  | idle => contradiction
  | tryGet id url stage =>
      cases stepped
      cases stage with
      | peek =>
          rw [tryGetStep]
          split <;> rfl
      | cold coldStage =>
          rw [tryGetStep]
          dsimp only
          cases (cache.coldCache.getStep (hashUrl url) now coldStage).2 with
          | continues next => rfl
          | returns found => cases found <;> rfl
      | _ => rfl
  | _ =>
      obtain ⟨call, running, keeps⟩ := next_running stepped
      cases running
      exact counted_of_running (fun _ => CacheCall.noConfusion) keeps

/-- A clear resets its counters in order, once it has bumped the generation. -/
theorem next_toReset
    (stepped : next hashUrl cache thread orders now control = some (after, op, outcome)) :
    (Control.following outcome).toReset = control.toReset.tail ∨
      control.toReset = [] ∧ (Control.following outcome).toReset = Counter.resetOrder := by
  cases control with
  | idle => contradiction
  | clear id stage =>
      cases stepped
      cases stage with
      | cold => exact Or.inl rfl
      | bump => exact Or.inr ⟨rfl, rfl⟩
      | reset counters => cases counters <;> exact Or.inl rfl
  | _ =>
      obtain ⟨call, running, keeps⟩ := next_running stepped
      cases running
      exact Or.inl (toReset_of_running CacheCall.noConfusion keeps)

end Interleaved

end RustySsr.Cache
