import RustySsr.Cache.Interleaved.Model

/-!
Owns the agreement of the interleaved cache with the one whose operations are
single steps: a call whose steps are not interrupted leaves the state and the
answer of the operation as a whole.
-/

namespace RustySsr.Cache

open RustySsr.Platform
open RustySsr.Foundation
open RustySsr.Foundation.Staged

namespace SsrCache

variable (hashUrl : String → UInt64) (cache : SsrCache)

theorem completes_tryGet (thread : ThreadId) (url : String) (now : Nat) :
    Completes (fun current => current.tryGetStep hashUrl thread url now) cache .countLookup
      (cache.tryGet hashUrl thread url now).1 (cache.tryGet hashUrl thread url now).2 := by
  refine .continues rfl (.continues rfl ?_)
  unfold tryGet
  dsimp only
  cases peeked : (cache.beginLookup thread).peekHot thread (hashUrl url) now with
  | some html =>
      have stepped : (cache.beginLookup thread).tryGetStep hashUrl thread url now .peek =
          (cache.beginLookup thread, .continues (.countHotHit html)) := by
        rw [tryGetStep, peeked]
      exact .continues stepped (.returns rfl)
  | none =>
      have stepped : (cache.beginLookup thread).tryGetStep hashUrl thread url now .peek =
          (cache.beginLookup thread, .continues (.cold .read)) := by
        rw [tryGetStep, peeked]
      refine .continues stepped ?_
      have run := ColdCache.completes_get (cache.beginLookup thread).coldCache (hashUrl url) now
      generalize (cache.beginLookup thread).coldCache.get (hashUrl url) now = result at run ⊢
      obtain ⟨answer, after⟩ := result
      refine Completes.lift (cache.beginLookup thread).withCold LookupStage.cold (fun _ _ => rfl)
        run ?_
      cases answer with
      | some html =>
          exact .continues (.continues rfl (.continues rfl (.returns rfl)))
      | none => exact .continues (.returns rfl)

theorem completes_insert (thread : ThreadId) (order : ScanOrder) (url html : String) (now : Nat) :
    Completes
      (fun current => current.insertStep hashUrl thread ⟨order, VisitOrder.stored⟩ url html now)
      cache (.cold .checkLength) () (cache.insert hashUrl thread order url html now) := by
  refine Completes.lift cache.withCold InsertStage.cold (fun _ _ => rfl)
    (ColdCache.completes_insert _ order (hashUrl url) url html now) ?_
  refine .continues ?_
  by_cases evicts : 0 < (cache.coldCache.insert order (hashUrl url) url html now).1
  · refine .continues (by rw [insertStep, if_pos evicts]) ?_
    exact .continues rfl (.continues rfl (.returns rfl))
  · refine .continues (by rw [insertStep, if_neg evicts]) ?_
    refine .continues rfl (.returns ?_)
    have none : (cache.coldCache.insert order (hashUrl url) url html now).1 = 0 := by omega
    unfold insert
    dsimp only
    rw [none]
    rfl

theorem completes_invalidate (url : String) :
    Completes (fun current => current.invalidateStep hashUrl url) cache .cold
      (cache.coldCache.remove (hashUrl url)).1 (cache.invalidate hashUrl url) := by
  unfold invalidate
  dsimp only
  split_ifs with removed
  · refine .continues (by rw [invalidateStep, if_pos removed]) ?_
    rw [removed]
    exact .returns rfl
  · refine .returns ?_
    rw [invalidateStep, if_neg removed, Bool.eq_false_iff.mpr removed]

theorem completes_invalidatePrefix (order : ScanOrder) (urlPrefix : String) :
    Completes (fun current => current.invalidatePrefixStep order urlPrefix) cache (.cold .scan)
      (cache.invalidatePrefix order urlPrefix).1 (cache.invalidatePrefix order urlPrefix).2 := by
  refine Completes.lift cache.withCold PrefixStage.cold (fun _ _ => rfl)
    (ColdCache.completes_removeByPrefix _ order urlPrefix) ?_
  unfold invalidatePrefix
  dsimp only
  split_ifs
  · exact .continues (.returns rfl)
  · exact .returns _

theorem completes_clear : Completes (fun current => current.clearStep) cache .cold () cache.clear :=
  .continues rfl (.continues rfl (.continues rfl (.continues rfl (.continues rfl (.continues rfl
    (.continues rfl (.continues rfl (.continues rfl (.returns rfl)))))))))

end SsrCache

/-- A call as one step: what it leaves of the cache, and its answer. -/
def CacheCall.whole (hashUrl : String → UInt64) (cache : SsrCache) (thread : ThreadId)
    (order : ScanOrder) (now : Nat) : CacheCall → SsrCache × CacheAnswer
  | .tryGet url =>
      let looked := cache.tryGet hashUrl thread url now
      (looked.2, .found looked.1)
  | .insert url html => (cache.insert hashUrl thread order url html now, .inserted)
  | .invalidate url =>
      (cache.invalidate hashUrl url, .invalidated (cache.coldCache.remove (hashUrl url)).1)
  | .invalidatePrefix urlPrefix =>
      let removed := cache.invalidatePrefix order urlPrefix
      (removed.2, .invalidatedPrefix removed.1)
  | .clear => (cache.clear, .cleared)

namespace Interleaved

/-- The thread has left its call, which is recorded; nothing else has changed but
the cache. -/
structure Leaves (thread : ThreadId) (op : OpId) (record : CallRecord)
    (state last : Interleaved) : Prop where
  idle : last.threads thread = .idle
  record : last.calls op = some record
  threads : ∀ other, other ≠ thread → last.threads other = state.threads other
  calls : ∀ other, other ≠ op → last.calls other = state.calls other
  nextOp : last.nextOp = state.nextOp

variable {hashUrl : String → UInt64} {thread : ThreadId}

/-- A run of an operation is a run of the machine in which only its thread
takes steps. -/
theorem exec_of_completes (orders : ColdCache.Orders) (now : Nat) {stage answer : Type}
    {stepOf : SsrCache → stage → SsrCache × Outcome stage answer} {wrap : stage → Control}
    {resume : answer → CacheAnswer} {op : OpId} {record : CallRecord}
    (nextEq : ∀ cache current, next hashUrl cache thread orders now (wrap current) =
      some ((stepOf cache current).1, op,
        (stepOf cache current).2.bind wrap fun result => .returns (resume result)))
    {cache final : SsrCache} {current : stage} {result : answer}
    (run : Completes stepOf cache current result final) :
    ∀ state : Interleaved, state.cache = cache → state.threads thread = wrap current →
      state.calls op = some record →
        ∃ events last, Execution.exec (step hashUrl) state events = some last ∧
          last.cache = final ∧
            Leaves thread op { record with answer := some (resume result) } state last := by
  induction run with
  | @returns cache final current result stepped =>
      intro state onCache running present
      have advanced : state.step hashUrl (.advance thread orders now) =
          some (state.leave thread op final (.returns (resume result))) := by
        rw [step, running, onCache, nextEq, stepped]
        rfl
      refine ⟨[_], _, (Execution.exec_cons_some_iff _).mpr ⟨_, advanced, rfl⟩, rfl,
        { idle := ?_, record := ?_, threads := ?_, calls := ?_, nextOp := rfl }⟩
      · exact Function.update_self _ _ _
      · simp [leave, present]
      · exact fun other different => Function.update_of_ne different _ _
      · exact fun other different => Function.update_of_ne different _ _
  | @continues cache middle final current following result stepped _ inductionHypothesis =>
      intro state onCache running present
      have advanced : state.step hashUrl (.advance thread orders now) =
          some (state.leave thread op middle (.continues (wrap following))) := by
        rw [step, running, onCache, nextEq, stepped]
        rfl
      obtain ⟨events, last, executed, cacheEq, leaves⟩ := inductionHypothesis
        (state.leave thread op middle (.continues (wrap following))) rfl
          (Function.update_self _ _ _) present
      refine ⟨_ :: events, last, (Execution.exec_cons_some_iff _).mpr ⟨_, advanced, executed⟩,
        cacheEq, { leaves with threads := fun other different => ?_ }⟩
      exact (leaves.threads other different).trans (Function.update_of_ne different _ _)

/-- The steps of one call, taken without interruption, are the call as a whole. -/
theorem uninterrupted_call {state : Interleaved} (idle : state.threads thread = .idle)
    (call : CacheCall) (order : ScanOrder) (now : Nat) :
    ∃ events last, Execution.exec (step hashUrl) state events = some last ∧
      last.cache = (call.whole hashUrl state.cache thread order now).1 ∧
        Leaves thread state.nextOp
          ⟨call, some (call.whole hashUrl state.cache thread order now).2⟩
          (state.enter thread call) last := by
  have started : state.step hashUrl (.start thread call) = some (state.enter thread call) := by
    rw [step, start, idle]
  have running : (state.enter thread call).threads thread = call.start state.nextOp :=
    Function.update_self _ _ _
  have present : (state.enter thread call).calls state.nextOp = some ⟨call, none⟩ :=
    Function.update_self _ _ _
  suffices completes : ∃ events last,
      Execution.exec (step hashUrl) (state.enter thread call) events = some last ∧
        last.cache = (call.whole hashUrl state.cache thread order now).1 ∧
          Leaves thread state.nextOp
            ⟨call, some (call.whole hashUrl state.cache thread order now).2⟩
            (state.enter thread call) last by
    obtain ⟨events, last, executed, rest⟩ := completes
    exact ⟨_ :: events, last, (Execution.exec_cons_some_iff _).mpr ⟨_, started, executed⟩, rest⟩
  cases call with
  | tryGet url =>
      exact exec_of_completes ⟨order, VisitOrder.stored⟩ now (fun _ _ => rfl)
        (SsrCache.completes_tryGet hashUrl _ thread url now) _ rfl running present
  | insert url html =>
      exact exec_of_completes ⟨order, VisitOrder.stored⟩ now (fun _ _ => rfl)
        (SsrCache.completes_insert hashUrl _ thread order url html now) _ rfl running present
  | invalidate url =>
      exact exec_of_completes ⟨order, VisitOrder.stored⟩ now (fun _ _ => rfl)
        (SsrCache.completes_invalidate hashUrl _ url) _ rfl running present
  | invalidatePrefix urlPrefix =>
      exact exec_of_completes ⟨order, VisitOrder.stored⟩ now (fun _ _ => rfl)
        (SsrCache.completes_invalidatePrefix _ order urlPrefix) _ rfl running present
  | clear =>
      exact exec_of_completes ⟨order, VisitOrder.stored⟩ now (fun _ _ => rfl)
        (SsrCache.completes_clear _) _ rfl running present

end Interleaved

end RustySsr.Cache
