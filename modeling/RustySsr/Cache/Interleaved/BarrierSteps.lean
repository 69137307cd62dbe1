import RustySsr.Cache.Interleaved.Barred

/-!
Owns the steps of the calls that are barriers: what a clear or an effective
invalidation has achieved for a URL at each of its steps, whatever the other
threads do in between, and that it has barred the URL when it returns.
-/

namespace RustySsr.Cache

/-- The call was a barrier for the URL: a clear, or an invalidation of the URL
that removed something. -/
def CacheCall.Effective (url : String) : CacheCall → CacheAnswer → Prop
  | .invalidate target, .invalidated removed => target = url ∧ removed = true
  | .invalidatePrefix urlPrefix, .invalidatedPrefix removed =>
      startsWith url urlPrefix = true ∧ 0 < removed
  | .clear, .cleared => True
  | _, _ => False

namespace Interleaved

open RustySsr.Platform
open RustySsr.Foundation
open RustySsr.Foundation.Staged
open RustySsr.Cache.SsrCache

section Statements

variable (hashUrl : String → UInt64) (before : Interleaved) (url : String)

/-- What a barrier has achieved at each of its steps. -/
def Achieved (state : Interleaved) : Control → Prop
  | .invalidate _ target .bump => target = url → RemovedExcept hashUrl before url [] state
  | .invalidatePrefix _ urlPrefix (.cold (.remove keys _)) => startsWith url urlPrefix = true →
      RemovedExcept hashUrl before url keys state
  | .invalidatePrefix _ urlPrefix (.bump _) => startsWith url urlPrefix = true →
      RemovedExcept hashUrl before url [] state
  | .clear _ .bump => RemovedExcept hashUrl before url [] state
  | .clear _ (.reset _) => ∃ generation, Barred hashUrl before url generation state
  | _ => True

/-- The call is on its way to bar the URL, and has done so when it returns. -/
structure Bars (barrier : OpId) (state : Interleaved) : Prop where
  running : ∀ {thread call}, (state.threads thread).running = some (barrier, call) →
    Achieved hashUrl before url state (state.threads thread)
  returned : ∀ {call answer}, state.calls barrier = some ⟨call, some answer⟩ →
    call.Effective url answer → ∃ generation, Barred hashUrl before url generation state

end Statements

variable {hashUrl : String → UInt64} {before state following : Interleaved} {url : String}
  {event : Event}

/-! ### Steps of other calls -/

theorem Achieved.step {control : Control} (achieved : Achieved hashUrl before url state control)
    (registered : Registered state) (since : Since before state)
    (stepped : state.step hashUrl event = some following) :
    Achieved hashUrl before url following control := by
  have removed {keys : List UInt64} (removedBefore : RemovedExcept hashUrl before url keys state) :
      RemovedExcept hashUrl before url keys following :=
    removedBefore.step registered since stepped
  cases control with
  | invalidate op target stage =>
      cases stage with
      | cold => trivial
      | bump => exact fun sameUrl => removed (achieved sameUrl)
  | invalidatePrefix op urlPrefix stage =>
      cases stage with
      | cold coldStage =>
          cases coldStage with
          | scan => trivial
          | remove keys count => exact fun matched => removed (achieved matched)
      | bump count => exact fun matched => removed (achieved matched)
  | clear op stage =>
      cases stage with
      | cold => trivial
      | bump => exact removed achieved
      | reset counters =>
          obtain ⟨generation, barred⟩ := achieved
          exact ⟨generation, barred.step registered since stepped⟩
  | idle => trivial
  | tryGet op target stage => trivial
  | insert op target html stage => trivial

/-- Nothing has been achieved when a call starts. -/
theorem achieved_start (op : OpId) (call : CacheCall) :
    Achieved hashUrl before url state (call.start op) := by
  cases call <;> trivial

/-- The keys that a scan collects include that of every page with the prefix. -/
theorem removedExcept_scan {urls : Set String} (used : UsedPages hashUrl state)
    (distinct : Set.InjOn hashUrl urls) (inside : state.urls ⊆ urls) (known : url ∈ urls)
    {order : ScanOrder} {urlPrefix : String} (matched : startsWith url urlPrefix = true) :
    RemovedExcept hashUrl before url (state.cache.coldCache.keysWithPrefix order urlPrefix)
      state := by
  intro pageUrl html createdAt page
  obtain ⟨sameKey, usedUrl⟩ := used.cold page
  obtain rfl : url = pageUrl := distinct known (inside usedUrl) sameKey
  obtain ⟨lastAccess, found⟩ := page
  exact Or.inr (ColdCache.mem_keysWithPrefix_iff.mpr ⟨_, found, matched⟩)

/-! ### Steps of the barrier itself -/

section Advance

variable {thread : ThreadId} {orders : ColdCache.Orders} {now : Nat} {cache : SsrCache}
  {op : OpId} {urls : Set String}

theorem Achieved.advance_invalidate {id : OpId} {target : String} {stage : InvalidateStage}
    {control : Control} (shape : state.threads thread = .invalidate id target stage)
    (advanced : next hashUrl state.cache thread orders now (state.threads thread) =
      some (cache, op, .continues control)) :
    Achieved hashUrl before url (state.leave thread op cache (.continues control)) control := by
  rw [shape] at advanced
  cases stage with
  | bump => simp [next, invalidateStep] at advanced
  | cold =>
      simp only [next, invalidateStep, Option.some.injEq, Prod.mk.injEq] at advanced
      obtain ⟨rfl, rfl, continued⟩ := advanced
      split_ifs at continued
      · obtain rfl := Outcome.continues.inj continued
        rintro rfl pageUrl html createdAt page
        exact absurd rfl (ColdCache.hasPage_remove page).1
      · contradiction

theorem Achieved.advance_invalidatePrefix (consistent : Consistent hashUrl state)
    (since : Since before state) (distinct : Set.InjOn hashUrl urls)
    (inside : state.urls ⊆ urls) (known : url ∈ urls) {id : OpId} {urlPrefix : String}
    {stage : PrefixStage} {control : Control}
    (shape : state.threads thread = .invalidatePrefix id urlPrefix stage)
    (achieved : Achieved hashUrl before url state (.invalidatePrefix id urlPrefix stage))
    (advanced : next hashUrl state.cache thread orders now (state.threads thread) =
      some (cache, op, .continues control)) :
    Achieved hashUrl before url (state.leave thread op cache (.continues control)) control := by
  have stepped := step_of_next advanced
  have registered := consistent.registered
  rw [shape] at advanced
  cases stage with
  | bump count => simp [next, invalidatePrefixStep] at advanced
  | cold coldStage =>
      cases coldStage with
      | scan =>
          simp only [next, invalidatePrefixStep, ColdCache.removeByPrefixStep,
            Outcome.bind_continues, Option.some.injEq, Prod.mk.injEq,
            Outcome.continues.injEq] at advanced
          obtain ⟨rfl, rfl, rfl⟩ := advanced
          intro matched
          exact (removedExcept_scan consistent.used distinct inside known matched).step registered
            since stepped
      | remove keys count =>
          cases keys with
          | nil =>
              simp only [next, invalidatePrefixStep, ColdCache.removeByPrefixStep,
                Outcome.bind_returns, Option.some.injEq, Prod.mk.injEq] at advanced
              obtain ⟨rfl, rfl, continued⟩ := advanced
              split_ifs at continued
              · obtain rfl := Outcome.continues.inj continued
                exact fun matched => (achieved matched).step registered since stepped
              · contradiction
          | cons key keys =>
              simp only [next, invalidatePrefixStep, ColdCache.removeByPrefixStep,
                Outcome.bind_continues, Option.some.injEq, Prod.mk.injEq,
                Outcome.continues.injEq] at advanced
              obtain ⟨rfl, rfl, rfl⟩ := advanced
              intro matched pageUrl html createdAt page
              have different := (ColdCache.hasPage_erase page).1
              have kept := (achieved matched).step registered since stepped
              exact (kept pageUrl html createdAt page).imp_right fun member =>
                (List.mem_cons.mp member).resolve_left different

theorem Achieved.advance_clear (consistent : Consistent hashUrl state)
    (since : Since before state) (room : state.bumped < 2 ^ 64) {id : OpId} {stage : ClearStage}
    {control : Control} (shape : state.threads thread = .clear id stage)
    (achieved : Achieved hashUrl before url state (.clear id stage))
    (advanced : next hashUrl state.cache thread orders now (state.threads thread) =
      some (cache, op, .continues control)) :
    Achieved hashUrl before url (state.leave thread op cache (.continues control)) control := by
  have stepped := step_of_next advanced
  have registered := consistent.registered
  have advancedStage := advanced
  rw [shape] at advancedStage
  cases stage with
  | cold =>
      simp only [next, clearStep, Outcome.bind_continues, Option.some.injEq, Prod.mk.injEq,
        Outcome.continues.injEq] at advancedStage
      obtain ⟨rfl, rfl, rfl⟩ := advancedStage
      exact fun _ _ _ page => absurd page (ColdCache.not_hasPage_clear _ _ _ _ _)
  | bump =>
      simp only [next, clearStep, Outcome.bind_continues, Option.some.injEq, Prod.mk.injEq,
        Outcome.continues.injEq] at advancedStage
      obtain ⟨rfl, rfl, rfl⟩ := advancedStage
      exact ⟨_, barred_of_bump achieved registered since (consistent.counted room) stepped rfl
        (by rw [leave_bumped, shape]; rfl)⟩
  | reset counters =>
      obtain ⟨generation, barred⟩ := achieved
      have barredAfter := barred.step registered since stepped
      cases counters with
      | nil => simp [next, clearStep] at advancedStage
      | cons counter rest =>
          simp only [next, clearStep, Outcome.bind_continues, Option.some.injEq, Prod.mk.injEq,
            Outcome.continues.injEq] at advancedStage
          obtain ⟨rfl, rfl, rfl⟩ := advancedStage
          exact ⟨generation, barredAfter⟩

theorem Achieved.advance {control : Control} (consistent : Consistent hashUrl state)
    (since : Since before state) (room : state.bumped < 2 ^ 64)
    (distinct : Set.InjOn hashUrl urls) (inside : state.urls ⊆ urls) (known : url ∈ urls)
    (achieved : Achieved hashUrl before url state (state.threads thread))
    (advanced : next hashUrl state.cache thread orders now (state.threads thread) =
      some (cache, op, .continues control)) :
    Achieved hashUrl before url (state.leave thread op cache (.continues control)) control := by
  cases shape : state.threads thread with
  | idle =>
      rw [shape] at advanced
      contradiction
  | tryGet id target stage =>
      rw [shape] at advanced
      simp only [next, Option.some.injEq, Prod.mk.injEq, Outcome.bind_eq_continues_iff] at advanced
      obtain ⟨_, _, _, _, rfl⟩ := advanced
      trivial
  | insert id target html stage =>
      rw [shape] at advanced
      simp only [next, Option.some.injEq, Prod.mk.injEq, Outcome.bind_eq_continues_iff] at advanced
      obtain ⟨_, _, _, _, rfl⟩ := advanced
      trivial
  | invalidate id target stage => exact Achieved.advance_invalidate shape advanced
  | invalidatePrefix id urlPrefix stage =>
      exact Achieved.advance_invalidatePrefix consistent since distinct inside known shape
        (shape ▸ achieved) advanced
  | clear id stage =>
      exact Achieved.advance_clear consistent since room shape (shape ▸ achieved) advanced

theorem Achieved.returns_invalidate (consistent : Consistent hashUrl state)
    (since : Since before state) (room : state.bumped < 2 ^ 64) {id : OpId} {target : String}
    {stage : InvalidateStage} {answer : CacheAnswer}
    (shape : state.threads thread = .invalidate id target stage)
    (achieved : Achieved hashUrl before url state (.invalidate id target stage))
    (advanced : next hashUrl state.cache thread orders now (state.threads thread) =
      some (cache, op, .returns answer))
    (effective : (CacheCall.invalidate target).Effective url answer) :
    ∃ generation, Barred hashUrl before url generation
      (state.leave thread op cache (.returns answer)) := by
  have stepped := step_of_next advanced
  rw [shape] at advanced
  cases stage with
  | cold =>
      simp only [next, invalidateStep, Option.some.injEq, Prod.mk.injEq] at advanced
      obtain ⟨rfl, _, returned⟩ := advanced
      split_ifs at returned
      · contradiction
      · obtain rfl := Outcome.returns.inj returned
        exact absurd effective.2 Bool.false_ne_true
  | bump =>
      simp only [next, invalidateStep, Outcome.bind_returns, Option.some.injEq, Prod.mk.injEq,
        Outcome.returns.injEq] at advanced
      obtain ⟨rfl, _, rfl⟩ := advanced
      exact ⟨_, barred_of_bump (achieved effective.1) consistent.registered since
        (consistent.counted room) stepped rfl (by rw [leave_bumped, shape]; rfl)⟩

theorem Achieved.returns_invalidatePrefix (consistent : Consistent hashUrl state)
    (since : Since before state) (room : state.bumped < 2 ^ 64) {id : OpId} {urlPrefix : String}
    {stage : PrefixStage} {answer : CacheAnswer}
    (shape : state.threads thread = .invalidatePrefix id urlPrefix stage)
    (achieved : Achieved hashUrl before url state (.invalidatePrefix id urlPrefix stage))
    (advanced : next hashUrl state.cache thread orders now (state.threads thread) =
      some (cache, op, .returns answer))
    (effective : (CacheCall.invalidatePrefix urlPrefix).Effective url answer) :
    ∃ generation, Barred hashUrl before url generation
      (state.leave thread op cache (.returns answer)) := by
  have stepped := step_of_next advanced
  rw [shape] at advanced
  cases stage with
  | cold coldStage =>
      simp only [next, invalidatePrefixStep, Option.some.injEq, Prod.mk.injEq] at advanced
      obtain ⟨rfl, _, returned⟩ := advanced
      cases part : (state.cache.coldCache.removeByPrefixStep orders.scan urlPrefix coldStage).2 with
      | continues following =>
          rw [part] at returned
          contradiction
      | returns count =>
          rw [part, Outcome.bind_returns] at returned
          split_ifs at returned with someRemoved
          · contradiction
          · obtain rfl := Outcome.returns.inj returned
            exact absurd effective.2 someRemoved
  | bump count =>
      simp only [next, invalidatePrefixStep, Outcome.bind_returns, Option.some.injEq,
        Prod.mk.injEq, Outcome.returns.injEq] at advanced
      obtain ⟨rfl, _, rfl⟩ := advanced
      exact ⟨_, barred_of_bump (achieved effective.1) consistent.registered since
        (consistent.counted room) stepped rfl (by rw [leave_bumped, shape]; rfl)⟩

/-- A barrier bars the URL before it returns. -/
theorem Achieved.returns {call : CacheCall} {answer : CacheAnswer}
    (consistent : Consistent hashUrl state) (since : Since before state)
    (room : state.bumped < 2 ^ 64)
    (achieved : Achieved hashUrl before url state (state.threads thread))
    (runs : (state.threads thread).running = some (op, call))
    (advanced : next hashUrl state.cache thread orders now (state.threads thread) =
      some (cache, op, .returns answer)) (effective : call.Effective url answer) :
    ∃ generation, Barred hashUrl before url generation
      (state.leave thread op cache (.returns answer)) := by
  cases shape : state.threads thread with
  | idle =>
      rw [shape] at runs
      contradiction
  | tryGet id target stage =>
      rw [shape] at runs
      cases runs
      contradiction
  | insert id target html stage =>
      rw [shape] at runs
      cases runs
      contradiction
  | invalidate id target stage =>
      rw [shape] at runs
      cases runs
      exact Achieved.returns_invalidate consistent since room shape (shape ▸ achieved) advanced
        effective
  | invalidatePrefix id urlPrefix stage =>
      rw [shape] at runs
      cases runs
      exact Achieved.returns_invalidatePrefix consistent since room shape (shape ▸ achieved)
        advanced effective
  | clear id stage =>
      have stepped := step_of_next advanced
      rw [shape] at advanced achieved
      cases stage with
      | cold => simp [next, clearStep] at advanced
      | bump => simp [next, clearStep] at advanced
      | reset counters =>
          obtain ⟨generation, barred⟩ := achieved
          exact ⟨generation, barred.step consistent.registered since stepped⟩

end Advance

/-! ### Both -/

theorem Bars.step {barrier : OpId} {urls : Set String}
    (bars : Bars hashUrl before url barrier state)
    (consistent : Consistent hashUrl state) (since : Since before state)
    (room : state.bumped < 2 ^ 64) (distinct : Set.InjOn hashUrl urls)
    (inside : state.urls ⊆ urls) (known : url ∈ urls)
    (stepped : state.step hashUrl event = some following) :
    Bars hashUrl before url barrier following where
  running := by
    intro thread call runs
    rcases step_cases stepped with ⟨mover, started, _, rfl⟩ |
      ⟨mover, _, now, cache, ran, outcome, advanced, rfl⟩
    · by_cases same : thread = mover
      · simp only [enter, same, Function.update_self]
        exact achieved_start _ started
      · simp only [enter, Function.update_of_ne same] at runs ⊢
        exact (bars.running runs).step consistent.registered since stepped
    · obtain ⟨ranBefore, staysOn⟩ := leave_running advanced runs
      by_cases same : thread = mover
      · subst same
        obtain ⟨control, rfl⟩ := staysOn rfl
        have advanced := (bars.running ranBefore).advance consistent since room distinct inside
          known advanced
        simpa only [leave, Function.update_self] using advanced
      · rw [leave_threads_other _ _ _ _ _ same]
        exact (bars.running ranBefore).step consistent.registered since stepped
  returned := by
    intro call answer answered effective
    rcases step_answers consistent.registered stepped answered with
      answeredBefore | ⟨thread, _, _, cache, runs, advanced, rfl⟩
    · obtain ⟨generation, barred⟩ := bars.returned answeredBefore effective
      exact ⟨generation, barred.step consistent.registered since stepped⟩
    · exact (bars.running runs).returns consistent since room runs advanced effective

theorem bars_of_unstarted {barrier : OpId} (registered : Registered before)
    (unstarted : before.calls barrier = none) : Bars hashUrl before url barrier before where
  running := fun runs => absurd (registered.current runs) (by simp [unstarted])
  returned := fun answered => absurd answered (by simp [unstarted])

end Interleaved

end RustySsr.Cache
