import RustySsr.Cache.Interleaved.Model
import RustySsr.Cache.Ssr.Generation

/-!
Owns what a step of the interleaved cache does, as far as later invariants need
it: which call it belongs to, how it changes the generation counter and the hot
caches, which page it can add, and what a lookup holds in its hands.
-/

namespace RustySsr.Cache

open RustySsr.Platform
open RustySsr.Foundation
open RustySsr.Foundation.Staged

/-- The page that a lookup holds until it returns it. -/
def LookupStage.held : LookupStage → Option String
  | .countHotHit html => some html
  | .countColdHit html => some html
  | .promote html => some html
  | .countPromotion html => some html
  | _ => none

/-- The lookup has synchronised its hot cache. -/
def LookupStage.synced : LookupStage → Bool
  | .countLookup => false
  | .sync => false
  | _ => true

theorem LookupStage.synced_of_held {stage : LookupStage} {html : String}
    (holds : stage.held = some html) : stage.synced = true := by
  cases stage with
  | countLookup => contradiction
  | sync => contradiction
  | _ => rfl

/-- The thread's next step synchronises its hot cache. -/
def Control.synchronises : Control → Bool
  | .tryGet _ _ .sync => true
  | .insert _ _ _ .sync => true
  | _ => false

namespace SsrCache

variable {hashUrl : String → UInt64} {cache : SsrCache} {thread : ThreadId} {url : String}
  {now : Nat}

/-! ### A lookup -/

/-- What a lookup holds, it held before, or finds in one of the tiers. -/
theorem tryGetStep_held {stage following : LookupStage} {html : String}
    (stepped : (cache.tryGetStep hashUrl thread url now stage).2 = .continues following)
    (holds : following.held = some html) :
    stage.held = some html ∨ cache.peekHot thread (hashUrl url) now = some html ∨
      ∃ pageUrl createdAt, cache.coldCache.HasPage (hashUrl url) pageUrl html createdAt := by
  cases stage with
  | countLookup =>
      obtain rfl := Outcome.continues.inj stepped
      contradiction
  | sync =>
      obtain rfl := Outcome.continues.inj stepped
      contradiction
  | peek =>
      rw [tryGetStep] at stepped
      split at stepped
      · rename_i found peeked
        obtain rfl := Outcome.continues.inj stepped
        exact Or.inr (Or.inl (peeked.trans holds))
      · obtain rfl := Outcome.continues.inj stepped
        contradiction
  | cold coldStage =>
      simp only [tryGetStep] at stepped
      cases answer : (cache.coldCache.getStep (hashUrl url) now coldStage).2 with
      | continues next =>
          rw [answer] at stepped
          obtain rfl := Outcome.continues.inj stepped
          contradiction
      | returns result =>
          rw [answer] at stepped
          cases result with
          | none =>
              obtain rfl := Outcome.continues.inj stepped
              contradiction
          | some found =>
              obtain rfl := Outcome.continues.inj stepped
              obtain rfl := Option.some.inj holds
              exact Or.inr (Or.inr (ColdCache.getStep_returns_some answer))
  | countColdHit found =>
      obtain rfl := Outcome.continues.inj stepped
      exact Or.inl holds
  | promote found =>
      obtain rfl := Outcome.continues.inj stepped
      exact Or.inl holds
  | countHotHit found => contradiction
  | countPromotion found => contradiction
  | countMiss => contradiction

/-- A lookup returns a page that it holds. -/
theorem tryGetStep_returns {stage : LookupStage} {html : String}
    (stepped : (cache.tryGetStep hashUrl thread url now stage).2 = .returns (some html)) :
    stage.held = some html := by
  cases stage with
  | countHotHit found => exact Outcome.returns.inj stepped
  | countPromotion found => exact Outcome.returns.inj stepped
  | peek =>
      rw [tryGetStep] at stepped
      split at stepped <;> contradiction
  | cold coldStage =>
      simp only [tryGetStep] at stepped
      cases answer : (cache.coldCache.getStep (hashUrl url) now coldStage).2 with
      | continues next =>
          rw [answer] at stepped
          contradiction
      | returns result =>
          rw [answer] at stepped
          cases result <;> contradiction
  | countMiss => simp [tryGetStep] at stepped
  | countLookup => contradiction
  | sync => contradiction
  | countColdHit found => contradiction
  | promote found => contradiction

/-- A lookup is synchronised from its step `sync` on. -/
theorem tryGetStep_synced {stage following : LookupStage}
    (stepped : (cache.tryGetStep hashUrl thread url now stage).2 = .continues following)
    (synced : following.synced = true) : stage = .sync ∨ stage.synced = true := by
  cases stage with
  | countLookup =>
      obtain rfl := Outcome.continues.inj stepped
      contradiction
  | sync => exact Or.inl rfl
  | _ => exact Or.inr rfl

end SsrCache

/-! ### The change a step makes to the cache -/

namespace Interleaved

open RustySsr.Cache.SsrCache

/-- What a step of a call does to the cache: it removes pages from the cold
cache or leaves them, or it makes one of the changes of which pages, hot caches
and the generation counter consist. -/
inductive Change (hashUrl : String → UInt64) (cache : SsrCache) (thread : ThreadId) (now : Nat)
    (control : Control) : SsrCache → Prop where
  | removes {after : SsrCache}
      (pages : ∀ {key url html createdAt}, after.coldCache.HasPage key url html createdAt →
        cache.coldCache.HasPage key url html createdAt)
      (hotCache : after.hotCache = cache.hotCache)
      (generation : after.generation = cache.generation) (still : control.bumps = 0) :
      Change hashUrl cache thread now control after
  | stores {op : OpId} {url html : String} {stage : InsertStage} {after : SsrCache}
      (inserting : control = .insert op url html stage)
      (pages : ∀ {key pageUrl pageHtml createdAt},
        after.coldCache.HasPage key pageUrl pageHtml createdAt →
          (key = hashUrl url ∧ pageUrl = url ∧ pageHtml = html) ∨
            cache.coldCache.HasPage key pageUrl pageHtml createdAt)
      (hotCache : after.hotCache = cache.hotCache)
      (generation : after.generation = cache.generation) :
      Change hashUrl cache thread now control after
  | syncs (syncing : control.synchronises = true) (still : control.bumps = 0) :
      Change hashUrl cache thread now control (cache.getOrInitHotCache thread)
  | promotes {op : OpId} {url html : String}
      (promoting : control = .tryGet op url (.promote html)) :
      Change hashUrl cache thread now control (cache.insertHot thread (hashUrl url) html now)
  | inserts {op : OpId} {url html : String} (inserting : control = .insert op url html .hot) :
      Change hashUrl cache thread now control (cache.insertHot thread (hashUrl url) html now)
  | bumps (bumping : control.bumps = 1) :
      Change hashUrl cache thread now control cache.bumpGeneration

section Advance

variable {hashUrl : String → UInt64} {cache after : SsrCache} {thread : ThreadId}
  {orders : ColdCache.Orders} {now : Nat} {control : Control} {op : OpId}
  {outcome : Outcome Control CacheAnswer}

theorem next_change
    (stepped : next hashUrl cache thread orders now control = some (after, op, outcome)) :
    Change hashUrl cache thread now control after := by
  cases control with
  | idle => contradiction
  | tryGet id url stage =>
      cases stepped
      cases stage with
      | sync => exact .syncs rfl rfl
      | promote html => exact .promotes rfl
      | cold coldStage => exact .removes (fun page => ColdCache.hasPage_getStep page) rfl rfl rfl
      | peek =>
          rw [tryGetStep]
          split <;> exact .removes (fun page => page) rfl rfl rfl
      | _ => exact .removes (fun page => page) rfl rfl rfl
  | insert id url html stage =>
      cases stepped
      cases stage with
      | cold coldStage =>
          exact .stores rfl (fun page => ColdCache.hasPage_insertStep page) rfl rfl
      | sync => exact .syncs rfl rfl
      | hot => exact .inserts rfl
      | _ => exact .removes (fun page => page) rfl rfl rfl
  | invalidate id url stage =>
      cases stepped
      cases stage with
      | cold => exact .removes (fun page => (ColdCache.hasPage_remove page).2) rfl rfl rfl
      | bump => exact .bumps rfl
  | invalidatePrefix id urlPrefix stage =>
      cases stepped
      cases stage with
      | cold coldStage =>
          exact .removes (fun page => ColdCache.hasPage_removeByPrefixStep page) rfl rfl rfl
      | bump removed => exact .bumps rfl
  | clear id stage =>
      cases stepped
      cases stage with
      | cold => exact .removes (fun page => absurd page (by simp [clearStep, withCold])) rfl rfl rfl
      | bump => exact .bumps rfl
      | reset counters =>
          cases counters with
          | nil => exact .removes (fun page => page) rfl rfl rfl
          | cons counter rest => exact .removes (fun page => page) rfl rfl rfl

theorem running_of_bind {stage answer : Type} {wrap : stage → Control}
    {rename : answer → CacheAnswer} {part : Outcome stage answer} {running : OpId × CacheCall}
    (wrapped : ∀ current, (wrap current).running = some running) (following : Control)
    (continues : (part.bind wrap fun result => .returns (rename result)) = .continues following) :
    following.running = some running := by
  obtain ⟨current, _, rfl⟩ := Outcome.bind_eq_continues_iff.mp continues
  exact wrapped current

/-- A step belongs to the call its thread is in, and stays in it until it returns. -/
theorem next_running
    (stepped : next hashUrl cache thread orders now control = some (after, op, outcome)) :
    ∃ call, control.running = some (op, call) ∧
      ∀ following, outcome = .continues following → following.running = some (op, call) := by
  cases control with
  | idle => contradiction
  | tryGet id url stage =>
      cases stepped
      exact ⟨.tryGet url, rfl, running_of_bind fun _ => rfl⟩
  | insert id url html stage =>
      cases stepped
      exact ⟨.insert url html, rfl, running_of_bind fun _ => rfl⟩
  | invalidate id url stage =>
      cases stepped
      exact ⟨.invalidate url, rfl, running_of_bind fun _ => rfl⟩
  | invalidatePrefix id urlPrefix stage =>
      cases stepped
      exact ⟨.invalidatePrefix urlPrefix, rfl, running_of_bind fun _ => rfl⟩
  | clear id stage =>
      cases stepped
      exact ⟨.clear, rfl, running_of_bind fun _ => rfl⟩

/-- A thread that is in a lookup after a step was in it before. -/
theorem next_continues_tryGet {id : OpId} {target : String} {following : LookupStage}
    (stepped : next hashUrl cache thread orders now control =
      some (after, op, .continues (.tryGet id target following))) :
    ∃ stage, control = .tryGet id target stage ∧
      cache.tryGetStep hashUrl thread target now stage = (after, .continues following) := by
  cases control with
  | idle => contradiction
  | tryGet id' url stage =>
      simp only [next, Option.some.injEq, Prod.mk.injEq, Outcome.bind_eq_continues_iff] at stepped
      obtain ⟨rfl, rfl, next, continues, same⟩ := stepped
      cases same
      exact ⟨stage, rfl, Prod.ext rfl continues⟩
  | insert id' url html stage =>
      simp [next, Outcome.bind_eq_continues_iff] at stepped
  | invalidate id' url stage =>
      simp [next, Outcome.bind_eq_continues_iff] at stepped
  | invalidatePrefix id' urlPrefix stage =>
      simp [next, Outcome.bind_eq_continues_iff] at stepped
  | clear id' stage =>
      simp [next, Outcome.bind_eq_continues_iff] at stepped

/-- Only lookups return pages. -/
theorem next_returns_found {html : Option String}
    (stepped : next hashUrl cache thread orders now control =
      some (after, op, .returns (.found html))) :
    ∃ target stage, control = .tryGet op target stage ∧
      cache.tryGetStep hashUrl thread target now stage = (after, .returns html) := by
  cases control with
  | idle => contradiction
  | tryGet id' url stage =>
      simp only [next, Option.some.injEq, Prod.mk.injEq, Outcome.bind_eq_returns_iff] at stepped
      obtain ⟨rfl, rfl, result, returns, same⟩ := stepped
      cases same
      exact ⟨url, stage, rfl, Prod.ext rfl returns⟩
  | insert id' url html stage =>
      simp [next, Outcome.bind_eq_returns_iff] at stepped
  | invalidate id' url stage =>
      simp [next, Outcome.bind_eq_returns_iff] at stepped
  | invalidatePrefix id' urlPrefix stage =>
      simp [next, Outcome.bind_eq_returns_iff] at stepped
  | clear id' stage =>
      simp [next, Outcome.bind_eq_returns_iff] at stepped

theorem Change.pages {C : ColdPredicate} {H : HotPredicate}
    (change : Change hashUrl cache thread now control after) (pages : Pages C H cache)
    (promoted : ∀ op url html, control = .tryGet op url (.promote html) →
      ∀ hot, cache.hotCache thread = some hot →
        H thread hot.generation (hashUrl url) ⟨hashUrl url, html, now⟩)
    (inserted : ∀ op url html stage, control = .insert op url html stage →
      (∀ createdAt, C (hashUrl url) url html createdAt) ∧
        ∀ hot, cache.hotCache thread = some hot →
          H thread hot.generation (hashUrl url) ⟨hashUrl url, html, now⟩) :
    Pages C H after := by
  cases change with
  | removes kept hotCache _ _ =>
      exact ⟨fun page => pages.cold (kept page), fun present => pages.hot (hotCache ▸ present)⟩
  | stores inserting kept hotCache _ =>
      refine ⟨fun page => ?_, fun present => pages.hot (hotCache ▸ present)⟩
      rcases kept page with ⟨rfl, rfl, rfl⟩ | old
      · exact (inserted _ _ _ _ inserting).1 _
      · exact pages.cold old
  | syncs _ _ => exact pages.getOrInitHotCache thread
  | promotes promoting => exact pages.insertHot (promoted _ _ _ promoting)
  | inserts inserting => exact pages.insertHot (inserted _ _ _ _ inserting).2
  | bumps _ => exact pages.bumpGeneration

theorem Change.generation (change : Change hashUrl cache thread now control after)
    (room : cache.generation.toNat + control.bumps < 2 ^ 64) :
    after.generation.toNat = cache.generation.toNat + control.bumps := by
  cases change with
  | removes _ _ generation still => rw [generation, still, Nat.add_zero]
  | stores inserting _ _ generation => rw [generation, inserting]; rfl
  | syncs _ still => rw [still]; rfl
  | promotes promoting => rw [promoting]; rfl
  | inserts inserting => rw [inserting]; rfl
  | bumps bumping =>
      rw [bumping] at room ⊢
      exact toNat_add_one room

/-- A step leaves the hot caches of the other threads. -/
theorem Change.hotCache_other (change : Change hashUrl cache thread now control after)
    {other : ThreadId} (different : other ≠ thread) :
    after.hotCache other = cache.hotCache other := by
  cases change with
  | removes _ hotCache _ _ => rw [hotCache]
  | stores _ _ hotCache _ => rw [hotCache]
  | syncs _ _ => exact getOrInitHotCache_other cache different
  | promotes _ => exact Function.update_of_ne different _ _
  | inserts _ => exact Function.update_of_ne different _ _
  | bumps _ => rfl

/-- A step that does not synchronise keeps the generation of its hot cache. -/
theorem Change.hotGeneration_own (change : Change hashUrl cache thread now control after) :
    ((after.hotCache thread).map HotCacheState.generation =
        (cache.hotCache thread).map HotCacheState.generation) ∨
      (control.synchronises = true ∧
        (after.hotCache thread).map HotCacheState.generation = some cache.generation) := by
  cases change with
  | removes _ hotCache _ _ => rw [hotCache]; exact Or.inl rfl
  | stores _ _ hotCache _ => rw [hotCache]; exact Or.inl rfl
  | syncs syncing _ =>
      refine Or.inr ⟨syncing, ?_⟩
      rw [getOrInitHotCache_self, Option.map_some, syncedHot_generation]
  | promotes _ => left; simp [insertHot, Function.comp_def]
  | inserts _ => left; simp [insertHot, Function.comp_def]
  | bumps _ => exact Or.inl rfl

end Advance

end Interleaved

end RustySsr.Cache
