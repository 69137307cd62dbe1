import RustySsr.Cache.Ssr.Directory
import RustySsr.Engine.TimeToLive

/-!
Owns what the engine caches for: a page is rendered when there is none and then
served until it is invalidated. While the rendered URLs fit into the cache and
no page expires, every call is answered as by a memo table. The pool may answer
each call differently, so the table also says which renders the engine asks for
and which of their pages it keeps.
-/

namespace RustySsr.Engine.SsrEngine

open RustySsr.Cache
open RustySsr.Cache.SsrCache
open RustySsr.Platform
open RustySsr.V8Pool
open RustySsr.Foundation

/-- What a call returns to its caller. -/
inductive Reply where
  | rendered (result : Except SsrError String)
  | invalidated
  | removed (count : Nat)
  | cleared

/-- A call, and the pool as it answers during this call. -/
structure Turn (Json : Type) where
  pool : RenderPool
  call : Call Json

section Machines

variable {Json : Type}

/-- What the engine returns for a call, and the engine after it. -/
def respond (hashUrl : String → UInt64) (json : SerdeJson Json) (engine : SsrEngine)
    (turn : Turn Json) : Reply × SsrEngine :=
  (match turn.call with
    | .render lookup store order url =>
        .rendered (engine.render hashUrl turn.pool lookup store order url).1
    | .renderWithData lookup store order url data =>
        .rendered (engine.renderWithData hashUrl turn.pool lookup store order url data).1
    | .renderJson lookup store order url data =>
        .rendered (engine.renderJson hashUrl turn.pool json lookup store order url data).1
    | .renderUncached url data => .rendered (renderUncached turn.pool url data)
    | .invalidate _ => .invalidated
    | .invalidatePrefix order urlPrefix => .removed (engine.invalidatePrefix order urlPrefix).1
    | .clearCache => .cleared,
    engine.apply hashUrl turn.pool json turn.call)

/-- A call that renders through a memo table. A failure is not remembered. -/
def memoise (pool : RenderPool) (pages : Directory) (url data : String) : Reply × Directory :=
  match pages url with
  | some html => (.rendered (.ok html), pages)
  | none =>
      match renderUncached pool url data with
      | .error error => (.rendered (.error error), pages)
      | .ok html => (.rendered (.ok html), Function.update pages url (some html))

/-- What a memo table of the given URLs answers to a call, and the table after it. -/
def memoRespond (json : SerdeJson Json) (working : Finset String) (pages : Directory)
    (turn : Turn Json) : Reply × Directory :=
  match turn.call with
  | .render _ _ _ url => memoise turn.pool pages url "\x7b\x7d"
  | .renderWithData _ _ _ url data => memoise turn.pool pages url data
  | .renderJson _ _ _ url data => memoise turn.pool pages url (json.display data)
  | .renderUncached url data => (.rendered (renderUncached turn.pool url data), pages)
  | .invalidate url => (.invalidated, pages.keep fun other => other ≠ url)
  | .invalidatePrefix _ urlPrefix =>
      (.removed
        (working.filter fun url => (pages url).isSome ∧ startsWith url urlPrefix = true).card,
        pages.keep fun url => !startsWith url urlPrefix)
  | .clearCache => (.cleared, pages.keep fun _ => false)

/-- The call renders a page of the working set, or invalidates a known URL. -/
def Call.Within (urls : Set String) (working : Finset String) : Call Json → Prop
  | .render _ _ _ url => url ∈ working
  | .renderWithData _ _ _ url _ => url ∈ working
  | .renderJson _ _ _ url _ => url ∈ working
  | .invalidate url => url ∈ urls
  | _ => True

/-- The call may advance the generation counter. -/
def Call.mayBump : Call Json → Bool
  | .invalidate _ => true
  | .invalidatePrefix _ _ => true
  | .clearCache => true
  | _ => false

/-- How many calls may advance the generation counter. -/
def invalidations (turns : List (Turn Json)) : Nat := turns.countP fun turn => turn.call.mayBump

end Machines

/-! ### One call -/

section Steps

variable {Json : Type} {hashUrl : String → UInt64} {urls : Set String} {working : Finset String}
  {maxColdEntries : Nat} {pages : Directory} {engine : SsrEngine}

theorem renderWithData_memoise
    (represents : Represents hashUrl urls working maxColdEntries pages engine.cache)
    (distinct : Set.InjOn hashUrl urls) (fits : working.card ≤ maxColdEntries) (pool : RenderPool)
    (lookup store : Visit) (order : ScanOrder) {url : String} (member : url ∈ working)
    (data : String) :
    Reply.rendered (engine.renderWithData hashUrl pool lookup store order url data).1 =
        (memoise pool pages url data).1 ∧
      Represents hashUrl urls working maxColdEntries (memoise pool pages url data).2
        (engine.renderWithData hashUrl pool lookup store order url data).2.cache := by
  have known := represents.known url member
  have answer := represents.tryGet_answer distinct lookup.thread known lookup.now
  have looked := represents.tryGet distinct lookup.thread known lookup.now
  rcases renderWithData_cases hashUrl pool engine lookup store order url data with
    ⟨cached, hit, result⟩ | ⟨missed, ⟨error, failed, result⟩ | ⟨html, rendered, result⟩⟩
  · have page : pages url = some cached := answer.symm.trans hit
    rw [result, memoise, page]
    exact ⟨rfl, looked⟩
  · have missing : pages url = none := answer.symm.trans missed
    have uncached : renderUncached pool url data = .error (mapPoolError error) := by
      rw [renderUncached, failed]
      rfl
    rw [result, memoise, missing, uncached]
    exact ⟨rfl, looked⟩
  · have missing : pages url = none := answer.symm.trans missed
    have uncached : renderUncached pool url data = .ok html := by
      rw [renderUncached, rendered]
      rfl
    rw [result, memoise, missing, uncached]
    exact ⟨rfl, looked.insert distinct fits store.thread order member missing html store.now⟩

theorem renderWithData_generation (hashUrl : String → UInt64) (pool : RenderPool)
    (engine : SsrEngine) (lookup store : Visit) (order : ScanOrder) (url data : String) :
    (engine.renderWithData hashUrl pool lookup store order url data).2.cache.generation =
      engine.cache.generation := by
  have looked := tryGet_generation hashUrl engine.cache lookup.thread url lookup.now
  rcases renderWithData_cases hashUrl pool engine lookup store order url data with
    ⟨cached, _, result⟩ | ⟨_, ⟨error, _, result⟩ | ⟨html, _, result⟩⟩
  · rw [result]
    exact looked
  · rw [result]
    exact looked
  · rw [result]
    exact looked

/-- A call adds at most one to the counter, and none unless it invalidates. -/
theorem apply_generation_le (hashUrl : String → UInt64) (json : SerdeJson Json)
    (engine : SsrEngine) (turn : Turn Json) :
    (engine.apply hashUrl turn.pool json turn.call).cache.generation.toNat ≤
      engine.cache.generation.toNat + invalidations [turn] := by
  obtain ⟨pool, call⟩ := turn
  cases call with
  | render lookup store order url =>
      exact (congrArg UInt64.toNat (renderWithData_generation hashUrl pool engine lookup store order
        url _)).le
  | renderWithData lookup store order url data =>
      exact (congrArg UInt64.toNat (renderWithData_generation hashUrl pool engine lookup store order
        url data)).le
  | renderJson lookup store order url data =>
      exact (congrArg UInt64.toNat (renderWithData_generation hashUrl pool engine lookup store order
        url _)).le
  | renderUncached url data => exact Nat.le_refl _
  | invalidate url => exact run_generation_le hashUrl engine.cache [⟨0, .invalidate url⟩]
  | invalidatePrefix order urlPrefix =>
      exact run_generation_le hashUrl engine.cache [⟨0, .invalidatePrefix order urlPrefix⟩]
  | clearCache => exact run_generation_le hashUrl engine.cache [⟨0, .clear⟩]

/-- The engine and the memo table are in step. -/
theorem respond_memoRespond
    (represents : Represents hashUrl urls working maxColdEntries pages engine.cache)
    (distinct : Set.InjOn hashUrl urls) (fits : working.card ≤ maxColdEntries)
    (json : SerdeJson Json) {turn : Turn Json} (within : turn.call.Within urls working)
    (room : engine.cache.generation.toNat + invalidations [turn] < 2 ^ 64) :
    (engine.respond hashUrl json turn).1 = (memoRespond json working pages turn).1 ∧
      Represents hashUrl urls working maxColdEntries (memoRespond json working pages turn).2
        (engine.respond hashUrl json turn).2.cache := by
  obtain ⟨pool, call⟩ := turn
  cases call with
  | render lookup store order url =>
      exact renderWithData_memoise represents distinct fits pool lookup store order within _
  | renderWithData lookup store order url data =>
      exact renderWithData_memoise represents distinct fits pool lookup store order within data
  | renderJson lookup store order url data =>
      exact renderWithData_memoise represents distinct fits pool lookup store order within _
  | renderUncached url data => exact ⟨rfl, represents⟩
  | invalidate url => exact ⟨rfl, represents.invalidate distinct within room⟩
  | invalidatePrefix order urlPrefix =>
      exact ⟨congrArg Reply.removed (represents.invalidatePrefix_count distinct order urlPrefix),
        represents.invalidatePrefix order urlPrefix room⟩
  | clearCache => exact ⟨rfl, represents.clear room⟩

end Steps

/-! ### Every run -/

section Runs

variable {Json : Type} {hashUrl : String → UInt64} {urls : Set String} {working : Finset String}

theorem invalidations_append (first second : List (Turn Json)) :
    invalidations (first ++ second) = invalidations first + invalidations second :=
  List.countP_append

/-- The engine holds the pages of the table, and its counter has not wrapped around. -/
def InStep (hashUrl : String → UInt64) (urls : Set String) (working : Finset String)
    (maxColdEntries : Nat) (history : List (Turn Json)) (engine : SsrEngine) (pages : Directory) :
    Prop :=
  Represents hashUrl urls working maxColdEntries pages engine.cache ∧
    engine.cache.generation.toNat ≤ invalidations history

theorem inStep_new (known : ∀ url ∈ working, url ∈ urls) {config : SsrConfig}
    (noTtl : tierSecs config.cacheTtl = 0) :
    InStep hashUrl urls working config.cacheSize ([] : List (Turn Json)) (new config)
      fun _ => none := by
  refine ⟨?_, Nat.le_refl 0⟩
  show Represents _ _ _ _ _ (SsrCache.withTtl config.cacheSize (tierSecs config.cacheTtl))
  rw [noTtl]
  exact represents_withTtl known

theorem InStep.respond {maxColdEntries : Nat} {turns earlier later : List (Turn Json)}
    {turn : Turn Json} {engine : SsrEngine} {pages : Directory} (distinct : Set.InjOn hashUrl urls)
    (fits : working.card ≤ maxColdEntries) (json : SerdeJson Json)
    (room : invalidations turns < 2 ^ 64) (split : turns = earlier ++ turn :: later)
    (inStep : InStep hashUrl urls working maxColdEntries earlier engine pages)
    (within : turn.call.Within urls working) :
    (engine.respond hashUrl json turn).1 = (memoRespond json working pages turn).1 ∧
      InStep hashUrl urls working maxColdEntries (earlier ++ [turn])
        (engine.respond hashUrl json turn).2 (memoRespond json working pages turn).2 := by
  obtain ⟨represents, bounded⟩ := inStep
  rw [split, List.append_cons, invalidations_append, invalidations_append] at room
  obtain ⟨sameReply, next⟩ :=
    respond_memoRespond represents distinct fits json within (by omega)
  refine ⟨sameReply, next, ?_⟩
  have advanced := apply_generation_le hashUrl json engine turn
  rw [invalidations_append]
  show (engine.apply hashUrl turn.pool json turn.call).cache.generation.toNat ≤ _
  omega

/-- **While its pages fit, the engine is a memo table.** If no page expires, the
URLs have distinct hashes, every rendered one is in a working set no larger than
the cache, and the invalidations do not wrap the generation, all calls return
what they return on the table, whatever the pool answers to each. -/
theorem memoises (distinct : Set.InjOn hashUrl urls) (known : ∀ url ∈ working, url ∈ urls)
    (json : SerdeJson Json) {config : SsrConfig} (noTtl : tierSecs config.cacheTtl = 0)
    (fits : working.card ≤ config.cacheSize) {turns : List (Turn Json)}
    (within : ∀ turn ∈ turns, turn.call.Within urls working)
    (room : invalidations turns < 2 ^ 64) :
    Execution.transcript (respond hashUrl json) (new config) turns =
      Execution.transcript (memoRespond json working) (fun _ => none) turns := by
  have preserved : ∀ earlier turn later engine pages, turns = earlier ++ turn :: later →
      InStep hashUrl urls working config.cacheSize earlier engine pages →
      turn.call.Within urls working →
      (respond hashUrl json engine turn).1 = (memoRespond json working pages turn).1 ∧
        InStep hashUrl urls working config.cacheSize (earlier ++ [turn])
          (respond hashUrl json engine turn).2 (memoRespond json working pages turn).2 :=
    fun _ _ _ _ _ split inStep inside => inStep.respond distinct fits json room split inside
  have guarded : Execution.Guarded (fun pages turn => (memoRespond json working pages turn).2)
      (fun _ turn => turn.call.Within urls working) (fun _ => none) turns := by
    rintro earlier turn later rfl
    exact within turn (List.mem_append_right _ List.mem_cons_self)
  exact (Execution.simulates_within preserved (inStep_new known noTtl) guarded).1

end Runs

/-- A failed render, a page that is served on another thread, and its
invalidation, while the pool renders another page for every call. -/
def changingPages : List (Turn String) :=
  [⟨fun _ _ => .error .timeout, .render ⟨0, 0⟩ ⟨0, 1⟩ VisitOrder.stored "/a"⟩,
    ⟨fun _ _ => .ok "first", .render ⟨0, 2⟩ ⟨0, 3⟩ VisitOrder.stored "/a"⟩,
    ⟨fun _ _ => .ok "second", .render ⟨1, 4⟩ ⟨1, 5⟩ VisitOrder.stored "/a"⟩,
    ⟨fun _ _ => .ok "", .invalidatePrefix VisitOrder.stored "/"⟩,
    ⟨fun _ _ => .ok "third", .renderWithData ⟨1, 6⟩ ⟨0, 7⟩ VisitOrder.stored "/a" "[]"⟩]

theorem memoises_changingPages :
    Execution.transcript (respond hashOfTwo ⟨.ok, id⟩) (new smallConfig) changingPages =
      [.rendered (.error .timeout), .rendered (.ok "first"), .rendered (.ok "first"), .removed 1,
        .rendered (.ok "third")] := by
  have known : ∀ url ∈ ({"/a"} : Finset String), url ∈ twoUrls := by simp [twoUrls]
  refine (memoises hashOfTwo_injOn known ⟨.ok, id⟩ rfl (by decide) ?_ (by decide)).trans rfl
  simp [changingPages, Call.Within]

end RustySsr.Engine.SsrEngine
