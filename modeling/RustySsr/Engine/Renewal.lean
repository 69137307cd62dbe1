import RustySsr.Engine.InFlight

/-!
Owns what an invalidation guarantees while calls are in flight. A page may
outlive it in a call that has rendered before it and stores after it, and in the
hot copies that the invalidation itself misses. `Settled` excludes both, and then
later calls are answered only with pages whose render finished after the
invalidation.
-/

namespace RustySsr.Engine.InFlight

open RustySsr.Cache
open RustySsr.Cache.SsrCache
open RustySsr.Platform
open RustySsr.V8Pool
open RustySsr.Foundation

/-- The action invalidates this URL: by itself, by a prefix, or with the cache. -/
def Action.Invalidates : Action → String → Prop
  | .invalidate target, url => target = url
  | .invalidatePrefix _ urlPrefix, url => startsWith url urlPrefix = true
  | .clearCache, _ => True
  | _, _ => False

theorem Action.Invalidates.mayBump {event : Event} {url : String}
    (invalidates : event.action.Invalidates url) : event.mayBump = true := by
  unfold Event.mayBump
  cases action : event.action <;> simp_all [Action.Invalidates]

section Statements

variable (hashUrl : String → UInt64)

/-- A render of the page finished after the given number of renders, for a URL
with the same hash. -/
def RenderedSince (renders : List (String × String)) (url : String) (earlier : Nat)
    (html : String) : Prop :=
  ∃ source, hashUrl source = hashUrl url ∧ (source, html) ∈ renders.drop earlier

/-- The call holds a page of the URL that it has not stored yet. -/
def HoldsPage (state : InFlight) (url : String) (id : CallId) : Prop :=
  ∃ call html, state.calls id = some call ∧ hashUrl call.url = hashUrl url ∧
    call.progress = .rendered html

/-- No listed call stores its page. -/
def StoresNone (late : CallId → Prop) (events : List Event) : Prop :=
  ∀ event ∈ events, ∀ id thread order, event.action = .store id thread order → ¬ late id

/-- The invalidation takes every live copy of the URL out of reach. -/
def ReachesCopies (cache : SsrCache) (event : Event) (url : String) : Prop :=
  match event.action with
  | .invalidate target => Reaches hashUrl cache ⟨event.now, .invalidate target⟩ url
  | .invalidatePrefix order urlPrefix =>
      Reaches hashUrl cache ⟨event.now, .invalidatePrefix order urlPrefix⟩ url ∧
        ∀ pageUrl html createdAt, cache.coldCache.HasPage (hashUrl url) pageUrl html createdAt →
          outlived cache.coldCache.ttl createdAt event.now = false →
            startsWith pageUrl urlPrefix = true
  | _ => True

/-- No call begun after the first state is answered from the cache with a page
that had been rendered by then. -/
def KeepsInvalid (before final : InFlight) (url : String) : Prop :=
  ∀ id call html, before.nextCall ≤ id → final.calls id = some call → call.url = url →
    call.progress = .cached html →
      RenderedSince hashUrl final.renders url before.renders.length html

/-- Every invalidation of the run is kept by the calls that begin after it. -/
def InvalidationsHold (config : SsrConfig) (events : List Event) (final : InFlight) : Prop :=
  ∀ earlier invalidation later before url, events = earlier ++ invalidation :: later →
    Execution.exec (step hashUrl) (initial config) earlier = some before →
      invalidation.action.Invalidates url → KeepsInvalid hashUrl before final url

/-- Every invalidation of the run takes all live copies of its URLs out of reach,
and no call that holds a page of such a URL at that time stores it later. -/
def Settled (config : SsrConfig) (events : List Event) : Prop :=
  ∀ earlier invalidation later before url, events = earlier ++ invalidation :: later →
    Execution.exec (step hashUrl) (initial config) earlier = some before →
      invalidation.action.Invalidates url →
        ReachesCopies hashUrl before.cache invalidation url ∧
          StoresNone (HoldsPage hashUrl before url) later

end Statements

/-! ### What the run keeps after an invalidation -/

/-- Every page of the URL that the current generation can still reach was rendered
since, or has outlived its time, and so was every page in the hands of a call
that is not late. -/
structure Renewed (hashUrl : String → UInt64) (url : String) (since : Nat) (ttl : Option Nat)
    (generation earlier : Nat) (firstCall : CallId) (late : CallId → Prop) (state : InFlight) :
    Prop where
  pages : Pages
    (fun key _ html createdAt => key = hashUrl url →
      RenderedSince hashUrl state.renders url earlier html ∨ outlived ttl createdAt since = true)
    (fun _ hotGeneration key entry => generation ≤ hotGeneration.toNat → key = hashUrl url →
      RenderedSince hashUrl state.renders url earlier entry.html ∨
        outlived ttl entry.createdAt since = true) state.cache
  pending : ∀ {id call html}, state.calls id = some call → hashUrl call.url = hashUrl url →
    call.progress = .rendered html →
      late id ∨ RenderedSince hashUrl state.renders url earlier html
  answers : ∀ {id call html}, firstCall ≤ id → state.calls id = some call → call.url = url →
    call.progress = .cached html → RenderedSince hashUrl state.renders url earlier html
  ordered : since ≤ state.clock
  grown : earlier ≤ state.renders.length

section Run

variable {hashUrl : String → UInt64} {url : String} {since generation earlier : Nat}
  {firstCall : CallId} {late : CallId → Prop} {ttlSecs : Nat} {state next : InFlight}
  {event : Event}

theorem RenderedSince.append {renders : List (String × String)} {html : String}
    (rendered : RenderedSince hashUrl renders url earlier html) (more : List (String × String)) :
    RenderedSince hashUrl (renders ++ more) url earlier html := by
  obtain ⟨source, sameHash, member⟩ := rendered
  refine ⟨source, sameHash, ?_⟩
  rw [List.drop_append]
  exact List.mem_append_left _ member

theorem renderedSince_last {renders : List (String × String)} {source html : String}
    (grown : earlier ≤ renders.length) (sameHash : hashUrl source = hashUrl url) :
    RenderedSince hashUrl (renders ++ [(source, html)]) url earlier html := by
  refine ⟨source, sameHash, ?_⟩
  rw [List.drop_append_of_le_length grown]
  exact List.mem_append_right _ (List.mem_singleton_self _)

/-- A page that answers at this time has not outlived it before. -/
theorem rendered_of_live {ttl : Option Nat} {createdAt now : Nat} {rendered : Prop}
    (ordered : since ≤ now) (live : outlived ttl createdAt now = false)
    (page : rendered ∨ outlived ttl createdAt since = true) : rendered := by
  refine page.resolve_right fun expired => ?_
  rw [outlived_mono ordered expired] at live
  contradiction

theorem Renewed.step_pages
    (renewed :
      Renewed hashUrl url since (ttlOfSecs ttlSecs) generation earlier firstCall late state)
    (same : SameTtl ttlSecs state.cache) (later : since ≤ event.now)
    (allowed : StoresNone late [event]) (transition : Transition hashUrl state event next) :
    Pages
      (fun key _ html createdAt => key = hashUrl url →
        RenderedSince hashUrl next.renders url earlier html ∨
          outlived (ttlOfSecs ttlSecs) createdAt since = true)
      (fun _ hotGeneration key entry => generation ≤ hotGeneration.toNat → key = hashUrl url →
        RenderedSince hashUrl next.renders url earlier entry.html ∨
          outlived (ttlOfSecs ttlSecs) entry.createdAt since = true) next.cache := by
  cases transition with
  | @looks thread lookupUrl data progress _ answer =>
      refine renewed.pages.tryGet fun page live _ _ _ sameKey => Or.inl ?_
      rw [same.cold] at live
      exact rendered_of_live later live (page sameKey)
  | @renders id call page _ present =>
      exact renewed.pages.mono
        (fun old sameKey => (old sameKey).imp_left fun rendered => rendered.append _)
        (fun old newer sameKey => (old newer sameKey).imp_left fun rendered => rendered.append _)
  | @stores id call page thread order action present holding =>
      have right (sameKey : hashUrl call.url = hashUrl url) :
          RenderedSince hashUrl state.renders url earlier page :=
        (renewed.pending present sameKey holding).resolve_left
          (allowed event (List.mem_singleton_self _) id thread order action)
      exact renewed.pages.insert (fun sameKey => Or.inl (right sameKey)) (fun _ old => old)
        (fun _ sameKey => Or.inl (right sameKey))
  | @ends id progress outcome => exact renewed.pages
  | invalidates cacheEvent _ onCache =>
      refine renewed.pages.apply ?_ ?_
      · intro _ _ op
        simp [SsrCache.Event.mayBump, op] at onCache
      · intro _ _ _ _ op
        simp [SsrCache.Event.mayBump, op] at onCache

theorem Renewed.step_pending
    (renewed :
      Renewed hashUrl url since (ttlOfSecs ttlSecs) generation earlier firstCall late state)
    (transition : Transition hashUrl state event next) {id : CallId} {call : RenderCall}
    {html : String} (present : next.calls id = some call)
    (sameHash : hashUrl call.url = hashUrl url)
    (holding : call.progress = .rendered html) :
    late id ∨ RenderedSince hashUrl next.renders url earlier html := by
  rcases transition.holding_cases present holding with kept | ⟨_, rendered⟩
  · obtain ⟨more, grown⟩ := transition.renders_prefix
    rw [← grown]
    exact (renewed.pending kept sameHash holding).imp_right fun since => since.append more
  · rw [rendered]
    exact Or.inr (renderedSince_last renewed.grown sameHash)

theorem Renewed.step_answers
    (renewed :
      Renewed hashUrl url since (ttlOfSecs ttlSecs) generation earlier firstCall late state)
    (same : SameTtl ttlSecs state.cache) (reached : generation ≤ state.cache.generation.toNat)
    (later : since ≤ event.now) (transition : Transition hashUrl state event next) {id : CallId}
    {call : RenderCall} {html : String} (isLater : firstCall ≤ id)
    (present : next.calls id = some call) (sameUrl : call.url = url)
    (answered : call.progress = .cached html) :
    RenderedSince hashUrl next.renders url earlier html := by
  cases transition with
  | @looks thread lookupUrl data progress _ answer =>
      change Function.update state.calls state.nextCall _ id = some call at present
      by_cases new : id = state.nextCall
      · rw [new, Function.update_self, Option.some.injEq] at present
        subst present
        subst sameUrl
        rcases answer with ⟨found, cached, hit⟩ | missed
        · obtain rfl : found = html := Progress.cached.inj (cached.symm.trans answered)
          rcases renewed.pages.tryGet_some hit with ⟨entry, page, rfl, live⟩ |
            ⟨_, createdAt, page, live⟩
          · rw [same.syncedHot thread] at live
            exact rendered_of_live later live (page reached rfl)
          · rw [same.cold] at live
            exact rendered_of_live later live (page rfl)
        · rw [missed] at answered
          contradiction
      · rw [Function.update_of_ne new] at present
        exact renewed.answers isLater present sameUrl answered
  | renders _ _ =>
      rcases setProgress_some present with kept | ⟨_, old, _, rfl⟩
      · exact (renewed.answers isLater kept sameUrl answered).append _
      · contradiction
  | stores _ _ _ =>
      rcases setProgress_some present with kept | ⟨_, old, _, rfl⟩
      · exact renewed.answers isLater kept sameUrl answered
      · contradiction
  | @ends _ progress outcome =>
      rcases setProgress_some present with kept | ⟨_, old, _, rfl⟩
      · exact renewed.answers isLater kept sameUrl answered
      · rcases outcome with rfl | ⟨_, rfl⟩ <;> contradiction
  | invalidates cacheEvent _ onCache => exact renewed.answers isLater present sameUrl answered

/-- One step keeps the URL renewed. -/
theorem Renewed.step
    (renewed :
      Renewed hashUrl url since (ttlOfSecs ttlSecs) generation earlier firstCall late state)
    (same : SameTtl ttlSecs state.cache) (reached : generation ≤ state.cache.generation.toNat)
    (allowed : StoresNone late [event]) (stepped : state.step hashUrl event = some next) :
    Renewed hashUrl url since (ttlOfSecs ttlSecs) generation earlier firstCall late next := by
  have later : since ≤ event.now := renewed.ordered.trans (step_eq stepped).1
  have transition := step_transition stepped
  refine ⟨renewed.step_pages same later allowed transition, renewed.step_pending transition,
    renewed.step_answers same reached later transition, ?_, ?_⟩
  · cases transition <;> exact later
  · exact renewed.grown.trans transition.renders_prefix.length_le

/-! ### An invalidation renews the URL -/

/-- Every page under the URL that the current generation can reach has outlived
its time. -/
abbrev Outlived (hashUrl : String → UInt64) (url : String) (ttl : Option Nat) (now : Nat)
    (cache : SsrCache) : Prop :=
  Pages (fun key _ _ createdAt => key = hashUrl url → outlived ttl createdAt now = true)
    (fun _ hotGeneration key entry => cache.generation.toNat ≤ hotGeneration.toNat →
      key = hashUrl url → outlived ttl entry.createdAt now = true) cache

section OnCache

variable {cache : SsrCache} {now : Nat}

theorem outlived_invalidate
    (behind : HotAll (fun generation _ => generation.toNat ≤ cache.generation.toNat) cache)
    (same : SameTtl ttlSecs cache) (room : cache.generation.toNat + 1 < 2 ^ 64)
    (reaches : Reaches hashUrl cache ⟨now, .invalidate url⟩ url) :
    Outlived hashUrl url (ttlOfSecs ttlSecs) now (cache.invalidate hashUrl url) := by
  have pages : Pages (fun _ _ _ _ => True)
      (fun _ hotGeneration key entry =>
        (cache.invalidate hashUrl url).generation.toNat ≤ hotGeneration.toNat →
          key = hashUrl url → outlived (ttlOfSecs ttlSecs) entry.createdAt now = true) cache :=
    ⟨fun _ => trivial, fun present exposed newer sameKey =>
      outlived_of_reaches behind same room reaches present (sameKey ▸ exposed) newer⟩
  exact (pages.invalidate url).mono (fun removed sameKey => absurd sameKey removed.1) id

theorem outlived_invalidatePrefix {order : ScanOrder} {urlPrefix : String}
    (behind : HotAll (fun generation _ => generation.toNat ≤ cache.generation.toNat) cache)
    (same : SameTtl ttlSecs cache) (room : cache.generation.toNat + 1 < 2 ^ 64)
    (reaches : Reaches hashUrl cache ⟨now, .invalidatePrefix order urlPrefix⟩ url)
    (covers : ∀ pageUrl html createdAt,
      cache.coldCache.HasPage (hashUrl url) pageUrl html createdAt →
        outlived cache.coldCache.ttl createdAt now = false → startsWith pageUrl urlPrefix = true) :
    Outlived hashUrl url (ttlOfSecs ttlSecs) now (cache.invalidatePrefix order urlPrefix).2 := by
  have pages : Pages (fun key pageUrl _ createdAt => key = hashUrl url →
        outlived (ttlOfSecs ttlSecs) createdAt now = false → startsWith pageUrl urlPrefix = true)
      (fun _ hotGeneration key entry =>
        (cache.invalidatePrefix order urlPrefix).2.generation.toNat ≤ hotGeneration.toNat →
          key = hashUrl url → outlived (ttlOfSecs ttlSecs) entry.createdAt now = true) cache :=
    ⟨fun page sameKey live => covers _ _ _ (sameKey ▸ page) (same.cold.symm ▸ live),
      fun present exposed newer sameKey =>
        outlived_of_reaches behind same room reaches present (sameKey ▸ exposed) newer⟩
  refine (pages.invalidatePrefix order urlPrefix).mono ?_ id
  intro key pageUrl html createdAt kept sameKey
  by_contra live
  have matched := kept.2 sameKey (Bool.eq_false_iff.mpr live)
  rw [kept.1] at matched
  contradiction

theorem outlived_clear
    (behind : HotAll (fun generation _ => generation.toNat ≤ cache.generation.toNat) cache)
    (room : cache.generation.toNat + 1 < 2 ^ 64) (ttl : Option Nat) :
    Outlived hashUrl url ttl now cache.clear := by
  have bumped : cache.clear.generation = cache.generation + 1 := rfl
  have pages : Pages (fun _ _ _ _ => True)
      (fun _ hotGeneration key entry => cache.clear.generation.toNat ≤ hotGeneration.toNat →
        key = hashUrl url → outlived ttl entry.createdAt now = true) cache := by
    refine ⟨fun _ => trivial, fun present _ newer _ => ?_⟩
    have notAhead := behind _ _ present
    rw [bumped, toNat_add_one room] at newer
    omega
  exact pages.clear.mono False.elim id

end OnCache

/-- An invalidation changes nothing but the clock and the cache, so only the
pages need its condition. -/
theorem Renewed.of_outlived {cache : SsrCache} {ttl : Option Nat} {now : Nat}
    (pages : Outlived hashUrl url ttl now cache) (unused : Unused state) :
    Renewed hashUrl url now ttl cache.generation.toNat state.renders.length state.nextCall
      (HoldsPage hashUrl state url) { state with clock := now, cache := cache } where
  pages := pages.mono (fun page sameKey => Or.inr (page sameKey))
    (fun entry newer sameKey => Or.inr (entry newer sameKey))
  pending := fun present sameHash holding => Or.inl ⟨_, _, present, sameHash, holding⟩
  answers := by
    intro id call html isLater present _ _
    have absent := unused id isLater
    change state.calls id = some call at present
    rw [absent] at present
    contradiction
  ordered := Nat.le_refl _
  grown := Nat.le_refl _

/-- An invalidation that reaches every copy leaves the URL renewed, but for the
pages that calls hold. -/
theorem renewed_of_reaches (unused : Unused state)
    (behind : HotAll (fun generation _ => generation.toNat ≤ state.cache.generation.toNat)
      state.cache)
    (same : SameTtl ttlSecs state.cache) (room : state.cache.generation.toNat + 1 < 2 ^ 64)
    (invalidates : event.action.Invalidates url)
    (reaches : ReachesCopies hashUrl state.cache event url)
    (stepped : state.step hashUrl event = some next) :
    Renewed hashUrl url event.now (ttlOfSecs ttlSecs) next.cache.generation.toNat
      state.renders.length state.nextCall (HoldsPage hashUrl state url) next := by
  obtain ⟨_, acted⟩ := step_eq stepped
  unfold ReachesCopies at reaches
  cases action : event.action with
  | invalidate target =>
      rw [action] at invalidates acted reaches
      obtain rfl : target = url := invalidates
      obtain rfl := Option.some.inj acted
      exact .of_outlived (outlived_invalidate behind same room reaches) unused
  | invalidatePrefix order urlPrefix =>
      rw [action] at acted reaches
      obtain rfl := Option.some.inj acted
      exact .of_outlived (outlived_invalidatePrefix behind same room reaches.1 reaches.2) unused
  | clearCache =>
      rw [action] at acted
      obtain rfl := Option.some.inj acted
      exact .of_outlived (outlived_clear behind room _) unused
  | lookup thread lookupUrl data =>
      rw [action] at invalidates
      exact invalidates.elim
  | render id outcome =>
      rw [action] at invalidates
      exact invalidates.elim
  | store id thread order =>
      rw [action] at invalidates
      exact invalidates.elim
  | cancel id =>
      rw [action] at invalidates
      exact invalidates.elim

/-! ### Runs -/

/-- What a run keeps of the hot caches' headers and of the generation counter. -/
structure Headers (ttlSecs count : Nat) (cache : SsrCache) : Prop where
  behind : HotAll (fun generation _ => generation.toNat ≤ cache.generation.toNat) cache
  same : SameTtl ttlSecs cache
  bounded : cache.generation.toNat ≤ count

theorem Headers.run {count : Nat} {events : List Event} {final : InFlight}
    (headers : Headers ttlSecs count state.cache) (room : count + bumps events < 2 ^ 64)
    (executed : Execution.exec (InFlight.step hashUrl) state events = some final) :
    state.cache.generation.toNat ≤ final.cache.generation.toNat ∧
      Headers ttlSecs (count + bumps events) final.cache := by
  obtain ⟨cacheEvents, cacheEq, fewer⟩ := exec_cache executed
  have bounded := headers.bounded
  have counted := run_generation_le hashUrl state.cache cacheEvents
  obtain ⟨grown, behind⟩ : _ ∧ HotAll _ (Execution.run (apply hashUrl) state.cache cacheEvents) :=
    run_generation_mono (by omega) headers.behind
  rw [cacheEq]
  exact ⟨grown, behind, headers.same.run cacheEvents, by omega⟩

theorem headers_initial (config : SsrConfig) :
    Headers ((config.cacheTtl.map asSecs).getD 0) 0 (initial config).cache where
  behind := fun _ _ absent => by simp [initial, SsrEngine.new, withTtl] at absent
  same := sameTtl_withTtl _ _
  bounded := Nat.le_refl 0

/-- A run in which no late call stores its page keeps the URL renewed. -/
theorem Renewed.run {count : Nat} {events : List Event} {final : InFlight}
    (renewed :
      Renewed hashUrl url since (ttlOfSecs ttlSecs) generation earlier firstCall late state)
    (headers : Headers ttlSecs count state.cache)
    (reached : generation ≤ state.cache.generation.toNat) (room : count + bumps events < 2 ^ 64)
    (allowed : StoresNone late events)
    (executed : Execution.exec (InFlight.step hashUrl) state events = some final) :
    Renewed hashUrl url since (ttlOfSecs ttlSecs) generation earlier firstCall late final := by
  induction events using List.reverseRecOn generalizing final with
  | nil =>
      obtain rfl := Option.some.inj executed
      exact renewed
  | append_singleton events event inductionHypothesis =>
      rw [bumps_append] at room
      obtain ⟨middle, executedMiddle, stepped⟩ := (Execution.exec_snoc_some_iff _).mp executed
      obtain ⟨grown, kept⟩ := headers.run (by omega) executedMiddle
      obtain ⟨before, last⟩ := List.forall_mem_append.mp allowed
      exact (inductionHypothesis (by omega) before executedMiddle).step kept.same
        (reached.trans grown) last stepped

/-- An invalidation of a run that reaches every copy is kept by the calls that
begin after it, when no call stores late. -/
theorem keepsInvalid_of_reaches {config : SsrConfig} {earlier later : List Event}
    {before after final : InFlight} {invalidation : Event}
    (room : bumps earlier + 1 + bumps later < 2 ^ 64)
    (reached : Execution.exec (InFlight.step hashUrl) (initial config) earlier = some before)
    (stepped : before.step hashUrl invalidation = some after)
    (executed : Execution.exec (InFlight.step hashUrl) after later = some final)
    (invalidates : invalidation.action.Invalidates url)
    (reaches : ReachesCopies hashUrl before.cache invalidation url)
    (allowed : StoresNone (HoldsPage hashUrl before url) later) :
    KeepsInvalid hashUrl before final url := by
  obtain ⟨_, headers⟩ := (headers_initial config).run (by omega) reached
  have one : bumps [invalidation] = 1 := by simp [bumps, invalidates.mayBump]
  have executedOne : Execution.exec (InFlight.step hashUrl) before [invalidation] = some after :=
    (Execution.exec_cons_some_iff _).mpr ⟨after, stepped, rfl⟩
  obtain ⟨_, headersAfter⟩ := headers.run (by omega) executedOne
  have bounded := headers.bounded
  have renewed := renewed_of_reaches (exec_unused reached) headers.behind headers.same (by omega)
    invalidates reaches stepped
  have kept := renewed.run headersAfter (Nat.le_refl _) (by omega) allowed executed
  exact fun id call html isLater present sameUrl answered =>
    kept.answers isLater present sameUrl answered

end Run

/-- **A render started before an invalidation does not undo it, unless its page is
stored after it.** In a run whose invalidations reach every copy, and in which no
call stores a page that it held when its URL was invalidated, every call begun
after an invalidation that is answered from the cache gets a page whose render
finished after it. -/
theorem invalidationsHold_of_settled {hashUrl : String → UInt64} {config : SsrConfig}
    {events : List Event} {final : InFlight} (room : bumps events < 2 ^ 64)
    (settled : Settled hashUrl config events)
    (executed : Execution.exec (step hashUrl) (initial config) events = some final) :
    InvalidationsHold hashUrl config events final := by
  intro earlier invalidation later before url split reached invalidates
  obtain ⟨again, reachedAgain, continued⟩ :=
    (Execution.exec_append_some_iff _).mp (split ▸ executed)
  obtain rfl : before = again := Option.some.inj (reached.symm.trans reachedAgain)
  obtain ⟨after, stepped, executedLater⟩ := (Execution.exec_cons_some_iff _).mp continued
  have one : bumps [invalidation] = 1 := by simp [bumps, invalidates.mayBump]
  rw [split, ← List.singleton_append, bumps_append, bumps_append, one] at room
  obtain ⟨reaches, allowed⟩ :=
    settled earlier invalidation later before url split reached invalidates
  exact keepsInvalid_of_reaches (by omega) reached stepped executedLater invalidates reaches allowed

/-- Two calls render the page of "/a", and one of them stores it. -/
def heldRun : List Event :=
  [⟨0, .lookup 0 "/a" "{}"⟩, ⟨0, .lookup 1 "/a" "{}"⟩, ⟨1, .render 0 (.ok "old")⟩,
    ⟨1, .render 1 (.ok "old")⟩, ⟨2, .store 0 0 VisitOrder.stored⟩]

/-- The other call is dropped; the next one renders anew, and a last one hits. -/
def renewingRun : List Event :=
  [⟨4, .cancel 1⟩, ⟨4, .lookup 0 "/a" "{}"⟩, ⟨5, .render 2 (.ok "new")⟩,
    ⟨6, .store 2 0 VisitOrder.stored⟩, ⟨7, .lookup 0 "/a" "{}"⟩]

/-- A page in the hands of a call that is dropped does not undo the invalidation. -/
theorem renewingRun_invalidationsHold :
    ∃ final, Execution.exec (step hashOfTwo) (initial SsrEngine.smallConfig)
        (heldRun ++ ⟨3, .invalidate "/a"⟩ :: renewingRun) = some final ∧
      final.calls 3 = some ⟨"/a", "{}", .cached "new"⟩ ∧
      InvalidationsHold hashOfTwo SsrEngine.smallConfig
        (heldRun ++ ⟨3, .invalidate "/a"⟩ :: renewingRun) final := by
  obtain ⟨final, executed, hit⟩ : ∃ final, Execution.exec (step hashOfTwo)
      (initial SsrEngine.smallConfig) (heldRun ++ ⟨3, .invalidate "/a"⟩ :: renewingRun) =
        some final ∧ final.calls 3 = some ⟨"/a", "{}", .cached "new"⟩ := ⟨_, rfl, rfl⟩
  refine ⟨final, executed, hit, invalidationsHold_of_settled (by decide) ?_ executed⟩
  intro earlier invalidation later before url split reached invalidates
  have notHeld : invalidation ∉ heldRun := by
    intro member
    simp only [heldRun, List.mem_cons, List.not_mem_nil, or_false] at member
    rcases member with rfl | rfl | rfl | rfl | rfl <;> exact invalidates
  have notRenewing : invalidation ∉ renewingRun := by
    intro member
    simp only [renewingRun, List.mem_cons, List.not_mem_nil, or_false] at member
    rcases member with rfl | rfl | rfl | rfl | rfl <;> exact invalidates
  obtain ⟨rfl, rfl, rfl⟩ := (List.append_cons_inj_of_notMem notHeld notRenewing).mp split
  obtain rfl : "/a" = url := invalidates
  obtain ⟨held, reachedHeld, stored, cold⟩ : ∃ held,
      Execution.exec (step hashOfTwo) (initial SsrEngine.smallConfig) heldRun = some held ∧
        held.calls 2 = none ∧
          ReachesCopies hashOfTwo held.cache ⟨3, .invalidate "/a"⟩ "/a" :=
    ⟨_, rfl, rfl, Or.inl ⟨⟨"/a", "old", 0, 2⟩, by decide⟩⟩
  obtain rfl : before = held := Option.some.inj (reached.symm.trans reachedHeld)
  refine ⟨cold, ?_⟩
  -- only the third call stores later, which has not begun
  rintro event member id thread order stores ⟨call, html, present, _, _⟩
  simp only [renewingRun, List.mem_cons, List.not_mem_nil, or_false] at member
  rcases member with rfl | rfl | rfl | rfl | rfl
  · contradiction
  · contradiction
  · contradiction
  · obtain ⟨rfl, -, -⟩ := Action.store.inj stores
    rw [stored] at present
    contradiction
  · contradiction

/-- A render that finishes before the invalidation and is stored after it answers
the calls that begin later. -/
theorem late_store_undoes_invalidation :
    ¬ ∀ hashUrl config events final, bumps events < 2 ^ 64 →
      Execution.exec (step hashUrl) (initial config) events = some final →
        InvalidationsHold hashUrl config events final := by
  intro hold
  obtain ⟨before, final, reached, executed, present, nextCall, renders⟩ : ∃ before final,
      Execution.exec (step hashOfTwo) (initial SsrEngine.smallConfig)
        [⟨0, .lookup 0 "/a" "\x7b\x7d"⟩, ⟨1, .render 0 (.ok "old")⟩] = some before ∧
      Execution.exec (step hashOfTwo) (initial SsrEngine.smallConfig)
        [⟨0, .lookup 0 "/a" "\x7b\x7d"⟩, ⟨1, .render 0 (.ok "old")⟩, ⟨2, .invalidate "/a"⟩,
          ⟨3, .store 0 0 VisitOrder.stored⟩, ⟨4, .lookup 0 "/a" "\x7b\x7d"⟩] = some final ∧
      final.calls 1 = some ⟨"/a", "\x7b\x7d", .cached "old"⟩ ∧ before.nextCall = 1 ∧
        before.renders = final.renders :=
    ⟨_, _, rfl, rfl, rfl, rfl, rfl⟩
  obtain ⟨source, _, member⟩ := hold hashOfTwo SsrEngine.smallConfig _ final (by decide) executed
    _ ⟨2, .invalidate "/a"⟩ _ before "/a" rfl reached rfl 1 _ "old" nextCall.le present rfl rfl
  rw [renders, List.drop_length] at member
  contradiction

end RustySsr.Engine.InFlight
