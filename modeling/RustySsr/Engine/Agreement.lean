import Mathlib.Data.Set.Function
import RustySsr.Cache.Ssr.Provenance
import RustySsr.Engine.Model

/-!
Owns the agreement of the cached path with the uncached one. The cache is keyed
by the URL alone, so a cached page answers every data string of its URL.
`agrees_iff` states for which requests that is harmless, whatever the render
function computes. The pool is taken as one that serves every request.
-/

namespace RustySsr.Engine.SsrEngine

open RustySsr.Cache
open RustySsr.Cache.SsrCache
open RustySsr.Platform
open RustySsr.V8Pool
open RustySsr.Foundation

/-- The URLs and data strings that the calls through the cache use. -/
abbrev Workload := Set (String × String)

def Workload.urls (workload : Workload) : Set String := Prod.fst '' workload

section Statements

variable {Json : Type} (json : SerdeJson Json)

/-- The request that a call makes through the cache. -/
def Call.request : Call Json → Option (String × String)
  | .render _ _ _ url => some (url, "\x7b\x7d")
  | .renderWithData _ _ _ url data => some (url, data)
  | .renderJson _ _ _ url data => some (url, json.display data)
  | _ => none

def RequestsWithin (workload : Workload) (calls : List (Call Json)) : Prop :=
  ∀ call ∈ calls, ∀ request, Call.request json call = some request → request ∈ workload

theorem requestsWithin_singleton {json : SerdeJson Json} {workload : Workload} {call : Call Json}
    (within : ∀ request, Call.request json call = some request → request ∈ workload) :
    RequestsWithin json workload [call] := by
  intro only member
  rw [List.mem_singleton] at member
  exact member ▸ within

/-- After any calls of the workload, a call through the cache has the outcome
that `render_uncached` has in its place. -/
def Agrees (hashUrl : String → UInt64) (pool : RenderPool) (config : SsrConfig)
    (workload : Workload) : Prop :=
  ∀ calls lookup store order url data, RequestsWithin json workload calls →
    (url, data) ∈ workload → ∀ html,
      ((after hashUrl pool json config calls).renderWithData hashUrl pool lookup store order url
          data).1 = .ok html ↔
        renderUncached pool url data = .ok html

/-- All data strings of one URL stand for the same JSON text, or for none. -/
def SameData (workload : Workload) : Prop :=
  ∀ url data other text, (url, data) ∈ workload → (url, other) ∈ workload →
    json.safeData data = some text → json.safeData other = some text

end Statements

/-! ### What the cache holds -/

/-- The page is what every request of the URL in the workload renders. -/
def RightPage (pool : RenderPool) (workload : Workload) (url html : String) : Prop :=
  ∀ data, (url, data) ∈ workload → pool url data = .ok html

/-- One request of a URL renders what all of them render. -/
def OnePagePerUrl (pool : RenderPool) (workload : Workload) : Prop :=
  ∀ url data html, (url, data) ∈ workload → pool url data = .ok html →
    RightPage pool workload url html

/-- Every tier holds right pages of the workload only. -/
abbrev HoldsRightPages (hashUrl : String → UInt64) (pool : RenderPool) (workload : Workload)
    (cache : SsrCache) : Prop :=
  Pages (fun key url html _ => key = hashUrl url ∧ url ∈ workload.urls ∧
      RightPage pool workload url html)
    (fun _ _ key entry => ∃ url ∈ workload.urls, hashUrl url = key ∧
      RightPage pool workload url entry.html) cache

section Runs

variable {hashUrl : String → UInt64} {pool : RenderPool} {workload : Workload}

theorem HoldsRightPages.tryGet {cache : SsrCache}
    (holds : HoldsRightPages hashUrl pool workload cache) (thread : ThreadId) (url : String)
    (now : Nat) : HoldsRightPages hashUrl pool workload (cache.tryGet hashUrl thread url now).2 :=
  Pages.tryGet holds fun page _ _ _ => ⟨_, page.2.1, page.1.symm, page.2.2⟩

theorem HoldsRightPages.renderWithData {engine : SsrEngine}
    (holds : HoldsRightPages hashUrl pool workload engine.cache)
    (onePage : OnePagePerUrl pool workload) {url data : String}
    (request : (url, data) ∈ workload) (lookup store : Visit) (order : ScanOrder) :
    HoldsRightPages hashUrl pool workload
      (engine.renderWithData hashUrl pool lookup store order url data).2.cache := by
  have looked := holds.tryGet lookup.thread url lookup.now
  rcases renderWithData_cases hashUrl pool engine lookup store order url data with
    ⟨cached, _, result⟩ | ⟨_, ⟨error, _, result⟩ | ⟨html, rendered, result⟩⟩
  · rw [result]
    exact looked
  · rw [result]
    exact looked
  · rw [result]
    have used : url ∈ workload.urls := ⟨(url, data), request, rfl⟩
    have right : RightPage pool workload url html := onePage url data html request rendered
    exact looked.insert ⟨rfl, used, right⟩ (fun _ old => old) ⟨url, used, rfl, right⟩

theorem HoldsRightPages.apply {Json : Type} {json : SerdeJson Json} {engine : SsrEngine}
    (holds : HoldsRightPages hashUrl pool workload engine.cache)
    (onePage : OnePagePerUrl pool workload) {call : Call Json}
    (within : ∀ request, Call.request json call = some request → request ∈ workload) :
    HoldsRightPages hashUrl pool workload (engine.apply hashUrl pool json call).cache := by
  cases call with
  | render lookup store order url =>
      exact holds.renderWithData onePage (within _ rfl) lookup store order
  | renderWithData lookup store order url data =>
      exact holds.renderWithData onePage (within _ rfl) lookup store order
  | renderJson lookup store order url data =>
      exact holds.renderWithData onePage (within _ rfl) lookup store order
  | renderUncached url data => exact holds
  | invalidate url => exact (holds.invalidate url).mono And.right id
  | invalidatePrefix order urlPrefix =>
      exact (holds.invalidatePrefix order urlPrefix).mono And.right id
  | clearCache => exact holds.clear.mono False.elim id

theorem holdsRightPages_after {Json : Type} {json : SerdeJson Json} {config : SsrConfig}
    (onePage : OnePagePerUrl pool workload) {calls : List (Call Json)}
    (within : RequestsWithin json workload calls) :
    HoldsRightPages hashUrl pool workload (after hashUrl pool json config calls).cache := by
  have guarded : Execution.Guarded (SsrEngine.apply hashUrl pool json)
      (fun _ call => call ∈ calls) (new config) calls :=
    fun _ call _ split => by simp [split]
  refine Execution.run_invariant
    (fun _ engine => HoldsRightPages hashUrl pool workload engine.cache)
    (pages_withTtl _ _ _ _) ?_ guarded
  intro _ engine call holds member
  exact holds.apply onePage (within call member)

/-- A cache of right pages answers a request as the pool would. -/
theorem agrees_of_onePagePerUrl {Json : Type} {json : SerdeJson Json} {config : SsrConfig}
    (injective : Set.InjOn hashUrl workload.urls) (onePage : OnePagePerUrl pool workload) :
    Agrees json hashUrl pool config workload := by
  intro calls lookup store order url data within request html
  have holds : HoldsRightPages hashUrl pool workload (after hashUrl pool json config calls).cache :=
    holdsRightPages_after onePage within
  have used : url ∈ workload.urls := ⟨(url, data), request, rfl⟩
  rcases renderWithData_cases hashUrl pool (after hashUrl pool json config calls) lookup store order
    url data with ⟨cached, hit, result⟩ | ⟨_, ⟨error, failed, result⟩ | ⟨page, rendered, result⟩⟩
  · have right : RightPage pool workload url cached := by
      rcases holds.tryGet_some hit with ⟨entry, ⟨source, inUse, sameHash, right⟩, rfl, _⟩ |
        ⟨source, _, ⟨sameHash, inUse, right⟩, _⟩
      · exact injective inUse used sameHash ▸ right
      · exact injective used inUse sameHash ▸ right
    rw [result, renderUncached, right data request]
    rfl
  · rw [result, renderUncached, failed]
    rfl
  · rw [result, renderUncached, rendered]
    rfl

end Runs

/-! ### A pool that serves every request -/

section Serving

variable {Json Value : Type} {json : SerdeJson Json} {runtime : JsRuntime Value}
  {hashUrl : String → UInt64} {config : SsrConfig} {workload : Workload}

theorem mapError_ok_iff {ε ε' : Type} {rename : ε → ε'} {outcome : Except ε String}
    {html : String} : outcome.mapError rename = .ok html ↔ outcome = .ok html := by
  cases outcome <;> simp [Except.mapError]

theorem servingPool_ok_iff {url data html : String} :
    servingPool json runtime config url data = .ok html ↔
      renderHtml json runtime url (some data) config.renderFunction = .ok html :=
  mapError_ok_iff

theorem onePagePerUrl_of_sameData (same : SameData json workload) (runtime : JsRuntime Value)
    (config : SsrConfig) : OnePagePerUrl (servingPool json runtime config) workload := by
  intro url data html request rendered other otherRequest
  rw [servingPool_ok_iff] at rendered ⊢
  obtain ⟨text, valid⟩ := safeData_of_renderHtml rendered
  have otherValid : json.safeData other = some text :=
    same url data other text request otherRequest valid
  rw [renderHtml_of_safeData valid] at rendered
  rw [renderHtml_of_safeData otherValid]
  exact rendered

/-- On a new engine the first page of a URL answers every later call for it. -/
theorem first_page_is_cached (hashUrl : String → UInt64) (json : SerdeJson Json)
    (config : SsrConfig) {pool : RenderPool} {url data html : String}
    (rendered : pool url data = .ok html) (visit : Visit) (order : ScanOrder) (other : String) :
    ((after hashUrl pool json config [.renderWithData visit visit order url data]).renderWithData
      hashUrl pool visit visit order url other).1 = .ok html := by
  have empty : Pages (fun _ _ _ _ => False) (fun _ _ _ _ => False) (new config).cache :=
    pages_withTtl _ _ _ _
  have looked : Pages (fun _ _ _ _ => False) (fun _ _ _ _ => False)
      ((new config).cache.tryGet hashUrl visit.thread url visit.now).2 :=
    empty.tryGet fun page _ _ _ => page
  have stored : (after hashUrl pool json config
      [.renderWithData visit visit order url data]).cache =
        ((new config).cache.tryGet hashUrl visit.thread url visit.now).2.insert hashUrl visit.thread
          order url html visit.now := by
    show ((new config).renderWithData hashUrl pool visit visit order url data).2.cache = _
    rcases renderWithData_cases hashUrl pool (new config) visit visit order url data with
      ⟨_, hit, _⟩ | ⟨_, ⟨_, failed, _⟩ | ⟨page, again, result⟩⟩
    · rcases empty.tryGet_some hit with ⟨_, none, _⟩ | ⟨_, _, none, _⟩ <;> exact none.elim
    · rw [rendered] at failed
      contradiction
    · rw [rendered, Except.ok.injEq] at again
      rw [result, again]
      rfl
  have hit := looked.tryGet_insert hashUrl visit.thread order url html visit.now
  rw [renderWithData, stored, hit]

/-- With a given pool the two paths agree exactly when the requests of one URL
render one page. -/
theorem agrees_iff_onePagePerUrl {pool : RenderPool}
    (injective : Set.InjOn hashUrl workload.urls) :
    Agrees json hashUrl pool config workload ↔ OnePagePerUrl pool workload := by
  constructor
  · intro agree url data html request rendered other otherRequest
    have cached := first_page_is_cached hashUrl json config rendered ⟨0, 0⟩ VisitOrder.stored other
    have within : RequestsWithin json workload
        [.renderWithData ⟨0, 0⟩ ⟨0, 0⟩ VisitOrder.stored url data] :=
      requestsWithin_singleton fun _ called => Option.some.inj called ▸ request
    have uncached := (agree _ ⟨0, 0⟩ ⟨0, 0⟩ VisitOrder.stored url other within otherRequest _).mp
      cached
    rwa [renderUncached, mapError_ok_iff] at uncached
  · exact agrees_of_onePagePerUrl injective

/-- A runtime that answers every script with its text. -/
def echoRuntime : JsRuntime String where
  executeScript := fun _ code => .ok code
  resolveValue := .ok
  fromV8 := .ok

theorem renderHtml_echo {url data renderFunction html : String} :
    renderHtml json echoRuntime url (some data) renderFunction = .ok html ↔
      ∃ text, json.safeData data = some text ∧
        renderCode renderFunction (escapeUrl url) text = html := by
  constructor
  · intro rendered
    obtain ⟨text, valid⟩ := safeData_of_renderHtml rendered
    rw [renderHtml_of_safeData valid] at rendered
    exact ⟨text, valid, Except.ok.inj rendered⟩
  · intro interpolated
    obtain ⟨text, valid, code⟩ := interpolated
    rw [renderHtml_of_safeData valid, ← code]
    rfl

/-- **The cached path agrees with the uncached one, exactly for one JSON text
per URL.** Whatever the render function computes, every call through the cache
has the outcome of `render_uncached` in its place if and only if all data
strings used with one URL stand for the same JSON text, or none of them is
valid. -/
theorem agrees_iff {Json : Type} {json : SerdeJson Json} {hashUrl : String → UInt64}
    {config : SsrConfig} {workload : Workload} (injective : Set.InjOn hashUrl workload.urls) :
    (∀ (Value : Type) (runtime : JsRuntime Value),
        Agrees json hashUrl (servingPool json runtime config) config workload) ↔
      SameData json workload := by
  constructor
  · intro agree url data other text request otherRequest valid
    have onePage : OnePagePerUrl (servingPool json echoRuntime config) workload :=
      (agrees_iff_onePagePerUrl injective).mp (agree String echoRuntime)
    have rendered : servingPool json echoRuntime config url data =
        .ok (renderCode config.renderFunction (escapeUrl url) text) :=
      servingPool_ok_iff.mpr (renderHtml_echo.mpr ⟨text, valid, rfl⟩)
    have sameCode := onePage url data _ request rendered other otherRequest
    rw [servingPool_ok_iff, renderHtml_echo] at sameCode
    obtain ⟨otherText, otherValid, sameCode⟩ := sameCode
    rw [otherValid, renderCode_injective _ _ sameCode]
  · intro same Value runtime
    exact (agrees_iff_onePagePerUrl injective).mpr (onePagePerUrl_of_sameData same runtime config)

end Serving

/-! ### Two concrete workloads -/

/-- A JSON parser that accepts the empty object only, with any blanks. -/
def emptyObjectJson : SerdeJson String where
  fromStr := fun text =>
    if text.toList.filter (fun c => c ≠ ' ') = "\x7b\x7d".toList then .ok "\x7b\x7d"
    else .error "expected value"
  display := id

/-- A render function that returns one page whatever it is given. -/
def pageRuntime : JsRuntime Unit where
  executeScript := fun _ _ => .ok ()
  resolveValue := .ok
  fromV8 := fun _ => .ok "page"

/-- Two URLs, one of them requested with two spellings of the same data. -/
def spellings : Workload :=
  {("/a", "\x7b\x7d"), ("/a", "\x7b \x7d"), ("/b", "\x7b\x7d")}

/-- Requests whose data strings mean the same always get what they would render. -/
theorem agrees_spellings :
    Agrees emptyObjectJson hashOfTwo (servingPool emptyObjectJson echoRuntime smallConfig)
      smallConfig spellings := by
  refine (agrees_iff ?_).mpr ?_ String echoRuntime
  · refine hashOfTwo_injOn.mono ?_
    rintro url ⟨request, rfl | rfl | rfl, rfl⟩ <;> simp [twoUrls]
  · have valid : ∀ request ∈ spellings,
        emptyObjectJson.safeData request.2 = some "\x7b\x7d" := by
      rintro request (rfl | rfl | rfl) <;> rfl
    intro url data other text request otherRequest safe
    exact (valid _ otherRequest).trans ((valid _ request).symm.trans safe)

/-- The page of `/a` answers a later call for `/a` with data that is not JSON. -/
theorem invalid_json_answered :
    ¬ ∀ (Json Value : Type) (json : SerdeJson Json) (runtime : JsRuntime Value)
      (hashUrl : String → UInt64) (config : SsrConfig) (workload : Workload),
      Set.InjOn hashUrl workload.urls →
        Agrees json hashUrl (servingPool json runtime config) config workload := by
  intro agree
  have injective : Set.InjOn (fun _ : String => (0 : UInt64))
      (Workload.urls {("/a", "\x7b\x7d"), ("/a", "not valid json")}) := by
    intro url used other otherUsed _
    simp only [Workload.urls, Set.image_pair, Set.pair_eq_singleton, Set.mem_singleton_iff]
      at used otherUsed
    exact used.trans otherUsed.symm
  have rendered : servingPool emptyObjectJson pageRuntime smallConfig "/a" "\x7b\x7d" =
      .ok "page" := rfl
  have answered := first_page_is_cached (fun _ => 0) emptyObjectJson smallConfig rendered ⟨0, 0⟩
    VisitOrder.stored "not valid json"
  have within : RequestsWithin emptyObjectJson {("/a", "\x7b\x7d"), ("/a", "not valid json")}
      [.renderWithData ⟨0, 0⟩ ⟨0, 0⟩ VisitOrder.stored "/a" "\x7b\x7d"] :=
    requestsWithin_singleton fun _ called => Option.some.inj called ▸ Or.inl rfl
  have uncached := (agree String Unit emptyObjectJson pageRuntime (fun _ => 0) smallConfig
    {("/a", "\x7b\x7d"), ("/a", "not valid json")} injective _ ⟨0, 0⟩ ⟨0, 0⟩ VisitOrder.stored
    "/a" "not valid json" within (Or.inr rfl) "page").mp answered
  rw [renderUncached, mapError_ok_iff, servingPool_ok_iff] at uncached
  obtain ⟨text, valid⟩ := safeData_of_renderHtml uncached
  simp [SerdeJson.safeData, emptyObjectJson, Except.toOption] at valid

end RustySsr.Engine.SsrEngine
