import RustySsr.Cache.Ssr.Pages
import RustySsr.V8Pool.Pool
import RustySsr.V8Pool.Renderer

/-!
Owns the engine of `src/engine.rs`: its configuration and errors, how a failed
pool call maps to them, and its operations on the cache with every call taken
as a whole. The pool is a parameter; `servingPool` is the one that answers each
request with its render. The lookup and the insertion of one call may run on
different threads, since the call awaits its render in between.
-/

namespace RustySsr.Engine

open RustySsr.Cache
open RustySsr.V8Pool
open RustySsr.Foundation

/-- `SsrError`, with the text of an IO error in its place. -/
inductive SsrError where
  | bundleLoad (message : String)
  | v8Init (message : String)
  | jsExecution (message : String)
  | timeout
  | cache (message : String)
  | poolFull
  | config (message : String)
  | io (message : String)
deriving DecidableEq, Repr

/-- `SsrConfig`, with durations in nanoseconds. -/
structure SsrConfig where
  bundlePath : String
  poolSize : Nat
  queueCapacity : Nat
  pinThreads : Bool
  cacheSize : Nat
  cacheTtl : Option Nat
  requestTimeout : Option Nat
  renderFunction : String
deriving DecidableEq, Repr

/-- `Duration::as_secs`. -/
def asSecs (nanos : Nat) : Nat := nanos / 1000000000

/-- The engine. Its pool keeps no result of a call and is given beside it. -/
structure SsrEngine where
  config : SsrConfig
  cache : SsrCache

/-- Where and when a call touches the cache. -/
structure Visit where
  thread : ThreadId
  now : Nat

/-- The pool's `render_with_data`, as a function of the URL and the data. -/
abbrev RenderPool := String → String → Except PoolError String

namespace SsrEngine

/-- The pool configuration in `SsrEngine::new`. -/
def poolConfig (config : SsrConfig) : V8PoolConfig where
  numThreads := config.poolSize
  queueCapacity := config.queueCapacity
  pinThreads := config.pinThreads
  requestTimeout := config.requestTimeout
  renderFunction := config.renderFunction

/-- `SsrEngine::new`, once the bundle is loaded. -/
def new (config : SsrConfig) : SsrEngine where
  config := config
  cache := SsrCache.withTtl config.cacheSize ((config.cacheTtl.map asSecs).getD 0)

def withCache (engine : SsrEngine) (cache : SsrCache) : SsrEngine :=
  { engine with cache := cache }

/-- `map_pool_error`. -/
def mapPoolError : PoolError → SsrError
  | .timeout => .timeout
  | .disconnected => .poolFull
  | .workerCrashed => .jsExecution "V8 worker crashed"
  | .render message => .jsExecution message

/-- A pool that accepts every request at once and whose workers never crash. -/
def servingPool {Json Value : Type} (json : SerdeJson Json) (runtime : JsRuntime Value)
    (config : SsrConfig) : RenderPool := fun url data =>
  (renderHtml json runtime url (some data) (poolConfig config).renderFunction).mapError .render

section Calls

variable (hashUrl : String → UInt64) (pool : RenderPool)

/-- `render_uncached`. -/
def renderUncached (url data : String) : Except SsrError String :=
  (pool url data).mapError mapPoolError

/-- `render_with_data`. -/
def renderWithData (engine : SsrEngine) (lookup store : Visit) (order : ScanOrder)
    (url data : String) : Except SsrError String × SsrEngine :=
  let looked := engine.cache.tryGet hashUrl lookup.thread url lookup.now
  match looked.1 with
  | some cached => (.ok cached, engine.withCache looked.2)
  | none =>
      match (pool url data).mapError mapPoolError with
      | .error error => (.error error, engine.withCache looked.2)
      | .ok html =>
          (.ok html,
            engine.withCache (looked.2.insert hashUrl store.thread order url html store.now))

/-- `render`. -/
def render (engine : SsrEngine) (lookup store : Visit) (order : ScanOrder) (url : String) :
    Except SsrError String × SsrEngine :=
  engine.renderWithData hashUrl pool lookup store order url "\x7b\x7d"

/-- `render_json`. -/
def renderJson {Json : Type} (json : SerdeJson Json) (engine : SsrEngine) (lookup store : Visit)
    (order : ScanOrder) (url : String) (data : Json) : Except SsrError String × SsrEngine :=
  engine.renderWithData hashUrl pool lookup store order url (json.display data)

/-- `invalidate`. -/
def invalidate (engine : SsrEngine) (url : String) : SsrEngine :=
  engine.withCache (engine.cache.invalidate hashUrl url)

/-- `invalidate_prefix`. -/
def invalidatePrefix (engine : SsrEngine) (order : ScanOrder) (urlPrefix : String) :
    Nat × SsrEngine :=
  let removed := engine.cache.invalidatePrefix order urlPrefix
  (removed.1, engine.withCache removed.2)

/-- `clear_cache`. -/
def clearCache (engine : SsrEngine) : SsrEngine := engine.withCache engine.cache.clear

/-- A call on the engine. -/
inductive Call (Json : Type) where
  | render (lookup store : Visit) (order : ScanOrder) (url : String)
  | renderWithData (lookup store : Visit) (order : ScanOrder) (url data : String)
  | renderJson (lookup store : Visit) (order : ScanOrder) (url : String) (data : Json)
  | renderUncached (url data : String)
  | invalidate (url : String)
  | invalidatePrefix (order : ScanOrder) (urlPrefix : String)
  | clearCache

def apply {Json : Type} (json : SerdeJson Json) (engine : SsrEngine) : Call Json → SsrEngine
  | .render lookup store order url => (engine.render hashUrl pool lookup store order url).2
  | .renderWithData lookup store order url data =>
      (engine.renderWithData hashUrl pool lookup store order url data).2
  | .renderJson lookup store order url data =>
      (engine.renderJson hashUrl pool json lookup store order url data).2
  | .renderUncached _ _ => engine
  | .invalidate url => engine.invalidate hashUrl url
  | .invalidatePrefix order urlPrefix => (engine.invalidatePrefix order urlPrefix).2
  | .clearCache => engine.clearCache

/-- The engine after a sequence of calls on a new one. -/
def after {Json : Type} (json : SerdeJson Json) (config : SsrConfig) (calls : List (Call Json)) :
    SsrEngine :=
  Execution.run (apply hashUrl pool json) (new config) calls

end Calls

/-- A small engine for concrete runs. -/
def smallConfig : SsrConfig where
  bundlePath := "ssr-bundle.js"
  poolSize := 1
  queueCapacity := 1
  pinThreads := false
  cacheSize := 1
  cacheTtl := none
  requestTimeout := none
  renderFunction := "renderPage"

/-- Everything a call of `render_with_data` can do: answer from the cache, fail
and store nothing, or render and store the page. -/
theorem renderWithData_cases (hashUrl : String → UInt64) (pool : RenderPool) (engine : SsrEngine)
    (lookup store : Visit) (order : ScanOrder) (url data : String) :
    (∃ cached, (engine.cache.tryGet hashUrl lookup.thread url lookup.now).1 = some cached ∧
        engine.renderWithData hashUrl pool lookup store order url data = (.ok cached,
          engine.withCache (engine.cache.tryGet hashUrl lookup.thread url lookup.now).2)) ∨
      (engine.cache.tryGet hashUrl lookup.thread url lookup.now).1 = none ∧
        ((∃ error, pool url data = .error error ∧
            engine.renderWithData hashUrl pool lookup store order url data =
              (.error (mapPoolError error),
                engine.withCache (engine.cache.tryGet hashUrl lookup.thread url lookup.now).2)) ∨
          ∃ html, pool url data = .ok html ∧
            engine.renderWithData hashUrl pool lookup store order url data = (.ok html,
              engine.withCache ((engine.cache.tryGet hashUrl lookup.thread url lookup.now).2.insert
                hashUrl store.thread order url html store.now))) := by
  unfold renderWithData
  dsimp only
  cases (engine.cache.tryGet hashUrl lookup.thread url lookup.now).1 with
  | some cached => exact Or.inl ⟨cached, rfl, rfl⟩
  | none =>
      cases pool url data with
      | error error => exact Or.inr ⟨rfl, Or.inl ⟨error, rfl, rfl⟩⟩
      | ok html => exact Or.inr ⟨rfl, Or.inr ⟨html, rfl, rfl⟩⟩

end SsrEngine

end RustySsr.Engine
