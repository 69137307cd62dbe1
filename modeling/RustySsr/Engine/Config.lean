import RustySsr.Engine.Model

/-!
Owns the configuration builder of `src/config.rs`: its defaults and the checks
of `build`. The number of CPUs and the `Debug` text of a string are parameters.
-/

namespace RustySsr.Engine

/-- `SsrConfig::default`, with the number of CPUs that the system reports. -/
def SsrConfig.default (cpus : Nat) : SsrConfig where
  bundlePath := "ssr-bundle.js"
  poolSize := cpus
  queueCapacity := 512
  pinThreads := false
  cacheSize := 300
  cacheTtl := some 300000000000
  requestTimeout := some 30000000000
  renderFunction := "renderPage"

/-- `SsrConfigBuilder`; `none` is a field that was not set. -/
structure SsrConfigBuilder where
  bundlePath : Option String
  poolSize : Option Nat
  queueCapacity : Option Nat
  pinThreads : Option Bool
  cacheSize : Option Nat
  cacheTtl : Option (Option Nat)
  requestTimeout : Option (Option Nat)
  renderFunction : Option String
deriving DecidableEq, Repr

/-- `SsrEngine::builder`. -/
def SsrConfigBuilder.default : SsrConfigBuilder :=
  ⟨none, none, none, none, none, none, none, none⟩

/-- The check of a size. -/
def requirePositive (field : String) (value : Nat) : Except SsrError Unit :=
  if value = 0 then .error (.config (field ++ " must be > 0")) else .ok ()

/-- The characters of a render function name. -/
def isNameChar (c : Char) : Bool := c.isAlphanum || c = '_' || c = '.'

/-- The check of the render function. `debug` writes a string for `{:?}`. -/
def requireRenderFunction (debug : String → String) (renderFunction : String) :
    Except SsrError Unit :=
  if renderFunction.isEmpty || !renderFunction.toList.all isNameChar then
    .error (.config ("render_function must be a valid JS identifier, got: " ++
      debug renderFunction))
  else .ok ()

namespace SsrConfigBuilder

/-- The configuration that `build` checks. -/
def resolve (cpus : Nat) (builder : SsrConfigBuilder) : SsrConfig :=
  let default := SsrConfig.default cpus
  { bundlePath := builder.bundlePath.getD default.bundlePath
    poolSize := builder.poolSize.getD default.poolSize
    queueCapacity := builder.queueCapacity.getD default.queueCapacity
    pinThreads := builder.pinThreads.getD default.pinThreads
    cacheSize := builder.cacheSize.getD default.cacheSize
    cacheTtl := builder.cacheTtl.getD default.cacheTtl
    requestTimeout := builder.requestTimeout.getD default.requestTimeout
    renderFunction := builder.renderFunction.getD default.renderFunction }

/-- `build`. -/
def build (debug : String → String) (cpus : Nat) (builder : SsrConfigBuilder) :
    Except SsrError SsrConfig := do
  let config := builder.resolve cpus
  requirePositive "pool_size" config.poolSize
  requirePositive "cache_size" config.cacheSize
  requirePositive "queue_capacity" config.queueCapacity
  requireRenderFunction debug config.renderFunction
  return config

end SsrConfigBuilder

/-- A name of a render function: not empty, and of the allowed characters. -/
def IsRenderFunction (name : String) : Prop :=
  name ≠ "" ∧ ∀ c ∈ name.toList, isNameChar c = true

theorem requirePositive_ok_iff {field : String} {value : Nat} :
    requirePositive field value = .ok () ↔ 0 < value := by
  unfold requirePositive
  split_ifs with zero
  · simp [zero]
  · simp [Nat.pos_of_ne_zero zero]

theorem requireRenderFunction_ok_iff {debug : String → String} {name : String} :
    requireRenderFunction debug name = .ok () ↔ IsRenderFunction name := by
  have accepted : (name.isEmpty || !name.toList.all isNameChar) = false ↔
      IsRenderFunction name := by
    simp [IsRenderFunction]
  rw [← accepted, requireRenderFunction]
  split_ifs with rejected
  · simp [rejected]
  · simpa using rejected

/-- A check before the rest of a computation. -/
theorem check_ok_iff {check : Except SsrError Unit} {rest : Except SsrError SsrConfig}
    {config : SsrConfig} :
    (check >>= fun _ => rest) = .ok config ↔ check = .ok () ∧ rest = .ok config := by
  cases check with
  | error error => simp [bind, Except.bind]
  | ok _ => exact (and_iff_right rfl).symm

/-- What `build` accepts, and what it then returns. -/
theorem build_ok_iff {debug : String → String} {cpus : Nat} {builder : SsrConfigBuilder}
    {config : SsrConfig} :
    builder.build debug cpus = .ok config ↔
      builder.resolve cpus = config ∧ 0 < config.poolSize ∧ 0 < config.cacheSize ∧
        0 < config.queueCapacity ∧ IsRenderFunction config.renderFunction := by
  unfold SsrConfigBuilder.build
  rw [check_ok_iff, check_ok_iff, check_ok_iff, check_ok_iff, requirePositive_ok_iff,
    requirePositive_ok_iff, requirePositive_ok_iff, requireRenderFunction_ok_iff]
  constructor
  · rintro ⟨poolSize, cacheSize, queueCapacity, renderFunction, returned⟩
    obtain rfl := Except.ok.inj returned
    exact ⟨rfl, poolSize, cacheSize, queueCapacity, renderFunction⟩
  · rintro ⟨rfl, poolSize, cacheSize, queueCapacity, renderFunction⟩
    exact ⟨poolSize, cacheSize, queueCapacity, renderFunction, rfl⟩

/-- The default configuration passes its own checks on any machine with a CPU. -/
theorem build_default (debug : String → String) {cpus : Nat} (positive : 0 < cpus) :
    SsrConfigBuilder.default.build debug cpus = .ok (SsrConfig.default cpus) := by
  have name : IsRenderFunction "renderPage" := ⟨by decide, List.all_eq_true.mp (by decide)⟩
  exact build_ok_iff.mpr ⟨rfl, positive, Nat.succ_pos 299, Nat.succ_pos 511, name⟩

end RustySsr.Engine
