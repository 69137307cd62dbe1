import RustySsr.Cache.Ssr.Generation
import RustySsr.Cache.Ssr.Provenance
import RustySsr.Engine.Config

/-!
Owns what becomes of the configured time-to-live. `SsrEngine::new` cuts it to
whole seconds, and both tiers read zero seconds as no expiration, so a
time-to-live below one second turns into none at all. `respectsTtl_iff` states
that every other one is respected by both tiers in every run.
-/

namespace RustySsr.Cache.HotCache

/-- The entry that a lookup of the key reaches, expired or not. -/
def reached (cache : HotCache) (key : UInt64) : Option HotEntry :=
  (cache.firstUltraHot key).or (cache.hotMap.lookup key)

variable {cache : HotCache} {key : UInt64} {entry : HotEntry}

theorem peek_of_reached (found : cache.reached key = some entry) (now : Nat) :
    cache.peek key now = if cache.isExpired entry now then none else some entry.html := by
  unfold reached at found
  unfold peek
  cases first : cache.firstUltraHot key with
  | some ringEntry =>
      rw [first, Option.some_or, Option.some.injEq] at found
      subst found
      rfl
  | none =>
      rw [first, Option.none_or] at found
      rw [found]

theorem get_answer (cache : HotCache) (key : UInt64) (now : Nat) :
    (cache.get key now).1 = cache.peek key now := by
  unfold get peek
  cases cache.firstUltraHot key with
  | some entry =>
      dsimp only
      split_ifs <;> rfl
  | none =>
      cases cache.hotMap.lookup key with
      | none => rfl
      | some entry =>
          dsimp only
          split_ifs <;> rfl

end RustySsr.Cache.HotCache

namespace RustySsr.Engine

open RustySsr.Cache
open RustySsr.Platform
open RustySsr.Foundation

namespace SsrConfigBuilder

/-- `cache_ttl`. -/
def setCacheTtl (builder : SsrConfigBuilder) (ttl : Option Nat) : SsrConfigBuilder :=
  { builder with cacheTtl := some ttl }

/-- `build` accepts every time-to-live. -/
theorem build_setCacheTtl {debug : String → String} {cpus : Nat} {builder : SsrConfigBuilder}
    {config : SsrConfig} (built : builder.build debug cpus = .ok config) (ttl : Option Nat) :
    (builder.setCacheTtl ttl).build debug cpus = .ok { config with cacheTtl := ttl } := by
  obtain ⟨resolved, checks⟩ := build_ok_iff.mp built
  subst resolved
  exact build_ok_iff.mpr ⟨rfl, checks⟩

end SsrConfigBuilder

/-! ### One entry -/

/-- The answers of a tier to lookups that reach an entry respect the configured
time-to-live: without one the entry is always returned, and with a positive one
it is not returned once it is older. -/
def Respects (cacheTtl : Option Nat) (createdAt : Nat) (html : String)
    (answer : Nat → Option String) : Prop :=
  match cacheTtl with
  | none => ∀ now, answer now = some html
  | some ttl => 0 < ttl → ∀ now, createdAt + ttl < now → answer now = none

/-- The time-to-live is absent, zero, or at least one second. -/
def WholeSecond (cacheTtl : Option Nat) : Prop :=
  ∀ ttl, cacheTtl = some ttl → 0 < ttl → 1000000000 ≤ ttl

/-- The seconds that `SsrEngine::new` hands to both tiers. -/
def tierSecs (cacheTtl : Option Nat) : Nat := (cacheTtl.map asSecs).getD 0

theorem tierSecs_pos {ttl : Nat} (second : 1000000000 ≤ ttl) : 0 < tierSecs (some ttl) :=
  Nat.div_pos second (by decide)

theorem fromSecs_tierSecs_le (ttl : Nat) : fromSecs (tierSecs (some ttl)) ≤ ttl :=
  Nat.div_mul_le_self ttl 1000000000

/-- A tier that tests the seconds it is given respects the time-to-live. -/
theorem respects_of_wholeSecond {cacheTtl : Option Nat} (whole : WholeSecond cacheTtl)
    {createdAt : Nat} {html : String} {answer : Nat → Option String}
    (tested : ∀ now, answer now =
      if outlived (ttlOfSecs (tierSecs cacheTtl)) createdAt now then none else some html) :
    Respects cacheTtl createdAt html answer := by
  cases cacheTtl with
  | none => exact tested
  | some ttl =>
      intro positive now older
      have secs := tierSecs_pos (whole ttl rfl positive)
      have shorter := fromSecs_tierSecs_le ttl
      have expired : outlived (ttlOfSecs (tierSecs (some ttl))) createdAt now = true := by
        rw [ttlOfSecs_pos secs, outlived_some_iff]
        omega
      rw [tested, expired]
      rfl

/-! ### Both tiers in every run -/

/-- After any operations on the engine's cache, both tiers respect the
configured time-to-live. -/
def RespectsTtl (hashUrl : String → UInt64) (config : SsrConfig) : Prop :=
  ∀ events, let cache := Execution.run (SsrCache.apply hashUrl) (SsrEngine.new config).cache events
    (∀ key entry, cache.coldCache.cache.lookup key = some entry →
      Respects config.cacheTtl entry.createdAt entry.html fun now =>
        (cache.coldCache.get key now).1) ∧
    ∀ thread state, cache.hotCache thread = some state →
      ∀ key entry, state.cache.reached key = some entry →
        (Respects config.cacheTtl entry.createdAt entry.html fun now => state.cache.peek key now) ∧
        Respects config.cacheTtl entry.createdAt entry.html fun now => (state.cache.get key now).1

theorem respectsTtl_of_wholeSecond (hashUrl : String → UInt64) {config : SsrConfig}
    (whole : WholeSecond config.cacheTtl) : RespectsTtl hashUrl config := by
  intro events cache
  have same : SsrCache.SameTtl (tierSecs config.cacheTtl) cache :=
    (SsrCache.sameTtl_withTtl config.cacheSize (tierSecs config.cacheTtl)).run events
  constructor
  · intro key entry found
    refine respects_of_wholeSecond whole fun now => ?_
    rw [← same.cold, ColdCache.get, found]
    dsimp only
    split_ifs <;> rfl
  · intro thread state present key entry found
    have peeked (now : Nat) : state.cache.peek key now =
        if outlived (ttlOfSecs (tierSecs config.cacheTtl)) entry.createdAt now then none
        else some entry.html := by
      rw [HotCache.peek_of_reached found, HotCache.isExpired, same.hot thread state present]
    refine ⟨respects_of_wholeSecond whole peeked, respects_of_wholeSecond whole fun now => ?_⟩
    exact (HotCache.get_answer state.cache key now).trans (peeked now)

/-- An entry stored under a time-to-live below one second stays forever. -/
theorem wholeSecond_of_respectsTtl {hashUrl : String → UInt64} {config : SsrConfig}
    (respects : RespectsTtl hashUrl config) : WholeSecond config.cacheTtl := by
  intro ttl configured positive
  by_contra short
  have noSecs : tierSecs config.cacheTtl = 0 := by
    rw [configured]
    exact Nat.div_eq_of_lt (Nat.lt_of_not_le short)
  set cache := Execution.run (SsrCache.apply hashUrl) (SsrEngine.new config).cache
    [⟨0, .insert 0 VisitOrder.stored "/" ""⟩]
  have same : SsrCache.SameTtl (tierSecs config.cacheTtl) cache :=
    (SsrCache.sameTtl_withTtl config.cacheSize (tierSecs config.cacheTtl)).run _
  have found : cache.coldCache.cache.lookup (hashUrl "/") = some ⟨"/", "", 0, 0⟩ :=
    ColdCache.insert_lookup_iff.mpr (Or.inl ⟨rfl, rfl⟩)
  have returned : (cache.coldCache.get (hashUrl "/") (ttl + 1)).1 = some "" := by
    rw [ColdCache.get, found, same.cold, noSecs]
    rfl
  have stops := (respects [⟨0, .insert 0 VisitOrder.stored "/" ""⟩]).1 (hashUrl "/") _ found
  rw [configured] at stops
  have older : 0 + ttl < ttl + 1 := by omega
  have absent := stops positive (ttl + 1) older
  exact absurd (returned.symm.trans absent) (Option.some_ne_none _)

/-- **Both tiers respect the configured time-to-live in every run, exactly if it
is not shorter than one second.** -/
theorem respectsTtl_iff (hashUrl : String → UInt64) (config : SsrConfig) :
    RespectsTtl hashUrl config ↔
      ∀ ttl, config.cacheTtl = some ttl → 0 < ttl → 1000000000 ≤ ttl :=
  ⟨wholeSecond_of_respectsTtl, respectsTtl_of_wholeSecond hashUrl⟩

/-- Half a second is accepted by `build` and read as no expiration: a page
stored at the start is still returned ten seconds later. -/
theorem half_second_never_expires :
    ¬ ∀ hashUrl debug cpus ttl builder config,
      (SsrConfigBuilder.setCacheTtl builder ttl).build debug cpus = .ok config →
        RespectsTtl hashUrl config := by
  intro respects
  have built := SsrConfigBuilder.build_setCacheTtl (build_default id (Nat.succ_pos 0))
    (some 500000000)
  have stops := (respects SsrCache.hashOfTwo id 1 (some 500000000) .default _ built
    [⟨0, .insert 0 VisitOrder.stored "/a" "page"⟩]).1 1 ⟨"/a", "page", 0, 0⟩ (by decide)
  have absent := stops (by decide) 10000000000 (by decide)
  revert absent
  decide

end RustySsr.Engine
