import RustySsr.Cache.Ssr.Pages

/-!
Owns what a run keeps of the hot caches' headers: every tier has the
time-to-live of the cache, and no hot cache is ahead of the generation counter
while the counter has not wrapped around. It also owns the bound on the counter
by the number of invalidations and clears.
-/

namespace RustySsr.Cache.SsrCache

open RustySsr.Platform
open RustySsr.Foundation

/-- A property of the generation and time-to-live of every hot cache. -/
def HotAll (Q : UInt64 → Option Nat → Prop) (cache : SsrCache) : Prop :=
  ∀ thread state, cache.hotCache thread = some state → Q state.generation state.cache.ttl

section Steps

variable {Q : UInt64 → Option Nat → Prop} {cache : SsrCache}

theorem HotAll.getOrInitHotCache (all : HotAll Q cache)
    (fresh : Q cache.generation (ttlOfSecs cache.ttlSecs))
    (resync : ∀ generation ttl, Q generation ttl → Q cache.generation ttl) (thread : ThreadId) :
    HotAll Q (cache.getOrInitHotCache thread) := by
  intro other state present
  by_cases same : other = thread
  · subst same
    rw [getOrInitHotCache_self, Option.some.injEq] at present
    subst present
    unfold syncedHot
    split
    · exact fresh
    · rename_i old oldPresent
      split_ifs
      · exact resync _ _ (all other old oldPresent)
      · exact all other old oldPresent
  · rw [getOrInitHotCache_other cache same] at present
    exact all other state present

theorem HotAll.insertHot (all : HotAll Q cache) (thread : ThreadId) (urlHash : UInt64)
    (html : String) (now : Nat) : HotAll Q (cache.insertHot thread urlHash html now) := by
  intro other state present
  by_cases same : other = thread
  · subst same
    simp only [SsrCache.insertHot, Function.update_self, Option.map_eq_some_iff] at present
    obtain ⟨old, oldPresent, stateEq⟩ := present
    subst stateEq
    simpa using all other old oldPresent
  · simp only [SsrCache.insertHot, Function.update_of_ne same] at present
    exact all other state present

theorem HotAll.withCold (all : HotAll Q cache) (cold : ColdCache) :
    HotAll Q (cache.withCold cold) := all

theorem HotAll.count (all : HotAll Q cache) (change : CacheMetricsInner → CacheMetricsInner) :
    HotAll Q (cache.count change) := all

theorem HotAll.beginLookup (all : HotAll Q cache)
    (fresh : Q cache.generation (ttlOfSecs cache.ttlSecs))
    (resync : ∀ generation ttl, Q generation ttl → Q cache.generation ttl) (thread : ThreadId) :
    HotAll Q (cache.beginLookup thread) :=
  (all.count _).getOrInitHotCache fresh resync thread

/-- An event keeps a header property that new and synchronised hot caches have. -/
theorem HotAll.apply {hashUrl : String → UInt64} (all : HotAll Q cache)
    (fresh : Q cache.generation (ttlOfSecs cache.ttlSecs))
    (resync : ∀ generation ttl, Q generation ttl → Q cache.generation ttl) (event : Event) :
    HotAll Q (cache.apply hashUrl event) := by
  obtain ⟨now, op⟩ := event
  cases op with
  | tryGet thread url =>
      have synced : HotAll Q (cache.beginLookup thread) := all.beginLookup fresh resync thread
      show HotAll Q (cache.tryGet hashUrl thread url now).2
      rcases tryGet_cases hashUrl cache thread url now with
        ⟨html, _, result⟩ | ⟨_, ⟨html, _, result⟩ | ⟨_, result⟩⟩
      · rw [result]
        exact synced
      · rw [result]
        exact (synced.withCold _).insertHot thread _ html now
      · rw [result]
        exact synced
  | insert thread order url html =>
      show HotAll Q (cache.insert hashUrl thread order url html now)
      unfold SsrCache.insert
      refine HotAll.insertHot (HotAll.getOrInitHotCache ?_ fresh resync thread) thread _ html now
      exact all
  | invalidate url =>
      show HotAll Q (cache.invalidate hashUrl url)
      unfold invalidate
      dsimp only
      split_ifs <;> exact all
  | invalidatePrefix order urlPrefix =>
      show HotAll Q (cache.invalidatePrefix order urlPrefix).2
      unfold invalidatePrefix
      dsimp only
      split_ifs <;> exact all
  | clear => exact all

end Steps

/-! ### The generation counter -/

/-- The operation may advance the generation counter. -/
def Event.mayBump (event : Event) : Bool :=
  match event.op with
  | .invalidate _ => true
  | .invalidatePrefix _ _ => true
  | .clear => true
  | _ => false

/-- An upper bound on the generation bumps of a run. -/
def bumps (events : List Event) : Nat := events.countP Event.mayBump

theorem bumps_append (first second : List Event) :
    bumps (first ++ second) = bumps first + bumps second :=
  List.countP_append

theorem bumps_replicate_insert (count now : Nat) (thread : ThreadId) (order : ScanOrder)
    (url html : String) :
    bumps (List.replicate count ⟨now, .insert thread order url html⟩) = 0 := by
  simp [bumps, List.countP_replicate, Event.mayBump]

theorem bumps_singleton (event : Event) : bumps [event] = if event.mayBump then 1 else 0 := by
  simp [bumps, List.countP_cons]

section Runs

variable {hashUrl : String → UInt64} {cache : SsrCache}

theorem invalidate_generation (hashUrl : String → UInt64) (cache : SsrCache) (url : String) :
    (cache.invalidate hashUrl url).generation =
      if (cache.coldCache.remove (hashUrl url)).1 then cache.generation + 1
      else cache.generation := by
  unfold invalidate
  dsimp only
  split_ifs <;> rfl

theorem invalidatePrefix_generation (cache : SsrCache) (order : ScanOrder) (urlPrefix : String) :
    (cache.invalidatePrefix order urlPrefix).2.generation =
      if 0 < (cache.coldCache.removeByPrefix order urlPrefix).1 then cache.generation + 1
      else cache.generation := by
  unfold invalidatePrefix
  dsimp only
  split_ifs <;> rfl

/-- An event keeps the generation, or is an invalidation or clear that adds one. -/
theorem apply_generation (hashUrl : String → UInt64) (cache : SsrCache) (event : Event) :
    (cache.apply hashUrl event).generation = cache.generation ∨
      (event.mayBump = true ∧ (cache.apply hashUrl event).generation = cache.generation + 1) := by
  obtain ⟨now, op⟩ := event
  cases op with
  | tryGet thread url =>
      left
      show (cache.tryGet hashUrl thread url now).2.generation = cache.generation
      rcases tryGet_cases hashUrl cache thread url now with
        ⟨html, _, result⟩ | ⟨_, ⟨html, _, result⟩ | ⟨_, result⟩⟩ <;>
        rw [result] <;> rfl
  | insert thread order url html => exact Or.inl rfl
  | invalidate url =>
      have bumped := invalidate_generation hashUrl cache url
      split_ifs at bumped
      · exact Or.inr ⟨rfl, bumped⟩
      · exact Or.inl bumped
  | invalidatePrefix order urlPrefix =>
      have bumped := invalidatePrefix_generation cache order urlPrefix
      split_ifs at bumped
      · exact Or.inr ⟨rfl, bumped⟩
      · exact Or.inl bumped
  | clear => exact Or.inr ⟨rfl, rfl⟩

theorem toNat_add_one {generation : UInt64} (room : generation.toNat + 1 < 2 ^ 64) :
    (generation + 1).toNat = generation.toNat + 1 := by
  rw [UInt64.toNat_add]
  exact Nat.mod_eq_of_lt room

theorem toNat_add_one_le (generation : UInt64) :
    (generation + 1).toNat ≤ generation.toNat + 1 := by
  rw [UInt64.toNat_add]
  exact Nat.mod_le _ _

/-- The counter never exceeds the number of invalidations and clears. -/
theorem run_generation_le (hashUrl : String → UInt64) (cache : SsrCache) (events : List Event) :
    (Execution.run (apply hashUrl) cache events).generation.toNat ≤
      cache.generation.toNat + bumps events := by
  refine Execution.run_invariant_always (fun history (current : SsrCache) =>
    current.generation.toNat ≤ cache.generation.toNat + bumps history) (Nat.le_refl _) ?_
  intro history current event bounded
  rw [bumps_append, bumps_singleton]
  rcases apply_generation hashUrl current event with same | ⟨bumping, bumped⟩
  · rw [same]
    omega
  · rw [bumped, if_pos bumping]
    have := toNat_add_one_le current.generation
    omega

/-- While it has room for the bumps of the run, the counter never decreases and
no hot cache is ahead of it. -/
theorem run_generation_mono {events : List Event}
    (room : cache.generation.toNat + bumps events < 2 ^ 64)
    (behind : HotAll (fun generation _ => generation.toNat ≤ cache.generation.toNat) cache) :
    cache.generation.toNat ≤ (Execution.run (apply hashUrl) cache events).generation.toNat ∧
      HotAll (fun generation _ => generation.toNat ≤
          (Execution.run (apply hashUrl) cache events).generation.toNat)
        (Execution.run (apply hashUrl) cache events) := by
  induction events using List.reverseRecOn with
  | nil => exact ⟨Nat.le_refl _, behind⟩
  | append_singleton events event inductionHypothesis =>
      rw [bumps_append] at room
      obtain ⟨grown, behindNow⟩ := inductionHypothesis (by omega)
      have below := run_generation_le hashUrl cache events
      rw [Execution.run_snoc]
      set current := Execution.run (apply hashUrl) cache events
      have forward : current.generation.toNat ≤ (current.apply hashUrl event).generation.toNat := by
        rcases apply_generation hashUrl current event with same | ⟨bumping, bumped⟩
        · rw [same]
        · rw [bumps_singleton, if_pos bumping] at room
          rw [bumped, toNat_add_one (by omega)]
          omega
      refine ⟨Nat.le_trans grown forward, ?_⟩
      exact HotAll.apply (fun thread state present =>
        Nat.le_trans (behindNow thread state present) forward) forward (fun _ _ _ => forward) event

theorem apply_ttlSecs (hashUrl : String → UInt64) (cache : SsrCache) (event : Event) :
    (cache.apply hashUrl event).ttlSecs = cache.ttlSecs := by
  obtain ⟨now, op⟩ := event
  cases op with
  | tryGet thread url =>
      show (cache.tryGet hashUrl thread url now).2.ttlSecs = cache.ttlSecs
      rcases tryGet_cases hashUrl cache thread url now with
        ⟨html, _, result⟩ | ⟨_, ⟨html, _, result⟩ | ⟨_, result⟩⟩ <;>
        rw [result] <;> rfl
  | insert thread order url html => rfl
  | invalidate url =>
      show (cache.invalidate hashUrl url).ttlSecs = _
      unfold invalidate
      dsimp only
      split_ifs <;> rfl
  | invalidatePrefix order urlPrefix =>
      show (cache.invalidatePrefix order urlPrefix).2.ttlSecs = _
      unfold invalidatePrefix
      dsimp only
      split_ifs <;> rfl
  | clear => rfl

theorem apply_coldTtl (hashUrl : String → UInt64) (cache : SsrCache) (event : Event) :
    (cache.apply hashUrl event).coldCache.ttl = cache.coldCache.ttl := by
  obtain ⟨now, op⟩ := event
  cases op with
  | tryGet thread url =>
      show (cache.tryGet hashUrl thread url now).2.coldCache.ttl = cache.coldCache.ttl
      rcases tryGet_cases hashUrl cache thread url now with
        ⟨html, _, result⟩ | ⟨_, ⟨html, _, result⟩ | ⟨_, result⟩⟩ <;>
        rw [result]
      · rfl
      · exact ColdCache.get_ttl _ _ _
      · exact ColdCache.get_ttl _ _ _
  | insert thread order url html => exact ColdCache.insert_ttl _ _ _ _ _ _
  | invalidate url =>
      show (cache.invalidate hashUrl url).coldCache.ttl = _
      unfold invalidate
      dsimp only
      split_ifs <;> rfl
  | invalidatePrefix order urlPrefix =>
      show (cache.invalidatePrefix order urlPrefix).2.coldCache.ttl = _
      unfold invalidatePrefix
      dsimp only
      split_ifs <;> rfl
  | clear => rfl

end Runs

/-! ### Runs from a new cache -/

/-- Every tier tests the time-to-live that the cache was created with. -/
structure SameTtl (ttlSecs : Nat) (cache : SsrCache) : Prop where
  secs : cache.ttlSecs = ttlSecs
  cold : cache.coldCache.ttl = ttlOfSecs ttlSecs
  hot : HotAll (fun _ ttl => ttl = ttlOfSecs ttlSecs) cache

theorem SameTtl.apply {hashUrl : String → UInt64} {ttlSecs : Nat} {cache : SsrCache}
    (same : SameTtl ttlSecs cache) (event : Event) :
    SameTtl ttlSecs (cache.apply hashUrl event) where
  secs := (apply_ttlSecs hashUrl cache event).trans same.secs
  cold := (apply_coldTtl hashUrl cache event).trans same.cold
  hot := same.hot.apply (by rw [same.secs]) (fun _ _ ttlEq => ttlEq) event

theorem sameTtl_withTtl (maxColdEntries ttlSecs : Nat) :
    SameTtl ttlSecs (withTtl maxColdEntries ttlSecs) where
  secs := rfl
  cold := rfl
  hot := fun thread state absent => by simp [withTtl] at absent

theorem SameTtl.run {hashUrl : String → UInt64} {ttlSecs : Nat} {cache : SsrCache}
    (same : SameTtl ttlSecs cache) (events : List Event) :
    SameTtl ttlSecs (Execution.run (SsrCache.apply hashUrl) cache events) :=
  Execution.run_invariant_always (fun _ current => SameTtl ttlSecs current) same
    fun _ _ event holds => holds.apply event

theorem sameTtl_after (hashUrl : String → UInt64) (maxColdEntries ttlSecs : Nat)
    (events : List Event) : SameTtl ttlSecs (after hashUrl maxColdEntries ttlSecs events) :=
  (sameTtl_withTtl maxColdEntries ttlSecs).run events

/-- The time-to-live of a synchronised hot cache. -/
theorem SameTtl.syncedHot {ttlSecs : Nat} {cache : SsrCache} (same : SameTtl ttlSecs cache)
    (thread : ThreadId) : (cache.syncedHot thread).cache.ttl = ttlOfSecs ttlSecs := by
  have all := same.hot.getOrInitHotCache (by rw [same.secs]) (fun _ _ ttlEq => ttlEq) thread
  exact all thread _ (getOrInitHotCache_self cache thread)

theorem after_generation_le (hashUrl : String → UInt64) (maxColdEntries ttlSecs : Nat)
    (events : List Event) :
    (after hashUrl maxColdEntries ttlSecs events).generation.toNat ≤ bumps events := by
  have counted := run_generation_le hashUrl (withTtl maxColdEntries ttlSecs) events
  have start : (withTtl maxColdEntries ttlSecs).generation.toNat = 0 := rfl
  rw [start, Nat.zero_add] at counted
  exact counted

/-- After fewer than `2 ^ 64` bumps no hot cache is ahead of the counter. -/
theorem after_behind (hashUrl : String → UInt64) (maxColdEntries ttlSecs : Nat)
    {events : List Event} (room : bumps events < 2 ^ 64) :
    HotAll (fun generation _ => generation.toNat ≤
        (after hashUrl maxColdEntries ttlSecs events).generation.toNat)
      (after hashUrl maxColdEntries ttlSecs events) := by
  refine (run_generation_mono ?_ ?_).2
  · simpa [withTtl] using room
  · exact fun thread state absent => by simp [withTtl] at absent

theorem after_append (hashUrl : String → UInt64) (maxColdEntries ttlSecs : Nat)
    (first second : List Event) :
    after hashUrl maxColdEntries ttlSecs (first ++ second) =
      Execution.run (apply hashUrl) (after hashUrl maxColdEntries ttlSecs first) second :=
  Execution.run_append _ _ _ _

/-- The counter does not decrease while it has room. -/
theorem after_generation_mono (hashUrl : String → UInt64) (maxColdEntries ttlSecs : Nat)
    {first second : List Event} (room : bumps (first ++ second) < 2 ^ 64) :
    (after hashUrl maxColdEntries ttlSecs first).generation.toNat ≤
      (after hashUrl maxColdEntries ttlSecs (first ++ second)).generation.toNat := by
  rw [bumps_append] at room
  have below := after_generation_le hashUrl maxColdEntries ttlSecs first
  rw [after_append]
  exact (run_generation_mono (by omega) (after_behind hashUrl _ _ (by omega))).1

end RustySsr.Cache.SsrCache
