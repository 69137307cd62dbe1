import RustySsr.Cache.Ssr.Provenance

/-!
Owns what an invalidation guarantees. The generation counter moves only when
the cold cache finds something to remove, so an invalidation reaches the hot
caches exactly when that happens or when none of them exposes a copy of the
URL that is still within its time. It does not own interleaved invalidations.
-/

namespace RustySsr.Cache.SsrCache

open RustySsr.Platform
open RustySsr.Foundation

/-- The event invalidates this URL, by itself or by a prefix. -/
def Event.Invalidates (event : Event) (url : String) : Prop :=
  event.op = .invalidate url ∨
    ∃ order urlPrefix, event.op = .invalidatePrefix order urlPrefix ∧
      startsWith url urlPrefix = true

/-- The cold cache holds an entry that the invalidation removes. -/
def FindsPage (hashUrl : String → UInt64) (cache : SsrCache) (event : Event) : Prop :=
  match event.op with
  | .invalidate url => ∃ entry, cache.coldCache.cache.lookup (hashUrl url) = some entry
  | .invalidatePrefix _ urlPrefix => ∃ key entry,
      cache.coldCache.cache.lookup key = some entry ∧ startsWith entry.url urlPrefix = true
  | _ => False

/-- Every copy of the URL that a hot cache exposes has outlived its time. -/
def NoLiveCopy (hashUrl : String → UInt64) (cache : SsrCache) (url : String) (now : Nat) : Prop :=
  ∀ thread entry, (cache.syncedHot thread).cache.Exposes (hashUrl url) entry →
    outlived (cache.syncedHot thread).cache.ttl entry.createdAt now = true

/-- The invalidation has a cold entry to remove, or no hot copy to reach. -/
def Reaches (hashUrl : String → UInt64) (cache : SsrCache) (event : Event) (url : String) : Prop :=
  FindsPage hashUrl cache event ∨ NoLiveCopy hashUrl cache url event.now

/-- After the run, no thread is answered for the URL until it is inserted again. -/
def StaysInvalid (hashUrl : String → UInt64) (urls : Set String) (maxColdEntries ttlSecs : Nat)
    (events : List Event) (url : String) (since : Nat) : Prop :=
  ∀ later thread now, InsertsWithin urls later → (∀ html, ¬ Inserted later url html) →
    bumps (events ++ later) < 2 ^ 64 → since ≤ now →
      ((after hashUrl maxColdEntries ttlSecs (events ++ later)).tryGet hashUrl thread url now).1 =
        none

section Effect

variable {hashUrl : String → UInt64} {cache : SsrCache} {event : Event} {url : String}

/-- An invalidation that finds a page advances the generation counter. -/
theorem apply_generation_of_findsPage (finds : FindsPage hashUrl cache event) :
    (cache.apply hashUrl event).generation = cache.generation + 1 := by
  obtain ⟨now, op⟩ := event
  cases op with
  | tryGet thread url => exact finds.elim
  | insert thread order url html => exact finds.elim
  | invalidate url =>
      obtain ⟨entry, found⟩ := finds
      have removed : (cache.coldCache.remove (hashUrl url)).1 = true := by
        simp [ColdCache.remove, found]
      exact (invalidate_generation hashUrl cache url).trans (if_pos removed)
  | invalidatePrefix order urlPrefix =>
      obtain ⟨key, entry, found, matched⟩ := finds
      have member : key ∈ cache.coldCache.keysWithPrefix order urlPrefix :=
        ColdCache.mem_keysWithPrefix_iff.mpr ⟨entry, found, matched⟩
      have removed : 0 < (cache.coldCache.removeByPrefix order urlPrefix).1 :=
        List.length_pos_of_mem member
      exact (invalidatePrefix_generation cache order urlPrefix).trans (if_pos removed)
  | clear => exact finds.elim

/-- An invalidation that finds no page leaves the hot caches and the counter. -/
theorem apply_syncedHot_of_not_findsPage (invalidates : event.Invalidates url)
    (findsNone : ¬ FindsPage hashUrl cache event) (thread : ThreadId) :
    (cache.apply hashUrl event).syncedHot thread = cache.syncedHot thread := by
  obtain ⟨now, op⟩ := event
  rcases invalidates with rfl | ⟨order, urlPrefix, rfl, _⟩
  · have absent : ¬ (cache.coldCache.remove (hashUrl url)).1 = true := by
      rw [ColdCache.remove, Option.isSome_iff_exists]
      exact findsNone
    show (cache.invalidate hashUrl url).syncedHot thread = _
    rw [SsrCache.invalidate, if_neg absent]
    rfl
  · have absent : ¬ 0 < (cache.coldCache.removeByPrefix order urlPrefix).1 := by
      intro removed
      obtain ⟨key, member⟩ := List.exists_mem_of_length_pos removed
      obtain ⟨entry, found, matched⟩ := ColdCache.mem_keysWithPrefix_iff.mp member
      exact findsNone ⟨key, entry, found, matched⟩
    show (cache.invalidatePrefix order urlPrefix).2.syncedHot thread = _
    rw [SsrCache.invalidatePrefix, if_neg absent]
    rfl

/-- After an invalidation that reaches every hot copy, the current generation
exposes only copies that have outlived their time. -/
theorem outlived_of_reaches {ttlSecs : Nat} {thread : ThreadId} {state : HotCacheState}
    {entry : HotEntry}
    (behind : HotAll (fun generation _ => generation.toNat ≤ cache.generation.toNat) cache)
    (same : SameTtl ttlSecs cache) (room : cache.generation.toNat + 1 < 2 ^ 64)
    (reaches : Reaches hashUrl cache event url) (present : cache.hotCache thread = some state)
    (exposed : state.cache.Exposes (hashUrl url) entry)
    (newer : (cache.apply hashUrl event).generation.toNat ≤ state.generation.toNat) :
    outlived (ttlOfSecs ttlSecs) entry.createdAt event.now = true := by
  have notAhead := behind thread state present
  rcases reaches with finds | noLiveCopy
  · rw [apply_generation_of_findsPage finds, toNat_add_one room] at newer
    omega
  · have current : state.generation = cache.generation := by
      rcases apply_generation hashUrl cache event with kept | ⟨_, bumped⟩
      · rw [kept] at newer
        exact UInt64.toNat_inj.mp (by omega)
      · rw [bumped, toNat_add_one room] at newer
        omega
    rw [← same.syncedHot thread]
    refine noLiveCopy thread entry ?_
    rw [syncedHot_of_current present current]
    exact exposed

theorem Event.Invalidates.mayBump (invalidates : event.Invalidates url) :
    event.mayBump = true := by
  rcases invalidates with op | ⟨_, _, op, _⟩ <;> simp [Event.mayBump, op]

end Effect

/-! ### What the run keeps after the invalidation -/

/-- No cold page is left under the key of the URL, and every hot entry under it
that the current generation can still reach has outlived its time. -/
abbrev Forgotten (hashUrl : String → UInt64) (url : String) (generation : Nat) (ttl : Option Nat)
    (since : Nat) (cache : SsrCache) : Prop :=
  Pages (fun key _ _ _ => key ≠ hashUrl url)
    (fun _ hotGeneration key entry => generation ≤ hotGeneration.toNat → key = hashUrl url →
      outlived ttl entry.createdAt since = true) cache

section Run

variable {hashUrl : String → UInt64} {urls : Set String} {maxColdEntries ttlSecs : Nat}
  {earlier : List Event} {invalidation : Event} {url : String}

/-- An invalidation that reaches every hot copy leaves the URL forgotten. -/
theorem forgotten_of_reaches (injective : Set.InjOn hashUrl urls)
    (within : InsertsWithin urls earlier) (target : url ∈ urls)
    (room : bumps (earlier ++ [invalidation]) < 2 ^ 64) (invalidates : invalidation.Invalidates url)
    (reaches : Reaches hashUrl (after hashUrl maxColdEntries ttlSecs earlier) invalidation url) :
    Forgotten hashUrl url
      (after hashUrl maxColdEntries ttlSecs (earlier ++ [invalidation])).generation.toNat
      (ttlOfSecs ttlSecs) invalidation.now
      (after hashUrl maxColdEntries ttlSecs (earlier ++ [invalidation])) := by
  rw [bumps_append, bumps_singleton, invalidates.mayBump, if_pos rfl] at room
  have behind := after_behind hashUrl maxColdEntries ttlSecs (Nat.lt_of_add_right_lt room)
  have same := sameTtl_after hashUrl maxColdEntries ttlSecs earlier
  have counted := after_generation_le hashUrl maxColdEntries ttlSecs earlier
  have snoc : after hashUrl maxColdEntries ttlSecs (earlier ++ [invalidation]) =
      (after hashUrl maxColdEntries ttlSecs earlier).apply hashUrl invalidation :=
    Execution.run_snoc _ _ _ _
  rw [snoc]
  set before := after hashUrl maxColdEntries ttlSecs earlier
  have pages : Pages (fun key pageUrl _ _ => key = hashUrl pageUrl ∧ pageUrl ∈ urls)
      (fun _ hotGeneration key entry =>
        (before.apply hashUrl invalidation).generation.toNat ≤ hotGeneration.toNat →
          key = hashUrl url → outlived (ttlOfSecs ttlSecs) entry.createdAt invalidation.now = true)
      before := by
    refine ⟨fun page => ?_, fun present exposed newer sameKey => ?_⟩
    · obtain ⟨sameHash, insertion⟩ := (fromHistory_after hashUrl _ _ earlier).cold page
      exact ⟨sameHash, within _ _ insertion.inserted⟩
    · subst sameKey
      exact outlived_of_reaches behind same (by omega) reaches present exposed newer
  obtain ⟨now, op⟩ := invalidation
  rcases invalidates with rfl | ⟨order, urlPrefix, rfl, matched⟩
  · exact (pages.invalidate url).mono And.left id
  · refine (pages.invalidatePrefix order urlPrefix).mono ?_ id
    rintro key pageUrl _ _ ⟨unmatched, sameHash, used⟩ sameKey
    rw [injective used target (sameHash.symm.trans sameKey), matched] at unmatched
    contradiction

/-- Events that do not insert the URL keep it forgotten. -/
theorem Forgotten.run (injective : Set.InjOn hashUrl urls) (target : url ∈ urls)
    {generation since : Nat} {ttl : Option Nat} {cache : SsrCache}
    (forgotten : Forgotten hashUrl url generation ttl since cache) {later : List Event}
    (within : InsertsWithin urls later) (notInserted : ∀ html, ¬ Inserted later url html) :
    Forgotten hashUrl url generation ttl since (Execution.run (apply hashUrl) cache later) := by
  have guarded : Execution.Guarded (apply hashUrl) (fun _ event => event ∈ later) cache later :=
    fun _ event _ split => by simp [split]
  refine Execution.run_invariant
    (fun _ current => Forgotten hashUrl url generation ttl since current) forgotten ?_ guarded
  intro _ current event pages member
  refine pages.apply ?_ ?_
  · exact fun thread pageUrl _ _ _ _ absent _ _ _ _ sameKey => absurd sameKey absent
  · intro thread order pageUrl html insertion
    have inserted : Inserted later pageUrl html := ⟨event, member, thread, order, insertion⟩
    have different : hashUrl pageUrl ≠ hashUrl url := fun sameHash =>
      notInserted html (injective (within _ _ inserted) target sameHash ▸ inserted)
    exact ⟨different, fun _ sameKey => absurd sameKey different⟩

/-- A forgotten URL is answered by no later lookup. -/
theorem Forgotten.tryGet {generation since now : Nat} {cache : SsrCache}
    (forgotten : Forgotten hashUrl url generation (ttlOfSecs ttlSecs) since cache)
    (same : SameTtl ttlSecs cache) (reached : generation ≤ cache.generation.toNat)
    (ordered : since ≤ now) (thread : ThreadId) :
    (cache.tryGet hashUrl thread url now).1 = none := by
  refine Option.eq_none_iff_forall_ne_some.mpr fun html answer => ?_
  rcases forgotten.tryGet_some answer with ⟨entry, stale, _, live⟩ | ⟨_, _, absent, _⟩
  · rw [same.syncedHot thread, outlived_mono ordered (stale reached rfl)] at live
    contradiction
  · exact absent rfl

/-- **Invalidation reaches every tier, exactly when it can.** An invalidation is
followed by misses on every thread until the URL is inserted again if and only
if it has a cold entry to remove or no hot cache exposes a live copy. -/
theorem staysInvalid_iff (injective : Set.InjOn hashUrl urls) (within : InsertsWithin urls earlier)
    (target : url ∈ urls) (several : urls.Nontrivial)
    (room : bumps (earlier ++ [invalidation]) < 2 ^ 64)
    (invalidates : invalidation.Invalidates url) :
    StaysInvalid hashUrl urls maxColdEntries ttlSecs (earlier ++ [invalidation]) url
        invalidation.now ↔
      Reaches hashUrl (after hashUrl maxColdEntries ttlSecs earlier) invalidation url := by
  constructor
  · intro stays
    refine or_iff_not_imp_left.mpr fun findsNone thread entry exposed => ?_
    by_contra live
    have unchanged := apply_syncedHot_of_not_findsPage invalidates findsNone thread
    have snoc : after hashUrl maxColdEntries ttlSecs (earlier ++ [invalidation]) =
        (after hashUrl maxColdEntries ttlSecs earlier).apply hashUrl invalidation :=
      Execution.run_snoc _ _ _ _
    rw [← unchanged, ← snoc] at exposed live
    obtain ⟨other, another, different⟩ := several.exists_ne url
    have distinct : hashUrl other ≠ hashUrl url := fun sameHash =>
      different (injective another target sameHash)
    obtain ⟨count, hit⟩ := exposes_becomes_hit exposed (Bool.eq_false_iff.mpr live) distinct
      VisitOrder.stored ""
    have missed := stays
      (List.replicate count ⟨invalidation.now, .insert thread VisitOrder.stored other ""⟩) thread
      invalidation.now
      (fun _ _ insertion => (inserted_replicate insertion).1 ▸ another)
      (fun _ insertion => different (inserted_replicate insertion).1.symm)
      (by rw [bumps_append, bumps_replicate_insert]; exact room) (Nat.le_refl _)
    rw [after_append, hit] at missed
    contradiction
  · intro reaches later thread now withinLater notInserted roomLater ordered
    rw [after_append]
    have forgotten := forgotten_of_reaches injective within target room invalidates reaches
    refine (forgotten.run injective target withinLater notInserted).tryGet
      ((sameTtl_after hashUrl maxColdEntries ttlSecs _).run later) ?_ ordered thread
    rw [← after_append]
    exact after_generation_mono hashUrl maxColdEntries ttlSecs roomLater

end Run

/-- An invalidation that still finds the page in the cold cache reaches it. -/
theorem staysInvalid_of_cold_page :
    StaysInvalid hashOfTwo twoUrls 1 0 ([⟨0, .insert 0 VisitOrder.stored "/a" "page"⟩] ++
      [⟨1, .invalidate "/a"⟩]) "/a" 1 := by
  refine (staysInvalid_iff hashOfTwo_injOn ?_ (Or.inl rfl) twoUrls_nontrivial (by decide)
    (Or.inl rfl)).mpr (Or.inl ⟨⟨"/a", "page", 0, 0⟩, by decide⟩)
  simp [twoUrls]

/-- The page of `/a` is evicted from a cold cache of capacity one by that of
`/b`, and its invalidation then leaves the hot copy in place. -/
theorem invalidation_misses_hot_copy :
    ¬ ∀ hashUrl urls maxColdEntries ttlSecs earlier invalidation url,
      Set.InjOn hashUrl urls → 1 ≤ maxColdEntries → InsertsWithin urls earlier → url ∈ urls →
        Event.Invalidates invalidation url →
          StaysInvalid hashUrl urls maxColdEntries ttlSecs (earlier ++ [invalidation]) url
            invalidation.now := by
  intro reaches
  have missed := reaches hashOfTwo twoUrls 1 0 [⟨0, .insert 0 VisitOrder.stored "/a" "page"⟩,
    ⟨1, .insert 0 VisitOrder.stored "/b" "other"⟩] ⟨2, .invalidate "/a"⟩ "/a" hashOfTwo_injOn
    (Nat.le_refl 1) (by simp [twoUrls]) (Or.inl rfl) (Or.inl rfl) [] 0 2
    (insertsWithin_nil _) (by simp) (by decide) (Nat.le_refl 2)
  revert missed
  decide

end RustySsr.Cache.SsrCache
