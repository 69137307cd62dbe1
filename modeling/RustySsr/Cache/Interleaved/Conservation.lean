import Mathlib.Algebra.Order.Field.Basic
import Mathlib.Algebra.Order.Field.Rat
import Mathlib.Tactic.Linarith
import RustySsr.Cache.Interleaved.Accounts
import RustySsr.Cache.Ssr.Provenance

/-!
Owns the conservation of the lookup counters. Where no lookup and no snapshot is
cut in two, a snapshot counts for its outcomes only lookups that it counts
itself, and once nothing is in flight the outcomes are the lookups:
`snapshots_conserved` states this for every run, and `snapshot_outruns_lookups`
shows a snapshot with an outcome and no lookup.
-/

namespace RustySsr.Cache

open RustySsr.Platform
open RustySsr.Foundation
open RustySsr.Foundation.Staged

/-! ### Snapshots in progress -/

/-- What a snapshot has loaded stands for lookups that began before it loaded
`lookups`, after the same clears. -/
structure Observed (lookups : List LookupRecord) (call : MetricsCall) : Prop where
  order : call.rest <:+ Counter.loadOrder
  begun : .lookups ∉ call.rest → call.before ≤ lookups.length ∧
    call.loaded .lookups =
      (lookups.take call.before).countP fun record => record.epoch = call.epoch
  outcomes : ∀ counter ∈ Counter.outcomes, .lookups ∉ call.rest → counter ∉ call.rest →
    call.loaded counter ≤
      (lookups.take call.before).countP (LookupRecord.standsIn call.epoch counter)
  early : ∀ counter ∈ Counter.outcomes, call.Awaits counter →
    ∀ (position : Nat) record, lookups[position]? = some record → counter ∈ record.counted →
      position < call.before

/-- A call that has loaded nothing. -/
theorem observed_unloaded (lookups : List LookupRecord) :
    Observed lookups ⟨fun _ => 0, Counter.loadOrder, 0, 0⟩ where
  order := List.suffix_rfl
  begun := fun absent => absurd (by decide) absent
  outcomes := fun _ _ absent => absurd (by decide) absent
  early := fun _ _ awaits => absurd (by decide) awaits.1

namespace Observed

variable {lookups : List LookupRecord} {call : MetricsCall}

/-- A lookup that begins later. -/
theorem begin (observed : Observed lookups call) (epoch : Multiset ThreadId) :
    Observed (lookups ++ [⟨epoch, [.lookups]⟩]) call where
  order := observed.order
  begun := fun loaded => by
    obtain ⟨bound, counts⟩ := observed.begun loaded
    refine ⟨bound.trans (by simp), ?_⟩
    rwa [List.take_append_of_le_length bound]
  outcomes := fun counter isOutcome loaded done => by
    rw [List.take_append_of_le_length (observed.begun loaded).1]
    exact observed.outcomes counter isOutcome loaded done
  early := fun counter isOutcome awaits position record present counted => by
    rcases Nat.lt_or_ge position lookups.length with old | new
    · rw [List.getElem?_append_left old] at present
      exact observed.early counter isOutcome awaits position record present counted
    · rw [List.getElem?_append_right new] at present
      rw [List.mem_singleton.mp (List.mem_of_getElem? present)] at counted
      obtain rfl := List.mem_singleton.mp counted
      exact absurd isOutcome (by decide)

/-- A lookup counted in one more counter, which the snapshot may count only if the
lookup began before. -/
theorem count (observed : Observed lookups call) {position : Nat} {counter : Counter}
    (uncut : counter ∈ Counter.outcomes → call.Awaits counter → position < call.before) :
    Observed (lookups.modify position (LookupRecord.count counter)) call where
  order := observed.order
  begun := fun loaded => by
    obtain ⟨bound, counts⟩ := observed.begun loaded
    have unseen : ∀ other : LookupRecord, decide ((other.count counter).epoch = call.epoch) =
        decide (other.epoch = call.epoch) := fun _ => rfl
    rw [List.length_modify, List.take_modify, Tally.countP_modify_unseen unseen]
    exact ⟨bound, counts⟩
  outcomes := fun other isOutcome loaded done => by
    rw [List.take_modify]
    refine (observed.outcomes other isOutcome loaded done).trans
      (Tally.countP_le_modify (fun record stands => ?_) _ _)
    obtain ⟨counted, same⟩ := of_decide_eq_true stands
    exact decide_eq_true ⟨List.mem_append_left _ counted, same⟩
  early := fun other isOutcome awaits place record present counted => by
    rw [List.getElem?_modify] at present
    obtain ⟨old, found, rfl⟩ := Option.map_eq_some_iff.mp present
    split_ifs at counted with here
    · subst here
      rcases List.mem_append.mp counted with before | now
      · exact observed.early other isOutcome awaits position old found before
      · obtain rfl := List.mem_singleton.mp now
        exact uncut isOutcome awaits
    · exact observed.early other isOutcome awaits place old found counted

section Load

variable {counts : Counter → Nat} {resets : Counter → Multiset ThreadId} {rest : List Counter}

/-- `lookups` is loaded first, and counts every lookup begun since its last reset. -/
theorem load_lookups (observed : Observed lookups call)
    (balanced : Balanced counts resets lookups) (next : call.rest = .lookups :: rest) :
    Observed lookups ⟨Function.update call.loaded .lookups (counts .lookups % 2 ^ 64), rest,
      resets .lookups, lookups.length⟩ := by
  have suffix := observed.order
  rw [next] at suffix
  obtain ⟨restSuffix, _, _, afterFirst⟩ := resetOrder_suffix suffix
  have all : ∀ counter ∈ Counter.outcomes, counter ∈ rest := by
    rw [afterFirst rfl]
    decide
  refine ⟨restSuffix, fun _ => ⟨Nat.le_refl _, ?_⟩, ?_, ?_⟩
  · have counted : counts .lookups =
        lookups.countP fun record => record.epoch = resets .lookups := by
      rw [balanced.countP_epoch]
      exact balanced.tallied _ (by decide)
    show Function.update call.loaded .lookups (counts .lookups % 2 ^ 64) .lookups = _
    rw [Function.update_self, List.take_length, counted,
      Nat.mod_eq_of_lt (balanced.bounded _)]
  · exact fun counter isOutcome _ done => absurd (all counter isOutcome) done
  · exact fun counter _ _ position record present _ => (List.getElem?_eq_some_iff.mp present).1

/-- An outcome loaded after the same clears counts only lookups that `lookups` counted. -/
theorem load_counter (observed : Observed lookups call)
    (balanced : Balanced counts resets lookups) {counter : Counter}
    (next : call.rest = counter :: rest) (notFirst : counter ≠ .lookups)
    (uncut : counter ∈ Counter.outcomes → resets counter = call.epoch) :
    Observed lookups
      { call with
        loaded := Function.update call.loaded counter (counts counter % 2 ^ 64)
        rest := rest } := by
  have suffix := observed.order
  rw [next] at suffix
  obtain ⟨restSuffix, fresh, onlyFirst, _⟩ := resetOrder_suffix suffix
  have loaded : .lookups ∉ call.rest := fun left => notFirst (onlyFirst (next ▸ left))
  refine ⟨restSuffix, fun _ => ?_, fun other isOutcome _ done => ?_, fun other isOutcome awaits => ?_⟩
  · obtain ⟨bound, counted⟩ := observed.begun loaded
    refine ⟨bound, ?_⟩
    show Function.update call.loaded counter (counts counter % 2 ^ 64) .lookups = _
    rw [Function.update_of_ne (Ne.symm notFirst)]
    exact counted
  · show Function.update call.loaded counter (counts counter % 2 ^ 64) other ≤ _
    by_cases same : other = counter
    · subst same
      have early := observed.early other isOutcome ⟨loaded, next ▸ List.mem_cons_self⟩
      have ofLookups : other ∈ Counter.ofLookups := by
        have subset : ∀ outcome ∈ Counter.outcomes, outcome ∈ Counter.ofLookups := by decide
        exact subset other isOutcome
      have standing := balanced.tallied other ofLookups
      rw [uncut isOutcome] at standing
      rw [Function.update_self]
      calc counts other % 2 ^ 64
          ≤ counts other := Nat.mod_le _ _
        _ = lookups.countP (LookupRecord.standsIn call.epoch other) := standing
        _ = (lookups.take call.before).countP (LookupRecord.standsIn call.epoch other) :=
            (Tally.countP_take_of_early fun position record present stands =>
              early position record present (of_decide_eq_true stands).1).symm
    · rw [Function.update_of_ne same]
      refine observed.outcomes other isOutcome loaded ?_
      rw [next]
      exact fun left => (List.mem_cons.mp left).elim same done
  · refine observed.early other isOutcome ⟨loaded, ?_⟩
    rw [next]
    exact List.mem_cons_of_mem _ awaits.2

end Load

/-- What a whole snapshot counts for its outcomes are different lookups. -/
theorem outcomes_le (observed : Observed lookups call) {threads : ThreadId → Control}
    {current : ThreadId → Nat} (tracked : Tracked threads lookups current)
    (whole : call.rest = []) :
    call.loaded .hotHits + call.loaded .coldHits + call.loaded .misses ≤ call.loaded .lookups := by
  have loaded : .lookups ∉ call.rest := by simp [whole]
  have outcome : ∀ counter ∈ Counter.outcomes, call.loaded counter ≤
      (lookups.take call.before).countP (LookupRecord.standsIn call.epoch counter) :=
    fun counter isOutcome => observed.outcomes counter isOutcome loaded (by simp [whole])
  have hot := outcome .hotHits (by decide)
  have cold := outcome .coldHits (by decide)
  have missed := outcome .misses (by decide)
  have settled := tracked.countP_settled (List.take_subset call.before lookups) call.epoch
  have began : (lookups.take call.before).countP (LookupRecord.settledIn call.epoch) ≤
      (lookups.take call.before).countP fun record => record.epoch = call.epoch := by
    refine List.countP_mono_left fun record _ stands => ?_
    simp only [LookupRecord.settledIn, LookupRecord.standsIn, Bool.or_eq_true,
      decide_eq_true_eq] at stands ⊢
    rcases stands with (⟨_, same⟩ | ⟨_, same⟩) | ⟨_, same⟩ <;> exact same
  rw [(observed.begun loaded).2]
  omega

end Observed

/-! ### One event -/

section History

variable {state : Metered} {thread : ThreadId} {counter : Counter}
  (counting : (state.base.threads thread).counting = some counter) (notFirst : counter ≠ .lookups)

include counting notFirst

theorem Metered.recording_count :
    state.recording thread =
      { state with
        lookups := state.lookups.modify (state.current thread) (LookupRecord.count counter) } := by
  unfold Metered.recording
  rw [counting]
  cases counter <;> first | rfl | exact absurd rfl notFirst

theorem Metered.uncut_count {orders : ColdCache.Orders} {now : Nat}
    (uncut : state.Uncut (.cache (.advance thread orders now))) :
    (∀ record ∈ state.lookups[state.current thread]?, record.epoch = state.resets counter) ∧
      (counter ∈ Counter.outcomes → ∀ caller, ∀ call ∈ state.callers caller,
        call.Awaits counter → state.current thread < call.before) := by
  unfold Metered.Uncut at uncut
  dsimp only at uncut
  rw [counting] at uncut
  cases counter <;> first | exact uncut | exact absurd rfl notFirst

end History

/-- The counters, the lookups in flight, the clears in progress and the snapshots
agree with the history. -/
structure Accounted (state : Metered) : Prop where
  balanced : Balanced state.base.cache.metrics.get state.resets state.lookups
  tracked : Tracked state.base.threads state.lookups state.current
  cleared : Cleared state.base.threads state.resets
  observed : ∀ caller, ∀ call ∈ state.callers caller, Observed state.lookups call
  conserved : ∀ snapshot ∈ state.snapshots, Metered.Conserved snapshot

theorem accounted_initial (maxColdEntries ttlSecs : Nat) :
    Accounted (Metered.initial maxColdEntries ttlSecs) where
  balanced := Balanced.nil.congr fun counter _ => by cases counter <;> rfl
  tracked := ⟨fun _ counted => absurd rfl counted, fun _ _ counted => absurd rfl counted,
    fun _ _ present => absurd present (by simp [Metered.initial])⟩
  cleared := ⟨fun _ => List.nil_suffix, fun _ _ => rfl⟩
  observed := fun _ _ present => absurd present (by simp [Metered.initial])
  conserved := fun _ member => absurd member List.not_mem_nil

namespace Accounted

open Interleaved (next)

variable {hashUrl : String → UInt64} {state : Metered}

/-- A thread begins a call, with nothing counted or to reset yet. -/
theorem enter (accounted : Accounted state) {thread : ThreadId} (call : CacheCall)
    (idle : state.base.threads thread = .idle) :
    Accounted { state with base := state.base.enter thread call } where
  balanced := accounted.balanced
  tracked := accounted.tracked.still (by rw [idle]; cases call <;> rfl)
  cleared := accounted.cleared.still (by rw [idle]; rfl) (Or.inl (by cases call <;> rfl))
  observed := accounted.observed
  conserved := accounted.conserved

section Advance

variable {thread : ThreadId} {orders : ColdCache.Orders} {now : Nat} {cache : SsrCache}
  {op : OpId} {outcome : Outcome Control CacheAnswer}

theorem leave_threads (base : Interleaved) :
    (base.leave thread op cache outcome).threads =
      Function.update base.threads thread (Control.following outcome) := by
  cases outcome <;> rfl

/-- A step of a thread, recorded in the history. -/
theorem leave (accounted : Accounted state)
    (uncut : state.Uncut (.cache (.advance thread orders now)))
    (advanced : next hashUrl state.base.cache thread orders now (state.base.threads thread) =
      some (cache, op, outcome)) :
    Accounted { state.recording thread with base := state.base.leave thread op cache outcome } := by
  have counts := Interleaved.next_counted advanced
  have resets := Interleaved.next_toReset advanced
  have tally : ∀ counter ∈ Counter.ofLookups,
      (state.base.leave thread op cache outcome).cache.metrics.get counter =
        (state.base.threads thread).tally state.base.cache.metrics.get counter := by
    intro counter member
    rw [Interleaved.leave_cache]
    exact Interleaved.next_get advanced member
  have threads : (state.base.leave thread op cache outcome).threads = _ :=
    leave_threads state.base
  unfold Control.tally at tally
  cases counting : (state.base.threads thread).counting with
  | none =>
      rw [counting] at tally counts
      rw [Option.toList_none, List.append_nil,
        if_neg (Control.counted_incomplete _)] at counts
      have tracked := accounted.tracked.still counts
      rw [← threads] at tracked
      dsimp only at tally
      unfold Metered.recording
      rw [counting]
      dsimp only
      cases left : (state.base.threads thread).toReset with
      | nil =>
          rw [left] at tally resets
          have cleared := accounted.cleared.still left (resets.imp id And.right)
          rw [← threads] at cleared
          exact ⟨accounted.balanced.congr tally, tracked, cleared, accounted.observed,
            accounted.conserved⟩
      | cons counter rest =>
          rw [left] at tally resets
          have follows : (Control.following outcome).toReset = rest :=
            resets.resolve_right fun absurdly => List.cons_ne_nil _ _ absurdly.1
          have cleared := accounted.cleared.reset left follows
          rw [← threads] at cleared
          exact ⟨(accounted.balanced.reset thread counter).congr tally, tracked, cleared,
            accounted.observed, accounted.conserved⟩
  | some counter =>
      rw [counting] at tally counts
      rw [Option.toList_some] at counts
      have noReset := Control.counting_toReset counting
      rw [noReset] at resets
      have cleared := accounted.cleared.still noReset (resets.imp id And.right)
      rw [← threads] at cleared
      rcases Control.counting_between counting with ⟨rfl, idle⟩ | ⟨notFirst, between, fresh⟩
      · rw [idle] at counts
        have tracked := accounted.tracked.begin idle counts (state.resets .lookups)
        rw [← threads] at tracked
        unfold Metered.Uncut at uncut
        unfold Metered.recording
        dsimp only at uncut
        rw [counting] at uncut ⊢
        exact ⟨(accounted.balanced.begin uncut).congr tally, tracked, cleared,
          fun caller call present => (accounted.observed caller call present).begin _,
          accounted.conserved⟩
      · obtain ⟨record, present, agrees⟩ := accounted.tracked.inFlight thread between
        have tracked := accounted.tracked.count between counts
        rw [← threads] at tracked
        obtain ⟨together, ofSnapshots⟩ := Metered.uncut_count counting notFirst uncut
        have balanced := accounted.balanced.count present (agrees ▸ fresh)
          (together record present)
        rw [Metered.recording_count counting notFirst]
        exact ⟨balanced.congr tally, tracked, cleared,
          fun caller call inProgress => (accounted.observed caller call inProgress).count
            fun isOutcome => ofSnapshots isOutcome caller call inProgress,
          accounted.conserved⟩

end Advance

section Snapshots

variable {caller : CallerId}

theorem observed_update (accounted : Accounted state) {next : Option MetricsCall}
    (observed : ∀ call ∈ next, Observed state.lookups call) :
    ∀ other, ∀ call ∈ Function.update state.callers caller next other,
      Observed state.lookups call := by
  intro other call inProgress
  by_cases moved : other = caller
  · subst moved
    rw [Function.update_self] at inProgress
    exact observed call inProgress
  · rw [Function.update_of_ne moved] at inProgress
    exact accounted.observed other call inProgress

/-- A step of `metrics`. -/
theorem loadStep (accounted : Accounted state) {call : MetricsCall}
    (inProgress : state.callers caller = some call) (uncut : state.Uncut (.load caller)) :
    Accounted (state.loadStep caller call) := by
  have observed := accounted.observed caller call inProgress
  unfold Metered.loadStep
  dsimp only
  split
  · rename_i rest next
    refine ⟨accounted.balanced, accounted.tracked, accounted.cleared,
      accounted.observed_update ?_, accounted.conserved⟩
    rintro _ ⟨⟩
    exact observed.load_lookups accounted.balanced next
  · rename_i counter rest notFirst next
    refine ⟨accounted.balanced, accounted.tracked, accounted.cleared,
      accounted.observed_update ?_, accounted.conserved⟩
    rintro _ ⟨⟩
    exact observed.load_counter accounted.balanced next notFirst
      (uncut call inProgress counter (by rw [next]; rfl))
  · rename_i whole
    refine ⟨accounted.balanced, accounted.tracked, accounted.cleared,
      accounted.observed_update (fun _ absurdly => absurd absurdly (by simp)), ?_⟩
    intro snapshot member
    rcases List.mem_append.mp member with old | new
    · exact accounted.conserved snapshot old
    · rw [List.mem_singleton.mp new]
      exact observed.outcomes_le accounted.tracked whole

end Snapshots

theorem step (accounted : Accounted state) {event : Metered.Event} (uncut : state.Uncut event)
    {following : Metered} (stepped : state.step hashUrl event = some following) :
    Accounted following := by
  cases event with
  | cache event =>
      obtain ⟨base, baseStepped, rfl⟩ := Option.map_eq_some_iff.mp stepped
      cases event with
      | start thread call =>
          simp only [Interleaved.step, Interleaved.start] at baseStepped
          split at baseStepped
          · rename_i idle
            obtain rfl := Option.some.inj baseStepped
            exact accounted.enter call idle
          · contradiction
      | advance thread orders now =>
          obtain ⟨⟨cache, op, outcome⟩, advanced, rfl⟩ := Option.map_eq_some_iff.mp baseStepped
          exact accounted.leave uncut advanced
  | call caller =>
      simp only [Metered.step] at stepped
      split at stepped
      · obtain rfl := Option.some.inj stepped
        refine ⟨accounted.balanced, accounted.tracked, accounted.cleared,
          accounted.observed_update ?_, accounted.conserved⟩
        rintro _ ⟨⟩
        exact observed_unloaded state.lookups
      · contradiction
  | load caller =>
      obtain ⟨call, inProgress, rfl⟩ := Option.map_eq_some_iff.mp stepped
      exact accounted.loadStep inProgress uncut

/-- With nothing in flight every counter stands for complete lookups. -/
theorem standing (accounted : Accounted state) (quiet : state.Quiet) :
    (∀ record ∈ state.lookups, record.counted ∈ Counter.complete) ∧
      ∀ counter ∈ Counter.ofLookups, state.base.cache.metrics.get counter =
        state.lookups.countP (LookupRecord.standsIn (state.resets .lookups) counter) := by
  obtain ⟨noLookup, noClear, _⟩ := quiet
  constructor
  · intro record member
    obtain ⟨position, present⟩ := List.mem_iff_getElem?.mp member
    refine (accounted.tracked.finished position record present).resolve_right ?_
    rintro ⟨thread, _, counted⟩
    cases control : state.base.threads thread with
    | tryGet op url stage => exact noLookup thread op url stage control
    | _ =>
        rw [control] at counted
        exact counted rfl
  · have noReset : ∀ thread, (state.base.threads thread).toReset = [] := by
      intro thread
      cases control : state.base.threads thread with
      | clear op stage => exact absurd control (noClear thread op stage)
      | _ => rfl
    intro counter member
    rw [accounted.balanced.tallied counter member, accounted.cleared.resets_eq noReset]

/-- With nothing in flight the outcomes are the lookups, and the promotions the
cold hits. -/
theorem settled (accounted : Accounted state) (quiet : state.Quiet) : state.Settled := by
  obtain ⟨complete, counts⟩ := accounted.standing quiet
  have shapes : ∀ shape ∈ Counter.complete, .lookups ∈ shape ∧
      (.hotHits ∈ shape ∨ .coldHits ∈ shape ∨ .misses ∈ shape) ∧
      (.promotions ∈ shape ↔ .coldHits ∈ shape) := by decide
  have settled := accounted.tracked.countP_settled (List.Subset.refl state.lookups)
    (state.resets .lookups)
  have all : state.lookups.countP (LookupRecord.settledIn (state.resets .lookups)) =
      state.lookups.countP (LookupRecord.standsIn (state.resets .lookups) .lookups) := by
    refine List.countP_congr fun record member => ?_
    obtain ⟨inLookups, outcome, _⟩ := shapes _ (complete record member)
    simp only [LookupRecord.settledIn, LookupRecord.standsIn, Bool.or_eq_true, decide_eq_true_eq]
    tauto
  have promoted : state.lookups.countP
        (LookupRecord.standsIn (state.resets .lookups) .promotions) =
      state.lookups.countP (LookupRecord.standsIn (state.resets .lookups) .coldHits) := by
    refine List.countP_congr fun record member => ?_
    obtain ⟨_, _, both⟩ := shapes _ (complete record member)
    simp only [LookupRecord.standsIn, decide_eq_true_eq, both]
  have bounded := accounted.balanced.bounded (state.resets .lookups)
  rw [accounted.balanced.countP_epoch] at bounded
  rw [← counts .promotions (by decide), ← counts .coldHits (by decide)] at promoted
  rw [all, ← counts .lookups (by decide), ← counts .hotHits (by decide),
    ← counts .coldHits (by decide), ← counts .misses (by decide)] at settled
  rw [← counts .lookups (by decide)] at bounded
  unfold Metered.Settled CacheMetricsInner.load
  dsimp only
  rw [promoted]
  refine ⟨?_, rfl⟩
  omega

end Accounted

/-! ### Every run -/

namespace Metered

theorem Conserved.hitRate_le {snapshot : CacheMetrics} (conserved : Conserved snapshot) :
    snapshot.hitRate ≤ 100 := by
  unfold CacheMetrics.hitRate
  split_ifs with looked
  · have hits : snapshot.hotHits + snapshot.coldHits ≤ snapshot.lookups :=
      (Nat.le_add_right _ _).trans conserved
    have share : ((snapshot.hotHits + snapshot.coldHits : Nat) : ℚ) / snapshot.lookups ≤ 1 := by
      rw [div_le_one (by exact_mod_cast looked)]
      exact_mod_cast hits
    linarith
  · norm_num

/-- **The lookup counters are conserved.** In every run that cuts no lookup and no
snapshot in two, the outcomes of every snapshot are at most its lookups, and when
nothing is in flight the outcomes are the lookups and the promotions the cold hits. -/
theorem snapshots_conserved {hashUrl : String → UInt64} {maxColdEntries ttlSecs : Nat}
    {events : List Event} {final : Metered}
    (uncut : Execution.ExecGuarded (step hashUrl) Uncut (initial maxColdEntries ttlSecs) events)
    (executed : Execution.exec (step hashUrl) (initial maxColdEntries ttlSecs) events =
      some final) :
    (∀ snapshot ∈ final.snapshots, Conserved snapshot ∧ snapshot.hitRate ≤ 100) ∧
      (final.Quiet → final.Settled) := by
  have accounted : Accounted final :=
    Execution.exec_invariant (fun _ state => Accounted state)
      (accounted_initial maxColdEntries ttlSecs)
      (fun _ _ _ _ accounted allowed stepped => accounted.step allowed stepped) uncut executed
  exact ⟨fun snapshot member =>
    have conserved := accounted.conserved snapshot member
    ⟨conserved, conserved.hitRate_le⟩, accounted.settled⟩

/-- The thread's next steps, at clock reading zero. -/
def advances (thread : ThreadId) (count : Nat) : List Event :=
  List.replicate count (.cache (.advance thread ⟨VisitOrder.stored, VisitOrder.stored⟩ 0))

def begins (thread : ThreadId) (call : CacheCall) : Event := .cache (.start thread call)

/-- The next loads of a snapshot. -/
def loads (caller : CallerId) (count : Nat) : List Event := List.replicate count (.load caller)

/-- A snapshot begins while a lookup is in flight, which then counts its miss; a
second lookup begins before the snapshot is whole and counts its miss after it. -/
def overlappedSnapshot : List Event :=
  begins 0 (.tryGet "/a") :: advances 0 1 ++ .call 0 :: loads 0 1 ++ advances 0 4 ++
    begins 1 (.tryGet "/a") :: advances 1 1 ++ loads 0 7 ++ advances 1 4

/-- A lookup that misses while a snapshot has loaded nothing but `lookups`. -/
def missDuringMetrics : List Event :=
  .call 0 :: loads 0 1 ++ begins 0 (.tryGet "/a") :: advances 0 5 ++ loads 0 7

/-- A clear while a lookup has counted nothing but `lookups`, and then a snapshot. -/
def clearDuringMiss : List Event :=
  begins 0 (.tryGet "/a") :: advances 0 1 ++ begins 1 .clear :: advances 1 10 ++
    advances 0 4 ++ .call 0 :: loads 0 8

/-- The overlapping lookups are counted whole or not at all. -/
theorem snapshots_conserved_overlappedSnapshot :
    ∃ final,
      Execution.exec (step SsrCache.hashOfTwo) (initial 4 0) overlappedSnapshot = some final ∧
      final.snapshots = [⟨1, 0, 0, 1, 0, 0, 0, 0, 4⟩] ∧
      final.base.cache.metrics = ⟨2, 0, 0, 2, 0, 0, 0⟩ ∧
      (∀ snapshot ∈ final.snapshots, Conserved snapshot ∧ snapshot.hitRate ≤ 100) ∧
      (final.Quiet → final.Settled) := by
  have uncut : Execution.ExecGuarded (step SsrCache.hashOfTwo) Uncut (initial 4 0)
      overlappedSnapshot := by
    refine Execution.execGuarded_cons_some trivial rfl ?_
    refine Execution.execGuarded_cons_some (show 0 + 1 < 2 ^ 64 by decide) rfl ?_
    refine Execution.execGuarded_cons_some trivial rfl ?_
    refine Execution.execGuarded_cons_some (by rintro _ ⟨⟩ _ ⟨⟩ isOutcome; contradiction) rfl ?_
    iterate 3
      refine Execution.execGuarded_cons_some trivial rfl ?_
    -- the snapshot has loaded `lookups` after the first lookup was counted there
    refine Execution.execGuarded_cons_some ⟨?_, ?_⟩ rfl ?_
    · rintro _ ⟨⟩
      rfl
    · rintro _ (_ | caller) call present _
      · obtain rfl := Option.some.inj present
        exact Nat.zero_lt_one
      · contradiction
    refine Execution.execGuarded_cons_some trivial rfl ?_
    refine Execution.execGuarded_cons_some (show 1 + 1 < 2 ^ 64 by decide) rfl ?_
    iterate 6
      refine Execution.execGuarded_cons_some ?_ rfl ?_
      · rintro _ ⟨⟩ _ ⟨⟩ _
        rfl
    refine Execution.execGuarded_cons_some (by rintro _ ⟨⟩ _ ⟨⟩) rfl ?_
    iterate 3
      refine Execution.execGuarded_cons_some trivial rfl ?_
    refine Execution.execGuarded_cons ⟨?_, ?_⟩ fun _ _ => Execution.execGuarded_nil _ _
    · rintro _ ⟨⟩
      rfl
    · rintro _ (_ | caller) call present _ <;> contradiction
  obtain ⟨final, executed, answer, counted⟩ : ∃ final,
      Execution.exec (step SsrCache.hashOfTwo) (initial 4 0) overlappedSnapshot = some final ∧
        final.snapshots = [⟨1, 0, 0, 1, 0, 0, 0, 0, 4⟩] ∧
          final.base.cache.metrics = ⟨2, 0, 0, 2, 0, 0, 0⟩ := ⟨_, rfl, rfl, rfl⟩
  exact ⟨final, executed, answer, counted, snapshots_conserved uncut executed⟩

/-- A run returns a snapshot that is not conserved. -/
def Outruns (events : List Event) : Prop :=
  ∃ final, Execution.exec (step SsrCache.hashOfTwo) (initial 4 0) events = some final ∧
    ∃ snapshot ∈ final.snapshots, ¬ Conserved snapshot

theorem outruns_of_snapshots {events : List Event}
    (answers : (Execution.exec (step SsrCache.hashOfTwo) (initial 4 0) events).map
      (fun state => state.snapshots) = some [⟨0, 0, 0, 1, 0, 0, 0, 0, 4⟩]) : Outruns events := by
  obtain ⟨final, executed, answer⟩ := Option.map_eq_some_iff.mp answers
  exact ⟨final, executed, _, answer ▸ List.mem_singleton_self _, by decide⟩

/-- A snapshot counts a miss and no lookup: where the miss comes between its
loads, and where a clear comes between the lookup and the miss. -/
theorem snapshot_outruns_lookups : Outruns missDuringMetrics ∧ Outruns clearDuringMiss :=
  ⟨outruns_of_snapshots (by decide +kernel), outruns_of_snapshots (by decide +kernel)⟩

end Metered

end RustySsr.Cache
