import RustySsr.Cache.Interleaved.Uninterrupted

/-!
Owns the runs of the interleaved cache in which one call follows the other. They
are the runs of the cache whose operations are single steps: each of those is
such a run, with the same answers and the same cache at its end. What one call
after the other can do, interleaved threads can do.
-/

namespace RustySsr.Cache

open RustySsr.Platform
open RustySsr.Foundation

/-- A call that has the cache to itself: its thread, the order in which it scans,
and the clock. -/
structure Turn where
  thread : ThreadId
  call : CacheCall
  order : ScanOrder
  now : Nat

/-- The turn as an operation of the cache. -/
def Turn.event (turn : Turn) : SsrCache.Event where
  now := turn.now
  op := match turn.call with
    | .tryGet url => .tryGet turn.thread url
    | .insert url html => .insert turn.thread turn.order url html
    | .invalidate url => .invalidate url
    | .invalidatePrefix urlPrefix => .invalidatePrefix turn.order urlPrefix
    | .clear => .clear

/-- What the turn is answered, and the cache after it. -/
def Turn.respond (hashUrl : String → UInt64) (cache : SsrCache) (turn : Turn) :
    CacheAnswer × SsrCache :=
  let done := turn.call.whole hashUrl cache turn.thread turn.order turn.now
  (done.2, done.1)

/-- The calls with their answers. -/
def Turn.records (hashUrl : String → UInt64) (cache : SsrCache) (turns : List Turn) :
    List CallRecord :=
  List.zipWith (fun turn answer => ⟨turn.call, some answer⟩) turns
    (Execution.transcript (Turn.respond hashUrl) cache turns)

theorem Turn.respond_apply (hashUrl : String → UInt64) (cache : SsrCache) (turn : Turn) :
    (turn.respond hashUrl cache).2 = cache.apply hashUrl turn.event := by
  obtain ⟨thread, call, order, now⟩ := turn
  cases call <;> rfl

/-- The turns, taken one after the other, are the operations of the cache. -/
theorem Turn.settle_respond (hashUrl : String → UInt64) (cache : SsrCache) (turns : List Turn) :
    Execution.settle (Turn.respond hashUrl) cache turns =
      Execution.run (SsrCache.apply hashUrl) cache (turns.map Turn.event) := by
  unfold Execution.settle Execution.run
  rw [List.foldl_map]
  simp only [Turn.respond_apply]

namespace Interleaved

variable (hashUrl : String → UInt64)

/-- The run lemma: from idle threads, turn by turn. -/
theorem exec_of_turns (turns : List Turn) :
    ∀ state : Interleaved, (∀ thread, state.threads thread = .idle) →
      ∃ events last, Execution.exec (step hashUrl) state events = some last ∧
        last.cache = Execution.settle (Turn.respond hashUrl) state.cache turns ∧
        (∀ thread, last.threads thread = .idle) ∧
        (∀ op < state.nextOp, last.calls op = state.calls op) ∧
        ∀ position record, (Turn.records hashUrl state.cache turns)[position]? = some record →
          last.calls (state.nextOp + position) = some record := by
  induction turns with
  | nil =>
      intro state idle
      exact ⟨[], state, rfl, rfl, idle, fun _ _ => rfl, fun _ _ none => by contradiction⟩
  | cons turn turns inductionHypothesis =>
      intro state idle
      obtain ⟨first, middle, ran, middleCache, leaves⟩ := @uninterrupted_call hashUrl turn.thread
        state (idle turn.thread) turn.call turn.order turn.now
      have middleNext : middle.nextOp = state.nextOp + 1 := leaves.nextOp
      have middleIdle : ∀ thread, middle.threads thread = .idle := by
        intro thread
        by_cases own : thread = turn.thread
        · rw [own]
          exact leaves.idle
        · rw [leaves.threads thread own]
          exact (Function.update_of_ne own _ _).trans (idle thread)
      obtain ⟨rest, last, continued, lastCache, lastIdle, kept, recorded⟩ :=
        inductionHypothesis middle middleIdle
      have after : (turn.respond hashUrl state.cache).2 = middle.cache := middleCache.symm
      refine ⟨first ++ rest, last, (Execution.exec_append_some_iff _).mpr ⟨middle, ran, continued⟩,
        ?_, lastIdle, ?_, ?_⟩
      · rw [lastCache, ← after]
        rfl
      · intro op known
        rw [kept op (middleNext ▸ Nat.lt_succ_of_lt known), leaves.calls op known.ne]
        exact Function.update_of_ne known.ne _ _
      · intro position record found
        cases position with
        | zero =>
            obtain rfl := Option.some.inj found
            rw [Nat.add_zero, kept state.nextOp (middleNext ▸ Nat.lt_succ_self _)]
            exact leaves.record
        | succ position =>
            have later := recorded position record (by rw [← after]; exact found)
            rwa [middleNext, Nat.add_right_comm] at later

/-- **The interleaved cache does what the cache does.** Every run of whole
operations is a run of interleaved steps: its calls are numbered in order and
have the same answers, every thread is idle after it, and it leaves the same
cache. -/
theorem serial_of_turns (maxColdEntries ttlSecs : Nat) (turns : List Turn) :
    ∃ events last,
      Execution.exec (step hashUrl) (initial maxColdEntries ttlSecs) events = some last ∧
      last.cache = SsrCache.after hashUrl maxColdEntries ttlSecs (turns.map Turn.event) ∧
      (∀ thread, last.threads thread = .idle) ∧
      ∀ position record,
        (Turn.records hashUrl (SsrCache.withTtl maxColdEntries ttlSecs) turns)[position]? =
          some record → last.calls position = some record := by
  obtain ⟨events, last, executed, cacheEq, idle, _, recorded⟩ :=
    exec_of_turns hashUrl turns (initial maxColdEntries ttlSecs) fun _ => rfl
  refine ⟨events, last, executed, ?_, idle, fun position record found => ?_⟩
  · rw [cacheEq, Turn.settle_respond]
    rfl
  · have recorded := recorded position record found
    rwa [show (initial maxColdEntries ttlSecs).nextOp = 0 from rfl, Nat.zero_add] at recorded

end Interleaved

end RustySsr.Cache
