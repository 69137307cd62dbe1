import Mathlib.Data.List.Infix
import Mathlib.Data.Multiset.Count
import RustySsr.Cache.Interleaved.Counting

/-!
Owns what is in flight among the lookup counters. Between its counters a lookup
is one record that its thread completes; between its resets a clear owes the
counters it has not reached. Once nothing is in flight every record is complete
and every counter was reset by the same clears.
-/

namespace RustySsr.Cache

open RustySsr.Foundation
open RustySsr.Foundation.Staged

/-! ### Lookups in flight -/

/-- A thread between the counters of a lookup has a record of its own, which says
what the lookup was counted in; every other record is complete. -/
structure Tracked (threads : ThreadId → Control) (lookups : List LookupRecord)
    (current : ThreadId → Nat) : Prop where
  inFlight : ∀ thread, (threads thread).counted ≠ [] →
    ∃ record, lookups[current thread]? = some record ∧
      record.counted = (threads thread).counted
  apart : ∀ first second, (threads first).counted ≠ [] → (threads second).counted ≠ [] →
    current first = current second → first = second
  finished : ∀ (position : Nat) record, lookups[position]? = some record →
    record.counted ∈ Counter.complete ∨
      ∃ thread, current thread = position ∧ (threads thread).counted ≠ []

/-- The lookup began after these clears and is counted in an outcome. -/
def LookupRecord.settledIn (epoch : Multiset ThreadId) (record : LookupRecord) : Bool :=
  record.standsIn epoch .hotHits || record.standsIn epoch .coldHits ||
    record.standsIn epoch .misses

namespace Tracked

variable {threads : ThreadId → Control} {lookups : List LookupRecord}
  {current : ThreadId → Nat} {thread : ThreadId} {control : Control}

/-- A step that counts nothing. -/
theorem still (tracked : Tracked threads lookups current)
    (same : control.counted = (threads thread).counted) :
    Tracked (Function.update threads thread control) lookups current := by
  have unchanged : ∀ other, (Function.update threads thread control other).counted =
      (threads other).counted := by
    intro other
    by_cases moved : other = thread
    · subst moved
      rwa [Function.update_self]
    · rw [Function.update_of_ne moved]
  refine ⟨?_, ?_, ?_⟩
  · simp only [unchanged]
    exact tracked.inFlight
  · simp only [unchanged]
    exact tracked.apart
  · simp only [unchanged]
    exact tracked.finished

/-- A lookup is counted for the first time. -/
theorem begin (tracked : Tracked threads lookups current) (idle : (threads thread).counted = [])
    (counts : control.counted = [.lookups]) (epoch : Multiset ThreadId) :
    Tracked (Function.update threads thread control) (lookups ++ [⟨epoch, [.lookups]⟩])
      (Function.update current thread lookups.length) where
  inFlight := fun other counted => by
    by_cases moved : other = thread
    · subst moved
      exact ⟨⟨epoch, [.lookups]⟩, by simp, by simp [counts]⟩
    · rw [Function.update_of_ne moved] at counted ⊢
      obtain ⟨record, present, agrees⟩ := tracked.inFlight other counted
      rw [Function.update_of_ne moved]
      refine ⟨record, ?_, agrees⟩
      rw [List.getElem?_append_left (List.getElem?_eq_some_iff.mp present).1]
      exact present
  apart := fun first second firstCounted secondCounted together => by
    have old : ∀ other, other ≠ thread →
        (Function.update threads thread control other).counted ≠ [] →
          Function.update current thread lookups.length other ≠ lookups.length := by
      intro other moved counted
      rw [Function.update_of_ne moved] at counted ⊢
      obtain ⟨record, present, _⟩ := tracked.inFlight other counted
      exact Nat.ne_of_lt (List.getElem?_eq_some_iff.mp present).1
    by_cases firstMoved : first = thread <;> by_cases secondMoved : second = thread
    · rw [firstMoved, secondMoved]
    · subst firstMoved
      rw [Function.update_self] at together
      exact absurd together.symm (old second secondMoved secondCounted)
    · subst secondMoved
      rw [Function.update_self] at together
      exact absurd together (old first firstMoved firstCounted)
    · rw [Function.update_of_ne firstMoved] at firstCounted together
      rw [Function.update_of_ne secondMoved] at secondCounted together
      exact tracked.apart first second firstCounted secondCounted together
  finished := fun position record present => by
    rcases Nat.lt_or_ge position lookups.length with old | new
    · rw [List.getElem?_append_left old] at present
      refine (tracked.finished position record present).imp id ?_
      rintro ⟨other, atPosition, counted⟩
      have moved : other ≠ thread := fun same => counted (same ▸ idle)
      refine ⟨other, ?_, ?_⟩
      · rwa [Function.update_of_ne moved]
      · rwa [Function.update_of_ne moved]
    · have bound := (List.getElem?_eq_some_iff.mp present).1
      rw [List.length_append, List.length_singleton] at bound
      refine Or.inr ⟨thread, ?_, ?_⟩
      · rw [Function.update_self]
        omega
      · simp [counts]

/-- A lookup is counted in one more counter, after which it may be complete. -/
theorem count (tracked : Tracked threads lookups current) {counter : Counter}
    (between : (threads thread).counted ≠ [])
    (counts : control.counted =
      if (threads thread).counted ++ [counter] ∈ Counter.complete then []
      else (threads thread).counted ++ [counter]) :
    Tracked (Function.update threads thread control)
      (lookups.modify (current thread) (LookupRecord.count counter)) current := by
  have own : ∀ other, (Function.update threads thread control other).counted ≠ [] →
      (threads other).counted ≠ [] := by
    intro other counted
    by_cases moved : other = thread
    · rwa [moved]
    · rwa [Function.update_of_ne moved] at counted
  obtain ⟨record, present, agrees⟩ := tracked.inFlight thread between
  refine ⟨fun other counted => ?_, fun first second firstCounted secondCounted => ?_,
    fun position changed found => ?_⟩
  · by_cases moved : other = thread
    · subst moved
      rw [Function.update_self] at counted ⊢
      refine ⟨record.count counter, ?_, ?_⟩
      · rw [List.getElem?_modify_eq, present]
        rfl
      · rw [counts] at counted ⊢
        split_ifs at counted ⊢ with complete
        · contradiction
        · rw [LookupRecord.count, agrees]
    · have apart : current thread ≠ current other := fun same =>
        moved (tracked.apart other thread (own other counted) between same.symm)
      rw [Function.update_of_ne moved, List.getElem?_modify_ne _ _ apart]
      exact tracked.inFlight other (own other counted)
  · exact tracked.apart first second (own first firstCounted) (own second secondCounted)
  · by_cases same : current thread = position
    · subst same
      rw [List.getElem?_modify_eq, present] at found
      obtain rfl : record.count counter = changed := by simpa using found
      rw [LookupRecord.count, agrees]
      by_cases complete : (threads thread).counted ++ [counter] ∈ Counter.complete
      · exact Or.inl complete
      · refine Or.inr ⟨thread, rfl, ?_⟩
        rw [Function.update_self, counts, if_neg complete]
        simp
    · rw [List.getElem?_modify_ne _ _ same] at found
      refine (tracked.finished position changed found).imp id ?_
      rintro ⟨other, atPosition, counted⟩
      have moved : other ≠ thread := fun sameThread => same (sameThread ▸ atPosition)
      refine ⟨other, atPosition, ?_⟩
      rwa [Function.update_of_ne moved]

/-- Every lookup is counted in at most one outcome. -/
theorem one_outcome (tracked : Tracked threads lookups current) {record : LookupRecord}
    (member : record ∈ lookups) {first second : Counter} (firstOutcome : first ∈ Counter.outcomes)
    (secondOutcome : second ∈ Counter.outcomes) (inFirst : first ∈ record.counted)
    (inSecond : second ∈ record.counted) : first = second := by
  obtain ⟨position, present⟩ := List.mem_iff_getElem?.mp member
  have shapes : record.counted ∈ Counter.partway ++ Counter.complete := by
    rcases tracked.finished position record present with complete | ⟨thread, rfl, counted⟩
    · exact List.mem_append_right _ complete
    · obtain ⟨same, found, agrees⟩ := tracked.inFlight thread counted
      obtain rfl := Option.some.inj (found.symm.trans present)
      exact List.mem_append_left _ (agrees ▸ Control.counted_partway counted)
  have exclusive : ∀ shape ∈ Counter.partway ++ Counter.complete, ∀ first ∈ Counter.outcomes,
      ∀ second ∈ Counter.outcomes, first ∈ shape → second ∈ shape → first = second := by decide
  exact exclusive _ shapes first firstOutcome second secondOutcome inFirst inSecond

/-- The lookups counted in an outcome are as many as the outcomes together. -/
theorem countP_settled (tracked : Tracked threads lookups current) {records : List LookupRecord}
    (subset : records ⊆ lookups) (epoch : Multiset ThreadId) :
    records.countP (LookupRecord.settledIn epoch) =
      records.countP (LookupRecord.standsIn epoch .hotHits) +
          records.countP (LookupRecord.standsIn epoch .coldHits) +
        records.countP (LookupRecord.standsIn epoch .misses) := by
  have apart : ∀ record ∈ records, ∀ first ∈ Counter.outcomes, ∀ second ∈ Counter.outcomes,
      first ≠ second → record.standsIn epoch first = true →
        record.standsIn epoch second = false := by
    intro record member first firstOutcome second secondOutcome different stands
    refine Bool.eq_false_iff.mpr fun alsoStands => different ?_
    exact tracked.one_outcome (subset member) firstOutcome secondOutcome
      (of_decide_eq_true stands).1 (of_decide_eq_true alsoStands).1
  have hits := Tally.countP_or_of_disjoint fun record member =>
    apart record member .hotHits (by decide) .coldHits (by decide) (by decide)
  have all := Tally.countP_or_of_disjoint fun record member (hit : (record.standsIn epoch .hotHits ||
      record.standsIn epoch .coldHits) = true) =>
    (Bool.or_eq_true _ _ ▸ hit).elim
      (apart record member .hotHits (by decide) .misses (by decide) (by decide))
      (apart record member .coldHits (by decide) .misses (by decide) (by decide))
  rw [← hits]
  exact all

end Tracked

/-! ### Resets in progress -/

/-- One for a counter that a clear has still to reset after `lookups`. -/
def pendingReset (rest : List Counter) (counter : Counter) : Nat :=
  if .lookups ∉ rest ∧ counter ∈ rest then 1 else 0

/-- A counter has been reset as often as `lookups`, but for the clears in progress. -/
structure Cleared (threads : ThreadId → Control) (resets : Counter → Multiset ThreadId) :
    Prop where
  order : ∀ thread, (threads thread).toReset <:+ Counter.resetOrder
  counts : ∀ thread counter,
    (resets counter).count thread + pendingReset (threads thread).toReset counter =
      (resets .lookups).count thread

/-- The first of the counters left is not left twice, and only `lookups` itself is
left with `lookups`. -/
theorem resetOrder_suffix {counter : Counter} {rest : List Counter}
    (suffix : counter :: rest <:+ Counter.resetOrder) :
    rest <:+ Counter.resetOrder ∧ counter ∉ rest ∧
      (.lookups ∈ counter :: rest → counter = .lookups) ∧
      (counter = .lookups → rest = Counter.resetOrder.tail) := by
  have tails := (List.mem_tails _ _).mpr suffix
  simp only [Counter.resetOrder, List.tails, List.mem_cons, List.cons.injEq, List.not_mem_nil,
    reduceCtorEq, or_false] at tails
  refine ⟨(List.suffix_cons counter rest).trans suffix, ?_⟩
  rcases tails with ⟨rfl, rfl⟩ | ⟨rfl, rfl⟩ | ⟨rfl, rfl⟩ | ⟨rfl, rfl⟩ | ⟨rfl, rfl⟩ | ⟨rfl, rfl⟩ |
    ⟨rfl, rfl⟩ <;> decide

/-- Once `lookups` is reset, every other counter is left. -/
theorem pendingReset_tail (counter : Counter) :
    pendingReset Counter.resetOrder.tail counter = if counter = .lookups then 0 else 1 := by
  cases counter <;> rfl

namespace Cleared

variable {threads : ThreadId → Control} {resets : Counter → Multiset ThreadId}
  {thread : ThreadId} {control : Control}

/-- A step that resets nothing. -/
theorem still (cleared : Cleared threads resets) (idle : (threads thread).toReset = [])
    (follows : control.toReset = [] ∨ control.toReset = Counter.resetOrder) :
    Cleared (Function.update threads thread control) resets where
  order := fun other => by
    by_cases moved : other = thread
    · subst moved
      rw [Function.update_self]
      rcases follows with none | all
      · rw [none]
        exact List.nil_suffix
      · rw [all]
    · rw [Function.update_of_ne moved]
      exact cleared.order other
  counts := fun other counter => by
    by_cases moved : other = thread
    · subst moved
      have before := cleared.counts other counter
      rw [Function.update_self]
      rw [idle] at before
      rcases follows with none | all
      · rwa [none]
      · rw [all]
        exact before
    · rw [Function.update_of_ne moved]
      exact cleared.counts other counter

/-- A reset of the next counter. -/
theorem reset (cleared : Cleared threads resets) {counter : Counter} {rest : List Counter}
    (resetting : (threads thread).toReset = counter :: rest) (follows : control.toReset = rest) :
    Cleared (Function.update threads thread control)
      (Function.update resets counter (thread ::ₘ resets counter)) := by
  have suffix := cleared.order thread
  rw [resetting] at suffix
  obtain ⟨restSuffix, fresh, onlyFirst, afterFirst⟩ := resetOrder_suffix suffix
  refine ⟨fun other => ?_, fun other left => ?_⟩
  · by_cases moved : other = thread
    · subst moved
      rwa [Function.update_self, follows]
    · rw [Function.update_of_ne moved]
      exact cleared.order other
  · have before := cleared.counts other left
    by_cases moved : other = thread
    · subst moved
      rw [Function.update_self, follows]
      rw [resetting] at before
      by_cases first : counter = .lookups
      · subst first
        obtain rfl := afterFirst rfl
        have beforeNone : pendingReset (.lookups :: Counter.resetOrder.tail) left = 0 := rfl
        rw [beforeNone, Nat.add_zero] at before
        rw [Function.update_self, Multiset.count_cons_self, pendingReset_tail]
        split_ifs with same
        · subst same
          rw [Function.update_self, Multiset.count_cons_self, Nat.add_zero]
        · rw [Function.update_of_ne same, before]
      · have notLeft : .lookups ∉ rest := fun member =>
          first (onlyFirst (List.mem_cons_of_mem _ member))
        rw [Function.update_of_ne (Ne.symm first)]
        by_cases same : left = counter
        · subst same
          have owed : pendingReset (left :: rest) left = 1 := by
            simp [pendingReset, notLeft, Ne.symm first]
          have done : pendingReset rest left = 0 := by simp [pendingReset, fresh]
          rw [owed] at before
          rw [Function.update_self, Multiset.count_cons_self, done]
          exact before
        · have unchanged : pendingReset rest left = pendingReset (counter :: rest) left := by
            simp [pendingReset, same, Ne.symm first]
          rw [Function.update_of_ne same, unchanged]
          exact before
    · have unchanged : ∀ some : Counter,
          (Function.update resets counter (thread ::ₘ resets counter) some).count other =
            (resets some).count other := by
        intro some
        by_cases same : some = counter
        · subst same
          rw [Function.update_self, Multiset.count_cons_of_ne moved]
        · rw [Function.update_of_ne same]
      rw [Function.update_of_ne moved, unchanged, unchanged]
      exact before

/-- With no clear in progress every counter was reset by the same clears. -/
theorem resets_eq (cleared : Cleared threads resets)
    (quiet : ∀ thread, (threads thread).toReset = []) (counter : Counter) :
    resets counter = resets .lookups := by
  refine Multiset.ext.mpr fun thread => ?_
  have counts := cleared.counts thread counter
  rwa [quiet thread] at counts

end Cleared

end RustySsr.Cache
