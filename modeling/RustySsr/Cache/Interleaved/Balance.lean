import RustySsr.Cache.Interleaved.Metrics
import RustySsr.Foundation.Tally

/-!
Owns the balance between the counters and the lookups they stand for: a counter
counts the lookups that were counted in it after its last reset. A lookup that
begins, a lookup that is counted in one more counter after the clears it began
after, and a reset all keep the balance.
-/

namespace RustySsr.Cache

open RustySsr.Foundation

/-- The counters that lookups are counted in. -/
def Counter.ofLookups : List Counter := [.lookups, .hotHits, .coldHits, .misses, .promotions]

/-- The lookup began after these clears and is counted in the counter. -/
def LookupRecord.standsIn (epoch : Multiset ThreadId) (counter : Counter)
    (record : LookupRecord) : Bool :=
  decide (counter ∈ record.counted ∧ record.epoch = epoch)

/-- The counters stand for the lookups that were counted in them since their last
resets. -/
structure Balanced (counts : Counter → Nat) (resets : Counter → Multiset ThreadId)
    (lookups : List LookupRecord) : Prop where
  begun : ∀ record ∈ lookups, Counter.lookups ∈ record.counted
  within : ∀ record ∈ lookups, ∀ counter ∈ record.counted, record.epoch ≤ resets counter
  tallied : ∀ counter ∈ Counter.ofLookups,
    counts counter = lookups.countP (LookupRecord.standsIn (resets counter) counter)
  bounded : ∀ epoch, lookups.countP (fun record => record.epoch = epoch) < 2 ^ 64

namespace Balanced

variable {counts : Counter → Nat} {resets : Counter → Multiset ThreadId}
  {lookups : List LookupRecord}

theorem nil : Balanced (fun _ => 0) (fun _ => 0) [] where
  begun := by simp
  within := by simp
  tallied := by simp
  bounded := by simp

/-- Only the counts of the counters that lookups are counted in matter. -/
theorem congr (balanced : Balanced counts resets lookups) {same : Counter → Nat}
    (agree : ∀ counter ∈ Counter.ofLookups, same counter = counts counter) :
    Balanced same resets lookups where
  begun := balanced.begun
  within := balanced.within
  tallied := fun counter member => (agree counter member).trans (balanced.tallied counter member)
  bounded := balanced.bounded

/-- Every lookup that began after the same clears is counted. -/
theorem countP_epoch (balanced : Balanced counts resets lookups) (epoch : Multiset ThreadId) :
    lookups.countP (fun record => record.epoch = epoch) =
      lookups.countP (LookupRecord.standsIn epoch .lookups) := by
  refine List.countP_congr fun record member => ?_
  simp [LookupRecord.standsIn, balanced.begun record member]

theorem begin (balanced : Balanced counts resets lookups)
    (room : counts .lookups + 1 < 2 ^ 64) :
    Balanced (Function.update counts .lookups (counts .lookups + 1)) resets
      (lookups ++ [⟨resets .lookups, [.lookups]⟩]) where
  begun := fun record member => by
    rcases List.mem_append.mp member with old | new
    · exact balanced.begun record old
    · rw [List.mem_singleton.mp new]
      exact List.mem_singleton_self _
  within := fun record member counter counted => by
    rcases List.mem_append.mp member with old | new
    · exact balanced.within record old counter counted
    · rw [List.mem_singleton.mp new] at counted ⊢
      rw [List.mem_singleton.mp counted]
  tallied := fun counter member => by
    rw [List.countP_append, ← balanced.tallied counter member]
    by_cases same : counter = .lookups
    · subst same
      simp [LookupRecord.standsIn]
    · simp [LookupRecord.standsIn, same]
  bounded := fun epoch => by
    rw [List.countP_append, List.countP_singleton]
    split_ifs with now
    · rw [← of_decide_eq_true now, balanced.countP_epoch, ← balanced.tallied _ (by decide)]
      exact room
    · exact balanced.bounded epoch

theorem count (balanced : Balanced counts resets lookups) {position : Nat}
    {record : LookupRecord} (present : lookups[position]? = some record) {counter : Counter}
    (fresh : counter ∉ record.counted) (together : record.epoch = resets counter) :
    Balanced (Function.update counts counter (counts counter + 1)) resets
      (lookups.modify position (LookupRecord.count counter)) where
  begun := fun other member => by
    rcases Tally.mem_modify present member with old | rfl
    · exact balanced.begun other old
    · exact List.mem_append_left _ (balanced.begun record (List.mem_of_getElem? present))
  within := fun other member already counted => by
    rcases Tally.mem_modify present member with old | rfl
    · exact balanced.within other old already counted
    · rcases List.mem_append.mp counted with before | now
      · exact balanced.within record (List.mem_of_getElem? present) already before
      · rw [List.mem_singleton.mp now]
        exact together.le
  tallied := fun other member => by
    by_cases same : other = counter
    · subst same
      have outside : record.standsIn (resets other) other = false := by
        simp [LookupRecord.standsIn, fresh]
      have enters : (record.count other).standsIn (resets other) other = true := by
        simp [LookupRecord.standsIn, LookupRecord.count, together]
      rw [Function.update_self, balanced.tallied other member,
        Tally.countP_modify_enters present outside enters]
    · rw [Function.update_of_ne same, balanced.tallied other member]
      refine (Tally.countP_modify_unseen (fun record => ?_) lookups position).symm
      simp [LookupRecord.standsIn, LookupRecord.count, same]
  bounded := fun epoch => by
    have unseen : ∀ other : LookupRecord,
        decide ((other.count counter).epoch = epoch) = decide (other.epoch = epoch) :=
      fun _ => rfl
    rw [Tally.countP_modify_unseen unseen]
    exact balanced.bounded epoch

/-- A reset starts the counter again: no lookup began after this clear yet. -/
theorem reset (balanced : Balanced counts resets lookups) (thread : ThreadId) (counter : Counter) :
    Balanced (Function.update counts counter 0)
      (Function.update resets counter (thread ::ₘ resets counter)) lookups where
  begun := balanced.begun
  within := fun record member other counted => by
    have before := balanced.within record member other counted
    by_cases same : other = counter
    · subst same
      rw [Function.update_self]
      exact before.trans (Multiset.le_cons_self _ _)
    · rwa [Function.update_of_ne same]
  tallied := fun other member => by
    by_cases same : other = counter
    · subst same
      rw [Function.update_self, Function.update_self]
      refine (List.countP_eq_zero.mpr fun record inLookups stands => ?_).symm
      obtain ⟨counted, later⟩ := of_decide_eq_true stands
      have before := Multiset.card_le_card (balanced.within record inLookups other counted)
      rw [later, Multiset.card_cons] at before
      exact absurd before (Nat.not_succ_le_self _)
    · rw [Function.update_of_ne same, Function.update_of_ne same]
      exact balanced.tallied other member
  bounded := balanced.bounded

end Balanced

end RustySsr.Cache
