import Mathlib.Algebra.BigOperators.Group.Finset.Basic
import Mathlib.Algebra.Order.BigOperators.Group.Finset
import Mathlib.Data.List.Basic

/-!
Owns counts over a growing list of records of which one changes at a time: what
a change of one record does to a count, and when a count needs only the first
records. Nothing here knows what the records say.
-/

namespace RustySsr.Foundation.Tally

universe u

variable {α : Type u} {records : List α} {counted : α → Bool}

/-- After a change every record is an old one or the changed one. -/
theorem mem_modify {position : Nat} {record other : α} {change : α → α}
    (present : records[position]? = some record) (member : other ∈ records.modify position change) :
    other ∈ records ∨ other = change record := by
  obtain ⟨place, found⟩ := List.mem_iff_getElem?.mp member
  rw [List.getElem?_modify] at found
  by_cases same : position = place
  · subst same
    rw [present] at found
    exact Or.inr (by simpa using found.symm)
  · exact Or.inl (List.mem_of_getElem? (by simpa [same] using found))

/-- A changed record is counted by what it says now, in place of what it said. -/
theorem countP_modify {position : Nat} {record : α} (present : records[position]? = some record)
    (counted : α → Bool) (change : α → α) :
    (records.modify position change).countP counted + (if counted record then 1 else 0) =
      records.countP counted + if counted (change record) then 1 else 0 := by
  induction records generalizing position with
  | nil => simp at present
  | cons first rest inductionHypothesis =>
      cases position with
      | zero =>
          obtain rfl : first = record := by simpa using present
          rw [List.modify_zero_cons, List.countP_cons, List.countP_cons]
          omega
      | succ position =>
          have tail := @inductionHypothesis position (by simpa using present)
          rw [List.modify_succ_cons, List.countP_cons, List.countP_cons]
          omega

/-- A change into the count adds one. -/
theorem countP_modify_enters {position : Nat} {record : α} {change : α → α}
    (present : records[position]? = some record) (outside : counted record = false)
    (enters : counted (change record) = true) :
    (records.modify position change).countP counted = records.countP counted + 1 := by
  have changed := countP_modify present counted change
  rwa [if_neg (Bool.eq_false_iff.mp outside), if_pos enters] at changed

/-- A change that the count does not see. -/
theorem countP_modify_unseen {change : α → α}
    (unseen : ∀ record, counted (change record) = counted record) (records : List α)
    (position : Nat) :
    (records.modify position change).countP counted = records.countP counted := by
  cases present : records[position]? with
  | none => rw [List.modify_eq_self (List.getElem?_eq_none_iff.mp present)]
  | some record =>
      have changed := countP_modify present counted change
      rw [unseen] at changed
      exact Nat.add_right_cancel changed

/-- A change that takes no record out of a count only raises it. -/
theorem countP_le_modify {change : α → α}
    (keeps : ∀ record, counted record = true → counted (change record) = true)
    (records : List α) (position : Nat) :
    records.countP counted ≤ (records.modify position change).countP counted := by
  cases present : records[position]? with
  | none =>
      have same := List.modify_eq_self (f := change) (List.getElem?_eq_none_iff.mp present)
      exact Nat.le_of_eq (congrArg (List.countP counted) same).symm
  | some record =>
      have changed := countP_modify present counted change
      by_cases isCounted : counted record = true
      · rw [if_pos isCounted, if_pos (keeps record isCounted)] at changed
        exact Nat.le_of_eq (Nat.add_right_cancel changed).symm
      · rw [if_neg isCounted] at changed
        omega

/-- Two counts that share no record. -/
theorem countP_or_of_disjoint {first second : α → Bool}
    (disjoint : ∀ record ∈ records, first record = true → second record = false) :
    records.countP (fun record => first record || second record) =
      records.countP first + records.countP second := by
  induction records with
  | nil => rfl
  | cons record rest inductionHypothesis =>
      have apart := disjoint record List.mem_cons_self
      have tail := inductionHypothesis fun other member =>
        disjoint other (List.mem_cons_of_mem _ member)
      rw [List.countP_cons, List.countP_cons, List.countP_cons, tail]
      cases isFirst : first record with
      | false => simp [Nat.add_assoc]
      | true =>
          rw [apart isFirst]
          simp [Nat.add_right_comm]

/-- Where only the first records are counted, the first records give the count. -/
theorem countP_take_of_early {early : Nat}
    (isEarly : ∀ (position : Nat) record, records[position]? = some record →
      counted record = true → position < early) :
    (records.take early).countP counted = records.countP counted := by
  have late : (records.drop early).countP counted = 0 := by
    rw [List.countP_eq_zero]
    intro record member isCounted
    obtain ⟨offset, present⟩ := List.mem_iff_getElem?.mp member
    rw [List.getElem?_drop] at present
    exact absurd (isEarly _ record present isCounted) (by omega)
  have split := congrArg (List.countP counted) (List.take_append_drop early records)
  rw [List.countP_append, late] at split
  exact split

/-- The occurrences of some members are at most all occurrences. -/
theorem sum_count_le_length [DecidableEq α] (members : Finset α) (list : List α) :
    ∑ member ∈ members, list.count member ≤ list.length := by
  have outside : ∀ member ∈ members ∪ list.toFinset, member ∉ list.toFinset →
      list.count member = 0 := by
    intro member _ absent
    exact List.count_eq_zero.mpr fun present => absent (List.mem_toFinset.mpr present)
  calc ∑ member ∈ members, list.count member
      ≤ ∑ member ∈ members ∪ list.toFinset, list.count member :=
        Finset.sum_le_sum_of_subset Finset.subset_union_left
    _ = ∑ member ∈ list.toFinset, list.count member :=
        (Finset.sum_subset Finset.subset_union_right outside).symm
    _ = list.length := List.sum_toFinset_count_eq_length list

end RustySsr.Foundation.Tally
