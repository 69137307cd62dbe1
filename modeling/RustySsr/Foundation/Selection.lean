import Mathlib.Data.List.Perm.Subperm
import Mathlib.Order.Lattice

/-!
Owns selections of the lowest-ranked elements of a list met one at a time: a
bounded number of candidates, none of them ranked above an element left out.
Each turn adds an element, swaps one in for a highest candidate, or skips it.
Where the ranks are distinct the selection is the end of the list in falling
order, whatever order the elements were met in. Nothing here knows what the
candidates are kept in.
-/

namespace RustySsr.Foundation

universe u v

variable {α : Type u} {β : Type v} [LinearOrder β] {rank : α → β} {count : Nat}
  {items chosen : List α}

/-- The chosen elements are as many as the count allows, and none is ranked above
one of the others. -/
structure Selects (rank : α → β) (count : Nat) (items chosen : List α) : Prop where
  length : chosen.length = min count items.length
  lowest : ∃ others, items.Perm (chosen ++ others) ∧
    ∀ low ∈ chosen, ∀ high ∈ others, rank low ≤ rank high

namespace Selects

theorem nil (rank : α → β) (count : Nat) : Selects rank count ([] : List α) [] where
  length := by simp
  lowest := ⟨[], List.Perm.refl _, by simp⟩

theorem perm (selects : Selects rank count items chosen) {same reordered : List α}
    (sameItems : items.Perm same) (sameChosen : chosen.Perm reordered) :
    Selects rank count same reordered where
  length := by rw [← sameChosen.length_eq, ← sameItems.length_eq, selects.length]
  lowest := by
    obtain ⟨others, split, below⟩ := selects.lowest
    exact ⟨others, sameItems.symm.trans (split.trans (sameChosen.append_right others)),
      fun low member => below low (sameChosen.mem_iff.mpr member)⟩

/-- With room left everything met so far is a candidate, and so is the next. -/
theorem add (selects : Selects rank count items chosen) (room : chosen.length < count)
    (item : α) : Selects rank count (item :: items) (item :: chosen) where
  length := by
    have counted := selects.length
    simp only [List.length_cons]
    omega
  lowest := by
    obtain ⟨others, split, _⟩ := selects.lowest
    have counted := selects.length
    have total := split.length_eq
    rw [List.length_append] at total
    obtain rfl : others = [] := List.length_eq_zero_iff.mp (by omega)
    exact ⟨[], split.cons item, by simp⟩

/-- An element ranked below a highest candidate takes its place once they are
enough. -/
theorem swap {top : α} (selects : Selects rank count items (top :: chosen))
    (full : count ≤ (top :: chosen).length)
    (highest : ∀ low ∈ chosen, rank low ≤ rank top) {item : α} (below : rank item < rank top) :
    Selects rank count (item :: items) (item :: chosen) where
  length := by
    have counted := selects.length
    simp only [List.length_cons] at *
    omega
  lowest := by
    obtain ⟨others, split, lowest⟩ := selects.lowest
    refine ⟨top :: others, ?_, ?_⟩
    · exact (split.cons item).trans ((List.perm_middle.symm).cons item)
    · intro low chosenLow high outside
      have underTop : rank low ≤ rank top := by
        rcases List.mem_cons.mp chosenLow with rfl | old
        · exact below.le
        · exact highest low old
      rcases List.mem_cons.mp outside with rfl | old
      · exact underTop
      · exact underTop.trans (lowest top List.mem_cons_self high old)

/-- An element ranked above all candidates is left out then. -/
theorem skip (selects : Selects rank count items chosen) (full : count ≤ chosen.length) {item : α}
    (above : ∀ low ∈ chosen, rank low ≤ rank item) :
    Selects rank count (item :: items) chosen where
  length := by
    have counted := selects.length
    simp only [List.length_cons]
    omega
  lowest := by
    obtain ⟨others, split, lowest⟩ := selects.lowest
    refine ⟨item :: others, (split.cons item).trans List.perm_middle.symm, ?_⟩
    intro low chosenLow high outside
    rcases List.mem_cons.mp outside with rfl | old
    · exact above low chosenLow
    · exact lowest low chosenLow high old

/-- Of a list in falling order the selection is the end. -/
theorem perm_drop (selects : Selects rank count items chosen)
    (falling : items.Pairwise fun first second => rank second < rank first) :
    chosen.Perm (items.drop (items.length - count)) := by
  obtain ⟨others, split, lowest⟩ := selects.lowest
  have nodup : items.Nodup := falling.imp fun lower same => by simp [same] at lower
  have chosenNodup : chosen.Nodup := (List.nodup_append.mp (split.nodup nodup)).1
  have sameLength : chosen.length = (items.drop (items.length - count)).length := by
    rw [selects.length, List.length_drop]
    omega
  have ends : chosen ⊆ items.drop (items.length - count) := by
    by_contra escapes
    obtain ⟨high, chosenHigh, early⟩ :
        ∃ high ∈ chosen, high ∉ items.drop (items.length - count) := by
      simpa [List.subset_def] using escapes
    -- As many elements are at the end, so one of them is not chosen.
    obtain ⟨low, late, left⟩ : ∃ low ∈ items.drop (items.length - count), low ∉ chosen := by
      by_contra all
      push Not at all
      have endNodup := nodup.sublist (List.drop_sublist (items.length - count) items)
      have same := (List.subperm_of_subset endNodup all).perm_of_length_le (Nat.le_of_eq sameLength)
      exact early (same.mem_iff.mpr chosenHigh)
    have lowOther : low ∈ others := by
      have member := split.mem_iff.mp (List.mem_of_mem_drop late)
      exact (List.mem_append.mp member).resolve_left left
    have highFirst : high ∈ items.take (items.length - count) := by
      have member := split.mem_iff.mpr (List.mem_append_left others chosenHigh)
      rw [← List.take_append_drop (items.length - count) items, List.mem_append] at member
      exact member.resolve_right early
    rw [← List.take_append_drop (items.length - count) items, List.pairwise_append] at falling
    exact absurd (falling.2.2 high highFirst low late)
      (not_lt_of_ge (lowest high chosenHigh low lowOther))
  exact (List.subperm_of_subset chosenNodup ends).perm_of_length_le
    (Nat.le_of_eq sameLength.symm)

end Selects

end RustySsr.Foundation
