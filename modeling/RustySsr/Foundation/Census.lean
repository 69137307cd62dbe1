import Mathlib.Algebra.BigOperators.Group.Finset.Basic
import Mathlib.Algebra.Order.BigOperators.Group.Finset

/-!
Owns the count of what the members of a finite family stand for, when one of
them changes at a time. Nothing here knows who the members are.
-/

namespace RustySsr.Foundation

universe u v

variable {ι : Type u} {α : Type v} [Fintype ι]

/-- The weights of all members together. -/
def census (weight : α → Nat) (family : ι → α) : Nat := ∑ member, weight (family member)

/-- Members of weight at most one weigh together at most their number. -/
theorem census_le_card {weight : α → Nat} (light : ∀ value, weight value ≤ 1)
    (family : ι → α) : census weight family ≤ Fintype.card ι := by
  have bound := Finset.sum_le_card_nsmul Finset.univ (fun member => weight (family member)) 1
    fun member _ => light (family member)
  simpa [census] using bound

/-- The change of one of some members exchanges its weight. -/
theorem sum_weight_update {ι : Type u} [DecidableEq ι] {members : Finset ι} {member : ι}
    (inside : member ∈ members) (weight : α → Nat) (family : ι → α) (value : α) :
    ∑ other ∈ members, weight (Function.update family member value other) +
        weight (family member) =
      ∑ other ∈ members, weight (family other) + weight value := by
  have others : ∑ other ∈ members.erase member,
        weight (Function.update family member value other) =
      ∑ other ∈ members.erase member, weight (family other) :=
    Finset.sum_congr rfl fun other inOthers => by
      rw [Function.update_of_ne (Finset.ne_of_mem_erase inOthers)]
  have before := Finset.add_sum_erase members (fun other => weight (family other)) inside
  have after := Finset.add_sum_erase members
    (fun other => weight (Function.update family member value other)) inside
  simp only [Function.update_self] at after
  rw [others] at after
  omega

theorem census_update [DecidableEq ι] (weight : α → Nat) (family : ι → α) (member : ι)
    (value : α) :
    census weight (Function.update family member value) + weight (family member) =
      census weight family + weight value :=
  sum_weight_update (Finset.mem_univ member) weight family value

end RustySsr.Foundation
