import Mathlib.Data.List.Basic
import Mathlib.Data.List.Nodup

/-!
Owns recency lists: keyed values, newest first, each key at most once. They are
the reference that caches with an eviction by age are compared with. Nothing
here knows which cache, or when it evicts.
-/

namespace RustySsr.Foundation.Recency

universe u v

variable {κ : Type u} {ν : Type v}

/-- No key occurs twice. -/
def Distinct (items : List (κ × ν)) : Prop := (items.map Prod.fst).Nodup

theorem Distinct.sublist {items fewer : List (κ × ν)} (distinct : Distinct items)
    (sublist : fewer.Sublist items) : Distinct fewer :=
  List.Nodup.sublist (sublist.map Prod.fst) distinct

/-- The first key occurs in the log after the last occurrence of the second. -/
def MoreRecent (log : List κ) (key other : κ) : Prop :=
  ∃ earlier later, log = earlier ++ key :: later ∧ other ∉ later

/-- What is more recent among keys other than the last one was so before it. -/
theorem moreRecent_snoc {log : List κ} {last key other : κ} (different : key ≠ last)
    (moreRecent : MoreRecent (log ++ [last]) key other) :
    other ≠ last ∧ MoreRecent log key other := by
  obtain ⟨earlier, later, split, absent⟩ := moreRecent
  rcases List.eq_nil_or_concat later with rfl | ⟨later, final, rfl⟩
  · have same : last = key := by simpa using congrArg List.getLast? split
    exact absurd same.symm different
  · rw [List.concat_eq_append] at split absent
    rw [← List.cons_append, ← List.append_assoc] at split
    obtain ⟨sameLog, sameLast⟩ := List.append_inj' split rfl
    obtain rfl := List.singleton_inj.mp sameLast
    rw [List.mem_append, List.mem_singleton, not_or] at absent
    exact ⟨absent.2, earlier, later, sameLog, absent.1⟩

/-- The items stand in the order in which the log last mentions their keys. -/
def InOrder (log : List κ) (items : List (κ × ν)) : Prop :=
  items.Pairwise fun newer older => ¬ MoreRecent log older.1 newer.1

variable [DecidableEq κ]

/-- The items under the other keys. -/
def forget (items : List (κ × ν)) (key : κ) : List (κ × ν) :=
  items.filter fun item => item.1 ≠ key

/-- The value becomes the newest one, in place of any older value of its key. -/
def record (items : List (κ × ν)) (key : κ) (value : ν) : List (κ × ν) :=
  (key, value) :: forget items key

/-- The item of the key, if any, becomes the newest one. -/
def touch (items : List (κ × ν)) (key : κ) : List (κ × ν) :=
  match items.lookup key with
  | some value => record items key value
  | none => items

/-- With distinct keys a lookup finds exactly the items of the list. -/
theorem lookup_eq_some_iff {items : List (κ × ν)} (distinct : Distinct items) {key : κ}
    {value : ν} : items.lookup key = some value ↔ (key, value) ∈ items := by
  induction items with
  | nil => simp
  | cons item rest inductionHypothesis =>
      obtain ⟨itemKey, itemValue⟩ := item
      have restDistinct : Distinct rest := distinct.sublist (List.sublist_cons_self _ _)
      have headAbsent : itemKey ∉ rest.map Prod.fst := (List.nodup_cons.mp distinct).1
      by_cases same : key = itemKey
      · subst same
        have notInRest : (key, value) ∉ rest := fun member =>
          headAbsent (List.mem_map_of_mem member)
        simp [notInRest, eq_comm]
      · have differs : (key == itemKey) = false := beq_eq_false_iff_ne.mpr same
        simp [List.lookup_cons, differs, inductionHypothesis restDistinct, same]

theorem mem_forget_iff {items : List (κ × ν)} {key : κ} {item : κ × ν} :
    item ∈ forget items key ↔ item ∈ items ∧ item.1 ≠ key := by
  simp [forget]

theorem Distinct.forget {items : List (κ × ν)} (distinct : Distinct items) (key : κ) :
    Distinct (forget items key) :=
  distinct.sublist List.filter_sublist

theorem Distinct.record {items : List (κ × ν)} (distinct : Distinct items) (key : κ) (value : ν) :
    Distinct (record items key value) := by
  refine List.nodup_cons.mpr ⟨?_, distinct.forget key⟩
  intro member
  obtain ⟨item, kept, sameKey⟩ := List.mem_map.mp member
  exact (mem_forget_iff.mp kept).2 sameKey

theorem Distinct.touch {items : List (κ × ν)} (distinct : Distinct items) (key : κ) :
    Distinct (touch items key) := by
  unfold Recency.touch
  split
  · exact distinct.record key _
  · exact distinct

/-- Touching a key changes no value. -/
theorem lookup_touch {items : List (κ × ν)} (distinct : Distinct items) (key other : κ) :
    (touch items key).lookup other = items.lookup other := by
  refine Option.ext fun value => ?_
  rw [lookup_eq_some_iff (distinct.touch key), lookup_eq_some_iff distinct]
  unfold touch
  split
  · rename_i found present
    rw [record, List.mem_cons, mem_forget_iff, Prod.mk.injEq]
    constructor
    · rintro (⟨rfl, rfl⟩ | ⟨member, _⟩)
      · exact (lookup_eq_some_iff distinct).mp present
      · exact member
    · intro member
      by_cases same : other = key
      · subst same
        rw [(lookup_eq_some_iff distinct).mpr member, Option.some.injEq] at present
        exact Or.inl ⟨rfl, present⟩
      · exact Or.inr ⟨member, same⟩
  · rfl

/-- Without the keys of the items beyond a number the first ones are left. -/
theorem filter_notMem_drop {items : List (κ × ν)} (distinct : Distinct items) (kept : Nat) :
    (items.filter fun item => item.1 ∉ (items.drop kept).map Prod.fst) = items.take kept := by
  have parts := distinct
  rw [Distinct, ← List.take_append_drop kept items, List.map_append, List.nodup_append] at parts
  generalize lateEq : (items.drop kept).map Prod.fst = late at parts
  have first : (items.take kept).filter (fun item => item.1 ∉ late) = items.take kept := by
    rw [List.filter_eq_self]
    intro item member
    rw [decide_eq_true_iff]
    exact fun dropped => parts.2.2 _ (List.mem_map_of_mem member) _ dropped rfl
  have second : (items.drop kept).filter (fun item => item.1 ∉ late) = [] := by
    rw [List.filter_eq_nil_iff]
    intro item member
    rw [decide_eq_true_iff, ← lateEq]
    exact not_not.mpr (List.mem_map_of_mem member)
  calc items.filter (fun item => item.1 ∉ late)
      = (items.take kept ++ items.drop kept).filter (fun item => item.1 ∉ late) := by
        rw [List.take_append_drop]
    _ = items.take kept := by rw [List.filter_append, first, second, List.append_nil]

/-! ### Recency in a log -/

/-- Recording a key keeps the items in the order of the log that mentions it last. -/
theorem InOrder.record {log : List κ} {items : List (κ × ν)} (inOrder : InOrder log items)
    (key : κ) (value : ν) : InOrder (log ++ [key]) (record items key value) := by
  refine List.pairwise_cons.mpr ⟨fun older member moreRecent => ?_, ?_⟩
  · exact (moreRecent_snoc (mem_forget_iff.mp member).2 moreRecent).1 rfl
  · refine (inOrder.sublist List.filter_sublist).imp_of_mem ?_
    intro newer older _ olderMember notBefore moreRecent
    exact notBefore (moreRecent_snoc (mem_forget_iff.mp olderMember).2 moreRecent).2

/-! ### Images of the values -/

section Images

variable {ν' : Type*} (image : ν → ν')

/-- The items with the images of their values. -/
def mapValues (items : List (κ × ν)) : List (κ × ν') :=
  items.map fun item => (item.1, image item.2)

omit [DecidableEq κ] in
@[simp] theorem length_mapValues (items : List (κ × ν)) :
    (mapValues image items).length = items.length :=
  List.length_map _

omit [DecidableEq κ] in
theorem take_mapValues (items : List (κ × ν)) (kept : Nat) :
    (mapValues image items).take kept = mapValues image (items.take kept) :=
  List.map_take.symm

theorem lookup_mapValues (items : List (κ × ν)) (key : κ) :
    (mapValues image items).lookup key = (items.lookup key).map image := by
  induction items with
  | nil => rfl
  | cons item rest inductionHypothesis =>
      rw [mapValues, List.map_cons, List.lookup_cons, List.lookup_cons]
      split
      · rfl
      · exact inductionHypothesis

theorem forget_mapValues (items : List (κ × ν)) (key : κ) :
    forget (mapValues image items) key = mapValues image (forget items key) := by
  rw [forget, mapValues, List.filter_map]
  rfl

theorem record_mapValues (items : List (κ × ν)) (key : κ) (value : ν) :
    record (mapValues image items) key (image value) =
      mapValues image (record items key value) := by
  rw [record, forget_mapValues]
  rfl

end Images

end RustySsr.Foundation.Recency
