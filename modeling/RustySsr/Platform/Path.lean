import RustySsr.Foundation.Pieces

/-!
Owns file names as the components between their slashes, and what a name
resolves to, one component after the other and without symbolic links. A name
that never goes up stays where it starts: `StaysBelow.of_noParent`.
-/

namespace RustySsr.Platform.Path

open RustySsr.Foundation

/-- The components of a name, empty ones included. -/
def components (name : String) : List String :=
  (name.toList.splitOn '/').map String.ofList

/-- The name does not start at the root. -/
def IsRelative (name : String) : Prop := ¬ ['/'] <+: name.toList

/-- A directory, by the names that lead to it from the root. -/
abbrev Directory := List String

/-- One step of a resolution. The root is its own parent. -/
def enter (directory : Directory) (component : String) : Directory :=
  if component = "" ∨ component = "." then directory
  else if component = ".." then directory.dropLast
  else directory ++ [component]

def resolve (directory : Directory) (names : List String) : Directory :=
  names.foldl enter directory

/-- A relative name without a parent component, so that no initial part of it
leads out of the directory in which it is resolved. -/
structure StaysBelow (name : String) : Prop where
  relative : IsRelative name
  noParent : ".." ∉ components name
  below : ∀ directory upTo, upTo <+: components name → directory <+: resolve directory upTo

theorem prefix_enter (directory : Directory) {component : String} (down : component ≠ "..") :
    directory <+: enter directory component := by
  unfold enter
  split_ifs with stays
  · exact List.prefix_rfl
  · exact List.prefix_append directory [component]

theorem prefix_resolve {names : List String} (down : ".." ∉ names) (directory : Directory) :
    directory <+: resolve directory names := by
  induction names generalizing directory with
  | nil => exact List.prefix_rfl
  | cons component names inductionHypothesis =>
      obtain ⟨first, rest⟩ := not_or.mp (List.mem_cons.not.mp down)
      have entered := prefix_enter directory (Ne.symm first)
      exact entered.trans (inductionHypothesis rest (enter directory component))

/-- A relative name stays below where it starts if none of its components goes
up. -/
theorem StaysBelow.of_noParent {name : String} (relative : IsRelative name)
    (noParent : ".." ∉ components name) : StaysBelow name where
  relative := relative
  noParent := noParent
  below := fun directory _ initial =>
    prefix_resolve (fun member => noParent (initial.subset member)) directory

theorem mem_components_iff {name component : String} :
    component ∈ components name ↔ component.toList ∈ name.toList.splitOn '/' := by
  rw [components, List.mem_map]
  constructor
  · rintro ⟨piece, member, rfl⟩
    rwa [String.toList_ofList]
  · intro member
    exact ⟨component.toList, member, String.ofList_toList⟩

end RustySsr.Platform.Path
