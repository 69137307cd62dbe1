import RustySsr.Middleware.Brotli
import RustySsr.Platform.Path

/-!
Owns which files `brotli_static` can reach. It looks for two adjacent dots in
the path alone, while the name it opens has a dot before the path and a suffix
that starts with one; `brotliStatic_staysBelow` states that neither makes a
parent component.
-/

namespace RustySsr.Middleware

open RustySsr.Http
open RustySsr.Foundation
open RustySsr.Platform.Path

/-- An origin-form path, as HTTP requests carry it. -/
def IsOriginForm (path : String) : Prop := "/".toList <+: path.toList

/-- The suffix ends in a letter, so it completes no parent component. -/
theorem parent_notMem_of_suffix {text : List Char} (noDots : ¬ ['.', '.'] <:+: text) :
    ['.', '.'] ∉ (text ++ ['.', 'b', 'r']).splitOn '/' := by
  intro member
  rcases Pieces.mem_splitOn_append (by decide) member with within | ends
  · exact noDots (Pieces.infix_of_mem_splitOn within)
  · exact absurd ends (by decide)

/-- The dot in front is a component of its own, as the path starts with a slash. -/
theorem staysBelow_brPath {path : String} (origin : IsOriginForm path)
    (noDots : containsText path ".." = false) : StaysBelow ("." ++ path ++ ".br") := by
  obtain ⟨rest, split⟩ := origin
  have name : ("." ++ path ++ ".br").toList = '.' :: '/' :: (rest ++ ['.', 'b', 'r']) := by
    rw [String.toList_append, String.toList_append, ← split]
    rfl
  have noDotsInRest : ¬ ['.', '.'] <:+: rest := by
    intro within
    have inPath : ['.', '.'] <:+: path.toList :=
      split ▸ within.trans (List.suffix_cons '/' rest).isInfix
    exact of_decide_eq_false noDots inPath
  refine StaysBelow.of_noParent ?_ ?_
  · unfold IsRelative
    rw [name]
    simp
  · rw [mem_components_iff, name]
    have front : ('.' :: '/' :: (rest ++ ['.', 'b', 'r'])).splitOn '/' =
        ['.'] :: (rest ++ ['.', 'b', 'r']).splitOn '/' := by
      show (['.'] ++ '/' :: (rest ++ ['.', 'b', 'r'])).splitOn '/' = _
      exact Pieces.splitOn_front (by decide) _
    rw [front, List.mem_cons]
    rintro (dot | later)
    · exact absurd dot (by decide)
    · exact parent_notMem_of_suffix noDotsInRest later

/-- **`brotli_static` never leaves the working directory.** For a path that
passes its check, the name it tests and reads stays below; and what it answers
depends on no other file. -/
theorem brotliStatic_staysBelow (request : Request) (origin : IsOriginForm request.path) :
    (containsText request.path ".." = false → StaysBelow ("." ++ request.path ++ ".br")) ∧
      ∀ files others next,
        (∀ name, StaysBelow name →
          files.contains name = others.contains name ∧ files.read name = others.read name) →
        brotliStatic files request next = brotliStatic others request next := by
  refine ⟨staysBelow_brPath origin, fun files others next agree => ?_⟩
  unfold brotliStatic
  cases dots : containsText request.path ".." with
  | true => rfl
  | false =>
      obtain ⟨sameTest, sameContent⟩ := agree _ (staysBelow_brPath origin dots)
      simp only [sameTest, sameContent]

/-- A path whose components start and end with dots. -/
theorem staysBelow_dotted : StaysBelow ("." ++ "/.well-known/." ++ ".br") :=
  (brotliStatic_staysBelow ⟨"/.well-known/.", HeaderMap.empty⟩ (by unfold IsOriginForm; decide)).1
    (by decide +kernel)

/-- The check is needed: without it a name may lead out. -/
example : ¬ ["srv", "app"] <+: resolve ["srv", "app"] (components ("." ++ "/../key" ++ ".br")) := by
  decide +kernel

end RustySsr.Middleware
