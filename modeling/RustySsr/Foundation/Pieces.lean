import Mathlib.Data.List.Infix

/-!
Owns what the pieces of a text between separators are. Every text is a single
piece, or a first piece, a separator and a shorter text; `pieces_induction`
follows this. Nothing here knows what the separators separate.
-/

namespace RustySsr.Foundation.Pieces

universe u

variable {α : Type u} [DecidableEq α] {separator : α}

/-- A text without separators, or a piece in front of a text. -/
theorem pieces_induction (separator : α) {motive : List α → Prop}
    (single : ∀ text, separator ∉ text → motive text)
    (front : ∀ piece rest, separator ∉ piece → motive rest → motive (piece ++ separator :: rest))
    (text : List α) : motive text := by
  by_cases present : separator ∈ text
  · obtain ⟨piece, rest, split, absent⟩ := List.eq_append_cons_of_mem present
    have shorter : rest.length < text.length := by
      rw [split, List.length_append, List.length_cons]
      omega
    rw [split]
    exact front piece rest absent (pieces_induction separator single front rest)
  · exact single text present
termination_by text.length

theorem splitOn_front {piece : List α} (absent : separator ∉ piece) (rest : List α) :
    (piece ++ separator :: rest).splitOn separator = piece :: rest.splitOn separator :=
  List.splitOn_append_cons_self_of_not_mem absent rest

theorem infix_of_mem_splitOn {text piece : List α} (member : piece ∈ text.splitOn separator) :
    piece <:+: text := by
  induction text using pieces_induction separator with
  | single text absent =>
      rw [List.splitOn_eq_singleton absent, List.mem_singleton] at member
      exact member ▸ List.infix_rfl
  | front first rest absent inductionHypothesis =>
      rw [splitOn_front absent, List.mem_cons] at member
      rcases member with rfl | later
      · exact (List.prefix_append piece _).isInfix
      · exact ((inductionHypothesis later).trans (List.suffix_cons _ rest).isInfix).trans
          (List.suffix_append first _).isInfix

/-- A suffix without separators extends the last piece and no other. -/
theorem mem_splitOn_append {text suffix piece : List α} (absent : separator ∉ suffix)
    (member : piece ∈ (text ++ suffix).splitOn separator) :
    piece ∈ text.splitOn separator ∨ suffix <:+ piece := by
  induction text using pieces_induction separator with
  | single text absentBefore =>
      have absentBoth : separator ∉ text ++ suffix := by simp [absent, absentBefore]
      rw [List.splitOn_eq_singleton absentBoth, List.mem_singleton] at member
      exact Or.inr (member ▸ List.suffix_append text suffix)
  | front first rest absentFirst inductionHypothesis =>
      rw [List.append_assoc, List.cons_append, splitOn_front absentFirst, List.mem_cons] at member
      rw [splitOn_front absentFirst, List.mem_cons]
      rcases member with rfl | later
      · exact Or.inl (Or.inl rfl)
      · exact (inductionHypothesis later).imp Or.inr id

end RustySsr.Foundation.Pieces
