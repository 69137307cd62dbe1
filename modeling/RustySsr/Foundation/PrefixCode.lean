import Mathlib.Data.List.Basic

/-!
Owns texts that are written one word for each letter, up to an end mark. If the
words of different letters differ where they begin, and none of them begins with
the mark, then what is written up to the mark determines the text.
-/

namespace RustySsr.Foundation

universe u v

/-- The words of the letters, and the mark at the end, are told apart where they
begin. -/
structure PrefixCode {α : Type u} {β : Type v} (Letter : α → Prop) (word : α → List β)
    (mark : β) : Prop where
  apart : ∀ {first second rest other}, Letter first → Letter second →
    word first ++ rest = word second ++ other → first = second
  unmarked : ∀ {letter rest other}, Letter letter → word letter ++ rest ≠ mark :: other

namespace PrefixCode

variable {α : Type u} {β : Type v} {Letter : α → Prop} {word : α → List β} {mark : β}

/-- Letters that are written as themselves, and a mark that is none of them. -/
theorem singletons {Letter : α → Prop} {mark : α} (outside : ¬ Letter mark) :
    PrefixCode Letter (fun letter => [letter]) mark where
  apart := fun _ _ same => (List.cons.inj same).1
  unmarked := fun {letter _ _} isLetter same =>
    outside ((List.cons.inj same : letter = mark ∧ _).1 ▸ isLetter)

/-- Two texts that are written alike up to their marks are the same text. -/
theorem cancel (code : PrefixCode Letter word mark) {left right : List α}
    (leftLetters : ∀ c ∈ left, Letter c) (rightLetters : ∀ c ∈ right, Letter c)
    {rest other : List β}
    (same : left.flatMap word ++ mark :: rest = right.flatMap word ++ mark :: other) :
    left = right ∧ rest = other := by
  induction left generalizing right with
  | nil =>
      cases right with
      | nil => exact ⟨rfl, (List.cons.inj same).2⟩
      | cons letter right =>
          rw [List.flatMap_cons, List.append_assoc] at same
          exact absurd same.symm (code.unmarked (List.forall_mem_cons.mp rightLetters).1)
  | cons letter left inductionHypothesis =>
      obtain ⟨isLetter, leftTail⟩ := List.forall_mem_cons.mp leftLetters
      cases right with
      | nil =>
          rw [List.flatMap_cons, List.append_assoc] at same
          exact absurd same (code.unmarked isLetter)
      | cons second right =>
          obtain ⟨alsoLetter, rightTail⟩ := List.forall_mem_cons.mp rightLetters
          rw [List.flatMap_cons, List.flatMap_cons, List.append_assoc, List.append_assoc] at same
          obtain rfl := code.apart isLetter alsoLetter same
          obtain ⟨equal, restEqual⟩ :=
            inductionHypothesis leftTail rightTail (List.append_cancel_left same)
          exact ⟨congrArg (letter :: ·) equal, restEqual⟩

end PrefixCode

end RustySsr.Foundation
