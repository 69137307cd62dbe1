import RustySsr.Http.Message

/-!
Owns the `Accept-Encoding` field: a list of codings, each with an optional
weight, and what it says about one coding. Weights are counted in thousandths,
the finest that the grammar can write. An element outside the grammar names no
coding. Nothing here knows what a server does with the field.
-/

namespace RustySsr.Http

/-- The characters of a token. -/
def isTokenChar (c : Char) : Bool := c.isAlphanum || "!#$%&'*+-.^_`|~".toList.contains c

/-- Thousandths, from at most three digits after the point. -/
def thousandths (digits : List Char) : Option Nat :=
  if digits.length ≤ 3 ∧ digits.all Char.isDigit = true then
    some ((digits.rightpad 3 '0').foldl
      (fun number digit => 10 * number + (digit.toNat - '0'.toNat)) 0)
  else none

/-- `qvalue`: a number from 0 to 1. -/
def qvalue : List Char → Option Nat
  | ['0'] => some 0
  | ['1'] => some 1000
  | '0' :: '.' :: digits => thousandths digits
  | '1' :: '.' :: digits =>
      (thousandths digits).bind fun fraction => if fraction = 0 then some 1000 else none
  | _ => none

/-- A coding that a client names, and how much it wants it. -/
structure Preference where
  coding : String
  weight : Nat
deriving DecidableEq, Repr

/-- `codings [ weight ]`, where blanks may surround the semicolon. The element is
in lower case and has none around it. -/
def preference (element : String) : Option Preference :=
  let named (coding : List Char) (weight : Nat) :=
    if coding ≠ [] ∧ coding.all isTokenChar = true then
      some ⟨String.ofList coding, weight⟩
    else none
  match element.toList.splitOn ';' with
  | [coding] => named coding 1000
  | [coding, weight] =>
      match weight.dropWhile isBlank with
      | 'q' :: '=' :: number => (qvalue number).bind (named (coding.rdropWhile isBlank))
      | _ => none
  | _ => none

/-- The codings of the field, over all lines of it. -/
def HeaderMap.preferences (headers : HeaderMap) : List Preference :=
  (headers.listed "accept-encoding").filterMap preference

/-- The field names the coding, or every other one, with a positive weight, and
does not name the coding with weight zero. -/
def HeaderMap.AcceptsCoding (headers : HeaderMap) (coding : String) : Prop :=
  (∃ wanted ∈ headers.preferences,
      (wanted.coding = coding ∨ wanted.coding = "*") ∧ 0 < wanted.weight) ∧
    ¬ ∃ refused ∈ headers.preferences, refused.coding = coding ∧ refused.weight = 0

/-- The field names the coding, and never with weight zero, or leaves it to a
wildcard. -/
theorem HeaderMap.acceptsCoding_iff {headers : HeaderMap} {coding : String} :
    headers.AcceptsCoding coding ↔
      (∀ named ∈ headers.preferences, named.coding = coding → named.weight ≠ 0) ∧
        ((∃ named ∈ headers.preferences, named.coding = coding) ∨
          ∃ wildcard ∈ headers.preferences, wildcard.coding = "*" ∧ wildcard.weight ≠ 0) := by
  constructor
  · rintro ⟨⟨wanted, listed, sameCoding | wildcard, positive⟩, noneRefused⟩
    · exact ⟨fun named member same zero => noneRefused ⟨named, member, same, zero⟩,
        Or.inl ⟨wanted, listed, sameCoding⟩⟩
    · exact ⟨fun named member same zero => noneRefused ⟨named, member, same, zero⟩,
        Or.inr ⟨wanted, listed, wildcard, Nat.ne_of_gt positive⟩⟩
  · rintro ⟨nonzero, ⟨named, listed, same⟩ | ⟨wildcard, listed, isWildcard, weight⟩⟩
    · refine ⟨⟨named, listed, Or.inl same, Nat.pos_of_ne_zero (nonzero named listed same)⟩, ?_⟩
      rintro ⟨refused, member, sameCoding, zero⟩
      exact nonzero refused member sameCoding zero
    · refine ⟨⟨wildcard, listed, Or.inr isWildcard, Nat.pos_of_ne_zero weight⟩, ?_⟩
      rintro ⟨refused, member, sameCoding, zero⟩
      exact nonzero refused member sameCoding zero

end RustySsr.Http
