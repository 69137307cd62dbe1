import RustySsr.Ecmascript.Scanner

/-!
Owns the JSON grammar of RFC 8259 as a predicate on texts, and what it means to
a reader of ECMAScript: a JSON text that stands in code leaves the reader in
code, so nothing of it opens a literal that it does not close.
-/

namespace RustySsr.Ecmascript.Json

def IsSpace (text : List Char) : Prop := ∀ c ∈ text, c = ' ' ∨ c = '\t' ∨ c = '\n' ∨ c = '\r'

/-- A text of the grammar with insignificant whitespace around it. -/
def Padded (grammar : List Char → Prop) (text : List Char) : Prop :=
  ∃ before inner after, IsSpace before ∧ grammar inner ∧ IsSpace after ∧
    text = before ++ inner ++ after

def IsDigits (text : List Char) : Prop := text ≠ [] ∧ ∀ c ∈ text, c.isDigit = true

def hexLetters : List Char := ['a', 'b', 'c', 'd', 'e', 'f', 'A', 'B', 'C', 'D', 'E', 'F']

def IsHexDigit (c : Char) : Prop := c.isDigit = true ∨ c ∈ hexLetters

/-- One character of a string, as it is written. -/
inductive StringChar : List Char → Prop where
  | unescaped {c : Char} (visible : 0x20 ≤ c.toNat) (notQuote : c ≠ '\"') (notBackslash : c ≠ '\\') :
      StringChar [c]
  | escaped {c : Char} (short : c ∈ ['\"', '\\', '/', 'b', 'f', 'n', 'r', 't']) :
      StringChar ['\\', c]
  | unicode {digits : List Char} (four : digits.length = 4) (hex : ∀ c ∈ digits, IsHexDigit c) :
      StringChar ('\\' :: 'u' :: digits)

def IsString (text : List Char) : Prop :=
  ∃ chars, (∀ c ∈ chars, StringChar c) ∧ text = '\"' :: (List.flatten chars ++ ['\"'])

def IsFraction (text : List Char) : Prop := ∃ digits, IsDigits digits ∧ text = '.' :: digits

def IsExponent (text : List Char) : Prop :=
  ∃ mark sign digits, mark ∈ ['e', 'E'] ∧ sign ∈ [[], ['-'], ['+']] ∧ IsDigits digits ∧
    text = mark :: (sign ++ digits)

/-- A number, without a leading zero before another digit. -/
def IsNumber (text : List Char) : Prop :=
  ∃ minus int fraction exponent, minus ∈ [[], ['-']] ∧
    (int = ['0'] ∨ IsDigits int ∧ int.head? ≠ some '0') ∧
    (fraction = [] ∨ IsFraction fraction) ∧ (exponent = [] ∨ IsExponent exponent) ∧
    text = minus ++ int ++ fraction ++ exponent

/-- A JSON text. -/
inductive Text : List Char → Prop where
  | literal {text : List Char} (name : text ∈ ["null".toList, "true".toList, "false".toList]) :
      Text text
  | number {text : List Char} (number : IsNumber text) : Text text
  | string {text : List Char} (string : IsString text) : Text text
  | array {space : List Char} {elements : List (List Char)} (blank : IsSpace space)
      (texts : ∀ element ∈ elements, Text element) :
      Text ('[' :: (space ++ [','].intercalate elements ++ [']']))
  | object {space : List Char} {members : List (List Char × List Char)} (blank : IsSpace space)
      (keys : ∀ member ∈ members, Padded IsString member.1)
      (texts : ∀ member ∈ members, Text member.2) :
      Text ('\x7b' :: (space ++
        [','].intercalate (members.map fun member => member.1 ++ ':' :: member.2) ++ ['\x7d']))
  | padded {before text after : List Char} (leading : IsSpace before) (inner : Text text)
      (trailing : IsSpace after) : Text (before ++ text ++ after)

/-! ### Reading a text as code -/

theorem IsSpace.read {text : List Char} (space : IsSpace text) :
    Position.code.read text = .code := by
  refine Position.read_of_forall fun c inText => ?_
  rcases space c inText with rfl | rfl | rfl | rfl <;> rfl

theorem not_special_of_isAlphanum {c : Char} (alphanumeric : c.isAlphanum = true) :
    c ∉ Position.specialChars :=
  Position.not_special_of (by decide) alphanumeric

theorem IsHexDigit.isAlphanum {c : Char} (hex : IsHexDigit c) : c.isAlphanum = true := by
  rcases hex with digit | letter
  · simp [Char.isAlphanum, digit]
  · have letters : hexLetters.all Char.isAlphanum = true := by decide
    exact List.all_eq_true.mp letters c letter

theorem IsDigits.read {text : List Char} (digits : IsDigits text) :
    Position.code.read text = .code :=
  Position.read_of_forall fun c inText => Position.step_code_of_not_special
    (not_special_of_isAlphanum (by simp [Char.isAlphanum, digits.2 c inText]))

/-- What stands in a literal and neither ends nor breaks it. -/
theorem StringChar.read {text : List Char} (char : StringChar text) :
    (Position.literal '\"').read text = .literal '\"' := by
  cases char with
  | @unescaped c visible notQuote notBackslash =>
      have fits := breaksLiteral_of_visible visible
      simp [Position.step, Position.inLiteral, notQuote, notBackslash, fits]
  | @escaped c short =>
      have notReturn : c ≠ '\r' := by
        rintro rfl
        simp at short
      simp [Position.step, Position.inLiteral, notReturn]
  | @unicode digits four hex =>
      have stays : (Position.literal '\"').read digits = .literal '\"' :=
        Position.read_of_forall fun c inDigits => Position.step_literal_of_not_special (Or.inl rfl)
          (not_special_of_isAlphanum (hex c inDigits).isAlphanum)
      exact stays

theorem IsString.read {text : List Char} (string : IsString text) :
    Position.code.read text = .code := by
  obtain ⟨chars, each, rfl⟩ := string
  have body : (Position.literal '\"').read chars.flatten = .literal '\"' := by
    induction chars with
    | nil => rfl
    | cons char chars inductionHypothesis =>
        obtain ⟨first, rest⟩ := List.forall_mem_cons.mp each
        rw [List.flatten_cons, Position.read_append, first.read, inductionHypothesis rest]
  rw [Position.read_cons, Position.read_append]
  exact (congrArg (Position.read · ['\"']) body).trans rfl

theorem IsNumber.read {text : List Char} (number : IsNumber text) :
    Position.code.read text = .code := by
  obtain ⟨minus, int, fraction, exponent, signed, whole, fractional, scaled, rfl⟩ := number
  have readMinus : Position.code.read minus = .code := by
    rcases List.mem_pair.mp signed with rfl | rfl <;> rfl
  have readInt : Position.code.read int = .code := by
    rcases whole with rfl | ⟨digits, _⟩
    · rfl
    · exact digits.read
  have readFraction : Position.code.read fraction = .code := by
    rcases fractional with rfl | ⟨digits, isDigits, rfl⟩
    · rfl
    · exact isDigits.read
  have readExponent : Position.code.read exponent = .code := by
    rcases scaled with rfl | ⟨mark, sign, digits, marks, signs, isDigits, rfl⟩
    · rfl
    · have readMark : Position.code.step mark = .code := by
        rcases List.mem_pair.mp marks with rfl | rfl <;> rfl
      have readSign : Position.code.read sign = .code := by
        simp only [List.mem_cons, List.not_mem_nil, or_false] at signs
        rcases signs with rfl | rfl | rfl <;> rfl
      rw [Position.read_cons, readMark, Position.read_append, readSign, isDigits.read]
  rw [Position.read_append, Position.read_append, Position.read_append, readMinus, readInt,
    readFraction, readExponent]

theorem read_intercalate {elements : List (List Char)}
    (each : ∀ element ∈ elements, Position.code.read element = .code) :
    Position.code.read ([','].intercalate elements) = .code := by
  induction elements with
  | nil => rfl
  | cons element elements inductionHypothesis =>
      obtain ⟨first, rest⟩ := List.forall_mem_cons.mp each
      cases elements with
      | nil => simpa [List.intercalate] using first
      | cons next elements =>
          rw [List.intercalate_cons_cons, Position.read_append, Position.read_append, first]
          exact inductionHypothesis rest

theorem Padded.read {grammar : List Char → Prop} {text : List Char}
    (padded : Padded grammar text)
    (reads : ∀ inner, grammar inner → Position.code.read inner = .code) :
    Position.code.read text = .code := by
  obtain ⟨before, inner, after, leading, valid, trailing, rfl⟩ := padded
  rw [Position.read_append, Position.read_append, leading.read, reads inner valid, trailing.read]

/-- A JSON text in code leaves the reader in code. -/
theorem Text.read {text : List Char} (json : Text text) : Position.code.read text = .code := by
  induction json with
  | literal name =>
      simp only [List.mem_cons, List.not_mem_nil, or_false] at name
      rcases name with rfl | rfl | rfl <;> decide
  | number number => exact number.read
  | string string => exact string.read
  | array blank texts inductionHypothesis =>
      rw [Position.read_cons, Position.read_append, Position.read_append]
      change Position.read (Position.read (Position.code.read _) _) _ = _
      rw [blank.read, read_intercalate inductionHypothesis]
      rfl
  | object blank keys texts inductionHypothesis =>
      rw [Position.read_cons, Position.read_append, Position.read_append]
      change Position.read (Position.read (Position.code.read _) _) _ = _
      rw [blank.read, read_intercalate]
      · rfl
      · intro element inElements
        obtain ⟨member, inMembers, rfl⟩ := List.mem_map.mp inElements
        have key := (keys member inMembers).read fun _ string => string.read
        rw [Position.read_append, key]
        exact inductionHypothesis member inMembers
  | padded leading inner trailing inductionHypothesis =>
      rw [Position.read_append, Position.read_append, leading.read, inductionHypothesis,
        trailing.read]

end RustySsr.Ecmascript.Json
