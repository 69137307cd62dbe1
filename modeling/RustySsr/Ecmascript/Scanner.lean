import RustySsr.Foundation.Execution

/-!
Owns where a left-to-right reader of ECMAScript text stands: in code, inside a
string literal, or past a line terminator that a literal must not contain.
Comments, templates and regular expressions are not followed. `scanLiteral`
reads one literal to its first unescaped quote. Nothing here knows whose text
it is.
-/

namespace RustySsr.Ecmascript

open RustySsr.Foundation

/-- Where the reader stands after a text. -/
inductive Position where
  | code
  | literal (quote : Char)
  | escape (quote : Char)
  /-- After a backslash and CR; a following LF belongs to the same sequence. -/
  | continuation (quote : Char)
  /-- Past a line terminator inside a literal: no token fits. -/
  | broken
  /-- Past a character that may begin what this reader does not follow. -/
  | elsewhere
deriving DecidableEq, Repr

/-- The line terminators that end a string literal. LINE SEPARATOR and PARAGRAPH
SEPARATOR may stand in one. -/
def breaksLiteral (c : Char) : Bool := c = '\n' || c = '\r'

theorem breaksLiteral_iff {c : Char} : breaksLiteral c = true ↔ c = '\n' ∨ c = '\r' := by
  simp [breaksLiteral]

theorem breaksLiteral_eq_false_iff {c : Char} :
    breaksLiteral c = false ↔ c ≠ '\n' ∧ c ≠ '\r' := by
  simp [breaksLiteral]

/-- Line terminators are control characters. -/
theorem breaksLiteral_of_visible {c : Char} (visible : 0x20 ≤ c.toNat) :
    breaksLiteral c = false := by
  rw [breaksLiteral_eq_false_iff]
  constructor <;> rintro rfl <;> contradiction

/-- Comments, also the HTML-like ones, hashbangs, regular expressions and
templates begin with one of these. -/
def leavesCode (c : Char) : Bool :=
  c = '/' || c = '<' || c = '>' || c = '#' || c = Char.ofNat 0x60

def Position.inLiteral (quote c : Char) : Position :=
  if c = quote then .code
  else if c = '\\' then .escape quote
  else if breaksLiteral c then .broken
  else .literal quote

/-- The next character. An escape takes it whatever it is; whether the escape
is well formed does not move the end of the literal. -/
def Position.step : Position → Char → Position
  | .code, c =>
      if c = '\"' || c = '\'' then .literal c
      else if leavesCode c then .elsewhere
      else .code
  | .literal quote, c => inLiteral quote c
  | .escape quote, c => if c = '\r' then .continuation quote else .literal quote
  | .continuation quote, c => if c = '\n' then .literal quote else inLiteral quote c
  | .broken, _ => .broken
  | .elsewhere, _ => .elsewhere

/-- Where the reader stands after the text, read from the given position. -/
def Position.read (position : Position) (text : List Char) : Position :=
  Execution.run step position text

/-- Where a literal ends. -/
inductive Scanned where
  | closed (body rest : List Char)
  | broken (body rest : List Char)
  | unterminated
deriving DecidableEq, Repr

def Scanned.prepend (first : List Char) : Scanned → Scanned
  | .closed body rest => .closed (first ++ body) rest
  | .broken body rest => .broken (first ++ body) rest
  | .unterminated => .unterminated

/-- The text up to the first character that leaves the literal, and the text
after that character. -/
def Position.scan : Position → List Char → Scanned
  | _, [] => .unterminated
  | position, c :: rest =>
      match position.step c with
      | .code => .closed [] rest
      | .broken => .broken [] rest
      | next => (next.scan rest).prepend [c]

/-- The text after an opening double quote, up to the end of its literal. -/
def scanLiteral (text : List Char) : Scanned := (Position.literal '\"').scan text

namespace Position

@[simp] theorem read_nil (position : Position) : position.read [] = position := rfl

@[simp] theorem read_cons (position : Position) (c : Char) (text : List Char) :
    position.read (c :: text) = (position.step c).read text := rfl

@[simp] theorem read_append (position : Position) (first second : List Char) :
    position.read (first ++ second) = (position.read first).read second :=
  Execution.run_append step position first second

@[simp] theorem read_broken (text : List Char) : broken.read text = broken := by
  induction text with
  | nil => rfl
  | cons c text inductionHypothesis => exact inductionHypothesis

/-- Characters that leave the reader where it stands may be skipped. -/
theorem read_of_forall {position : Position} {text : List Char}
    (stays : ∀ c ∈ text, position.step c = position) : position.read text = position := by
  induction text with
  | nil => rfl
  | cons c text inductionHypothesis =>
      obtain ⟨first, rest⟩ := List.forall_mem_cons.mp stays
      rw [read_cons, first, inductionHypothesis rest]

/-- The characters that can change where the reader stands. -/
def specialChars : List Char :=
  ['\"', '\'', '\\', '\n', '\r', '/', '<', '>', '#', Char.ofNat 0x60]

theorem not_special_of {property : Char → Bool}
    (excludes : specialChars.any property = false) {c : Char} (holds : property c = true) :
    c ∉ specialChars := by
  intro special
  have found := List.any_eq_true.mpr ⟨c, special, holds⟩
  rw [excludes] at found
  contradiction

theorem step_code_of_not_special {c : Char} (ordinary : c ∉ specialChars) :
    code.step c = code := by
  simp only [specialChars, List.mem_cons, List.not_mem_nil, or_false, not_or] at ordinary
  simp [step, leavesCode, ordinary]

theorem step_literal_of_not_special {quote c : Char} (quotes : quote = '\"' ∨ quote = '\'')
    (ordinary : c ∉ specialChars) : (literal quote).step c = literal quote := by
  simp only [specialChars, List.mem_cons, List.not_mem_nil, or_false, not_or] at ordinary
  rcases quotes with rfl | rfl <;> simp [step, inLiteral, breaksLiteral, ordinary]

/-- A character that keeps the reader inside of the literal belongs to its body. -/
theorem scan_cons_of_step {position next : Position} {c : Char} (stepped : position.step c = next)
    (inside : next ≠ .code ∧ next ≠ .broken) (rest : List Char) :
    position.scan (c :: rest) = (next.scan rest).prepend [c] := by
  obtain ⟨unclosed, unbroken⟩ := inside
  rw [scan, stepped]
  cases next <;> first | rfl | contradiction

/-- A scan that meets a line terminator leaves no way to read the whole text. -/
theorem read_of_scan_broken {position : Position} {text body rest : List Char}
    (scanned : position.scan text = .broken body rest) : position.read text = .broken := by
  induction text generalizing position body rest with
  | nil => contradiction
  | cons c text inductionHypothesis =>
      rw [read_cons]
      by_cases broke : position.step c = .broken
      · rw [broke, read_broken]
      by_cases closed : position.step c = .code
      · rw [scan, closed] at scanned
        contradiction
      · rw [scan_cons_of_step rfl ⟨closed, broke⟩] at scanned
        cases later : (position.step c).scan text with
        | broken body rest => exact inductionHypothesis later
        | closed body rest => simp [later, Scanned.prepend] at scanned
        | unterminated => simp [later, Scanned.prepend] at scanned

end Position

theorem Scanned.prepend_nil (scanned : Scanned) : scanned.prepend [] = scanned := by
  cases scanned <;> rfl

theorem Scanned.prepend_append (first second : List Char) (scanned : Scanned) :
    scanned.prepend (first ++ second) = (scanned.prepend second).prepend first := by
  cases scanned <;> simp [prepend]

/-- An ordinary character of a literal. -/
theorem scanLiteral_cons {c : Char} (ordinary : c ≠ '\"' ∧ c ≠ '\\')
    (fits : breaksLiteral c = false) (rest : List Char) :
    scanLiteral (c :: rest) = (scanLiteral rest).prepend [c] := by
  have stepped : (Position.literal '\"').step c = .literal '\"' := by
    simp [Position.step, Position.inLiteral, ordinary, fits]
  exact Position.scan_cons_of_step stepped (by simp) rest

/-- An escape of one character other than CR. -/
theorem scanLiteral_escape {c : Char} (notReturn : c ≠ '\r') (rest : List Char) :
    scanLiteral ('\\' :: c :: rest) = (scanLiteral rest).prepend ['\\', c] := by
  have opened : (Position.literal '\"').step '\\' = .escape '\"' := rfl
  have taken : (Position.escape '\"').step c = .literal '\"' := by
    simp [Position.step, notReturn]
  have remaining : (Position.literal '\"').scan ('\\' :: c :: rest) =
      (((Position.literal '\"').scan rest).prepend [c]).prepend ['\\'] := by
    rw [Position.scan_cons_of_step opened (by simp), Position.scan_cons_of_step taken (by simp)]
  exact remaining.trans (Scanned.prepend_append ['\\'] [c] _).symm

@[simp] theorem scanLiteral_quote (rest : List Char) :
    scanLiteral ('\"' :: rest) = .closed [] rest := rfl

theorem scanLiteral_break {c : Char} (breaks : breaksLiteral c = true) (rest : List Char) :
    scanLiteral (c :: rest) = .broken [] rest := by
  rcases breaksLiteral_iff.mp breaks with rfl | rfl <;> rfl

end RustySsr.Ecmascript
