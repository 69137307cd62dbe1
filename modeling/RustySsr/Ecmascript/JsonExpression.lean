import Mathlib.Tactic.IntervalCases
import RustySsr.Ecmascript.JsonValue

/-!
Owns that ECMAScript reads a JSON text as the literal expression of its value:
`Denotes.parseExpression`. The proof goes by the derivation of the text: each
production gives the tokens of its part, and the tokens give the expression back.
-/

namespace RustySsr.Ecmascript.Json

/-! ### Strings as tokens -/

theorem isSome_hexValue {c : Char} (hex : IsHexDigit c) : (hexValue c).isSome = true := by
  rcases hex with digit | letter
  · simp [hexValue, digit]
  · have letters : hexLetters.all (fun c => (hexValue c).isSome) = true := by decide
    exact List.all_eq_true.mp letters c letter

/-- A short escape has the same value in ECMAScript. -/
theorem escapeSequence_short {c : Char} {unit : UInt16} (short : (c, unit) ∈ shortEscapes)
    (rest : List Char) : escapeSequence (c :: rest) = some ([unit], rest) := by
  have none_listed : shortEscapes.all (fun pair => decide (pair.1 ≠ 'x' ∧ pair.1 ≠ 'u' ∧
      pair.1.isDigit = false ∧ isLineTerminator pair.1 = false ∧
        (singleEscape pair.1).elim (utf16Encode pair.1.toNat) List.singleton = [pair.2])) =
          true := by decide +kernel
  obtain ⟨notHex, notUnicode, notDigit, notTerminator, value⟩ :=
    of_decide_eq_true (List.all_eq_true.mp none_listed (c, unit) short)
  unfold escapeSequence
  simp only [notHex, notUnicode, notDigit, notTerminator, if_false, Bool.false_eq_true]
  cases single : singleEscape c with
  | some escape =>
      rw [single] at value
      exact congrArg (fun units => some (units, rest)) value
  | none =>
      rw [single] at value
      exact congrArg (fun units => some (units, rest)) value

/-- A JSON string character is read in one turn, with the code units it denotes. -/
theorem stringChars_of_charDenotes {text rest : List Char} {units : List UInt16}
    (denotes : CharDenotes text units) (turns : Nat) :
    stringChars '\"' (turns + 1) (text ++ rest) =
      (stringChars '\"' turns rest).map (prependUnits units) := by
  cases denotes with
  | @unescaped c visible notQuote notBackslash =>
      exact stringChars_cons notQuote (breaksLiteral_of_visible visible) notBackslash
  | escaped short => exact stringChars_escape (by decide) (escapeSequence_short short rest)
  | @unicode digits number four hex value =>
      have notBrace : ∀ more, digits ++ rest ≠ '\x7b' :: more := by
        intro more same
        cases digits with
        | nil => simp at four
        | cons c digits =>
            obtain ⟨rfl, _⟩ := List.cons.inj same
            have isHex := isSome_hexValue (hex '\x7b' List.mem_cons_self)
            simp [hexValue] at isHex
      have escape : escapeSequence ('u' :: (digits ++ rest)) = some (utf16Encode number, rest) := by
        have unicode : escapeSequence ('u' :: (digits ++ rest)) = unicodeEscape (digits ++ rest) := rfl
        have hexadecimal : unicodeEscape (digits ++ rest) = hexEscape 4 (digits ++ rest) := by
          unfold unicodeEscape
          split
          · rename_i more same
            exact absurd same (notBrace more)
          · rfl
        rw [unicode, hexadecimal, hexEscape, ← four, List.take_left, List.drop_left, if_pos rfl,
          value]
        rfl
      exact stringChars_escape (by decide) escape

theorem stringLiteral_of_stringDenotes {text rest : List Char} {units : List UInt16}
    (denotes : StringDenotes text units) :
    ∃ body, text ++ rest = '\"' :: body ∧ stringLiteral '\"' body = some (units, rest) := by
  obtain ⟨chars, each, rfl, rfl⟩ := denotes
  refine ⟨(chars.map Prod.fst).flatten ++ '\"' :: rest, by simp, ?_⟩
  have reads : ∀ turns, stringChars '\"' (chars.length + turns)
      ((chars.map Prod.fst).flatten ++ '\"' :: rest) =
        (stringChars '\"' turns ('\"' :: rest)).map
          (prependUnits (chars.map Prod.snd).flatten) := by
    induction chars with
    | nil => simp [prependUnits_nil]
    | cons char chars inductionHypothesis =>
        intro turns
        obtain ⟨first, others⟩ := List.forall_mem_cons.mp each
        rw [List.length_cons, Nat.add_right_comm, List.map_cons, List.flatten_cons,
          List.append_assoc, stringChars_of_charDenotes first, inductionHypothesis others,
          Option.map_map, ← prependUnits_append]
        rfl
  have nonempty : ∀ part ∈ chars.map Prod.fst, part ≠ [] := by
    intro part member
    obtain ⟨char, inChars, rfl⟩ := List.mem_map.mp member
    exact (each char inChars).nonempty
  have short := length_le_flatten nonempty
  rw [List.length_map] at short
  exact stringLiteral_of_reads short reads

/-! ### Numbers and words as tokens -/

/-- What may follow a value of a JSON text. -/
def boundaryChars : List Char := [' ', '\t', '\n', '\r', ',', ':', ']', '\x7d']

def Boundary (rest : List Char) : Prop := ∀ c ∈ rest.head?, c ∈ boundaryChars

theorem boundary_cons {c : Char} (listed : c ∈ boundaryChars) (rest : List Char) :
    Boundary (c :: rest) := by
  intro other head
  rw [List.head?_cons, Option.mem_some_iff] at head
  exact head ▸ listed

theorem IsSpace.boundary {space rest : List Char} (blank : IsSpace space)
    (boundary : Boundary rest) : Boundary (space ++ rest) := by
  cases space with
  | nil => exact boundary
  | cons c space =>
      refine boundary_cons ?_ _
      rcases blank c List.mem_cons_self with rfl | rfl | rfl | rfl <;> decide

theorem Boundary.not_word {rest : List Char} (boundary : Boundary rest) {c : Char}
    (head : c ∈ rest.head?) : isWordChar c = false ∧ c.isDigit = false ∧ c ≠ '.' ∧ c ≠ 'e' ∧
      c ≠ 'E' := by
  have none_listed : boundaryChars.all (fun c => decide (isWordChar c = false ∧
      c.isDigit = false ∧ c ≠ '.' ∧ c ≠ 'e' ∧ c ≠ 'E')) = true := by decide
  exact of_decide_eq_true (List.all_eq_true.mp none_listed c (boundary c head))

/-- A run of characters ends where one does not belong to it. -/
theorem takeWhile_run {property : Char → Bool} {run rest : List Char}
    (inside : ∀ c ∈ run, property c = true) (outside : ∀ c ∈ rest.head?, property c = false) :
    (run ++ rest).takeWhile property = run := by
  rw [List.takeWhile_append_of_pos inside]
  cases rest with
  | nil => simp
  | cons c rest => simp [outside c rfl]

theorem fractionOf_fraction {fraction rest : List Char}
    (fractional : fraction = [] ∨ IsFraction fraction)
    (ends : ∀ c ∈ rest.head?, c.isDigit = false ∧ c ≠ '.') :
    fractionOf (fraction ++ rest) = fraction := by
  rcases fractional with rfl | ⟨digits, isDigits, rfl⟩
  · cases rest with
    | nil => rfl
    | cons c rest => simp [fractionOf, (ends c rfl).2]
  · have run := takeWhile_run isDigits.2 fun c head => (ends c head).1
    simp [fractionOf, run]

theorem exponentOf_exponent {exponent rest : List Char}
    (scaled : exponent = [] ∨ IsExponent exponent)
    (ends : ∀ c ∈ rest.head?, c.isDigit = false ∧ c ≠ 'e' ∧ c ≠ 'E') :
    exponentOf (exponent ++ rest) = exponent := by
  rcases scaled with rfl | ⟨mark, sign, digits, marks, signs, isDigits, rfl⟩
  · cases rest with
    | nil => rfl
    | cons c rest => simp [exponentOf, (ends c rfl).2]
  · have run := takeWhile_run isDigits.2 fun c head => (ends c head).1
    have marked : (mark = 'e' || mark = 'E') = true := by
      rcases List.mem_pair.mp marks with rfl | rfl <;> rfl
    simp only [List.mem_cons, List.not_mem_nil, or_false] at signs
    rcases signs with rfl | rfl | rfl
    · cases digits with
      | nil => exact absurd rfl isDigits.1
      | cons digit digits =>
          have isDigit := isDigits.2 digit List.mem_cons_self
          have unsigned : (digit = '+' || digit = '-') = false := by
            by_contra signed
            have both : digit = '+' ∨ digit = '-' := by
              simpa [or_iff_not_imp_left] using signed
            rcases both with rfl | rfl <;> simp at isDigit
          simp only [List.nil_append, List.cons_append] at run ⊢
          simp only [exponentOf, marked, unsigned, if_true, Bool.false_eq_true, if_false]
          rw [run]
    · simp [exponentOf, marked, run]
    · simp [exponentOf, marked, run]

theorem exponent_boundary {exponent rest : List Char} (scaled : exponent = [] ∨ IsExponent exponent)
    (boundary : Boundary rest) :
    ∀ c ∈ (exponent ++ rest).head?, c.isDigit = false ∧ c ≠ '.' := by
  intro c head
  rcases scaled with rfl | ⟨mark, sign, digits, marks, _, _, rfl⟩
  · have facts := boundary.not_word head
    exact ⟨facts.2.1, facts.2.2.1⟩
  · obtain rfl : mark = c := by simpa using head
    rcases List.mem_pair.mp marks with rfl | rfl <;> decide

theorem fraction_boundary {fraction rest : List Char} (fractional : fraction = [] ∨ IsFraction fraction)
    (ends : ∀ c ∈ rest.head?, c.isDigit = false ∧ c ≠ '.') :
    ∀ c ∈ (fraction ++ rest).head?, c.isDigit = false := by
  intro c head
  rcases fractional with rfl | ⟨digits, _, rfl⟩
  · exact (ends c head).1
  · obtain rfl : '.' = c := by simpa using head
    rfl

theorem exponent_ends {exponent : List Char} (scaled : exponent = [] ∨ IsExponent exponent) :
    (exponent.getLast?.any fun c => !c.isDigit) = false := by
  rcases scaled with rfl | ⟨mark, sign, digits, _, _, ⟨nonempty, isDigits⟩, rfl⟩
  · rfl
  · have last : (mark :: (sign ++ digits)).getLast? = digits.getLast? := by
      rw [← List.cons_append, List.getLast?_append_of_ne_nil _ nonempty]
    rw [last, List.getLast?_eq_some_getLast nonempty]
    simp [isDigits _ (List.getLast_mem nonempty)]

/-- An unsigned JSON number is a decimal literal. -/
theorem numericLiteral_of_isUnsigned {text rest : List Char} (unsigned : IsUnsigned text)
    (boundary : Boundary rest) : numericLiteral (text ++ rest) = some (text, rest) := by
  obtain ⟨int, fraction, exponent, whole, fractional, scaled, rfl⟩ := unsigned
  have exponentEnds := exponent_boundary scaled boundary
  have intDigits : ∀ c ∈ int, c.isDigit = true := by
    rcases whole with rfl | ⟨digits, _⟩
    · simp
    · exact digits.2
  have readInt : (int ++ (fraction ++ (exponent ++ rest))).takeWhile Char.isDigit = int :=
    takeWhile_run intDigits (fraction_boundary fractional exponentEnds)
  have readFraction : fractionOf (fraction ++ (exponent ++ rest)) = fraction :=
    fractionOf_fraction fractional exponentEnds
  have readExponent : exponentOf (exponent ++ rest) = exponent :=
    exponentOf_exponent scaled fun c head =>
      have facts := boundary.not_word head
      ⟨facts.2.1, facts.2.2.2.1, facts.2.2.2.2⟩
  have noLeadingZero : ¬ (int.head? = some '0' ∧ 1 < int.length) := by
    rintro ⟨zero, long⟩
    rcases whole with rfl | ⟨_, notZero⟩
    · simp at long
    · exact notZero zero
  have noWord : rest.head?.any isWordChar = false := by
    cases head : rest.head? with
    | none => rfl
    | some c => simp [(boundary.not_word (c := c) (by simp [head])).1]
  have dropFraction : (int ++ (fraction ++ (exponent ++ rest))).drop (int.length + fraction.length) =
      exponent ++ rest := by
    rw [← List.drop_drop, List.drop_left, List.drop_left]
  have dropLiteral : (int ++ (fraction ++ (exponent ++ rest))).drop
      (int ++ fraction ++ exponent).length = rest := by
    rw [List.length_append, List.length_append, ← List.drop_drop, dropFraction, List.drop_left]
  rw [List.append_assoc, List.append_assoc]
  unfold numericLiteral
  simp only [readInt, List.drop_left, readFraction, dropFraction, readExponent, dropLiteral,
    noLeadingZero, exponent_ends scaled, noWord, if_false, Bool.false_eq_true]

theorem IsUnsigned.head {text : List Char} (unsigned : IsUnsigned text) :
    ∃ c tail, text = c :: tail ∧ c.isDigit = true := by
  obtain ⟨int, fraction, exponent, whole, _, _, rfl⟩ := unsigned
  rcases whole with rfl | ⟨⟨nonempty, digits⟩, _⟩
  · exact ⟨'0', fraction ++ exponent, rfl, rfl⟩
  · obtain ⟨c, rest, rfl⟩ := List.exists_cons_of_ne_nil nonempty
    exact ⟨c, rest ++ fraction ++ exponent, rfl, digits c List.mem_cons_self⟩

/-! ### The tokens of a text -/

/-- Wherever the text stands before a boundary, these tokens are read from it. -/
def Lexes (text : List Char) (read : List Token) : Prop :=
  ∃ used ≤ text.length, ∀ turns rest, Boundary rest →
    tokens (used + turns) (text ++ rest) = (tokens turns rest).map (read ++ ·)

theorem lexes_nil : Lexes [] [] := ⟨0, Nat.le_refl 0, fun turns rest _ => by simp⟩

/-- Blanks need no boundary behind them. -/
theorem Lexes.skip {space text : List Char} {read : List Token} (blank : IsSpace space)
    (lexes : Lexes text read) : Lexes (space ++ text) read := by
  induction space with
  | nil => exact lexes
  | cons c space inductionHypothesis =>
      obtain ⟨first, others⟩ := List.forall_mem_cons.mp blank
      have isBlankChar : isBlank c = true := by
        rcases first with rfl | rfl | rfl | rfl <;> decide +kernel
      obtain ⟨used, short, reads⟩ := inductionHypothesis others
      refine ⟨used + 1, Nat.succ_le_succ short, fun turns rest boundary => ?_⟩
      rw [Nat.add_right_comm, List.cons_append, List.cons_append, tokens, if_pos isBlankChar]
      exact reads turns rest boundary

theorem lexes_space {space : List Char} (blank : IsSpace space) : Lexes space [] := by
  have skipped := lexes_nil.skip blank
  rwa [List.append_nil] at skipped

/-- A punctuator needs no boundary behind it. -/
theorem Lexes.cons {c : Char} {token : Token} {text : List Char} {read : List Token}
    (notBlank : isBlank c = false) (punctuates : punctuator c = some token)
    (lexes : Lexes text read) : Lexes (c :: text) (token :: read) := by
  obtain ⟨used, short, reads⟩ := lexes
  refine ⟨used + 1, Nat.succ_le_succ short, fun turns rest boundary => ?_⟩
  rw [Nat.add_right_comm, List.cons_append, tokens, if_neg (by simp [notBlank]), punctuates,
    reads turns rest boundary]
  exact Option.map_map _ _ _

theorem lexes_lexeme {text : List Char} {token : Token}
    (reads : ∀ rest, Boundary rest → ∃ c tail, text ++ rest = c :: tail ∧ isBlank c = false ∧
      punctuator c = none ∧ lexeme c tail = some (token, rest)) (nonempty : text ≠ []) :
    Lexes text [token] := by
  refine ⟨1, List.length_pos_iff.mpr nonempty, fun turns rest boundary => ?_⟩
  obtain ⟨c, tail, textEq, notBlank, noPunctuator, read⟩ := reads rest boundary
  rw [textEq, Nat.add_comm, tokens, if_neg (by simp [notBlank]), noPunctuator]
  simp [read]

theorem Lexes.append {first second : List Char} {read next : List Token} (lexes : Lexes first read)
    (follows : ∀ rest, Boundary rest → Boundary (second ++ rest)) (lexesNext : Lexes second next) :
    Lexes (first ++ second) (read ++ next) := by
  obtain ⟨used, short, reads⟩ := lexes
  obtain ⟨usedNext, shortNext, readsNext⟩ := lexesNext
  refine ⟨used + usedNext, by rw [List.length_append]; omega, fun turns rest boundary => ?_⟩
  rw [List.append_assoc, Nat.add_assoc, reads _ _ (follows rest boundary),
    readsNext turns rest boundary, Option.map_map]
  congr 1
  funext more
  simp

theorem lexes_string {text : List Char} {units : List UInt16} (denotes : StringDenotes text units) :
    Lexes text [.string units] := by
  refine lexes_lexeme (fun rest _ => ?_) ?_
  · have literal : ∃ body, text ++ rest = '\"' :: body ∧
        stringLiteral '\"' body = some (units, rest) := stringLiteral_of_stringDenotes denotes
    obtain ⟨body, textEq, read⟩ := literal
    refine ⟨'\"', body, textEq, by decide +kernel, by decide, ?_⟩
    simp [lexeme, read]
  · obtain ⟨chars, _, rfl, _⟩ := denotes
    simp

theorem digit_begins_numeric {c : Char} (digit : c.isDigit = true) :
    isBlank c = false ∧ punctuator c = none ∧ c ≠ '\"' ∧ c ≠ '\'' := by
  have bounds : 48 ≤ c.toNat ∧ c.toNat ≤ 57 := by
    simpa [Char.isDigit, UInt32.le_iff_toNat_le] using digit
  obtain ⟨low, high⟩ := bounds
  rw [← Char.ofNat_toNat c]
  interval_cases c.toNat <;> decide +kernel

theorem lexes_number {literal : List Char} (unsigned : IsUnsigned literal) :
    Lexes literal [.numeric literal] := by
  obtain ⟨c, tail, rfl, digit⟩ := unsigned.head
  have begins := digit_begins_numeric digit
  refine lexes_lexeme (fun rest boundary => ?_) (by simp)
  refine ⟨c, tail ++ rest, rfl, begins.1, begins.2.1, ?_⟩
  have read := numericLiteral_of_isUnsigned unsigned boundary
  rw [List.cons_append] at read
  simp [lexeme, begins.2.2.1, begins.2.2.2, digit, read]

theorem lexes_word {c : Char} {name : List Char} (word : name.all isWordChar = true)
    (begins : isBlank c = false ∧ punctuator c = none ∧ ¬ (c = '\"' || c = '\'') = true ∧
      ¬ c.isDigit = true ∧ isWordChar c = true) : Lexes (c :: name) [.word (c :: name)] := by
  refine lexes_lexeme (fun rest boundary => ?_) (by simp)
  refine ⟨c, name ++ rest, rfl, begins.1, begins.2.1, ?_⟩
  have ends : ∀ other ∈ rest.head?, isWordChar other = false :=
    fun other head => (boundary.not_word head).1
  have run := takeWhile_run (List.all_eq_true.mp word) ends
  have remains : (name ++ rest).dropWhile isWordChar = rest := by
    have split := List.takeWhile_append_dropWhile (p := isWordChar) (l := name ++ rest)
    rw [run] at split
    exact List.append_cancel_left split
  rw [lexeme, if_neg begins.2.2.1, if_neg begins.2.2.2.1, if_pos begins.2.2.2.2, run, remains]

/-- The tokens of a list of items up to its closing token. -/
def separated (closer : Token) : List (List Token) → List Token
  | [] => [closer]
  | [item] => item ++ [closer]
  | item :: next :: items => item ++ .comma :: separated closer (next :: items)

theorem lexes_separated {α : Type} {text : α → List Char} {read : α → List Token} {c : Char}
    {closer : Token} (notBlank : isBlank c = false) (punctuates : punctuator c = some closer)
    (bounds : c ∈ boundaryChars) {items : List α}
    (each : ∀ item ∈ items, Lexes (text item) (read item)) :
    Lexes ([','].intercalate (items.map text) ++ [c]) (separated closer (items.map read)) := by
  have closes : Lexes [c] [closer] := lexes_nil.cons notBlank punctuates
  induction items with
  | nil => exact closes
  | cons item items inductionHypothesis =>
      obtain ⟨first, others⟩ := List.forall_mem_cons.mp each
      cases items with
      | nil =>
          have whole := first.append (fun rest _ => boundary_cons bounds rest) closes
          simpa [List.intercalate, separated] using whole
      | cons next items =>
          have comma : Lexes (',' :: ([','].intercalate ((next :: items).map text) ++ [c]))
              (.comma :: separated closer ((next :: items).map read)) :=
            (inductionHypothesis others).cons (by decide +kernel) rfl
          have whole := first.append (fun rest _ => boundary_cons (by decide) _) comma
          rw [List.map_cons, List.map_cons, List.intercalate_cons_cons, List.append_assoc,
            List.append_assoc]
          exact whole

/-! ### The expression of the tokens -/

/-- Wherever the tokens stand, they are read as the expression. -/
def ParsesTo (read : List Token) (value : Literal) : Prop :=
  ∀ turns rest, read.length ≤ turns → expression turns (read ++ rest) = some (value, rest)

/-- The first token takes a turn. -/
theorem parsesTo_cons {token : Token} {tail : List Token} {value : Literal}
    (parses : ∀ turns rest, tail.length ≤ turns →
      expression (turns + 1) (token :: (tail ++ rest)) = some (value, rest)) :
    ParsesTo (token :: tail) value := by
  intro turns rest enough
  cases turns with
  | zero => simp at enough
  | succ turns => exact parses turns rest (Nat.le_of_succ_le_succ enough)

/-- No expression begins with a closing token. -/
theorem ParsesTo.head {read : List Token} {value : Literal} (parses : ParsesTo read value) :
    ∃ token tail, read = token :: tail ∧ token ≠ .closeBracket := by
  have parsed := parses read.length [] (Nat.le_refl _)
  cases read with
  | nil => simp [expression] at parsed
  | cons token tail =>
      refine ⟨token, tail, rfl, fun closes => ?_⟩
      subst closes
      simp [expression] at parsed

theorem expression_array {turns : Nat} {read : List Token}
    (opened : ∀ after, read ≠ .closeBracket :: after) :
    expression (turns + 1) (.openBracket :: read) =
      (elements turns read).map (Prod.map .array id) := by
  cases read with
  | nil => rfl
  | cons token read =>
      cases token with
      | closeBracket => exact absurd rfl (opened read)
      | _ => rfl

theorem elements_separated {α : Type} {read : α → List Token} {value : α → Literal}
    {items : List α} (nonempty : items ≠ [])
    (each : ∀ item ∈ items, ParsesTo (read item) (value item)) (turns : Nat) (rest : List Token)
    (enough : (separated .closeBracket (items.map read)).length ≤ turns) :
    elements turns (separated .closeBracket (items.map read) ++ rest) =
      some (items.map value, rest) := by
  induction items generalizing turns with
  | nil => contradiction
  | cons item items inductionHypothesis =>
      obtain ⟨first, others⟩ := List.forall_mem_cons.mp each
      cases turns with
      | zero => cases items <;> simp [separated] at enough
      | succ turns =>
          cases items with
          | nil =>
              simp only [List.map_cons, List.map_nil, separated, List.length_append,
                List.length_singleton] at enough
              have parsed := first turns (.closeBracket :: rest) (by omega)
              simp [separated, elements, parsed]
          | cons next items =>
              simp only [List.map_cons, separated, List.length_append, List.length_cons] at enough
              have parsed := first turns (.comma :: (separated .closeBracket
                ((next :: items).map read) ++ rest)) (by omega)
              have more := inductionHypothesis (List.cons_ne_nil _ _) others turns (by
                simp only [List.map_cons]
                omega)
              simp only [List.map_cons] at parsed more
              simp [separated, elements, parsed, more]

theorem members_separated {α : Type} {key : α → List UInt16} {read : α → List Token}
    {value : α → Literal} {items : List α} (nonempty : items ≠ [])
    (each : ∀ item ∈ items, ParsesTo (read item) (value item)) (turns : Nat) (rest : List Token)
    (enough : (separated .closeBrace
      (items.map fun item => .string (key item) :: .colon :: read item)).length ≤ turns) :
    members turns (separated .closeBrace
        (items.map fun item => .string (key item) :: .colon :: read item) ++ rest) =
      some (items.map fun item => (key item, value item), rest) := by
  induction items generalizing turns with
  | nil => contradiction
  | cons item items inductionHypothesis =>
      obtain ⟨first, others⟩ := List.forall_mem_cons.mp each
      cases turns with
      | zero => cases items <;> simp [separated] at enough
      | succ turns =>
          cases items with
          | nil =>
              simp only [List.map_cons, List.map_nil, separated, List.length_append,
                List.length_cons] at enough
              have parsed := first turns (.closeBrace :: rest) (by omega)
              simp [separated, members, parsed]
          | cons next items =>
              simp only [List.map_cons, separated, List.length_append, List.length_cons] at enough
              have parsed := first turns (.comma :: (separated .closeBrace
                ((next :: items).map fun item => .string (key item) :: .colon :: read item) ++ rest))
                (by omega)
              have more := inductionHypothesis (List.cons_ne_nil _ _) others turns (by
                simp only [List.map_cons]
                omega)
              simp only [List.map_cons] at parsed more
              simp [separated, members, parsed, more]

/-- The text is read as the value. -/
def ReadsAs (text : List Char) (value : Literal) : Prop :=
  ∃ read, Lexes text read ∧ ParsesTo read value

theorem readsAs_array {space : List Char} {elems : List (List Char × Literal)}
    (blank : IsSpace space) (each : ∀ elem ∈ elems, ReadsAs elem.1 elem.2) :
    ReadsAs ('[' :: (space ++ [','].intercalate (elems.map Prod.fst) ++ [']']))
      (.array (elems.map Prod.snd)) := by
  choose! read lexes parses using each
  refine ⟨.openBracket :: separated .closeBracket (elems.map read), ?_, ?_⟩
  · have lexed : Lexes ([','].intercalate (elems.map Prod.fst) ++ [']'])
        (separated .closeBracket (elems.map read)) :=
      lexes_separated (by decide +kernel) rfl (by decide) lexes
    rw [List.append_assoc]
    exact (lexed.skip blank).cons (by decide +kernel) rfl
  · refine parsesTo_cons fun turns rest enough => ?_
    cases elems with
    | nil => rfl
    | cons elem elems =>
        have parsed := elements_separated (List.cons_ne_nil elem elems) parses turns rest enough
        obtain ⟨token, tail, readEq, notClose⟩ := (parses elem List.mem_cons_self).head
        have opened : ∀ after, separated .closeBracket ((elem :: elems).map read) ++ rest ≠
            .closeBracket :: after := by
          intro after same
          cases elems <;> simp [separated, readEq] at same <;> exact notClose same.1
        rw [expression_array opened, parsed]
        rfl

theorem expression_object {turns : Nat} {key : List UInt16} {read : List Token} :
    expression (turns + 1) (.openBrace :: .string key :: read) =
      (members turns (.string key :: read)).map (Prod.map .object id) := rfl

theorem readsAs_object {space : List Char} {mems : List Member} (blank : IsSpace space)
    (keys : ∀ mem ∈ mems, Padded (fun text => StringDenotes text mem.key) mem.keyText)
    (each : ∀ mem ∈ mems, ReadsAs mem.valueText mem.value) :
    ReadsAs ('\x7b' :: (space ++ [','].intercalate
        (mems.map fun mem => mem.keyText ++ ':' :: mem.valueText) ++ ['\x7d']))
      (.object (mems.map fun mem => (mem.key, mem.value))) := by
  choose! read lexes parses using each
  have lexesMember : ∀ mem ∈ mems, Lexes (mem.keyText ++ ':' :: mem.valueText)
      (.string mem.key :: .colon :: read mem) := by
    intro mem member
    obtain ⟨before, inner, after, leading, string, trailing, textEq⟩ := keys mem member
    have colon : Lexes (':' :: mem.valueText) (.colon :: read mem) :=
      (lexes mem member).cons (by decide +kernel) rfl
    have spaced : Lexes (inner ++ (after ++ ':' :: mem.valueText))
        (.string mem.key :: .colon :: read mem) := by
      refine (lexes_string string).append (fun rest _ => ?_) (colon.skip trailing)
      rw [List.append_assoc]
      exact trailing.boundary (boundary_cons (by decide) _)
    rw [textEq, List.append_assoc, List.append_assoc]
    exact spaced.skip leading
  refine ⟨.openBrace :: separated .closeBrace
    (mems.map fun mem => .string mem.key :: .colon :: read mem), ?_, ?_⟩
  · have lexed : Lexes ([','].intercalate
          (mems.map fun mem => mem.keyText ++ ':' :: mem.valueText) ++ ['\x7d'])
        (separated .closeBrace (mems.map fun mem => .string mem.key :: .colon :: read mem)) :=
      lexes_separated (by decide +kernel) rfl (by decide) lexesMember
    rw [List.append_assoc]
    exact (lexed.skip blank).cons (by decide +kernel) rfl
  · refine parsesTo_cons fun turns rest enough => ?_
    cases mems with
    | nil => rfl
    | cons mem mems =>
        have parsed := members_separated (List.cons_ne_nil mem mems) parses turns rest enough
        have opens : ∃ tail, separated .closeBrace ((mem :: mems).map fun mem =>
            .string mem.key :: .colon :: read mem) ++ rest = .string mem.key :: tail := by
          cases mems <;> exact ⟨_, rfl⟩
        obtain ⟨tail, startEq⟩ := opens
        rw [startEq] at parsed
        rw [startEq, expression_object, parsed]
        rfl

/-- A JSON text is read as the literal expression of its value. -/
theorem Denotes.readsAs {text : List Char} {value : Literal} (denotes : Denotes text value) :
    ReadsAs text value := by
  induction denotes with
  | null =>
      exact ⟨[.word "null".toList], lexes_word (by decide) (by decide +kernel),
        parsesTo_cons fun _ _ _ => rfl⟩
  | true =>
      exact ⟨[.word "true".toList], lexes_word (by decide) (by decide +kernel),
        parsesTo_cons fun _ _ _ => rfl⟩
  | false =>
      exact ⟨[.word "false".toList], lexes_word (by decide) (by decide +kernel),
        parsesTo_cons fun _ _ _ => rfl⟩
  | @number literal unsigned =>
      exact ⟨[.numeric literal], lexes_number unsigned, parsesTo_cons fun _ _ _ => rfl⟩
  | @negative literal unsigned =>
      refine ⟨[.minus, .numeric literal],
        (lexes_number unsigned).cons (by decide +kernel) rfl, parsesTo_cons fun _ _ _ => rfl⟩
  | @string text units string =>
      exact ⟨[.string units], lexes_string string, parsesTo_cons fun _ _ _ => rfl⟩
  | array blank texts inductionHypothesis => exact readsAs_array blank inductionHypothesis
  | object blank keys texts inductionHypothesis =>
      exact readsAs_object blank keys inductionHypothesis
  | padded leading inner trailing inductionHypothesis =>
      obtain ⟨read, lexes, parses⟩ := inductionHypothesis
      have spaced := lexes.append (fun rest boundary => trailing.boundary boundary)
        (lexes_space trailing)
      rw [List.append_nil] at spaced
      refine ⟨read, ?_, parses⟩
      rw [List.append_assoc]
      exact spaced.skip leading

theorem Denotes.parseExpression {text : List Char} {value : Literal}
    (denotes : Denotes text value) : parseExpression text = some value := by
  obtain ⟨read, ⟨used, short, reads⟩, parses⟩ := denotes.readsAs
  obtain ⟨spare, lengthEq⟩ := Nat.exists_eq_add_of_le short
  have lexed := reads (spare + 1) [] (by simp [Boundary])
  have parsed := parses (read.length + 1) [] (Nat.le_succ _)
  rw [List.append_nil] at lexed parsed
  have allTokens : tokens (text.length + 1) text = some read := by
    rw [lengthEq, Nat.add_assoc, lexed]
    simp [tokens]
  rw [Ecmascript.parseExpression, allTokens]
  simp [parsed]

end RustySsr.Ecmascript.Json
