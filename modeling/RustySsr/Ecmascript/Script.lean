import RustySsr.Ecmascript.Evaluation
import RustySsr.Foundation.Pieces

/-!
Owns texts that are ECMAScript: expressions, statements and scripts. Each rule
is a production of the ECMAScript grammar over characters instead of tokens, so
it says itself where two words must not run together and where no line
terminator may stand. Not all productions are here, and names are ASCII; but
those left out derive no text of word characters and dots that begins with an
identifier, and `Derives.member_iff` states which member expressions these are.
-/

namespace RustySsr.Ecmascript

open RustySsr.Foundation

/-! ### Words and blanks -/

def IsBlankText (text : List Char) : Prop := ∀ c ∈ text, isBlank c = true

/-- A character that may begin a name. -/
def isWordStart (c : Char) : Bool := isWordChar c && !c.isDigit

/-- `IdentifierName`. -/
def IsName (text : List Char) : Prop :=
  (∀ c ∈ text, isWordChar c = true) ∧ ∃ c ∈ text.head?, isWordStart c = true

/-- The words that are no identifiers in some script. -/
def reservedWords : List String :=
  ["arguments", "await", "break", "case", "catch", "class", "const", "continue", "debugger",
    "default", "delete", "do", "else", "enum", "eval", "export", "extends", "false", "finally",
    "for", "function", "if", "implements", "import", "in", "instanceof", "interface", "let", "new",
    "null", "package", "private", "protected", "public", "return", "static", "super", "switch",
    "this", "throw", "true", "try", "typeof", "var", "void", "while", "with", "yield"]

/-- `Identifier`. -/
def IsIdentifier (text : List Char) : Prop := IsName text ∧ String.ofList text ∉ reservedWords

/-- The text does not continue a word that stands before it. -/
def StandsApart (text : List Char) : Prop := ∀ c ∈ text.head?, isWordChar c = false

/-- The first token of the text is on the line on which the text begins. -/
def OnSameLine (text : List Char) : Prop := ∀ c ∈ text.takeWhile isBlank, isLineTerminator c = false

/-- The words that begin another statement than an expression. -/
def statementWords : List String := ["async", "class", "function", "let"]

/-- An expression that begins so can be a statement, and is no directive. -/
def mayBeginStatement (text : List Char) : Bool :=
  let body := text.dropWhile isBlank
  (body.head?.all fun c => c ≠ '\x7b' && c ≠ '\"' && c ≠ '\'') &&
    !statementWords.contains (String.ofList (body.takeWhile isWordChar))

/-- The character that encloses a template. -/
def templateQuote : Char := Char.ofNat 0x60

/-- The characters of a template that stand for themselves. -/
def IsTemplateText (text : List Char) : Prop :=
  ∀ c ∈ text, c ≠ templateQuote ∧ c ≠ '\\' ∧ c ≠ '$'

/-! ### The grammar -/

/-- The nonterminals, the weaker binding ones later. `assignment` is any
expression. -/
inductive Category where
  | member
  | leftHandSide
  | unary
  | equality
  | logicalOr
  | assignment
  | statement
deriving DecidableEq, Repr

def argumentList (arguments : List (List Char)) : List Char :=
  '(' :: ([','].intercalate arguments ++ [')'])

/-- `Block`, which is also the body of a function. -/
def braced (statements : List (List Char)) : List Char :=
  '\x7b' :: (statements.flatten ++ ['\x7d'])

/-- An expression in a template and the text after it. -/
def templateSpan (span : List Char × List Char) : List Char :=
  '$' :: '\x7b' :: (span.1 ++ '\x7d' :: span.2)

/-- The text belongs to the nonterminal; the flag tells whether it stands in the
body of an asynchronous function. -/
inductive Derives : Bool → Category → List Char → Prop where
  | spaced {inAsync : Bool} {category : Category} {before text after : List Char}
      (leading : IsBlankText before) (inner : Derives inAsync category text)
      (trailing : IsBlankText after) : Derives inAsync category (before ++ text ++ after)
  | identifier {inAsync : Bool} {text : List Char} (named : IsIdentifier text) :
      Derives inAsync .member text
  | string {inAsync : Bool} {quote : Char} {body : List Char} {units : List UInt16}
      (quoted : quote = '\"' ∨ quote = '\'') (reads : stringLiteral quote body = some (units, [])) :
      Derives inAsync .member (quote :: body)
  | template {inAsync : Bool} {head : List Char} {spans : List (List Char × List Char)}
      (headText : IsTemplateText head) (spanTexts : ∀ span ∈ spans, IsTemplateText span.2)
      (expressions : ∀ span ∈ spans, Derives inAsync .assignment span.1) :
      Derives inAsync .member
        (templateQuote :: (head ++ (spans.flatMap templateSpan ++ [templateQuote])))
  | parenthesized {inAsync : Bool} {text : List Char} (inner : Derives inAsync .assignment text) :
      Derives inAsync .member ('(' :: (text ++ [')']))
  | asyncFunction {inAsync : Bool} {gap : List Char} {statements : List (List Char)}
      (blank : IsBlankText gap) (body : ∀ statement ∈ statements, Derives true .statement statement) :
      Derives inAsync .member ("async function()".toList ++ (gap ++ braced statements))
  | property {inAsync : Bool} {object name : List Char} (base : Derives inAsync .member object)
      (named : IsName name) : Derives inAsync .member (object ++ '.' :: name)
  | new {inAsync : Bool} {constructor : List Char} {arguments : List (List Char)}
      (base : Derives inAsync .member constructor) (apart : StandsApart constructor)
      (each : ∀ argument ∈ arguments, Derives inAsync .assignment argument) :
      Derives inAsync .member ("new".toList ++ (constructor ++ argumentList arguments))
  | ofMember {inAsync : Bool} {text : List Char} (inner : Derives inAsync .member text) :
      Derives inAsync .leftHandSide text
  | call {inAsync : Bool} {callee : List Char} {arguments : List (List Char)}
      (base : Derives inAsync .leftHandSide callee)
      (each : ∀ argument ∈ arguments, Derives inAsync .assignment argument) :
      Derives inAsync .leftHandSide (callee ++ argumentList arguments)
  | ofLeftHandSide {inAsync : Bool} {text : List Char} (inner : Derives inAsync .leftHandSide text) :
      Derives inAsync .unary text
  | typeof {inAsync : Bool} {operand : List Char} (inner : Derives inAsync .unary operand)
      (apart : StandsApart operand) : Derives inAsync .unary ("typeof".toList ++ operand)
  | await {operand : List Char} (inner : Derives true .unary operand)
      (apart : StandsApart operand) : Derives true .unary ("await".toList ++ operand)
  | ofUnary {inAsync : Bool} {text : List Char} (inner : Derives inAsync .unary text) :
      Derives inAsync .equality text
  | notIdentical {inAsync : Bool} {left right : List Char} (first : Derives inAsync .equality left)
      (second : Derives inAsync .unary right) :
      Derives inAsync .equality (left ++ ("!==".toList ++ right))
  | ofEquality {inAsync : Bool} {text : List Char} (inner : Derives inAsync .equality text) :
      Derives inAsync .logicalOr text
  | or {inAsync : Bool} {left right : List Char} (first : Derives inAsync .logicalOr left)
      (second : Derives inAsync .equality right) :
      Derives inAsync .logicalOr (left ++ ("||".toList ++ right))
  | ofLogicalOr {inAsync : Bool} {text : List Char} (inner : Derives inAsync .logicalOr text) :
      Derives inAsync .assignment text
  | literal {inAsync : Bool} {text : List Char} {value : Literal}
      (reads : parseExpression text = some value) (distinct : value.Distinct) :
      Derives inAsync .assignment text
  | expression {inAsync : Bool} {text : List Char} (inner : Derives inAsync .assignment text)
      (begins : mayBeginStatement text = true) : Derives inAsync .statement (text ++ [';'])
  | block {inAsync : Bool} {statements : List (List Char)}
      (each : ∀ statement ∈ statements, Derives inAsync .statement statement) :
      Derives inAsync .statement (braced statements)
  | ifThen {inAsync : Bool} {gap condition body : List Char} (blank : IsBlankText gap)
      (test : Derives inAsync .assignment condition) (consequent : Derives inAsync .statement body) :
      Derives inAsync .statement ("if".toList ++ (gap ++ '(' :: (condition ++ ')' :: body)))
  | throw {inAsync : Bool} {operand : List Char} (inner : Derives inAsync .assignment operand)
      (apart : StandsApart operand) (sameLine : OnSameLine operand) :
      Derives inAsync .statement ("throw".toList ++ (operand ++ [';']))
  | return {operand : List Char} (inner : Derives true .assignment operand)
      (apart : StandsApart operand) (sameLine : OnSameLine operand) :
      Derives true .statement ("return".toList ++ (operand ++ [';']))
  | tryCatch {inAsync : Bool} {afterTry afterBlock afterCatch afterParameter parameter : List Char}
      {tried handled : List (List Char)} (blankTry : IsBlankText afterTry)
      (blankBlock : IsBlankText afterBlock) (blankCatch : IsBlankText afterCatch)
      (blankParameter : IsBlankText afterParameter) (named : IsIdentifier parameter)
      (eachTried : ∀ statement ∈ tried, Derives inAsync .statement statement)
      (eachHandled : ∀ statement ∈ handled, Derives inAsync .statement statement) :
      Derives inAsync .statement ("try".toList ++ (afterTry ++ (braced tried ++ (afterBlock ++
        ("catch".toList ++ (afterCatch ++ '(' :: (parameter ++ ')' ::
          (afterParameter ++ braced handled))))))))

/-- `Script`: statements, and perhaps an expression after which the end of the
text stands for the semicolon. -/
inductive IsScript : List Char → Prop where
  | statements {statements : List (List Char)} {last : List Char}
      (each : ∀ statement ∈ statements, Derives false .statement statement)
      (blank : IsBlankText last) : IsScript (statements.flatten ++ last)
  | expressionAtEnd {statements : List (List Char)} {last : List Char}
      (each : ∀ statement ∈ statements, Derives false .statement statement)
      (inner : Derives false .assignment last) (begins : mayBeginStatement last = true) :
      IsScript (statements.flatten ++ last)

/-! ### Checks of given texts -/

theorem isBlankText_of_all {text : List Char} (checked : text.all isBlank = true) :
    IsBlankText text :=
  List.all_eq_true.mp checked

theorem isIdentifier_of_all {text : List Char}
    (checked : (text.all isWordChar && text.head?.any isWordStart &&
      !reservedWords.contains (String.ofList text)) = true) : IsIdentifier text := by
  simp only [Bool.and_eq_true, List.all_eq_true, Option.any_eq_true, Bool.not_eq_true',
    List.contains_eq_mem, decide_eq_false_iff_not] at checked
  obtain ⟨⟨word, first, head, starts⟩, notReserved⟩ := checked
  exact ⟨⟨word, first, head, starts⟩, notReserved⟩

theorem isTemplateText_of_all {text : List Char}
    (checked : (text.all fun c => c ≠ templateQuote && c ≠ '\\' && c ≠ '$') = true) :
    IsTemplateText text := by
  intro c member
  have each := List.all_eq_true.mp checked c member
  simp only [Bool.and_eq_true, decide_eq_true_eq] at each
  exact ⟨each.1.1, each.1.2, each.2⟩

theorem plain_of_all {text : List Char} {quote : Char}
    (checked : (text.all fun c => c ≠ quote && c ≠ '\\' && !breaksLiteral c) = true) :
    ∀ c ∈ text, c ≠ quote ∧ c ≠ '\\' ∧ breaksLiteral c = false := by
  intro c member
  have each := List.all_eq_true.mp checked c member
  simp only [Bool.and_eq_true, decide_eq_true_eq, Bool.not_eq_true'] at each
  exact ⟨each.1.1, each.1.2, each.2⟩

theorem isBlankText_space : IsBlankText [' '] := isBlankText_of_all (by decide)

theorem standsApart_space (text : List Char) : StandsApart (' ' :: text) := by
  intro c head
  obtain rfl := Option.some.inj head
  rfl

theorem onSameLine_space {c : Char} (visible : isBlank c = false) (text : List Char) :
    OnSameLine (' ' :: c :: text) := by
  intro other member
  have first : isBlank ' ' = true := by decide
  rw [List.takeWhile_cons_of_pos first, List.takeWhile_cons_of_neg (by simp [visible]),
    List.mem_singleton] at member
  subst member
  rfl

/-! ### Smaller rules -/

section Rules

variable {inAsync : Bool} {category : Category} {text : List Char}

theorem Derives.lead (before : List Char) (blank : IsBlankText before)
    (inner : Derives inAsync category text) : Derives inAsync category (before ++ text) := by
  simpa using Derives.spaced blank inner (List.forall_mem_nil _)

theorem Derives.trail (after : List Char) (blank : IsBlankText after)
    (inner : Derives inAsync category text) : Derives inAsync category (text ++ after) := by
  simpa using Derives.spaced (List.forall_mem_nil _) inner blank

/-- A blank may stand in front of it. -/
theorem Derives.afterSpace (inner : Derives inAsync category text) :
    Derives inAsync category (' ' :: text) :=
  inner.lead [' '] isBlankText_space

/-- A blank may stand behind it. -/
theorem Derives.beforeSpace (inner : Derives inAsync category text) :
    Derives inAsync category (text ++ [' ']) :=
  inner.trail [' '] isBlankText_space

/-- A member expression is an expression of every strength. -/
theorem Derives.unaryOfMember (inner : Derives inAsync .member text) :
    Derives inAsync .unary text :=
  .ofLeftHandSide (.ofMember inner)

theorem Derives.ofUnaryExpression (inner : Derives inAsync .unary text) :
    Derives inAsync .assignment text :=
  .ofLogicalOr (.ofEquality (.ofUnary inner))

theorem Derives.quoted {quote : Char} (quoted : quote = '\"' ∨ quote = '\'')
    (plain : ∀ c ∈ text, c ≠ quote ∧ c ≠ '\\' ∧ breaksLiteral c = false) :
    Derives inAsync .member (quote :: (text ++ [quote])) :=
  .string quoted (stringLiteral_plain plain)

end Rules

/-! ### Member expressions of names -/

/-- What follows a dot begins a name. -/
def BeginsNames (text : List Char) : Prop :=
  ∀ before after, text = before ++ '.' :: after → ∃ c ∈ after.head?, isWordStart c = true

theorem BeginsNames.append {first second : List Char} (firstNames : BeginsNames first)
    (secondNames : BeginsNames second) : BeginsNames (first ++ second) := by
  intro before after split
  rcases List.append_eq_append_iff.mp split with ⟨between, rfl, rest⟩ | ⟨between, within, rest⟩
  · exact secondNames between after rest
  · cases between with
    | nil => exact secondNames [] after rest.symm
    | cons dot between =>
        obtain ⟨rfl, rfl⟩ := List.cons.inj rest
        obtain ⟨c, head, starts⟩ := firstNames before between within
        exact ⟨c, List.mem_head?_append_of_mem_head? head, starts⟩

theorem BeginsNames.of_append (first : List Char) {second : List Char}
    (names : BeginsNames (first ++ second)) : BeginsNames second := fun before after split =>
  names (first ++ before) after (by rw [split, List.append_assoc])

theorem IsName.beginsNames {name : List Char} (named : IsName name) : BeginsNames ('.' :: name) := by
  intro before after split
  cases before with
  | nil =>
      obtain ⟨-, rfl⟩ := List.cons.inj split
      exact named.2
  | cons dot before =>
      obtain ⟨-, rfl⟩ := List.cons.inj split
      exact absurd (named.1 '.' (by simp)) (by decide)

/-- Names and dots are all there is in the text. -/
def IsDotted (text : List Char) : Prop := ∀ c ∈ text, c = '.' ∨ isWordChar c = true

theorem isWordChar_toNat {c : Char} (word : isWordChar c = true) :
    0x20 < c.toNat ∧ c.toNat < 0xA0 := by
  simp only [isWordChar, Bool.or_eq_true, decide_eq_true_eq] at word
  rcases word with (alphanumeric | rfl) | rfl
  · have ranges : (decide (65 ≤ c.val ∧ c.val ≤ 90) || (decide (97 ≤ c.val) &&
        decide (c.val ≤ 122)) || (decide (48 ≤ c.val) && decide (c.val ≤ 57))) = true :=
      alphanumeric
    have same : c.val.toNat = c.toNat := rfl
    simp only [Bool.or_eq_true, Bool.and_eq_true, decide_eq_true_eq, UInt32.le_iff_toNat_le,
      UInt32.reduceToNat] at ranges
    omega
  · decide
  · decide

theorem isBlank_toNat {c : Char} (blank : isBlank c = true) : c.toNat ≤ 0x20 ∨ 0xA0 ≤ c.toNat := by
  simp only [isBlank, isLineTerminator, breaksLiteral, Bool.or_eq_true, Bool.and_eq_true,
    decide_eq_true_eq, List.contains_eq_mem, List.mem_cons, List.not_mem_nil, or_false] at blank
  rcases blank with ((((rfl | rfl) | rfl) | rfl) | listed) | range
  · decide
  · decide
  · decide
  · decide
  · omega
  · omega

theorem IsDotted.excludes {text : List Char} (dotted : IsDotted text) {c : Char}
    (member : c ∈ text) (other : c ≠ '.' ∧ isWordChar c = false) : False := by
  rcases dotted c member with dot | word
  · exact other.1 dot
  · simp [other.2] at word

/-- A dotted text has no blanks around it. -/
theorem IsDotted.eq_nil_of_blank {text : List Char} (dotted : IsDotted text)
    (blank : IsBlankText text) : text = [] := by
  refine List.eq_nil_iff_forall_not_mem.mpr fun c member => ?_
  have outside := isBlank_toNat (blank c member)
  rcases dotted c member with rfl | word
  · revert outside
    decide
  · have inside := isWordChar_toNat word
    omega

/-- In a member expression of names and dots, each dot has a name behind it. -/
theorem Derives.beginsNames {inAsync : Bool} {category : Category} {text : List Char}
    (derives : Derives inAsync category text) (isMember : category = .member)
    (dotted : IsDotted text) : BeginsNames ('.' :: text) := by
  induction derives with
  | @spaced inAsync category before text after leading inner trailing inductionHypothesis =>
      have noneBefore : before = [] :=
        IsDotted.eq_nil_of_blank (fun c member => dotted c (by simp [member])) leading
      have noneAfter : after = [] :=
        IsDotted.eq_nil_of_blank (fun c member => dotted c (by simp [member])) trailing
      subst noneBefore noneAfter
      rw [List.nil_append, List.append_nil] at dotted ⊢
      exact inductionHypothesis isMember dotted
  | identifier named => exact named.1.beginsNames
  | @property inAsync object name base named inductionHypothesis =>
      have baseDotted : IsDotted object := fun c member => dotted c (by simp [member])
      exact (inductionHypothesis isMember baseDotted).append named.beginsNames
  -- The other member expressions have a quote, a brace, a blank or a parenthesis in them.
  | string quoted reads =>
      rcases quoted with rfl | rfl <;> exact (dotted.excludes List.mem_cons_self (by decide)).elim
  | template headText spanTexts expressions =>
      exact (dotted.excludes List.mem_cons_self (by decide)).elim
  | parenthesized inner => exact (dotted.excludes List.mem_cons_self (by decide)).elim
  | asyncFunction blank body =>
      have space : ' ' ∈ "async function()".toList := by decide
      exact (dotted.excludes (List.mem_append_left _ space) (by decide)).elim
  | new base apart each =>
      have parenthesis {arguments} : '(' ∈ argumentList arguments := List.mem_cons_self
      exact (dotted.excludes (List.mem_append_right _ (List.mem_append_right _ parenthesis))
        (by decide)).elim
  | _ => cases isMember

theorem isName_of_beginsNames {name : List Char} (names : BeginsNames ('.' :: name))
    (dotted : IsDotted name) (noDot : '.' ∉ name) : IsName name :=
  ⟨fun c member => (dotted c member).resolve_left fun dot => noDot (dot ▸ member),
    names [] name rfl⟩

/-- Names that follow a member expression continue it. -/
theorem Derives.dotted {inAsync : Bool} {object text : List Char}
    (base : Derives inAsync .member object) (names : BeginsNames ('.' :: text))
    (dotted : IsDotted text) : Derives inAsync .member (object ++ '.' :: text) := by
  induction text using Pieces.pieces_induction '.' generalizing object with
  | single name noDot => exact .property base (isName_of_beginsNames names dotted noDot)
  | front name rest noDot inductionHypothesis =>
      have nameDotted : IsDotted name := fun c member => dotted c (by simp [member])
      have restDotted : IsDotted rest := fun c member => dotted c (by simp [member])
      have firstNames : BeginsNames ('.' :: name) := by
        intro before after split
        cases before with
        | nil =>
            obtain ⟨-, rfl⟩ := List.cons.inj split
            obtain ⟨c, head, starts⟩ := names [] (name ++ '.' :: rest) rfl
            cases name with
            | nil =>
                obtain rfl := Option.some.inj head
                contradiction
            | cons first name => exact ⟨c, head, starts⟩
        | cons dot before =>
            obtain ⟨-, rfl⟩ := List.cons.inj split
            exact absurd (by simp) noDot
      have restNames : BeginsNames ('.' :: rest) := BeginsNames.of_append ('.' :: name) names
      have first := Derives.property base (isName_of_beginsNames firstNames nameDotted noDot)
      have whole := inductionHypothesis first restNames restDotted
      rwa [List.append_assoc] at whole

/-- Dots and names behind an identifier are a member expression exactly if each
dot has a name behind it. -/
theorem Derives.member_iff {inAsync : Bool} {object text : List Char}
    (named : IsIdentifier object) (dotted : IsDotted text) :
    Derives inAsync .member (object ++ '.' :: text) ↔ BeginsNames ('.' :: text) := by
  constructor
  · intro derives
    have objectDotted : IsDotted object := fun c member => Or.inr (named.1.1 c member)
    have wholeDotted : IsDotted (object ++ '.' :: text) := by
      intro c member
      rcases List.mem_append.mp member with inObject | behind
      · exact objectDotted c inObject
      · rcases List.mem_cons.mp behind with dot | inText
        · exact Or.inl dot
        · exact dotted c inText
    exact BeginsNames.of_append ('.' :: object) (derives.beginsNames rfl wholeDotted)
  · exact fun names => (Derives.identifier named).dotted names dotted

end RustySsr.Ecmascript
