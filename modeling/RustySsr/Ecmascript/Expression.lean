import RustySsr.Ecmascript.StringLiteral

/-!
Owns the ECMAScript expressions that a JSON text can be: literals, and array and
object literals of them. A text is read into tokens and these into a `Literal`;
other expressions, elisions and trailing commas are not read. An object literal
is evaluated with the special meaning of `__proto__`, which `JSON.parse` lacks.
The values of numbers are left aside: a number is its literal.
-/

namespace RustySsr.Ecmascript

/-- A literal expression, which is also a JSON value. Strings and keys are given
by their code units. -/
inductive Literal where
  | null
  | bool (value : Bool)
  | number (negative : Bool) (literal : List Char)
  | string (units : List UInt16)
  | array (elements : List Literal)
  | object (members : List (List UInt16 × Literal))

/-! ### Tokens -/

inductive Token where
  | openBracket
  | closeBracket
  | openBrace
  | closeBrace
  | comma
  | colon
  | minus
  | string (units : List UInt16)
  | numeric (literal : List Char)
  | word (name : List Char)
deriving DecidableEq, Repr

def punctuator (c : Char) : Option Token :=
  if c = '[' then some .openBracket
  else if c = ']' then some .closeBracket
  else if c = '\x7b' then some .openBrace
  else if c = '\x7d' then some .closeBrace
  else if c = ',' then some .comma
  else if c = ':' then some .colon
  else if c = '-' then some .minus
  else none

/-- White space and line terminators. -/
def isBlank (c : Char) : Bool :=
  isLineTerminator c ||
    [0x09, 0x0B, 0x0C, 0x20, 0xA0, 0x1680, 0x202F, 0x205F, 0x3000, 0xFEFF].contains c.toNat ||
      (0x2000 ≤ c.toNat && c.toNat ≤ 0x200A)

/-- A character of an identifier name, as far as these are ASCII. -/
def isWordChar (c : Char) : Bool := c.isAlphanum || c = '_' || c = '$'

def fractionOf : List Char → List Char
  | c :: rest => if c = '.' then c :: rest.takeWhile Char.isDigit else []
  | [] => []

def exponentOf : List Char → List Char
  | mark :: rest =>
      if mark = 'e' || mark = 'E' then
        match rest with
        | sign :: digits =>
            if sign = '+' || sign = '-' then mark :: sign :: digits.takeWhile Char.isDigit
            else mark :: rest.takeWhile Char.isDigit
        | [] => [mark]
      else []
  | [] => []

/-- The decimal literal at the start of a text, without legacy octal ones. No
digit and no name may follow it. -/
def numericLiteral (text : List Char) : Option (List Char × List Char) :=
  let int := text.takeWhile Char.isDigit
  let fraction := fractionOf (text.drop int.length)
  let exponent := exponentOf (text.drop (int.length + fraction.length))
  let literal := int ++ fraction ++ exponent
  let rest := text.drop literal.length
  if int.head? = some '0' ∧ 1 < int.length then none
  else if exponent.getLast?.any fun c => !c.isDigit then none
  else if rest.head?.any isWordChar then none
  else some (literal, rest)

/-- The token that begins with the character, if that is no punctuator. -/
def lexeme (c : Char) (rest : List Char) : Option (Token × List Char) :=
  if c = '\"' || c = '\'' then (stringLiteral c rest).map (Prod.map .string id)
  else if c.isDigit then (numericLiteral (c :: rest)).map (Prod.map .numeric id)
  else if isWordChar c then
    some (.word (c :: rest.takeWhile isWordChar), rest.dropWhile isWordChar)
  else none

/-- The tokens of a text, of which each turn reads one, or skips a blank. -/
def tokens : Nat → List Char → Option (List Token)
  | 0, _ => none
  | _ + 1, [] => some []
  | turns + 1, c :: rest =>
      if isBlank c then tokens turns rest
      else
        match punctuator c with
        | some token => (tokens turns rest).map (token :: ·)
        | none => (lexeme c rest).bind fun read => (tokens turns read.2).map (read.1 :: ·)

/-! ### Expressions -/

def wordLiteral (name : List Char) : Option Literal :=
  if name = "null".toList then some .null
  else if name = "true".toList then some (.bool true)
  else if name = "false".toList then some (.bool false)
  else none

mutual

/-- The expression at the start of the tokens, and the tokens after it. -/
def expression : Nat → List Token → Option (Literal × List Token)
  | 0, _ => none
  | _ + 1, .word name :: rest => (wordLiteral name).map (·, rest)
  | _ + 1, .numeric literal :: rest => some (.number false literal, rest)
  | _ + 1, .minus :: .numeric literal :: rest => some (.number true literal, rest)
  | _ + 1, .string units :: rest => some (.string units, rest)
  | _ + 1, .openBracket :: .closeBracket :: rest => some (.array [], rest)
  | turns + 1, .openBracket :: rest => (elements turns rest).map (Prod.map .array id)
  | _ + 1, .openBrace :: .closeBrace :: rest => some (.object [], rest)
  | turns + 1, .openBrace :: rest => (members turns rest).map (Prod.map .object id)
  | _ + 1, _ => none

/-- The elements up to the closing bracket. -/
def elements : Nat → List Token → Option (List Literal × List Token)
  | 0, _ => none
  | turns + 1, tokens =>
      match expression turns tokens with
      | some (first, .closeBracket :: rest) => some ([first], rest)
      | some (first, .comma :: rest) => (elements turns rest).map (Prod.map (first :: ·) id)
      | _ => none

/-- The members up to the closing brace. -/
def members : Nat → List Token → Option (List (List UInt16 × Literal) × List Token)
  | turns + 1, .string key :: .colon :: tokens =>
      match expression turns tokens with
      | some (first, .closeBrace :: rest) => some ([(key, first)], rest)
      | some (first, .comma :: rest) => (members turns rest).map (Prod.map ((key, first) :: ·) id)
      | _ => none
  | _, _ => none

end

/-- The literal expression that a text is, with nothing before or after it. -/
def parseExpression (text : List Char) : Option Literal :=
  (tokens (text.length + 1) text).bind fun read =>
    match expression (read.length + 1) read with
    | some (literal, []) => some literal
    | _ => none

/-! ### Evaluation -/

/-- A value. An object has its own properties in the order of their creation,
and the prototype that was set in place of the default one. -/
inductive JsValue where
  | null
  | bool (value : Bool)
  | number (negative : Bool) (literal : List Char)
  | string (units : List UInt16)
  | array (elements : List JsValue)
  | object (properties : List (List UInt16 × JsValue)) (prototype : Option JsValue)

def protoKey : List UInt16 := codeUnits "__proto__".toList

/-- A value that can be a prototype. -/
def JsValue.isPrototype : JsValue → Bool
  | .null => true
  | .array _ => true
  | .object _ _ => true
  | _ => false

/-- `CreateDataProperty`. -/
def createDataProperty (properties : List (List UInt16 × JsValue)) (key : List UInt16)
    (value : JsValue) : List (List UInt16 × JsValue) :=
  if key ∈ properties.map Prod.fst then
    properties.map fun property => if property.1 = key then (key, value) else property
  else properties ++ [(key, value)]

/-- `PropertyDefinitionEvaluation` of one member: unless it is evaluated for
`JSON.parse`, `__proto__` sets the prototype, or does nothing. -/
def defineMember (jsonParse : Bool) (object : List (List UInt16 × JsValue) × Option JsValue)
    (member : List UInt16 × JsValue) : List (List UInt16 × JsValue) × Option JsValue :=
  if !jsonParse && member.1 = protoKey then
    (object.1, if member.2.isPrototype then some member.2 else object.2)
  else (createDataProperty object.1 member.1 member.2, object.2)

def buildObject (jsonParse : Bool) (members : List (List UInt16 × JsValue)) : JsValue :=
  let object := members.foldl (defineMember jsonParse) ([], none)
  .object object.1 object.2

mutual

/-- The value of a literal expression, or of a JSON text for `JSON.parse`; a
literal with two `__proto__` members is an early error. -/
def Literal.evaluate (jsonParse : Bool) : Literal → Option JsValue
  | .null => some .null
  | .bool value => some (.bool value)
  | .number negative literal => some (.number negative literal)
  | .string units => some (.string units)
  | .array elements => (evaluateElements jsonParse elements).map .array
  | .object members =>
      if !jsonParse && 1 < (members.map Prod.fst).count protoKey then none
      else (evaluateMembers jsonParse members).map (buildObject jsonParse)

def evaluateElements (jsonParse : Bool) : List Literal → Option (List JsValue)
  | [] => some []
  | element :: elements =>
      (element.evaluate jsonParse).bind fun value =>
        (evaluateElements jsonParse elements).map (value :: ·)

def evaluateMembers (jsonParse : Bool) :
    List (List UInt16 × Literal) → Option (List (List UInt16 × JsValue))
  | [] => some []
  | (key, member) :: members =>
      (member.evaluate jsonParse).bind fun value =>
        (evaluateMembers jsonParse members).map ((key, value) :: ·)

end

/-- The value of a text as an expression. -/
def evaluateText (text : List Char) : Option JsValue :=
  (parseExpression text).bind (Literal.evaluate false)

/-- `JSON.parse`, on texts that are JSON: the text is evaluated as an expression
in which `__proto__` has no special meaning. -/
def jsonParse (text : List Char) : Option JsValue :=
  (parseExpression text).bind (Literal.evaluate true)

end RustySsr.Ecmascript
