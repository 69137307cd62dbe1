import RustySsr.Ecmascript.Expression
import RustySsr.Ecmascript.Json

/-!
Owns the value that a text of RFC 8259 denotes. A value is a literal expression
with its strings in code units; the grammar is that of `Text` with a value for
each production.
-/

namespace RustySsr.Ecmascript.Json

/-! ### Denotation -/

/-- The short escapes and their code units. -/
def shortEscapes : List (Char × UInt16) :=
  [('\"', 0x22), ('\\', 0x5C), ('/', 0x2F), ('b', 0x08), ('f', 0x0C), ('n', 0x0A), ('r', 0x0D),
    ('t', 0x09)]

/-- One character of a string as it is written, and its code units. -/
inductive CharDenotes : List Char → List UInt16 → Prop where
  | unescaped {c : Char} (visible : 0x20 ≤ c.toNat) (notQuote : c ≠ '\"') (notBackslash : c ≠ '\\') :
      CharDenotes [c] (utf16Encode c.toNat)
  | escaped {c : Char} {unit : UInt16} (short : (c, unit) ∈ shortEscapes) :
      CharDenotes ['\\', c] [unit]
  | unicode {digits : List Char} {number : Nat} (four : digits.length = 4)
      (hex : ∀ c ∈ digits, IsHexDigit c) (value : hexNumber digits = some number) :
      CharDenotes ('\\' :: 'u' :: digits) (utf16Encode number)

/-- A string and its code units. -/
def StringDenotes (text : List Char) (units : List UInt16) : Prop :=
  ∃ chars : List (List Char × List UInt16), (∀ char ∈ chars, CharDenotes char.1 char.2) ∧
    text = '\"' :: ((chars.map Prod.fst).flatten ++ ['\"']) ∧ units = (chars.map Prod.snd).flatten

/-- A number without a sign. -/
def IsUnsigned (text : List Char) : Prop :=
  ∃ int fraction exponent, (int = ['0'] ∨ IsDigits int ∧ int.head? ≠ some '0') ∧
    (fraction = [] ∨ IsFraction fraction) ∧ (exponent = [] ∨ IsExponent exponent) ∧
    text = int ++ fraction ++ exponent

/-- A member of an object as it is written, with its key and its value. -/
structure Member where
  keyText : List Char
  key : List UInt16
  valueText : List Char
  value : Literal

/-- A JSON text and the value that it denotes. -/
inductive Denotes : List Char → Literal → Prop where
  | null : Denotes "null".toList .null
  | true : Denotes "true".toList (.bool true)
  | false : Denotes "false".toList (.bool false)
  | number {literal : List Char} (unsigned : IsUnsigned literal) :
      Denotes literal (.number false literal)
  | negative {literal : List Char} (unsigned : IsUnsigned literal) :
      Denotes ('-' :: literal) (.number true literal)
  | string {text : List Char} {units : List UInt16} (string : StringDenotes text units) :
      Denotes text (.string units)
  | array {space : List Char} {elements : List (List Char × Literal)} (blank : IsSpace space)
      (texts : ∀ element ∈ elements, Denotes element.1 element.2) :
      Denotes ('[' :: (space ++ [','].intercalate (elements.map Prod.fst) ++ [']']))
        (.array (elements.map Prod.snd))
  | object {space : List Char} {members : List Member} (blank : IsSpace space)
      (keys : ∀ member ∈ members,
        Padded (fun text => StringDenotes text member.key) member.keyText)
      (texts : ∀ member ∈ members, Denotes member.valueText member.value) :
      Denotes ('\x7b' :: (space ++ [','].intercalate
          (members.map fun member => member.keyText ++ ':' :: member.valueText) ++ ['\x7d']))
        (.object (members.map fun member => (member.key, member.value)))
  | padded {before text after : List Char} {value : Literal} (leading : IsSpace before)
      (inner : Denotes text value) (trailing : IsSpace after) :
      Denotes (before ++ text ++ after) value

/-- A text without special characters between quotes. -/
theorem StringDenotes.quoted {text : List Char}
    (unescaped : ∀ c ∈ text, 0x20 ≤ c.toNat ∧ c ≠ '\"' ∧ c ≠ '\\') :
    StringDenotes ('\"' :: (text ++ ['\"'])) (codeUnits text) := by
  refine ⟨text.map fun c => ([c], utf16Encode c.toNat), fun char member => ?_, ?_, ?_⟩
  · obtain ⟨c, inText, rfl⟩ := List.mem_map.mp member
    obtain ⟨visible, notQuote, notBackslash⟩ := unescaped c inText
    exact .unescaped visible notQuote notBackslash
  · rw [List.map_map, ← List.flatMap_def]
    simp [Function.comp_def]
  · rw [List.map_map, ← List.flatMap_def]
    rfl

theorem CharDenotes.nonempty {text : List Char} {units : List UInt16}
    (denotes : CharDenotes text units) : text ≠ [] := by
  cases denotes <;> simp

end RustySsr.Ecmascript.Json
