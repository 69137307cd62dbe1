import RustySsr.Ecmascript.Scanner

/-!
Owns the string value of an ECMAScript string literal: its characters in UTF-16
and all escapes, the legacy octal ones included, since the scripts read here are
not strict. `stringLiteral` reads a literal from behind its opening quote and
fails where no literal stands. Nothing here knows whose text it is.
-/

namespace RustySsr.Ecmascript

/-! ### Code units -/

/-- `UTF16EncodeCodePoint`. -/
def utf16Encode (codePoint : Nat) : List UInt16 :=
  if codePoint < 0x10000 then [UInt16.ofNat codePoint]
  else [UInt16.ofNat (0xD800 + (codePoint - 0x10000) / 0x400),
    UInt16.ofNat (0xDC00 + (codePoint - 0x10000) % 0x400)]

/-- The string value of a text. -/
def codeUnits (text : List Char) : List UInt16 := text.flatMap fun c => utf16Encode c.toNat

/-! ### Escapes -/

/-- The value of a hexadecimal digit. -/
def hexValue (c : Char) : Option Nat :=
  if c.isDigit then some (c.toNat - '0'.toNat)
  else if 'a' ≤ c ∧ c ≤ 'f' then some (c.toNat - 'a'.toNat + 10)
  else if 'A' ≤ c ∧ c ≤ 'F' then some (c.toNat - 'A'.toNat + 10)
  else none

/-- The number that hexadecimal digits write, if all of them are. -/
def hexNumber (digits : List Char) : Option Nat :=
  digits.foldlM (fun number c => (hexValue c).map fun value => number * 16 + value) 0

def isOctalDigit (c : Char) : Bool := '0' ≤ c && c ≤ '7'

/-- The value of a single escape character, other than that of the character itself. -/
def singleEscape (c : Char) : Option UInt16 :=
  if c = 'b' then some 0x08
  else if c = 't' then some 0x09
  else if c = 'n' then some 0x0A
  else if c = 'v' then some 0x0B
  else if c = 'f' then some 0x0C
  else if c = 'r' then some 0x0D
  else none

/-- A terminator of a line, LINE SEPARATOR and PARAGRAPH SEPARATOR included. -/
def isLineTerminator (c : Char) : Bool :=
  breaksLiteral c || c = Char.ofNat 0x2028 || c = Char.ofNat 0x2029

/-- A number of hexadecimal digits that an escape ends with. -/
def hexEscape (count : Nat) (text : List Char) : Option (List UInt16 × List Char) :=
  if (text.take count).length = count then
    (hexNumber (text.take count)).map fun number => (utf16Encode number, text.drop count)
  else none

/-- What follows `\u`. -/
def unicodeEscape (text : List Char) : Option (List UInt16 × List Char) :=
  match text with
  | '\x7b' :: rest =>
      let digits := rest.takeWhile fun c => (hexValue c).isSome
      match rest.drop digits.length with
      | '\x7d' :: after =>
          if digits.isEmpty then none
          else (hexNumber digits).bind fun number =>
            if number ≤ 0x10FFFF then some (utf16Encode number, after) else none
      | _ => none
  | _ => hexEscape 4 text

/-- An escape that begins with a decimal digit: of at most three octal digits,
and at most two if the first is above three; `8` and `9` stand for themselves. -/
def digitEscape (first : Char) (text : List Char) : List UInt16 × List Char :=
  if isOctalDigit first then
    let more := (text.take (if first ≤ '3' then 2 else 1)).takeWhile isOctalDigit
    (utf16Encode ((first :: more).foldl (fun number c => number * 8 + (c.toNat - '0'.toNat)) 0),
      text.drop more.length)
  else (utf16Encode first.toNat, text)

/-- What follows the backslash of an escape: its value and the text after it. -/
def escapeSequence : List Char → Option (List UInt16 × List Char)
  | [] => none
  | c :: rest =>
      if c = 'x' then hexEscape 2 rest
      else if c = 'u' then unicodeEscape rest
      else if c.isDigit then some (digitEscape c rest)
      else if isLineTerminator c then
        some ([], if c = '\r' ∧ rest.head? = some '\n' then rest.tail else rest)
      else
        match singleEscape c with
        | some value => some ([value], rest)
        | none => some (utf16Encode c.toNat, rest)

/-! ### The literal -/

/-- Put code units before those that were read. -/
def prependUnits (units : List UInt16) (read : List UInt16 × List Char) :
    List UInt16 × List Char :=
  (units ++ read.1, read.2)

/-- The characters up to the closing quote, of which each turn reads one. -/
def stringChars (quote : Char) : Nat → List Char → Option (List UInt16 × List Char)
  | 0, _ => none
  | _ + 1, [] => none
  | turns + 1, c :: rest =>
      if c = quote then some ([], rest)
      else if breaksLiteral c then none
      else if c = '\\' then
        (escapeSequence rest).bind fun escaped =>
          (stringChars quote turns escaped.2).map (prependUnits escaped.1)
      else (stringChars quote turns rest).map (prependUnits (utf16Encode c.toNat))

/-- The string value of the literal behind its opening quote, and the text after
its closing quote. -/
def stringLiteral (quote : Char) (text : List Char) : Option (List UInt16 × List Char) :=
  stringChars quote (text.length + 1) text

theorem prependUnits_nil : prependUnits [] = id := rfl

theorem prependUnits_append (first second : List UInt16) :
    prependUnits (first ++ second) = prependUnits first ∘ prependUnits second := by
  funext read
  simp [prependUnits]

section Chars

variable {quote c : Char} {turns : Nat} {rest : List Char}

theorem stringChars_quote (quote : Char) (turns : Nat) (rest : List Char) :
    stringChars quote (turns + 1) (quote :: rest) = some ([], rest) := by
  simp [stringChars]

theorem stringChars_break (breaks : breaksLiteral c = true) (notQuote : c ≠ quote) :
    stringChars quote (turns + 1) (c :: rest) = none := by
  simp [stringChars, breaks, notQuote]

/-- An ordinary character stands for itself. -/
theorem stringChars_cons (notQuote : c ≠ quote) (fits : breaksLiteral c = false)
    (notBackslash : c ≠ '\\') :
    stringChars quote (turns + 1) (c :: rest) =
      (stringChars quote turns rest).map (prependUnits (utf16Encode c.toNat)) := by
  simp [stringChars, notQuote, fits, notBackslash]

theorem stringChars_escape {value : List UInt16} {text : List Char} (notQuote : quote ≠ '\\')
    (escaped : escapeSequence text = some (value, rest)) :
    stringChars quote (turns + 1) ('\\' :: text) =
      (stringChars quote turns rest).map (prependUnits value) := by
  have backslash : breaksLiteral '\\' = false := by decide
  simp [stringChars, notQuote.symm, backslash, escaped]

/-- A body of which each turn reads a part makes a literal. -/
theorem stringLiteral_of_reads {body : List Char} {units : List UInt16} {count : Nat}
    (short : count ≤ body.length)
    (reads : ∀ turns, stringChars quote (count + turns) (body ++ quote :: rest) =
      (stringChars quote turns (quote :: rest)).map (prependUnits units)) :
    stringLiteral quote (body ++ quote :: rest) = some (units, rest) := by
  obtain ⟨spare, lengthEq⟩ := Nat.exists_eq_add_of_le short
  have enough : (body ++ quote :: rest).length + 1 = count + (spare + rest.length + 1 + 1) := by
    rw [List.length_append, List.length_cons, lengthEq]
    omega
  rw [stringLiteral, enough, reads, stringChars_quote]
  simp [prependUnits]

/-- A text without quotes, backslashes and line terminators reads as itself. -/
theorem stringLiteral_plain {body : List Char}
    (plain : ∀ c ∈ body, c ≠ quote ∧ c ≠ '\\' ∧ breaksLiteral c = false) :
    stringLiteral quote (body ++ quote :: rest) = some (codeUnits body, rest) := by
  refine stringLiteral_of_reads (Nat.le_refl body.length) fun turns => ?_
  induction body with
  | nil => simp [codeUnits, prependUnits_nil]
  | cons c body inductionHypothesis =>
      obtain ⟨⟨notQuote, notBackslash, fits⟩, others⟩ := List.forall_mem_cons.mp plain
      have joined : codeUnits (c :: body) = utf16Encode c.toNat ++ codeUnits body := rfl
      rw [List.length_cons, Nat.add_right_comm, List.cons_append,
        stringChars_cons notQuote fits notBackslash, inductionHypothesis others, Option.map_map,
        joined, prependUnits_append]

end Chars

/-- Parts that are not empty are at most as many as the characters in them. -/
theorem length_le_flatten {parts : List (List Char)} (nonempty : ∀ part ∈ parts, part ≠ []) :
    parts.length ≤ parts.flatten.length := by
  induction parts with
  | nil => exact Nat.le_refl 0
  | cons part parts inductionHypothesis =>
      obtain ⟨first, others⟩ := List.forall_mem_cons.mp nonempty
      have positive := List.length_pos_iff.mpr first
      have tail := inductionHypothesis others
      rw [List.flatten_cons, List.length_append, List.length_cons]
      omega

example : stringLiteral '\"' "a\\n\\u0041\\x41\\101\\u\x7b1F600\x7d\" + 1".toList =
    some ([0x61, 0x0A, 0x41, 0x41, 0x41, 0xD83D, 0xDE00], " + 1".toList) := by decide

end RustySsr.Ecmascript
