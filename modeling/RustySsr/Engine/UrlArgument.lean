import RustySsr.Ecmascript.StringLiteral
import RustySsr.Engine.Injection

/-!
Owns the value of the render function's first argument. The escaping undoes what
a string literal does to backslashes and quotes, but a line terminator is left
as it is and ends the literal. `receivesUrl_iff` states for every URL that the
literal is whole and has the URL as its string value exactly if the URL contains
neither LF nor CR.
-/

namespace RustySsr.Engine

open RustySsr.Ecmascript
open RustySsr.V8Pool

/-- The string value of the URL's literal in a script, and the text after it. -/
def urlLiteral (renderFunction script : String) : Option (List UInt16 × List Char) :=
  stringLiteral '\"' (script.toList.drop ((codeBeforeUrl renderFunction).length + 1))

/-- The template's quote opens a string literal that ends at the template's own
closing quote, and its string value is the URL. -/
structure ReceivesUrl (renderFunction url safeData : String) : Prop where
  opens : (codeBeforeUrl renderFunction).toList ++ ['\"'] <+:
      (renderCode renderFunction (escapeUrl url) safeData).toList ∧
    Position.code.read (codeBeforeUrl renderFunction).toList = .code
  value : urlLiteral renderFunction (renderCode renderFunction (escapeUrl url) safeData) =
    some (codeUnits url.toList, (codeAfterUrl safeData).toList)

/-- Reading the escaped text of one character takes one turn. -/
theorem stringChars_escapeUrlChar {c : Char} (fits : breaksLiteral c = false) (turns : Nat)
    (rest : List Char) :
    stringChars '\"' (turns + 1) (escapeUrlChar c ++ rest) =
      (stringChars '\"' turns rest).map (prependUnits (utf16Encode c.toNat)) := by
  unfold escapeUrlChar
  split_ifs with backslash quote
  · subst backslash
    exact stringChars_escape (by decide) rfl
  · subst quote
    exact stringChars_escape (by decide) rfl
  · exact stringChars_cons quote fits backslash

/-- Decoding undoes the escaping of a text without line terminators. -/
theorem stringChars_escaped {url : List Char} (fits : ∀ c ∈ url, breaksLiteral c = false)
    (turns : Nat) (rest : List Char) :
    stringChars '\"' (url.length + turns) (url.flatMap escapeUrlChar ++ rest) =
      (stringChars '\"' turns rest).map (prependUnits (codeUnits url)) := by
  induction url with
  | nil => simp [codeUnits, prependUnits_nil]
  | cons c url inductionHypothesis =>
      obtain ⟨first, others⟩ := List.forall_mem_cons.mp fits
      have joined : codeUnits (c :: url) = utf16Encode c.toNat ++ codeUnits url := rfl
      rw [List.length_cons, Nat.add_right_comm, List.flatMap_cons, List.append_assoc,
        stringChars_escapeUrlChar first, inductionHypothesis others, Option.map_map, joined,
        prependUnits_append]

theorem length_le_escaped (url : List Char) : url.length ≤ (url.flatMap escapeUrlChar).length := by
  have nonempty : ∀ part ∈ url.map escapeUrlChar, part ≠ [] := by
    intro part member
    obtain ⟨c, _, rfl⟩ := List.mem_map.mp member
    unfold escapeUrlChar
    split_ifs <;> simp
  have counted := length_le_flatten nonempty
  rwa [List.length_map, ← List.flatMap_def] at counted

/-- The literal of an escaped text without line terminators. -/
theorem stringLiteral_escaped {url : List Char} (fits : ∀ c ∈ url, breaksLiteral c = false)
    (rest : List Char) :
    stringLiteral '\"' (url.flatMap escapeUrlChar ++ '\"' :: rest) = some (codeUnits url, rest) :=
  stringLiteral_of_reads (length_le_escaped url) fun turns =>
    stringChars_escaped fits turns ('\"' :: rest)

/-- A line terminator leaves no literal. -/
theorem stringLiteral_broken {url : List Char} {c : Char} (member : c ∈ url)
    (breaks : breaksLiteral c = true) (rest : List Char) :
    stringLiteral '\"' (url.flatMap escapeUrlChar ++ rest) = none := by
  obtain ⟨first, found⟩ : ∃ first, url.find? breaksLiteral = some first :=
    Option.isSome_iff_exists.mp (List.find?_isSome.mpr ⟨c, member, breaks⟩)
  obtain ⟨firstBreaks, before, after, rfl, fits⟩ := List.find?_eq_some_iff_append.mp found
  have same : escapeUrlChar first = [first] := by
    rcases breaksLiteral_iff.mp firstBreaks with rfl | rfl <;> rfl
  have notQuote : first ≠ '\"' := by
    rcases breaksLiteral_iff.mp firstBreaks with rfl | rfl <;> decide
  have longer := length_le_escaped before
  set tail := first :: (after.flatMap escapeUrlChar ++ rest)
  have written : (before ++ first :: after).flatMap escapeUrlChar ++ rest =
      before.flatMap escapeUrlChar ++ tail := by
    simp [same, tail]
  obtain ⟨turns, enough⟩ : ∃ turns, (before.flatMap escapeUrlChar ++ tail).length + 1 =
      before.length + (turns + 1) := by
    refine ⟨(before.flatMap escapeUrlChar ++ tail).length - before.length, ?_⟩
    rw [List.length_append]
    omega
  rw [written, stringLiteral, enough, stringChars_escaped (by simpa using fits),
    stringChars_break firstBreaks notQuote]
  rfl

theorem urlLiteral_renderCode (renderFunction url safeData : String) :
    urlLiteral renderFunction (renderCode renderFunction (escapeUrl url) safeData) =
      stringLiteral '\"' (url.toList.flatMap escapeUrlChar ++
        '\"' :: (codeAfterUrl safeData).toList) := by
  rw [urlLiteral, renderCode_toList, escapeUrl_toList, ← String.length_toList]
  simp

/-- **The render function receives exactly the requested URL, exactly if the URL
contains no line terminator that ends a string literal.** -/
theorem receivesUrl_iff {renderFunction : String} (named : IsRenderFunction renderFunction)
    (url safeData : String) :
    ReceivesUrl renderFunction url safeData ↔ ∀ c ∈ url.toList, c ≠ '\n' ∧ c ≠ '\r' := by
  constructor
  · intro receives c member
    by_contra terminator
    have breaks : breaksLiteral c = true := breaksLiteral_iff.mpr (by tauto)
    have value := receives.value
    rw [urlLiteral_renderCode, stringLiteral_broken member breaks] at value
    contradiction
  · intro plain
    have fits : ∀ c ∈ url.toList, breaksLiteral c = false := fun c member =>
      breaksLiteral_eq_false_iff.mpr (plain c member)
    refine ⟨⟨?_, read_codeBeforeUrl named⟩, ?_⟩
    · rw [renderCode_toList]
      exact (List.prefix_append_right_inj _).mpr ⟨_, List.singleton_append⟩
    · rw [urlLiteral_renderCode]
      exact stringLiteral_escaped fits _

/-- A URL with a backslash, a quote and a tab. -/
theorem receivesUrl_special_chars : ReceivesUrl "renderPage" "/a\\b\"c\td" "\x7b\x7d" := by
  have named : IsRenderFunction "renderPage" := ⟨by decide, List.all_eq_true.mp (by decide)⟩
  exact (receivesUrl_iff named "/a\\b\"c\td" "\x7b\x7d").mpr (by simp)

/-- A line feed in the URL leaves the script without a literal. -/
theorem line_feed_breaks_url :
    ¬ ∀ renderFunction url safeData, IsRenderFunction renderFunction →
      ReceivesUrl renderFunction url safeData := by
  intro receives
  have value := (receives "renderPage" "/a\nb" "\x7b\x7d"
    ⟨by decide, List.all_eq_true.mp (by decide)⟩).value
  have member : '\n' ∈ "/a\nb".toList := by decide
  rw [urlLiteral_renderCode, stringLiteral_broken member rfl] at value
  contradiction

end RustySsr.Engine
