import RustySsr.Ecmascript.Json
import RustySsr.Engine.Config

/-!
Owns what a URL can do to the script that renders it. The URL stands in a string
literal of the template; `url_contained` states that the literal ends at the
template's own quote, or that a line terminator breaks it and the runtime
rejects the script. The code around the literal does not depend on the URL.
-/

namespace RustySsr.Engine

open RustySsr.Ecmascript
open RustySsr.V8Pool

/-! ### The escaped URL in its literal -/

def escapeUrlChar (c : Char) : List Char :=
  if c = '\\' then ['\\', '\\'] else if c = '\"' then ['\\', '\"'] else [c]

/-- The two replacements in this order escape each character once. -/
theorem escapeUrl_toList (url : String) :
    (escapeUrl url).toList = url.toList.flatMap escapeUrlChar := by
  simp only [escapeUrl, replaceChar, String.toList_ofList, List.flatMap_assoc]
  congr 1
  funext c
  unfold escapeUrlChar
  split_ifs with backslash quote
  · rfl
  · subst quote
    rfl
  · simp [quote]

/-- An escaped character that fits into a literal stays in it. -/
theorem scanLiteral_escapeUrlChar {c : Char} (fits : breaksLiteral c = false)
    (rest : List Char) :
    scanLiteral (escapeUrlChar c ++ rest) = (scanLiteral rest).prepend (escapeUrlChar c) := by
  unfold escapeUrlChar
  split_ifs with backslash quote
  · exact scanLiteral_escape (by decide) rest
  · exact scanLiteral_escape (by decide) rest
  · exact scanLiteral_cons ⟨quote, backslash⟩ fits rest

theorem scanLiteral_escaped {url : List Char} (fits : ∀ c ∈ url, breaksLiteral c = false)
    (rest : List Char) :
    scanLiteral (url.flatMap escapeUrlChar ++ rest) =
      (scanLiteral rest).prepend (url.flatMap escapeUrlChar) := by
  induction url with
  | nil => exact (Scanned.prepend_nil _).symm
  | cons c url inductionHypothesis =>
      obtain ⟨first, others⟩ := List.forall_mem_cons.mp fits
      rw [List.flatMap_cons, List.append_assoc, scanLiteral_escapeUrlChar first,
        inductionHypothesis others, Scanned.prepend_append]

/-! ### The code around it -/

def checkHead : String :=
  "\n        (async function() \x7b" ++
  "\n            try \x7b" ++
  "\n                if (typeof globalThis."

def throwHead : String :=
  " !== 'function') \x7b" ++
  "\n                    throw new Error('Render function globalThis."

def callHead : String :=
  " not found');" ++
  "\n                \x7d" ++
  "\n                return await globalThis."

/-- The script up to the opening quote of the URL. -/
def codeBeforeUrl (renderFunction : String) : String :=
  checkHead ++ renderFunction ++ throwHead ++ renderFunction ++ callHead ++ renderFunction ++ "("

/-- The script behind the closing quote of the URL. -/
def codeAfterUrl (safeData : String) : String := ", " ++ safeData ++ renderCodeTail

theorem renderCode_toList (renderFunction escapedUrl safeData : String) :
    (renderCode renderFunction escapedUrl safeData).toList =
      (codeBeforeUrl renderFunction).toList ++ '\"' ::
        (escapedUrl.toList ++ '\"' :: (codeAfterUrl safeData).toList) := by
  have opening : "(\"".toList = "(".toList ++ ['\"'] := by decide
  have closing : "\", ".toList = '\"' :: ", ".toList := by decide
  unfold renderCode renderCodeHead codeBeforeUrl codeAfterUrl checkHead throwHead callHead
  simp only [String.toList_append, List.append_assoc, -String.reduceAppend,
    -String.reduceToList]
  rw [opening, closing]
  simp only [List.append_assoc, List.cons_append, List.nil_append, -String.reduceToList]

theorem not_special_of_isNameChar {c : Char} (named : isNameChar c = true) :
    c ∉ Position.specialChars :=
  Position.not_special_of (by decide) named

/-- The opening quote of the URL stands in code. -/
theorem read_codeBeforeUrl {renderFunction : String} (named : IsRenderFunction renderFunction) :
    Position.code.read (codeBeforeUrl renderFunction).toList = .code := by
  have nameInCode : Position.code.read renderFunction.toList = .code :=
    Position.read_of_forall fun c inName => Position.step_code_of_not_special
      (not_special_of_isNameChar (named.2 c inName))
  have nameInText : (Position.literal '\'').read renderFunction.toList = .literal '\'' :=
    Position.read_of_forall fun c inName => Position.step_literal_of_not_special (Or.inr rfl)
      (not_special_of_isNameChar (named.2 c inName))
  have check : Position.code.read checkHead.toList = .code := by decide
  have throws : Position.code.read throwHead.toList = .literal '\'' := by decide
  have calls : (Position.literal '\'').read callHead.toList = .code := by decide
  have parenthesis : Position.code.read "(".toList = .code := by decide
  simp only [codeBeforeUrl, String.toList_append, Position.read_append, check, nameInCode, throws,
    nameInText, calls, parenthesis]

/-! ### The whole script -/

/-- The printer of `serde_json` writes JSON. -/
def PrintsJson {Json : Type} (json : SerdeJson Json) : Prop :=
  ∀ value, Ecmascript.Json.Text (json.display value).toList

/-- The runtime rejects a script with a line terminator inside a string literal. -/
def RejectsBroken {Value : Type} (runtime : JsRuntime Value) : Prop :=
  ∀ name script, Position.code.read script.toList = .broken →
    ∃ message, runtime.executeScript name script = .error message

/-- The runtime executes the script. -/
def Accepts {Value : Type} (runtime : JsRuntime Value) (script : String) : Prop :=
  ∃ value, runtime.executeScript "<render>" script = .ok value

/-- The script read from the opening quote of its URL. -/
def scanUrl (renderFunction script : String) : Scanned :=
  scanLiteral (script.toList.drop ((codeBeforeUrl renderFunction).length + 1))

/-- The code on both sides of the URL's literal, if that closes. -/
def outsideUrl (renderFunction script : String) : Option (String × String) :=
  match scanUrl renderFunction script with
  | .closed _ rest =>
      some (String.ofList (script.toList.take (codeBeforeUrl renderFunction).length),
        String.ofList rest)
  | _ => none

/-- What a URL can do to the script of its request. -/
structure Contained {Json Value : Type} (json : SerdeJson Json) (runtime : JsRuntime Value)
    (renderFunction url data safeData : String) (script : String) : Prop where
  /-- This is the script that is rendered. -/
  rendered : renderHtml json runtime url (some data) renderFunction = runtime.evaluate script
  /-- The template's quote opens a literal: it is the next token of code. -/
  opens : (codeBeforeUrl renderFunction).toList ++ ['\"'] <+: script.toList ∧
    Position.code.read (codeBeforeUrl renderFunction).toList = .code
  /-- The literal ends at the template's own quote, or a line terminator of the
  URL breaks it and the script is rejected. -/
  closes : scanUrl renderFunction script =
      .closed (escapeUrl url).toList (codeAfterUrl safeData).toList ∨
    (∃ body c rest, body ++ [c] <+: (escapeUrl url).toList ∧ breaksLiteral c = true ∧
      scanUrl renderFunction script = .broken body rest) ∧
      ∃ message, renderHtml json runtime url (some data) renderFunction =
        .error ("JS execute error: " ++ message)

theorem scanUrl_renderCode (renderFunction url safeData : String) :
    scanUrl renderFunction (renderCode renderFunction (escapeUrl url) safeData) =
      scanLiteral (url.toList.flatMap escapeUrlChar ++ '\"' :: (codeAfterUrl safeData).toList) := by
  rw [scanUrl, renderCode_toList, escapeUrl_toList, ← String.length_toList]
  simp

/-- The scan of an escaped URL ends at its end, or at its first line terminator. -/
theorem scanLiteral_escaped_cases (url rest : List Char) :
    scanLiteral (url.flatMap escapeUrlChar ++ '\"' :: rest) =
        .closed (url.flatMap escapeUrlChar) rest ∨
      ∃ body c after, body ++ [c] <+: url.flatMap escapeUrlChar ∧ breaksLiteral c = true ∧
        scanLiteral (url.flatMap escapeUrlChar ++ '\"' :: rest) = .broken body after := by
  cases found : url.find? breaksLiteral with
  | none =>
      have fits : ∀ c ∈ url, breaksLiteral c = false := by simpa using found
      left
      rw [scanLiteral_escaped fits, scanLiteral_quote, Scanned.prepend, List.append_nil]
  | some c =>
      obtain ⟨breaks, before, after, rfl, fits⟩ := List.find?_eq_some_iff_append.mp found
      have same : escapeUrlChar c = [c] := by
        rcases breaksLiteral_iff.mp breaks with rfl | rfl <;> rfl
      refine Or.inr ⟨before.flatMap escapeUrlChar, c,
        after.flatMap escapeUrlChar ++ '\"' :: rest, ?_, breaks, ?_⟩
      · simp [same]
      · rw [List.flatMap_append, List.flatMap_cons, same, List.append_assoc,
          scanLiteral_escaped (by simpa using fits), List.append_assoc]
        rw [List.singleton_append, scanLiteral_break breaks, Scanned.prepend, List.append_nil]

/-- The script of a request whose data has the given value. -/
def renderScript {Json : Type} (config : SsrConfig) (json : SerdeJson Json) (value : Json)
    (url : String) : String :=
  renderCode (SsrEngine.poolConfig config).renderFunction (escapeUrl url) (json.display value)

section Contained

variable {Json Value : Type} {json : SerdeJson Json} {runtime : JsRuntime Value}

theorem renderHtml_of_fromStr {data : String} {value : Json} (parsed : json.fromStr data = .ok value)
    (config : SsrConfig) (url : String) :
    renderHtml json runtime url (some data) (SsrEngine.poolConfig config).renderFunction =
      runtime.evaluate (renderScript config json value url) := by
  have valid : json.safeData data = some (json.display value) := by
    rw [SerdeJson.safeData, parsed]
    rfl
  exact renderHtml_of_safeData valid runtime url _

theorem evaluate_of_error {script message : String}
    (rejected : runtime.executeScript "<render>" script = .error message) :
    runtime.evaluate script = .error ("JS execute error: " ++ message) := by
  rw [JsRuntime.evaluate, rejected]
  rfl

/-- A line terminator in the URL's literal breaks the whole script. -/
theorem read_of_scanUrl_broken {renderFunction url safeData : String} {body rest : List Char}
    (named : IsRenderFunction renderFunction)
    (broken : scanUrl renderFunction (renderCode renderFunction (escapeUrl url) safeData) =
      .broken body rest) :
    Position.code.read (renderCode renderFunction (escapeUrl url) safeData).toList = .broken := by
  rw [scanUrl_renderCode] at broken
  rw [renderCode_toList, Position.read_append, read_codeBeforeUrl named, Position.read_cons,
    escapeUrl_toList]
  exact Position.read_of_scan_broken broken

theorem contained {config : SsrConfig} (named : IsRenderFunction config.renderFunction)
    (rejects : RejectsBroken runtime) {data : String} {value : Json}
    (parsed : json.fromStr data = .ok value) (url : String) :
    Contained json runtime config.renderFunction url data (json.display value)
      (renderScript config json value url) where
  rendered := renderHtml_of_fromStr parsed config url
  opens := by
    refine ⟨?_, read_codeBeforeUrl named⟩
    rw [renderScript, renderCode_toList]
    exact (List.prefix_append_right_inj _).mpr ⟨_, List.singleton_append⟩
  closes := by
    have scanned : scanUrl config.renderFunction (renderScript config json value url) = _ :=
      scanUrl_renderCode config.renderFunction url (json.display value)
    rcases scanLiteral_escaped_cases url.toList (codeAfterUrl (json.display value)).toList with
      closed | ⟨body, c, rest, within, breaks, broken⟩
    · have whole := scanned.trans closed
      rw [← escapeUrl_toList] at whole
      exact Or.inl whole
    · rw [← escapeUrl_toList] at within
      obtain ⟨message, rejected⟩ := rejects "<render>" (renderScript config json value url)
        (read_of_scanUrl_broken named (scanned.trans broken))
      exact Or.inr ⟨⟨body, c, rest, within, breaks, scanned.trans broken⟩, message,
        (renderHtml_of_fromStr parsed config url).trans (evaluate_of_error rejected)⟩

/-- What the runtime accepts has its URL's literal closed. -/
theorem outsideUrl_of_accepts {config : SsrConfig} (named : IsRenderFunction config.renderFunction)
    (rejects : RejectsBroken runtime) {value : Json} {url : String}
    (accepted : Accepts runtime (renderScript config json value url)) :
    outsideUrl config.renderFunction (renderScript config json value url) =
      some (codeBeforeUrl config.renderFunction, codeAfterUrl (json.display value)) := by
  have scanned : scanUrl config.renderFunction (renderScript config json value url) = _ :=
    scanUrl_renderCode config.renderFunction url (json.display value)
  rcases scanLiteral_escaped_cases url.toList (codeAfterUrl (json.display value)).toList with
    closed | ⟨body, c, rest, within, breaks, broken⟩
  · have before : (renderScript config json value url).toList.take
        (codeBeforeUrl config.renderFunction).length =
          (codeBeforeUrl config.renderFunction).toList := by
      rw [renderScript, renderCode_toList, ← String.length_toList]
      exact List.take_left
    rw [outsideUrl, scanned.trans closed, before, String.ofList_toList]
    exact congrArg (fun rest => some (_, rest)) String.ofList_toList
  · obtain ⟨message, rejected⟩ := rejects "<render>" (renderScript config json value url)
      (read_of_scanUrl_broken named (scanned.trans broken))
    obtain ⟨output, executed⟩ := accepted
    cases rejected.symm.trans executed

/-- **A URL cannot inject code into the render script.** For every configuration
that `build` accepts and all data that `serde_json` parses: the literal of the
URL ends at the template's own quote or the script is rejected, and the code
outside of it is the template around the printed JSON value for every URL whose
script is accepted. The JSON text ends in code, as it began. -/
theorem url_contained {debug : String → String} {cpus : Nat} {builder : SsrConfigBuilder}
    {config : SsrConfig} (built : builder.build debug cpus = .ok config)
    (prints : PrintsJson json) (rejects : RejectsBroken runtime) {data : String} {value : Json}
    (parsed : json.fromStr data = .ok value) :
    (∀ url, Contained json runtime config.renderFunction url data (json.display value)
      (renderScript config json value url)) ∧
    (∀ url other, Accepts runtime (renderScript config json value url) →
      Accepts runtime (renderScript config json value other) →
        outsideUrl config.renderFunction (renderScript config json value url) =
            some (codeBeforeUrl config.renderFunction, codeAfterUrl (json.display value)) ∧
          outsideUrl config.renderFunction (renderScript config json value other) =
            outsideUrl config.renderFunction (renderScript config json value url)) ∧
    Position.code.read (", " ++ json.display value).toList = .code := by
  have named := (build_ok_iff.mp built).2.2.2.2
  refine ⟨fun url => contained named rejects parsed url, fun url other accepted otherAccepted => ?_,
    ?_⟩
  · have outside := outsideUrl_of_accepts named rejects accepted
    exact ⟨outside, (outsideUrl_of_accepts named rejects otherAccepted).trans outside.symm⟩
  · rw [String.toList_append, Position.read_append]
    exact (prints value).read

end Contained

/-- A runtime that renders every script whose literals are whole. -/
def readingRuntime : JsRuntime String where
  executeScript _ script :=
    if Position.code.read script.toList = .broken then
      .error "SyntaxError: Invalid or unexpected token"
    else .ok "<html></html>"
  resolveValue := .ok
  fromV8 := .ok

/-- `serde_json` on the data of `render`. -/
def emptyObject : SerdeJson Unit where
  fromStr text := if text = "\x7b\x7d" then .ok () else .error "expected value"
  display _ := "\x7b\x7d"

/-- A URL with an escaped quote at its end, under the default configuration. -/
theorem url_contained_backslashQuote :
    Contained emptyObject readingRuntime "renderPage" "/q=\\\"" "\x7b\x7d" "\x7b\x7d"
      (renderScript (SsrConfig.default 4) emptyObject () "/q=\\\"") := by
  have prints : PrintsJson emptyObject := by
    intro value
    have braces : (emptyObject.display value).toList = ['\x7b', '\x7d'] := by
      change "\x7b\x7d".toList = ['\x7b', '\x7d']
      decide
    rw [braces]
    exact @Json.Text.object [] [] (List.forall_mem_nil _) (List.forall_mem_nil _)
      (List.forall_mem_nil _)
  have rejects : RejectsBroken readingRuntime := by
    intro name script broken
    exact ⟨_, if_pos broken⟩
  exact (url_contained (build_default id (by decide)) prints rejects rfl).1 "/q=\\\""

end RustySsr.Engine
