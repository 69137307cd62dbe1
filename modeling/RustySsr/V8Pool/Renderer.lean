import Mathlib.Data.String.Basic

/-!
Owns the render of one request, `src/v8_pool/renderer.rs`: the JSON check of the
data, the escaping of the URL, the script text, and the error texts of every
stage. `serde_json` and the JavaScript runtime are parameters, read as
functions: the runtime answers a script with the same outcome every time. What
a script means is not owned here.
-/

namespace RustySsr.V8Pool

/-- `serde_json` as far as it is used: parsing, with the text of its error, and
the `Display` text of a value. -/
structure SerdeJson (Value : Type) where
  fromStr : String → Except String Value
  display : Value → String

/-- The JavaScript runtime of a worker, with the text of each error. -/
structure JsRuntime (Value : Type) where
  executeScript : String → String → Except String Value
  resolveValue : Value → Except String Value
  fromV8 : Value → Except String String

/-- `str::replace` of one character. -/
def replaceChar (text : String) (target : Char) (replacement : String) : String :=
  String.ofList (text.toList.flatMap fun c => if c = target then replacement.toList else [c])

/-- The URL as it stands between the quotes of the script. -/
def escapeUrl (url : String) : String :=
  replaceChar (replaceChar url '\\' "\\\\") '\"' "\\\""

/-- The script text before the data argument. -/
def renderCodeHead (renderFunction escapedUrl : String) : String :=
  "\n        (async function() \x7b" ++
  "\n            try \x7b" ++
  "\n                if (typeof globalThis." ++ renderFunction ++ " !== 'function') \x7b" ++
  "\n                    throw new Error('Render function globalThis." ++ renderFunction ++
    " not found');" ++
  "\n                \x7d" ++
  "\n                return await globalThis." ++ renderFunction ++ "(\"" ++ escapedUrl ++ "\", "

/-- The script text after the data argument. -/
def renderCodeTail : String :=
  ");" ++
  "\n            \x7d catch (error) \x7b" ++
  "\n                console.error(\"Render error:\", error);" ++
  "\n                return `<html><body><h1>SSR Error</h1><pre>$\x7b" ++
    "error.stack || error.message\x7d</pre></body></html>`;" ++
  "\n            \x7d" ++
  "\n        \x7d)()" ++
  "\n        "

def renderCode (renderFunction escapedUrl safeData : String) : String :=
  renderCodeHead renderFunction escapedUrl ++ safeData ++ renderCodeTail

section Render

variable {Json Value : Type}

/-- Running the script, awaiting its promise and reading the result back. -/
def JsRuntime.evaluate (runtime : JsRuntime Value) (code : String) : Except String String := do
  let global ← (runtime.executeScript "<render>" code).mapError ("JS execute error: " ++ ·)
  let resolved ← (runtime.resolveValue global).mapError ("Promise resolution error: " ++ ·)
  (runtime.fromV8 resolved).mapError ("Result deserialization error: " ++ ·)

/-- `render_html`. -/
def renderHtml (json : SerdeJson Json) (runtime : JsRuntime Value) (url : String)
    (data : Option String) (renderFunction : String) : Except String String := do
  let safeData ← (json.fromStr (data.getD "\x7b\x7d")).mapError ("Invalid JSON data: " ++ ·)
  runtime.evaluate (renderCode renderFunction (escapeUrl url) (json.display safeData))

/-- The text that stands for the data in the script, if it is valid JSON. -/
def SerdeJson.safeData (json : SerdeJson Json) (data : String) : Option String :=
  (json.fromStr data).toOption.map json.display

/-- Valid data is rendered from its JSON text alone. -/
theorem renderHtml_of_safeData {json : SerdeJson Json} {data text : String}
    (valid : json.safeData data = some text) (runtime : JsRuntime Value)
    (url renderFunction : String) :
    renderHtml json runtime url (some data) renderFunction =
      runtime.evaluate (renderCode renderFunction (escapeUrl url) text) := by
  unfold SerdeJson.safeData at valid
  unfold renderHtml
  rw [Option.getD_some]
  cases parsed : json.fromStr data with
  | error message => simp [parsed, Except.toOption] at valid
  | ok value =>
      have sameText : json.display value = text := by simpa [parsed, Except.toOption] using valid
      rw [← sameText]
      rfl

/-- Whatever renders is valid JSON. -/
theorem safeData_of_renderHtml {json : SerdeJson Json} {runtime : JsRuntime Value}
    {url data renderFunction html : String}
    (rendered : renderHtml json runtime url (some data) renderFunction = .ok html) :
    ∃ text, json.safeData data = some text := by
  unfold SerdeJson.safeData
  cases parsed : json.fromStr data with
  | error message =>
      unfold renderHtml at rendered
      rw [Option.getD_some, parsed] at rendered
      contradiction
  | ok value => exact ⟨json.display value, rfl⟩

/-- The script determines the data text in it. -/
theorem renderCode_injective (renderFunction escapedUrl : String) :
    Function.Injective (renderCode renderFunction escapedUrl) := by
  intro left right same
  have lists := congrArg String.toList same
  simp only [renderCode, String.toList_append] at lists
  exact String.toList_injective (List.append_cancel_left (List.append_cancel_right lists))

end Render

end RustySsr.V8Pool
