import RustySsr.Engine.Injection
import RustySsr.Foundation.PrefixCode

/-!
Owns what can be read back from the script of a request. The name of the render
function ends at the first blank behind it, and the escaped URL at the first
quote that is not part of an escape, so that two requests have one script only
if they are one request to the JavaScript engine. This holds for every URL, also
for those whose line terminators break the script.
-/

namespace RustySsr.Engine

open RustySsr.Ecmascript
open RustySsr.Foundation
open RustySsr.V8Pool

/-- Escaped characters are told apart, and none begins with the closing quote. -/
theorem prefixCode_escapeUrlChar : PrefixCode (fun _ => True) escapeUrlChar '\"' where
  apart := by
    intro first second rest other _ _ same
    unfold escapeUrlChar at same
    split_ifs at same <;> grind
  unmarked := by
    intro letter rest other _ same
    unfold escapeUrlChar at same
    split_ifs at same <;> grind

/-- No name of a render function has a blank in it. -/
theorem prefixCode_name : PrefixCode (fun c => isNameChar c = true) (fun c => [c]) ' ' :=
  PrefixCode.singletons (by decide)

/-- What `build` accepts as a name ends at the blank behind it. -/
theorem renderFunction_of_codeBeforeUrl {first second : String} (named : IsRenderFunction first)
    (alsoNamed : IsRenderFunction second) {rest other : List Char}
    (same : (codeBeforeUrl first).toList ++ rest = (codeBeforeUrl second).toList ++ other) :
    first = second := by
  have blank : throwHead.toList = ' ' :: throwHead.toList.tail := by decide
  simp only [codeBeforeUrl, String.toList_append, List.append_assoc] at same
  have names := List.append_cancel_left same
  rw [blank] at names
  simp only [List.cons_append] at names
  have letters := prefixCode_name.cancel named.2 alsoNamed.2 (by simpa using names)
  exact String.toList_injective letters.1

/-- The three places of the template are filled alike, if the code is the same. -/
theorem renderCode_inj {first second : String} (named : IsRenderFunction first)
    (alsoNamed : IsRenderFunction second) {url otherUrl text otherText : String} :
    renderCode first (escapeUrl url) text = renderCode second (escapeUrl otherUrl) otherText ↔
      first = second ∧ url = otherUrl ∧ text = otherText := by
  constructor
  · intro same
    have lists := congrArg String.toList same
    rw [renderCode_toList, renderCode_toList] at lists
    obtain rfl := renderFunction_of_codeBeforeUrl named alsoNamed lists
    have behind := (List.cons.inj (List.append_cancel_left lists)).2
    rw [escapeUrl_toList, escapeUrl_toList] at behind
    obtain ⟨urls, rest⟩ := prefixCode_escapeUrlChar.cancel (fun _ _ => trivial)
      (fun _ _ => trivial) behind
    obtain rfl := String.toList_injective urls
    exact ⟨rfl, rfl, renderCode_injective first (escapeUrl url) same⟩
  · rintro ⟨rfl, rfl, rfl⟩
    rfl

/-- **One script, one request.** Whatever two engines send to their JavaScript
engines is the same script exactly if they call the same render function with
the same URL and the same JSON text. -/
theorem renderScript_unambiguous {debug : String → String} {cpus : Nat}
    {builder otherBuilder : SsrConfigBuilder} {config otherConfig : SsrConfig}
    (built : builder.build debug cpus = .ok config)
    (otherBuilt : otherBuilder.build debug cpus = .ok otherConfig) {Json : Type}
    (json : SerdeJson Json) (value otherValue : Json) (url otherUrl : String) :
    renderScript config json value url = renderScript otherConfig json otherValue otherUrl ↔
      config.renderFunction = otherConfig.renderFunction ∧ url = otherUrl ∧
        json.display value = json.display otherValue :=
  renderCode_inj (build_ok_iff.mp built).2.2.2.2 (build_ok_iff.mp otherBuilt).2.2.2.2

/-- The escapes of a quote and of a backslash before a quote are not confused. -/
theorem renderScript_unambiguous_quotes :
    renderScript (SsrConfig.default 4) emptyObject () "/q=\\\"" ≠
      renderScript (SsrConfig.default 4) emptyObject () "/q=\"" := by
  have built := build_default id (show 0 < 4 by decide)
  intro same
  have urls := ((renderScript_unambiguous built built emptyObject () () _ _).mp same).2.1
  revert urls
  decide

end RustySsr.Engine
