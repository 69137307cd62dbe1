import RustySsr.Ecmascript.Evaluation
import RustySsr.Ecmascript.JsonExpression
import RustySsr.Engine.Injection

/-!
Owns the value of the render function's second argument. The JSON text of the
data stands in the script as an expression, and is read as the same tree that
`JSON.parse` reads; but an object literal takes the key `__proto__` for the
prototype. `receivesData_iff` states for all data that the function receives the
value that `JSON.parse` would give exactly if no object has that key.
-/

namespace RustySsr.Engine

open RustySsr.Ecmascript
open RustySsr.V8Pool

/-- `serde_json` prints each value as a JSON text of its tree, in which no object
has a key twice. -/
structure PrintsTree {Json : Type} (json : SerdeJson Json) (tree : Json → Literal) : Prop where
  denotes : ∀ value, Ecmascript.Json.Denotes (json.display value).toList (tree value)
  distinct : ∀ value, (tree value).Distinct

/-- The text that is interpolated for the data is an expression with the value,
which is also the value that `JSON.parse` gives for it. -/
structure ReceivesData {Json : Type} (json : SerdeJson Json) (data text : String)
    (value : JsValue) : Prop where
  interpolated : ∀ {Value : Type} (runtime : JsRuntime Value) (url renderFunction : String),
    renderHtml json runtime url (some data) renderFunction =
      runtime.evaluate (renderCode renderFunction (escapeUrl url) text)
  parsed : jsonParse text.toList = some value
  evaluated : evaluateText text.toList = some value

section Receives

variable {Json : Type} {json : SerdeJson Json} {tree : Json → Literal}

theorem jsonParse_display (prints : PrintsTree json tree) (value : Json) :
    jsonParse (json.display value).toList = some (tree value).plain := by
  rw [jsonParse, (prints.denotes value).parseExpression]
  exact (prints.distinct value).evaluate_jsonParse

theorem evaluateText_display (prints : PrintsTree json tree) (value : Json) :
    evaluateText (json.display value).toList = (tree value).evaluate false := by
  rw [evaluateText, (prints.denotes value).parseExpression]
  rfl

/-- **The render function receives exactly the data, exactly if no object of the
data, at any depth, has the key `__proto__`.** -/
theorem receivesData_iff (prints : PrintsTree json tree) {data : String} {value : Json}
    (parsed : json.fromStr data = .ok value) :
    ReceivesData json data (json.display value) (tree value).plain ↔ ¬ (tree value).HasProto := by
  rw [← (prints.distinct value).evaluate_iff, ← evaluateText_display prints]
  constructor
  · exact ReceivesData.evaluated
  · intro evaluated
    have valid : json.safeData data = some (json.display value) := by
      rw [SerdeJson.safeData, parsed]
      rfl
    exact ⟨renderHtml_of_safeData valid, jsonParse_display prints value, evaluated⟩

end Receives

/-! ### One object in another -/

/-- The text of an object whose one member is an empty object. -/
def nestedText (key : String) : String := "\x7b\"" ++ key ++ "\":\x7b\x7d\x7d"

/-- `serde_json` on that text. -/
def nestedObject (key : String) : SerdeJson Unit where
  fromStr text := if text = nestedText key then .ok () else .error "expected value"
  display _ := nestedText key

def nestedTree (key : String) : Literal := .object [(codeUnits key.toList, .object [])]

theorem nestedObject_fromStr (key : String) :
    (nestedObject key).fromStr (nestedText key) = .ok () :=
  if_pos rfl

theorem nestedObject_prints {key : String}
    (unescaped : ∀ c ∈ key.toList, 0x20 ≤ c.toNat ∧ c ≠ '\"' ∧ c ≠ '\\') :
    PrintsTree (nestedObject key) fun _ => nestedTree key where
  denotes _ := by
    have empty : Ecmascript.Json.Denotes ['\x7b', '\x7d'] (.object []) :=
      @Ecmascript.Json.Denotes.object [] [] (List.forall_mem_nil _) (List.forall_mem_nil _)
        (List.forall_mem_nil _)
    let member : Ecmascript.Json.Member :=
      ⟨'\"' :: (key.toList ++ ['\"']), codeUnits key.toList, ['\x7b', '\x7d'], .object []⟩
    have padded : Ecmascript.Json.Padded
        (fun text => Ecmascript.Json.StringDenotes text member.key) member.keyText :=
      ⟨[], member.keyText, [], List.forall_mem_nil _, .quoted unescaped, List.forall_mem_nil _,
        by simp⟩
    have outer := @Ecmascript.Json.Denotes.object [] [member] (List.forall_mem_nil _)
      (by simpa using padded) (by simpa using empty)
    have written : (nestedText key).toList = '\x7b' ::
        ([] ++ [','].intercalate ([member].map fun member =>
          member.keyText ++ ':' :: member.valueText) ++ ['\x7d']) := by
      simp [nestedText, member, String.toList_append]
    change Ecmascript.Json.Denotes (nestedText key).toList (nestedTree key)
    rw [written]
    exact outer
  distinct _ := by
    refine .object (by simp) fun member listed => ?_
    rw [List.mem_singleton.mp listed]
    exact .object (by simp) (by simp)

/-- An object in an object with an ordinary key. -/
theorem receivesData_nested :
    ReceivesData (nestedObject "user") (nestedText "user") (nestedText "user")
      (nestedTree "user").plain := by
  have noProto : ¬ (nestedTree "user").HasProto := by
    intro proto
    cases proto with
    | here listed =>
        have different : protoKey ≠ codeUnits "user".toList := by decide
        exact different (List.mem_singleton.mp listed)
    | member listed inside =>
        rw [List.mem_singleton.mp listed] at inside
        cases inside with
        | here listed => exact absurd listed (List.not_mem_nil)
        | member listed inside => exact absurd listed (List.not_mem_nil)
  exact (receivesData_iff (nestedObject_prints (by simp)) (nestedObject_fromStr "user")).mpr
    noProto

/-- A member `__proto__` does not reach the render function. -/
theorem proto_member_lost :
    ¬ ∀ (Json : Type) (json : SerdeJson Json) (tree : Json → Literal) (data : String)
      (value : Json), PrintsTree json tree → json.fromStr data = .ok value →
        ReceivesData json data (json.display value) (tree value).plain := by
  intro receives
  have prints : PrintsTree (nestedObject "__proto__") fun _ => nestedTree "__proto__" :=
    nestedObject_prints (by simp)
  have received := receives Unit (nestedObject "__proto__") _ (nestedText "__proto__") () prints
    (nestedObject_fromStr "__proto__")
  have withoutMember : evaluateText ((nestedObject "__proto__").display ()).toList =
      some (.object [] (some (.object [] none))) := by
    rw [evaluateText_display prints]
    rfl
  have evaluated := received.evaluated
  rw [withoutMember, Option.some.injEq] at evaluated
  cases evaluated

end RustySsr.Engine
