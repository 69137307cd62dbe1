import RustySsr.Ecmascript.PlainObject
import RustySsr.Foundation.Execution

/-!
Owns the storage polyfill of `BROWSER_POLYFILLS` in `src/v8_pool/bundle.rs`: an
object whose methods keep their strings in a plain object. Such an object also
answers for the names of `Object.prototype`, and takes no string under
`__proto__`; `actsAsMap_iff` states when this shows.
-/

namespace RustySsr.V8Pool

open RustySsr.Ecmascript
open RustySsr.Foundation

/-- `data`. -/
abbrev Storage := PlainObject JsString

namespace Storage

/-- What `getItem` returns. -/
inductive Answer where
  | text (units : JsString)
  | builtin (name : JsString)
  | null
deriving DecidableEq, Repr

/-- `createStorage`. -/
def createStorage : Storage := PlainObject.empty

/-- `getItem`: `data[key] ?? null`. Nothing on `Object.prototype` is nullish. -/
def getItem (data : Storage) (key : JsString) : Answer :=
  match data.get key with
  | .own units => .text units
  | .inherited name => .builtin name
  | .undefined => .null

/-- `removeItem`. -/
def removeItem (data : Storage) (key : JsString) : Storage := data.delete key

/-- `clear`. `Object.prototype` has no enumerable keys to visit. -/
def clear (data : Storage) : Storage := data.keys.foldl PlainObject.delete data

/-- `get length()`. -/
def length (data : Storage) : Nat := data.keys.length

/-- `key`, where `none` is `null`. -/
def key (data : Storage) (i : Nat) : Option JsString := data.keys[i]?

section Calls

variable {Value : Type} (stringOf : Value → Option JsString)

/-- `setItem`. The conversion `String(value)` may throw, and then nothing is
assigned. -/
def setItem (data : Storage) (key : JsString) (value : Value) : Storage :=
  match stringOf value with
  | some text => data.set key text
  | none => data

/-- The calls that change a storage. -/
inductive Call (Value : Type) where
  | setItem (key : JsString) (value : Value)
  | removeItem (key : JsString)
  | clear
deriving DecidableEq, Repr

def apply (data : Storage) : Call Value → Storage
  | .setItem key value => data.setItem stringOf key value
  | .removeItem key => data.removeItem key
  | .clear => data.clear

/-- The string of the latest `setItem` of each key, unless the key was removed
since, or everything. -/
def record (latest : JsString → Option JsString) : Call Value → JsString → Option JsString
  | .setItem key value =>
      match stringOf value with
      | some text => Function.update latest key (some text)
      | none => latest
  | .removeItem key => Function.update latest key none
  | .clear => fun _ => none

/-- The storage after the calls. -/
def after (calls : List (Call Value)) : Storage :=
  Execution.run (apply stringOf) createStorage calls

def latestItem (calls : List (Call Value)) : JsString → Option JsString :=
  Execution.run (record stringOf) (fun _ => none) calls

/-- After the calls the storage answers for the key as a string map does, and
lists each of the keys of that map once. -/
structure ActsAsMap (calls : List (Call Value)) (key : JsString) : Prop where
  answer : (after stringOf calls).getItem key =
    (latestItem stringOf calls key).elim .null .text
  length : (after stringOf calls).length =
    {other | (latestItem stringOf calls other).isSome = true}.ncard
  listed : ∀ other, (latestItem stringOf calls other).isSome = true →
    ∃! i, i < (after stringOf calls).length ∧ (after stringOf calls).key i = some other

/-! ### What the plain object holds -/

/-- The object has the strings of the map, except under `__proto__`. -/
def Holds (data : Storage) (latest : JsString → Option JsString) : Prop :=
  ∀ key, data.own key = if key = protoKey then none else latest key

theorem own_clear (data : Storage) (key : JsString) : data.clear.own key = none := by
  rw [clear, PlainObject.foldl_delete_own]
  split_ifs with listed
  · rfl
  · rw [PlainObject.mem_keys_iff, Bool.not_eq_true, Option.isSome_eq_false_iff] at listed
    exact Option.isNone_iff_eq_none.mp listed

namespace Holds

variable {data : Storage} {latest : JsString → Option JsString}

theorem set (holds : Holds data latest) (key text : JsString) :
    Holds (data.set key text) (Function.update latest key (some text)) := by
  intro other
  have own := holds other
  by_cases isProto : key = protoKey
  · subst isProto
    have absent : (data.own protoKey).isNone = true := by simp [holds protoKey]
    rw [PlainObject.set, if_pos ⟨rfl, absent⟩, own]
    split_ifs with same
    · rfl
    · rw [Function.update_of_ne same]
  · rw [PlainObject.set, if_neg fun both => isProto both.1]
    show Function.update data.own key (some text) other = _
    by_cases same : other = key
    · subst same
      simp [isProto]
    · rw [Function.update_of_ne same, Function.update_of_ne same, own]

theorem delete (holds : Holds data latest) (key : JsString) :
    Holds (data.delete key) (Function.update latest key none) := by
  intro other
  show Function.update data.own key none other = _
  by_cases same : other = key
  · subst same
    simp
  · rw [Function.update_of_ne same, Function.update_of_ne same, holds other]

theorem apply (holds : Holds data latest) (call : Call Value) :
    Holds (data.apply stringOf call) (record stringOf latest call) := by
  cases call with
  | setItem key value =>
      dsimp only [Storage.apply, setItem, record]
      cases stringOf value with
      | some text => exact holds.set key text
      | none => exact holds
  | removeItem key => exact holds.delete key
  | clear =>
      intro key
      show data.clear.own key = if key = protoKey then none else none
      rw [own_clear, ite_self]

end Holds

theorem holds_after (calls : List (Call Value)) :
    Holds (after stringOf calls) (latestItem stringOf calls) := by
  induction calls using List.reverseRecOn with
  | nil => exact fun key => (ite_self none).symm
  | append_singleton calls call inductionHypothesis =>
      rw [after, latestItem, Execution.run_snoc, Execution.run_snoc]
      exact inductionHypothesis.apply stringOf call

/-! ### What it shows of them -/

/-- A key that is not in the map is answered for only if `Object.prototype` does
not have it, and `__proto__` never. -/
theorem getItem_iff {data : Storage} {latest : JsString → Option JsString}
    (holds : Holds data latest) (key : JsString) :
    data.getItem key = (latest key).elim .null .text ↔
      key ∉ prototypeNames ∨ (key ≠ protoKey ∧ (latest key).isSome = true) := by
  have own := holds key
  have protoInherited : protoKey ∈ prototypeNames := List.mem_cons_self
  unfold getItem PlainObject.get
  simp only [List.contains_iff_mem]
  by_cases isProto : key = protoKey
  · subst isProto
    cases latest protoKey <;> simp [own, protoInherited]
  · rw [if_neg isProto] at own
    rw [own]
    cases latest key with
    | some text => simp [isProto]
    | none => by_cases inherited : key ∈ prototypeNames <;> simp [inherited]

/-- The keys are those of the map exactly if `__proto__` is not one of them. -/
theorem keys_iff {data : Storage} {latest : JsString → Option JsString}
    (holds : Holds data latest) :
    (data.length = {key | (latest key).isSome = true}.ncard ∧
        ∀ key, (latest key).isSome = true → ∃! i, i < data.length ∧ data.key i = some key) ↔
      latest protoKey = none := by
  constructor
  · rintro ⟨-, listed⟩
    by_contra present
    obtain ⟨i, ⟨-, found⟩, -⟩ := listed protoKey (Option.isSome_iff_ne_none.mpr present)
    have own := PlainObject.mem_keys_iff.mp (List.mem_of_getElem? found)
    simp [holds protoKey] at own
  · intro absent
    have sameOwn : ∀ key, data.own key = latest key := by
      intro key
      rw [holds key]
      split_ifs with isProto
      · rw [isProto, absent]
      · rfl
    refine ⟨?_, fun key present => ?_⟩
    · simp only [← sameOwn]
      exact data.keys_length
    · rw [← sameOwn] at present
      exact PlainObject.existsUnique_position present

/-- **The storage is a string map, as far as a key can tell, exactly if** the
key is no name of `Object.prototype` or has an item under another name than
`__proto__`, and `__proto__` has none. -/
theorem actsAsMap_iff (calls : List (Call Value)) (key : JsString) :
    ActsAsMap stringOf calls key ↔
      (key ∉ prototypeNames ∨
          (key ≠ protoKey ∧ (latestItem stringOf calls key).isSome = true)) ∧
        latestItem stringOf calls protoKey = none := by
  have holds := holds_after stringOf calls
  rw [← getItem_iff holds key, ← keys_iff holds]
  exact ⟨fun acts => ⟨acts.answer, acts.length, acts.listed⟩,
    fun ⟨answer, length, listed⟩ => ⟨answer, length, listed⟩⟩

end Calls

/-- A fresh storage answers for a name that it was never given. -/
theorem answers_inherited :
    ¬ ∀ (Value : Type) (stringOf : Value → Option JsString) (calls : List (Call Value))
      (key : JsString), ActsAsMap stringOf calls key := by
  intro acts
  have answer := (acts JsString some [] (jsString "constructor")).answer
  revert answer
  decide

end Storage

end RustySsr.V8Pool
