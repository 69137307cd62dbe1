import Mathlib.Data.List.Sort
import Mathlib.Data.Set.Card
import Mathlib.Logic.Function.Basic
import RustySsr.Ecmascript.Expression

/-!
Owns objects that a program makes with an empty object literal and uses under
string keys: their own properties, what they inherit from `Object.prototype`,
and the order in which their keys are listed. Assigned values are primitive, so
that the setter of `__proto__` ignores them.
-/

namespace RustySsr.Ecmascript

universe u

/-- A string, by its code units. -/
abbrev JsString := List UInt16

/-- The string of a text. -/
def jsString (text : String) : JsString := codeUnits text.toList

/-- The own properties of an object, whose names stand in the order in which
they were created. -/
structure PlainObject (ν : Type u) where
  names : List JsString
  own : JsString → Option ν
  nodup : names.Nodup
  mem_iff : ∀ key, key ∈ names ↔ (own key).isSome = true

/-- What a property access finds. -/
inductive Property (ν : Type u) where
  | own (value : ν)
  | inherited (name : JsString)
  | undefined
deriving DecidableEq, Repr

/-- The properties of `Object.prototype`. -/
def prototypeNames : List JsString :=
  protoKey ::
    ["constructor", "hasOwnProperty", "isPrototypeOf", "propertyIsEnumerable", "toLocaleString",
      "toString", "valueOf", "__defineGetter__", "__defineSetter__", "__lookupGetter__",
      "__lookupSetter__"].map jsString

/-- The number that decimal digits write. -/
def indexValue (key : JsString) : Nat :=
  key.foldl (fun number unit => 10 * number + (unit.toNat - 0x30)) 0

/-- The key is an array index in its canonical form. -/
def isArrayIndex (key : JsString) : Bool :=
  (key ≠ [] && key.all fun unit => 0x30 ≤ unit.toNat && unit.toNat ≤ 0x39) &&
    (key.head? ≠ some 0x30 || key.length = 1) && indexValue key < 2 ^ 32 - 1

namespace PlainObject

variable {ν : Type u}

/-- The object of an empty literal. -/
def empty : PlainObject ν where
  names := []
  own := fun _ => none
  nodup := List.nodup_nil
  mem_iff := fun key => by simp

/-- Creates or changes an own property, which keeps its place. -/
def define (object : PlainObject ν) (key : JsString) (value : ν) : PlainObject ν where
  names := if (object.own key).isSome = true then object.names else object.names ++ [key]
  own := Function.update object.own key (some value)
  nodup := by
    split_ifs with present
    · exact object.nodup
    · have fresh : key ∉ object.names := fun member => present ((object.mem_iff key).mp member)
      exact List.nodup_append_comm.mp (List.nodup_cons.mpr ⟨fresh, object.nodup⟩)
  mem_iff := fun other => by
    have old := object.mem_iff other
    by_cases same : other = key
    · subst same
      split_ifs with present <;> simp [old, present]
    · split_ifs <;> simp [same, old]

/-- `object[key] = value`. Every property of `Object.prototype` can be shadowed,
except that assigning to `__proto__` calls its setter. -/
def set (object : PlainObject ν) (key : JsString) (value : ν) : PlainObject ν :=
  if key = protoKey ∧ (object.own key).isNone = true then object else object.define key value

/-- `object[key]`. -/
def get (object : PlainObject ν) (key : JsString) : Property ν :=
  match object.own key with
  | some value => .own value
  | none => if prototypeNames.contains key = true then .inherited key else .undefined

/-- `delete object[key]`. -/
def delete (object : PlainObject ν) (key : JsString) : PlainObject ν where
  names := object.names.erase key
  own := Function.update object.own key none
  nodup := object.nodup.erase key
  mem_iff := fun other => by
    rw [object.nodup.mem_erase_iff, object.mem_iff]
    by_cases same : other = key
    · simp [same]
    · simp [same]

/-- `Object.keys(object)`, also the keys that `for (… in object)` visits: array
indices in their order, then the other names in that of creation. -/
def keys (object : PlainObject ν) : List JsString :=
  (object.names.filter isArrayIndex).insertionSort
      (fun left right => indexValue left ≤ indexValue right) ++
    object.names.filter fun name => !isArrayIndex name

theorem keys_perm (object : PlainObject ν) : object.keys.Perm object.names :=
  ((List.perm_insertionSort _ _).append_right _).trans (List.filter_append_perm _ _)

theorem keys_nodup (object : PlainObject ν) : object.keys.Nodup :=
  object.keys_perm.nodup_iff.mpr object.nodup

theorem mem_keys_iff {object : PlainObject ν} {key : JsString} :
    key ∈ object.keys ↔ (object.own key).isSome = true :=
  object.keys_perm.mem_iff.trans (object.mem_iff key)

/-- As many keys are listed as there are own properties. -/
theorem keys_length (object : PlainObject ν) :
    object.keys.length = {key | (object.own key).isSome = true}.ncard := by
  have finset : {key | (object.own key).isSome = true} = (object.keys.toFinset : Set JsString) := by
    ext key
    simp [mem_keys_iff]
  rw [finset, Set.ncard_coe_finset, List.toFinset_card_of_nodup object.keys_nodup]

/-- Every own property has one position in the list. -/
theorem existsUnique_position {object : PlainObject ν} {key : JsString}
    (present : (object.own key).isSome = true) :
    ∃! position, position < object.keys.length ∧ object.keys[position]? = some key := by
  obtain ⟨position, inside, found⟩ := List.mem_iff_getElem.mp (mem_keys_iff.mpr present)
  refine ⟨position, ⟨inside, by rw [List.getElem?_eq_getElem inside, found]⟩, ?_⟩
  rintro other ⟨otherInside, otherFound⟩
  have same : object.keys[other]? = object.keys[position]? := by
    rw [otherFound, List.getElem?_eq_getElem inside, found]
  exact (List.getElem?_inj otherInside object.keys_nodup).mp same

/-- Deleting keys one after the other. -/
theorem foldl_delete_own (names : List JsString) (object : PlainObject ν) (key : JsString) :
    (names.foldl delete object).own key = if key ∈ names then none else object.own key := by
  induction names generalizing object with
  | nil => rfl
  | cons name names inductionHypothesis =>
      rw [List.foldl_cons, inductionHypothesis]
      by_cases later : key ∈ names
      · simp [later]
      · by_cases same : key = name
        · simp [same, delete]
        · simp [later, same, delete]

end PlainObject

end RustySsr.Ecmascript
