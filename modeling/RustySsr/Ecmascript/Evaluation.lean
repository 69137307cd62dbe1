import Mathlib.Data.List.Nodup
import RustySsr.Ecmascript.Expression

/-!
Owns the values of literal expressions in which no object has a key twice.
`JSON.parse` makes of each its plain value, with the members as own properties;
`evaluate_iff` states that an expression has that value exactly if no object in
it, at any depth, has the key `__proto__`.
-/

namespace RustySsr.Ecmascript

/-! ### Plain values -/

mutual

/-- The value whose objects have their members as own properties, and the
default prototype. -/
def Literal.plain : Literal → JsValue
  | .null => .null
  | .bool value => .bool value
  | .number negative literal => .number negative literal
  | .string units => .string units
  | .array elements => .array (plainElements elements)
  | .object members => .object (plainMembers members) none

def plainElements : List Literal → List JsValue
  | [] => []
  | element :: elements => element.plain :: plainElements elements

def plainMembers : List (List UInt16 × Literal) → List (List UInt16 × JsValue)
  | [] => []
  | (key, member) :: members => (key, member.plain) :: plainMembers members

end

/-- No object has a key twice. -/
inductive Literal.Distinct : Literal → Prop where
  | null : Distinct .null
  | bool {value : Bool} : Distinct (.bool value)
  | number {negative : Bool} {literal : List Char} : Distinct (.number negative literal)
  | string {units : List UInt16} : Distinct (.string units)
  | array {elements : List Literal} (each : ∀ element ∈ elements, Distinct element) :
      Distinct (.array elements)
  | object {members : List (List UInt16 × Literal)} (nodup : (members.map Prod.fst).Nodup)
      (each : ∀ member ∈ members, Distinct member.2) : Distinct (.object members)

/-- An object, at some depth, has the key `__proto__`. -/
inductive Literal.HasProto : Literal → Prop where
  | here {members : List (List UInt16 × Literal)} (listed : protoKey ∈ members.map Prod.fst) :
      HasProto (.object members)
  | element {elements : List Literal} {element : Literal} (listed : element ∈ elements)
      (inside : HasProto element) : HasProto (.array elements)
  | member {members : List (List UInt16 × Literal)} {member : List UInt16 × Literal}
      (listed : member ∈ members) (inside : HasProto member.2) : HasProto (.object members)

theorem plainMembers_keys (members : List (List UInt16 × Literal)) :
    (plainMembers members).map Prod.fst = members.map Prod.fst := by
  induction members with
  | nil => rfl
  | cons member members inductionHypothesis =>
      rw [plainMembers, List.map_cons, List.map_cons, inductionHypothesis]

/-! ### Objects -/

section Objects

variable {jsonParse : Bool} {properties members : List (List UInt16 × JsValue)}
  {prototype : Option JsValue} {key : List UInt16} {value : JsValue}

theorem createDataProperty_fresh (fresh : key ∉ properties.map Prod.fst) :
    createDataProperty properties key value = properties ++ [(key, value)] :=
  if_neg fresh

/-- A property that is defined has the key of an earlier one, or the new key. -/
theorem mem_keys_createDataProperty {other : List UInt16}
    (listed : other ∈ (createDataProperty properties key value).map Prod.fst) :
    other ∈ properties.map Prod.fst ∨ other = key := by
  unfold createDataProperty at listed
  split_ifs at listed with present
  · obtain ⟨property, inProperties, keyEq⟩ := List.mem_map.mp listed
    obtain ⟨old, inOld, rfl⟩ := List.mem_map.mp inProperties
    split_ifs at keyEq with same
    · exact Or.inr keyEq.symm
    · exact Or.inl (List.mem_map.mpr ⟨old, inOld, keyEq⟩)
  · rw [List.map_append, List.mem_append] at listed
    exact listed.imp_right List.mem_singleton.mp

/-- Members with distinct keys become the properties, unless one is `__proto__`
in an expression. -/
theorem foldl_defineMember
    (ordinary : ∀ member ∈ members, jsonParse = true ∨ member.1 ≠ protoKey)
    (nodup : ((properties ++ members).map Prod.fst).Nodup) :
    members.foldl (defineMember jsonParse) (properties, prototype) =
      (properties ++ members, prototype) := by
  induction members generalizing properties with
  | nil => rw [List.append_nil, List.foldl_nil]
  | cons member members inductionHypothesis =>
      obtain ⟨first, others⟩ := List.forall_mem_cons.mp ordinary
      have fresh : member.1 ∉ properties.map Prod.fst := by
        intro listed
        rw [List.map_append, List.map_cons] at nodup
        exact List.disjoint_of_nodup_append nodup listed List.mem_cons_self
      have defined : defineMember jsonParse (properties, prototype) member =
          (properties ++ [member], prototype) := by
        rw [defineMember, if_neg (by rcases first with parse | notProto <;> simp [*]),
          createDataProperty_fresh fresh]
      rw [List.foldl_cons, defined, inductionHypothesis others (by simpa using nodup)]
      simp

theorem buildObject_ordinary
    (ordinary : ∀ member ∈ members, jsonParse = true ∨ member.1 ≠ protoKey)
    (nodup : (members.map Prod.fst).Nodup) :
    buildObject jsonParse members = .object members none := by
  unfold buildObject
  rw [foldl_defineMember ordinary (by simpa using nodup)]
  rfl

/-- An object of an expression never gets a property with the key `__proto__`. -/
theorem protoKey_not_mem_foldl {object : List (List UInt16 × JsValue) × Option JsValue}
    (absent : protoKey ∉ object.1.map Prod.fst) :
    protoKey ∉ ((members.foldl (defineMember false) object).1).map Prod.fst := by
  induction members generalizing object with
  | nil => exact absent
  | cons member members inductionHypothesis =>
      rw [List.foldl_cons]
      apply inductionHypothesis
      by_cases special : (!false && member.1 = protoKey) = true
      · rw [defineMember, if_pos special]
        exact absent
      · rw [defineMember, if_neg special]
        intro listed
        have own : protoKey ∈ (createDataProperty object.1 member.1 member.2).map Prod.fst := listed
        rcases mem_keys_createDataProperty own with before | same
        · exact absent before
        · simp [same] at special

theorem protoKey_not_mem_buildObject
    (built : buildObject false members = .object properties prototype) :
    protoKey ∉ properties.map Prod.fst := by
  unfold buildObject at built
  rw [JsValue.object.injEq] at built
  rw [← built.1]
  exact protoKey_not_mem_foldl (List.not_mem_nil)

end Objects

/-! ### Evaluation -/

theorem evaluateElements_iff {jsonParse : Bool} {elements : List Literal} :
    evaluateElements jsonParse elements = some (plainElements elements) ↔
      ∀ element ∈ elements, element.evaluate jsonParse = some element.plain := by
  induction elements with
  | nil => simp [evaluateElements, plainElements]
  | cons element elements inductionHypothesis =>
      rw [List.forall_mem_cons, ← inductionHypothesis]
      simp [evaluateElements, plainElements, Option.bind_eq_some_iff]

theorem evaluateMembers_iff {jsonParse : Bool} {members : List (List UInt16 × Literal)} :
    evaluateMembers jsonParse members = some (plainMembers members) ↔
      ∀ member ∈ members, member.2.evaluate jsonParse = some member.2.plain := by
  induction members with
  | nil => simp [evaluateMembers, plainMembers]
  | cons member members inductionHypothesis =>
      rw [List.forall_mem_cons, ← inductionHypothesis]
      simp [evaluateMembers, plainMembers, Option.bind_eq_some_iff]

theorem evaluateMembers_keys {jsonParse : Bool} {members : List (List UInt16 × Literal)}
    {values : List (List UInt16 × JsValue)}
    (evaluated : evaluateMembers jsonParse members = some values) :
    values.map Prod.fst = members.map Prod.fst := by
  induction members generalizing values with
  | nil =>
      rw [evaluateMembers, Option.some.injEq] at evaluated
      rw [← evaluated]
      rfl
  | cons member members inductionHypothesis =>
      rw [evaluateMembers, Option.bind_eq_some_iff] at evaluated
      obtain ⟨value, _, evaluated⟩ := evaluated
      obtain ⟨others, rest, rfl⟩ := Option.map_eq_some_iff.mp evaluated
      rw [List.map_cons, List.map_cons, inductionHypothesis rest]

/-- The object of members with distinct keys, unless one is `__proto__` in an
expression, is plain exactly if its members are. -/
theorem evaluate_object_iff {jsonParse : Bool} {members : List (List UInt16 × Literal)}
    (nodup : (members.map Prod.fst).Nodup)
    (ordinary : jsonParse = true ∨ protoKey ∉ members.map Prod.fst) :
    (Literal.object members).evaluate jsonParse = some (Literal.object members).plain ↔
      ∀ member ∈ members, member.2.evaluate jsonParse = some member.2.plain := by
  have onlyOne : ¬ (!jsonParse && 1 < (members.map Prod.fst).count protoKey) = true := by
    have counted := List.nodup_iff_count_le_one.mp nodup protoKey
    simp [Nat.not_lt.mpr counted]
  have whole : ∀ values, evaluateMembers jsonParse members = some values →
      buildObject jsonParse values = .object values none := by
    intro values evaluated
    have keys := evaluateMembers_keys evaluated
    refine buildObject_ordinary (fun member listed => ?_) (keys ▸ nodup)
    refine ordinary.imp_right fun absent same => absent ?_
    rw [← keys, ← same]
    exact List.mem_map_of_mem listed
  rw [Literal.evaluate, if_neg onlyOne, Literal.plain, Option.map_eq_some_iff,
    ← evaluateMembers_iff]
  constructor
  · rintro ⟨values, evaluated, built⟩
    rw [whole values evaluated, JsValue.object.injEq] at built
    rw [evaluated, built.1]
  · intro evaluated
    exact ⟨plainMembers members, evaluated, whole _ evaluated⟩

/-- An object with the key `__proto__` in an expression is not plain. -/
theorem evaluate_object_proto {members : List (List UInt16 × Literal)}
    (listed : protoKey ∈ members.map Prod.fst) :
    (Literal.object members).evaluate false ≠ some (Literal.object members).plain := by
  intro evaluated
  rw [Literal.evaluate, Literal.plain] at evaluated
  split_ifs at evaluated
  obtain ⟨values, _, built⟩ := Option.map_eq_some_iff.mp evaluated
  apply protoKey_not_mem_buildObject built
  rwa [plainMembers_keys]

/-- `JSON.parse` makes of a text without duplicate keys its plain value. -/
theorem Literal.Distinct.evaluate_jsonParse {literal : Literal} (distinct : literal.Distinct) :
    literal.evaluate true = some literal.plain := by
  induction distinct with
  | null => rfl
  | bool => rfl
  | number => rfl
  | string => rfl
  | array each inductionHypothesis =>
      rw [Literal.evaluate, Literal.plain, evaluateElements_iff.mpr inductionHypothesis]
      rfl
  | object nodup each inductionHypothesis =>
      exact (evaluate_object_iff nodup (Or.inl rfl)).mpr inductionHypothesis

/-- An expression without duplicate keys has its plain value exactly if no
object in it has the key `__proto__`. -/
theorem Literal.Distinct.evaluate_iff {literal : Literal} (distinct : literal.Distinct) :
    literal.evaluate false = some literal.plain ↔ ¬ literal.HasProto := by
  induction distinct with
  | null => exact iff_of_true rfl nofun
  | bool => exact iff_of_true rfl nofun
  | number => exact iff_of_true rfl nofun
  | string => exact iff_of_true rfl nofun
  | @array elements each inductionHypothesis =>
      have plainArray : (Literal.array elements).evaluate false =
          some (Literal.array elements).plain ↔
            ∀ element ∈ elements, element.evaluate false = some element.plain := by
        rw [Literal.evaluate, Literal.plain, ← evaluateElements_iff]
        simp
      rw [plainArray]
      constructor
      · intro evaluated proto
        cases proto with
        | element listed inside =>
            exact (inductionHypothesis _ listed).mp (evaluated _ listed) inside
      · intro noProto element listed
        exact (inductionHypothesis element listed).mpr fun inside => noProto (.element listed inside)
  | @object members nodup each inductionHypothesis =>
      by_cases here : protoKey ∈ members.map Prod.fst
      · exact iff_of_false (evaluate_object_proto here) (not_not_intro (.here here))
      · rw [evaluate_object_iff nodup (Or.inr here)]
        constructor
        · intro evaluated proto
          cases proto with
          | here listed => exact here listed
          | member listed inside =>
              exact (inductionHypothesis _ listed).mp (evaluated _ listed) inside
        · intro noProto member listed
          exact (inductionHypothesis member listed).mpr fun inside =>
            noProto (.member listed inside)

end RustySsr.Ecmascript
