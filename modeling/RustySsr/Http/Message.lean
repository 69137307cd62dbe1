import Mathlib.Data.List.DropRight

/-!
Owns HTTP responses as far as their meaning goes: header fields with several
values, comma-separated lists, bodies, and the content codings that a body is
under. `Coherent` says that one response still means what another one meant.
Nothing here knows who rewrites a response.
-/

namespace RustySsr.Http

abbrev Bytes := List UInt8

/-- Header fields in order, under lower-case names. A value has one character for
each of its bytes. -/
structure HeaderMap where
  fields : List (String × String)
deriving DecidableEq, Repr

namespace HeaderMap

def empty : HeaderMap := ⟨[]⟩

/-- `get_all`. -/
def values (headers : HeaderMap) (name : String) : List String :=
  (headers.fields.filter fun field => field.1 = name).map Prod.snd

/-- `get`: the first value. -/
def get (headers : HeaderMap) (name : String) : Option String := (headers.values name).head?

/-- `insert`, which drops the values that were there. -/
def insert (headers : HeaderMap) (name value : String) : HeaderMap :=
  ⟨headers.fields.filter (fun field => field.1 ≠ name) ++ [(name, value)]⟩

@[simp] theorem values_insert_self (headers : HeaderMap) (name value : String) :
    (headers.insert name value).values name = [value] := by
  simp [values, insert, List.filter_filter]

theorem values_insert_of_ne {other name : String} (different : other ≠ name)
    (headers : HeaderMap) (value : String) :
    (headers.insert name value).values other = headers.values other := by
  have keeps (field : String × String) :
      (decide (field.1 = other) && decide (field.1 ≠ name)) = decide (field.1 = other) := by
    by_cases named : field.1 = other
    · simp [named, different]
    · simp [named]
  simp only [values, insert, List.filter_append, List.filter_filter, keeps]
  simp [different.symm]

end HeaderMap

/-- `HeaderValue::to_str`, which reads visible ASCII and tabs. -/
def toStr (value : String) : Option String :=
  if value.toList.all fun c => c = '\t' || (0x20 ≤ c.toNat && c.toNat < 0x7f) then some value
  else none

def isBlank (c : Char) : Bool := c = ' ' || c = '\t'

/-- The members of a comma-separated list. They do not depend on case, and empty
ones do not count. -/
def members (value : String) : List String :=
  let elements := (value.toList.splitOn ',').map fun element =>
    String.ofList (((element.dropWhile isBlank).rdropWhile isBlank).map Char.toLower)
  elements.filter fun element => element ≠ ""

/-- The members of a list field, over all lines of it. -/
def HeaderMap.listed (headers : HeaderMap) (name : String) : List String :=
  (headers.values name).flatMap members

/-- The number that a text of decimal digits denotes. -/
def decimal (text : String) : Option Nat :=
  if text ≠ "" ∧ text.toList.all Char.isDigit = true then
    some (text.toList.foldl (fun number digit => 10 * number + (digit.toNat - '0'.toNat)) 0)
  else none

/-- A body: the bytes of a stream that ends, or of one that fails after them. -/
inductive Body where
  | complete (bytes : Bytes)
  | failing (bytes : Bytes)
deriving DecidableEq, Repr

structure Response where
  status : Nat
  headers : HeaderMap
  body : Body
deriving DecidableEq, Repr

/-! ### What a response means -/

section Meaning

variable (decode : String → Bytes → Option Bytes)

/-- Undoes the codings, the last one first. -/
def undo (codings : List String) (coded : Bytes) : Option Bytes := codings.foldrM decode coded

@[simp] theorem undo_singleton (coding : String) (coded : Bytes) :
    undo decode [coding] coded = decode coding coded := by
  simp [undo]

/-- The response carries the representation, under its content codings. -/
def Response.Denotes (response : Response) (representation : Bytes) : Prop :=
  ∃ coded, response.body = .complete coded ∧
    undo decode (response.headers.listed "content-encoding") coded = some representation

/-- Every length that the response declares is the length of its body. -/
def Response.LengthAgrees (response : Response) : Prop :=
  ∀ bytes, response.body = .complete bytes →
    ∀ value ∈ response.headers.values "content-length", decimal value = some bytes.length

/-- The returned response still means what the original one did. -/
structure Coherent (original returned : Response) : Prop where
  representation : ∀ representation, original.Denotes decode representation →
    returned.Denotes decode representation
  length : returned.LengthAgrees
  vary : ∀ field ∈ original.headers.listed "vary", field ∈ returned.headers.listed "vary"

/-- A response that passes unchanged keeps its meaning if its length is right. -/
theorem coherent_self_iff (response : Response) :
    Coherent decode response response ↔ response.LengthAgrees :=
  ⟨Coherent.length, fun agrees => ⟨fun _ denotes => denotes, agrees, fun _ listed => listed⟩⟩

end Meaning

end RustySsr.Http
