import RustySsr.Cache.Cold.Refinement
import RustySsr.Cache.Cold.Steps

/-!
Owns any number of calls of `get`, `insert`, `remove` and `remove_by_prefix` on
one cold cache, interleaved step by step, with the clock they read. The machine
records what the steps do to the map: which call took an entry out or found none
to take, what was stored, and when a lookup tested an entry. No step reads these
records. It does not own what holds of the interleavings.
-/

namespace RustySsr.Cache.ColdCache

open RustySsr.Platform
open RustySsr.Foundation
open RustySsr.Foundation.Staged

/-- A call as it is made. -/
inductive Request where
  | get (urlHash : UInt64)
  | insert (urlHash : UInt64) (url html : String)
  | remove (urlHash : UInt64)
  | removeByPrefix (urlPrefix : String)
deriving DecidableEq, Repr

/-- A call and where it stands. -/
inductive Call where
  | get (urlHash : UInt64) (stage : GetStage)
  | insert (urlHash : UInt64) (url html : String) (stage : InsertStage)
  | remove (urlHash : UInt64)
  | removeByPrefix (urlPrefix : String) (stage : PrefixStage)
  | returned (answer : Answer)
deriving DecidableEq, Repr

def Request.entry : Request → Call
  | .get urlHash => .get urlHash .read
  | .insert urlHash url html => .insert urlHash url html .checkLength
  | .remove urlHash => .remove urlHash
  | .removeByPrefix urlPrefix => .removeByPrefix urlPrefix .scan

/-- What an insertion stores, with the time at which it made the entry. -/
structure Store where
  urlHash : UInt64
  html : String
  createdAt : Nat
deriving DecidableEq, Repr

namespace Call

/-- The call after a step of its operation. -/
def resume {stage answer : Type} (outcome : Outcome stage answer) (wrap : stage → Call)
    (answered : answer → Answer) : Call :=
  match outcome with
  | .continues next => wrap next
  | .returns result => .returned (answered result)

/-- The next step of a call: the cache after it, and the call. -/
def step (call : Call) (cold : ColdCache) (orders : Orders) (now : Nat) : ColdCache × Call :=
  match call with
  | .get urlHash stage =>
      let stepped := cold.getStep urlHash now stage
      (stepped.1, resume stepped.2 (.get urlHash) .found)
  | .insert urlHash url html stage =>
      let stepped := cold.insertStep orders urlHash url html now stage
      (stepped.1, resume stepped.2 (.insert urlHash url html) .inserted)
  | .remove urlHash =>
      let removed := cold.remove urlHash
      (removed.2, .returned (.removed removed.1))
  | .removeByPrefix urlPrefix stage =>
      let stepped := cold.removeByPrefixStep orders.scan urlPrefix stage
      (stepped.1, resume stepped.2 (.removeByPrefix urlPrefix) .removedByPrefix)
  | .returned answer => (cold, .returned answer)

/-- The key that the next step removes. -/
def target : Call → Option UInt64
  | .get urlHash .removeExpired => some urlHash
  | .insert _ _ _ (.evict (key :: _) _) => some key
  | .remove urlHash => some urlHash
  | .removeByPrefix _ (.remove (key :: _) _) => some key
  | _ => none

/-- What the next step stores. -/
def storing : Call → Option Store
  | .insert urlHash _ html (.store _ _ createdAt) => some ⟨urlHash, html, createdAt⟩
  | _ => none

/-- The key whose entry the next step tests. -/
def testing : Call → Option UInt64
  | .get urlHash .read => some urlHash
  | _ => none

/-- What a step of a call does to the map. -/
inductive Change (call : Call) (cold : ColdCache) : HashMap UInt64 CacheEntry → Prop where
  | keeps (noTarget : call.target = none) (noStore : call.storing = none) :
      Change call cold cold.cache
  | touches {key : UInt64} {entry : CacheEntry} (lastAccess : UInt64)
      (noTarget : call.target = none) (noStore : call.storing = none)
      (found : cold.cache.lookup key = some entry) :
      Change call cold (cold.cache.insert key { entry with lastAccess := lastAccess })
  | erases {key : UInt64} (targeted : call.target = some key) (noStore : call.storing = none) :
      Change call cold (cold.cache.erase key)
  | stores (store : Store) (url : String) (lastAccess : UInt64) (noTarget : call.target = none)
      (stored : call.storing = some store) :
      Change call cold
        (cold.cache.insert store.urlHash ⟨url, store.html, lastAccess, store.createdAt⟩)

theorem step_change (call : Call) (cold : ColdCache) (orders : Orders) (now : Nat) :
    Change call cold (call.step cold orders now).1.cache := by
  cases call with
  | get urlHash stage =>
      cases stage with
      | read =>
          unfold step getStep
          dsimp only
          cases found : cold.cache.lookup urlHash with
          | none => exact .keeps rfl rfl
          | some entry =>
              dsimp only
              split_ifs with expired
              · exact .keeps rfl rfl
              · exact .touches _ rfl rfl found
      | removeExpired => exact .erases rfl rfl
  | insert urlHash url html stage =>
      cases stage with
      | checkLength => exact .keeps rfl rfl
      | takeFlag =>
          unfold step insertStep
          split_ifs <;> exact .keeps rfl rfl
      | scan => exact .keeps rfl rfl
      | evict keys evicted =>
          cases keys with
          | nil => exact .keeps rfl rfl
          | cons key rest => exact .erases rfl rfl
      | stamp evicted => exact .keeps rfl rfl
      | create evicted newAccess => exact .keeps rfl rfl
      | store evicted newAccess createdAt => exact .stores ⟨urlHash, html, createdAt⟩ url newAccess rfl rfl
  | remove urlHash => exact .erases rfl rfl
  | removeByPrefix urlPrefix stage =>
      cases stage with
      | scan => exact .keeps rfl rfl
      | remove keys count =>
          cases keys with
          | nil => exact .keeps rfl rfl
          | cons key rest => exact .erases rfl rfl
  | returned answer => exact .keeps rfl rfl

@[simp] theorem step_ttl (call : Call) (cold : ColdCache) (orders : Orders) (now : Nat) :
    (call.step cold orders now).1.ttl = cold.ttl := by
  cases call with
  | get urlHash stage =>
      cases stage with
      | read =>
          unfold step getStep
          dsimp only
          cases cold.cache.lookup urlHash with
          | none => rfl
          | some entry =>
              dsimp only
              split_ifs <;> rfl
      | removeExpired => rfl
  | insert urlHash url html stage =>
      cases stage with
      | takeFlag =>
          unfold step insertStep
          split_ifs <;> rfl
      | evict keys evicted => cases keys <;> rfl
      | _ => rfl
  | remove urlHash => rfl
  | removeByPrefix urlPrefix stage =>
      cases stage with
      | scan => rfl
      | remove keys count => cases keys <;> rfl
  | returned answer => rfl

end Call

/-- A record of a lookup's test: its time, and how many stores of the key it
came after. -/
structure Test where
  time : Nat
  stores : Nat
deriving DecidableEq, Repr

/-- A cold cache, the clock, and the calls; then the records, latest first. -/
structure Callers where
  cold : ColdCache
  clock : Nat
  calls : Nat → Option Call
  takings : List Nat
  misses : List Nat
  stores : List Store
  tests : Nat → Test

inductive Action where
  | call (request : Request)
  | step (orders : Orders)

/-- A call begins or makes its next step, some time after the last event. -/
structure CallEvent where
  id : Nat
  wait : Nat
  action : Action

namespace Callers

def new (maxEntries ttlSecs : Nat) : Callers where
  cold := withTtl maxEntries ttlSecs
  clock := 0
  calls := fun _ => none
  takings := []
  misses := []
  stores := []
  tests := fun _ => ⟨0, 0⟩

/-- The stores of a key, latest first. -/
def storesOf (state : Callers) (key : UInt64) : List Store :=
  state.stores.filter fun store => store.urlHash = key

/-- A call makes its next step. -/
def perform (state : Callers) (id : Nat) (call : Call) (orders : Orders) : Callers where
  cold := (call.step state.cold orders state.clock).1
  clock := state.clock
  calls := Function.update state.calls id (some (call.step state.cold orders state.clock).2)
  takings := match call.target with
    | some key => if key ∈ state.cold.cache then id :: state.takings else state.takings
    | none => state.takings
  misses := match call.target with
    | some key => if key ∈ state.cold.cache then state.misses else id :: state.misses
    | none => state.misses
  stores := match call.storing with
    | some store => store :: state.stores
    | none => state.stores
  tests := match call.testing with
    | some key => Function.update state.tests id ⟨state.clock, (state.storesOf key).length⟩
    | none => state.tests

/-- The state when the clock has moved on. -/
def later (state : Callers) (wait : Nat) : Callers := { state with clock := state.clock + wait }

@[simp] theorem later_cold (state : Callers) (wait : Nat) :
    (state.later wait).cold = state.cold := rfl

@[simp] theorem later_clock (state : Callers) (wait : Nat) :
    (state.later wait).clock = state.clock + wait := rfl

@[simp] theorem later_calls (state : Callers) (wait : Nat) :
    (state.later wait).calls = state.calls := rfl

@[simp] theorem later_takings (state : Callers) (wait : Nat) :
    (state.later wait).takings = state.takings := rfl

@[simp] theorem later_misses (state : Callers) (wait : Nat) :
    (state.later wait).misses = state.misses := rfl

@[simp] theorem later_stores (state : Callers) (wait : Nat) :
    (state.later wait).stores = state.stores := rfl

/-- An id stands for one call: it begins once and makes its steps until it has
returned. -/
def move (state : Callers) (event : CallEvent) : Callers :=
  let current := state.later event.wait
  match current.calls event.id, event.action with
  | none, .call request =>
      { current with calls := Function.update current.calls event.id (some request.entry) }
  | some call, .step orders => current.perform event.id call orders
  | none, .step _ => current
  | some _, .call _ => current

/-- Everything an event can do after its wait: nothing, begin a call, or make a
step of one. -/
theorem move_cases (state : Callers) (event : CallEvent) :
    ((∀ orders, event.action = .step orders → state.calls event.id = none) ∧
        state.move event = state.later event.wait) ∨
      (∃ request, event.action = .call request ∧ state.calls event.id = none ∧
        state.move event =
          { state.later event.wait with
            calls := Function.update state.calls event.id (some request.entry) }) ∨
      ∃ call orders, event.action = .step orders ∧ state.calls event.id = some call ∧
        state.move event = (state.later event.wait).perform event.id call orders := by
  obtain ⟨id, wait, action⟩ := event
  have sameCalls : (state.later wait).calls id = state.calls id := rfl
  unfold move
  dsimp only
  rw [sameCalls]
  cases state.calls id with
  | none =>
      cases action with
      | call request => exact Or.inr (Or.inl ⟨request, rfl, rfl, rfl⟩)
      | step orders => exact Or.inl ⟨fun _ _ => rfl, rfl⟩
  | some call =>
      cases action with
      | call request => exact Or.inl ⟨fun _ steps => Action.noConfusion steps, rfl⟩
      | step orders => exact Or.inr (Or.inr ⟨call, orders, rfl, rfl, rfl⟩)

end Callers

end RustySsr.Cache.ColdCache
