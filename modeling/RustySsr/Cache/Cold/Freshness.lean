import RustySsr.Cache.Cold.Callers

/-!
Owns what concurrent lookups do to fresh entries. A lookup that found an entry
expired removes whatever is under the key by then, so an entry stored after the
test goes with the expired one, though it may have been made within its time.
`removesOnlyExpired_iff` states for every interleaving of lookups and insertions
that nothing else goes wrong: if no removal comes after such a store, every
entry within its time is answered.
-/

namespace RustySsr.Cache.ColdCache

open RustySsr.Platform
open RustySsr.Foundation
open RustySsr.Foundation.Staged

namespace Call

variable {call : Call} {cold : ColdCache} {orders : Orders} {now : Nat} {key : UInt64}

/-- Where an entry comes from that is in the map after a step. -/
theorem step_lookup_some {entry : CacheEntry}
    (found : (call.step cold orders now).1.cache.lookup key = some entry) :
    (∃ store, call.storing = some store ∧ store.urlHash = key ∧
        entry.createdAt = store.createdAt) ∨
      ((∀ store, call.storing = some store → store.urlHash ≠ key) ∧
        ∃ old, cold.cache.lookup key = some old ∧ entry.createdAt = old.createdAt) := by
  have changed := call.step_change cold orders now
  generalize (call.step cold orders now).1.cache = cache at found changed
  cases changed with
  | keeps noTarget noStore => exact Or.inr ⟨by simp [noStore], entry, found, rfl⟩
  | @touches touched old lastAccess noTarget noStore present =>
      refine Or.inr ⟨by simp [noStore], ?_⟩
      rcases HashMap.lookup_insert_some_iff.mp found with ⟨same, entryEq⟩ | ⟨_, before⟩
      · exact ⟨old, same ▸ present, by rw [entryEq]⟩
      · exact ⟨entry, before, rfl⟩
  | erases targeted noStore =>
      exact Or.inr ⟨by simp [noStore], entry, (HashMap.lookup_erase_some_iff.mp found).2, rfl⟩
  | stores store url lastAccess noTarget stored =>
      rcases HashMap.lookup_insert_some_iff.mp found with ⟨same, entryEq⟩ | ⟨different, before⟩
      · exact Or.inl ⟨store, stored, same.symm, by rw [entryEq]⟩
      · refine Or.inr ⟨fun other storing => ?_, entry, before, rfl⟩
        obtain rfl := Option.some.inj (stored.symm.trans storing)
        exact Ne.symm different

/-- An entry that a step neither removes nor replaces keeps its HTML and time. -/
theorem step_lookup_kept {old : CacheEntry} (present : cold.cache.lookup key = some old)
    (notTarget : call.target ≠ some key)
    (notStored : ∀ store, call.storing = some store → store.urlHash ≠ key) :
    ∃ entry, (call.step cold orders now).1.cache.lookup key = some entry ∧
      entry.html = old.html ∧ entry.createdAt = old.createdAt := by
  have changed := call.step_change cold orders now
  generalize (call.step cold orders now).1.cache = cache at changed
  cases changed with
  | keeps _ _ => exact ⟨old, present, rfl, rfl⟩
  | @touches touched entry lastAccess _ _ found =>
      by_cases same : key = touched
      · subst same
        obtain rfl := Option.some.inj (present.symm.trans found)
        exact ⟨_, AList.lookup_insert cold.cache, rfl, rfl⟩
      · exact ⟨old, (AList.lookup_insert_ne same).trans present, rfl, rfl⟩
  | @erases erased targeted _ =>
      have different : key ≠ erased := fun same => notTarget (same ▸ targeted)
      exact ⟨old, (AList.lookup_erase_ne different).trans present, rfl, rfl⟩
  | stores store url lastAccess _ stored =>
      have different : key ≠ store.urlHash := (notStored store stored).symm
      exact ⟨old, (AList.lookup_insert_ne different).trans present, rfl, rfl⟩

theorem step_lookup_stored {store : Store} (stored : call.storing = some store) :
    ∃ entry, (call.step cold orders now).1.cache.lookup store.urlHash = some entry ∧
      entry.html = store.html ∧ entry.createdAt = store.createdAt := by
  have changed := call.step_change cold orders now
  generalize (call.step cold orders now).1.cache = cache at changed
  cases changed with
  | stores other url lastAccess _ storing =>
      obtain rfl := Option.some.inj (stored.symm.trans storing)
      exact ⟨_, AList.lookup_insert cold.cache, rfl, rfl⟩
  | keeps _ noStore => simp [stored] at noStore
  | touches _ _ noStore _ => simp [stored] at noStore
  | erases _ noStore => simp [stored] at noStore

/-- A lookup is about to remove only after it found an expired entry. -/
theorem step_removeExpired (next : (call.step cold orders now).2 = .get key .removeExpired) :
    call = .get key .read ∧ (call.step cold orders now).1 = cold ∧
      ∃ entry, cold.cache.lookup key = some entry ∧
        outlived cold.ttl entry.createdAt now = true := by
  cases call with
  | get urlHash stage =>
      cases stage with
      | read =>
          unfold step getStep at next ⊢
          dsimp only at next ⊢
          cases found : cold.cache.lookup urlHash with
          | none => simp [found, resume] at next
          | some entry =>
              simp only [found] at next ⊢
              split_ifs at next ⊢ with expired
              · obtain rfl : urlHash = key := by simpa [resume] using next
                exact ⟨rfl, rfl, entry, found, expired⟩
              · simp [resume] at next
      | removeExpired => simp [step, getStep, resume] at next
  | insert urlHash url html stage =>
      unfold step at next
      cases outcome : (cold.insertStep orders urlHash url html now stage).2 <;>
        simp [outcome, resume] at next
  | remove urlHash => simp [step] at next
  | removeByPrefix urlPrefix stage =>
      unfold step at next
      cases outcome : (cold.removeByPrefixStep orders.scan urlPrefix stage).2 <;>
        simp [outcome, resume] at next
  | returned answer => simp [step] at next

end Call

namespace Callers

/-! ### Removals and their tests -/

/-- The event is the removal with which a lookup of the key ends. -/
def RemovesExpired (state : Callers) (event : CallEvent) (key : UInt64) : Prop :=
  (∃ orders, event.action = .step orders) ∧
    state.calls event.id = some (.get key .removeExpired)

/-- What a lookup removes was older than the time-to-live when it tested it. -/
def RemovesOnlyExpired (state : Callers) (event : CallEvent) : Prop :=
  ∀ key, state.RemovesExpired event key → ∀ entry, state.cold.cache.lookup key = some entry →
    outlived state.cold.ttl entry.createdAt (state.tests event.id).time = true

/-- When a lookup removes a key that is in the map and under which something was
stored since its test, the latest of these entries was made more than a
time-to-live before the test. -/
def NoRenewalSinceTest (state : Callers) (event : CallEvent) : Prop :=
  ∀ key store older, state.RemovesExpired event key → key ∈ state.cold.cache →
    state.storesOf key = store :: older → (state.tests event.id).stores ≤ older.length →
      outlived state.cold.ttl store.createdAt (state.tests event.id).time = true

/-- The key that the event removes as expired. -/
def removedExpired (state : Callers) (event : CallEvent) : Option UInt64 :=
  match event.action, state.calls event.id with
  | .step _, some (.get key .removeExpired) => some key
  | _, _ => none

theorem removesExpired_iff {state : Callers} {event : CallEvent} {key : UInt64} :
    state.RemovesExpired event key ↔ state.removedExpired event = some key := by
  unfold RemovesExpired removedExpired
  split
  · rename_i orders other action called
    simp [action, called]
  · rename_i others
    refine ⟨fun removes => ?_, fun absent => by simp at absent⟩
    obtain ⟨⟨orders, action⟩, called⟩ := removes
    exact absurd called (others orders key action)

instance (state : Callers) (event : CallEvent) : Decidable (NoRenewalSinceTest state event) :=
  match removed : state.removedExpired event with
  | none => .isTrue fun key _ _ removes =>
      absurd (removed.symm.trans (removesExpired_iff.mp removes)) (Option.some_ne_none key).symm
  | some key =>
      match stores : state.storesOf key with
      | [] => .isTrue fun other store older removes _ stored => by
          obtain rfl := Option.some.inj (removed.symm.trans (removesExpired_iff.mp removes))
          exact absurd (stores.symm.trans stored) (List.cons_ne_nil store older).symm
      | store :: older =>
          decidable_of_iff (key ∈ state.cold.cache → (state.tests event.id).stores ≤ older.length →
            outlived state.cold.ttl store.createdAt (state.tests event.id).time = true) <| by
            constructor
            · intro allowed other latest rest removes member stored since
              obtain rfl := Option.some.inj (removed.symm.trans (removesExpired_iff.mp removes))
              obtain ⟨rfl, rfl⟩ := List.cons.inj (stores.symm.trans stored)
              exact allowed member since
            · intro noRenewal member since
              exact noRenewal key store older (removesExpired_iff.mpr removed) member stores since

/-- A lookup whose test comes within the time-to-live of the latest store of its
key is answered with what was stored. -/
def AnswersFresh (state : Callers) : Prop :=
  ∀ key store older now, state.storesOf key = store :: older → state.clock ≤ now →
    outlived state.cold.ttl store.createdAt now = false →
      (state.cold.getStep key now .read).2 = .returns (some store.html)

/-- What is known of the key of a lookup that is about to remove it. -/
structure Tested (state : Callers) (id : Nat) (key : UInt64) : Prop where
  past : (state.tests id).time ≤ state.clock
  counted : (state.tests id).stores ≤ (state.storesOf key).length
  unchanged : (state.tests id).stores = (state.storesOf key).length →
    ∀ entry, state.cold.cache.lookup key = some entry →
      outlived state.cold.ttl entry.createdAt (state.tests id).time = true

/-- What is known of the tests and of the entries: an entry in the map is the one
of the latest store of its key. -/
structure AllTested (state : Callers) : Prop where
  tested : ∀ id key, state.calls id = some (.get key .removeExpired) → Tested state id key
  latest : ∀ key entry, state.cold.cache.lookup key = some entry →
    ∃ store older, state.storesOf key = store :: older ∧ entry.createdAt = store.createdAt

section Steps

variable {state : Callers} {id other : Nat} {call : Call} {orders : Orders} {key : UInt64}
  {event : CallEvent}

theorem storesOf_perform_of_ne
    (notStored : ∀ store, call.storing = some store → store.urlHash ≠ key) :
    (state.perform id call orders).storesOf key = state.storesOf key := by
  unfold storesOf perform
  dsimp only
  split
  · rename_i store stored
    simp [notStored store stored]
  · rfl

theorem storesOf_perform_stored {store : Store} (stored : call.storing = some store) :
    (state.perform id call orders).storesOf store.urlHash =
      store :: state.storesOf store.urlHash := by
  unfold storesOf perform
  simp [stored]

/-- A step stores something under the key, or nothing. -/
theorem storing_cases (call : Call) (key : UInt64) :
    (∃ store, call.storing = some store ∧ store.urlHash = key) ∨
      ∀ store, call.storing = some store → store.urlHash ≠ key := by
  by_cases stored : ∃ store, call.storing = some store ∧ store.urlHash = key
  · exact Or.inl stored
  · exact Or.inr fun store storing same => stored ⟨store, storing, same⟩

theorem tests_perform_of_ne (different : other ≠ id) :
    (state.perform id call orders).tests other = state.tests other := by
  unfold perform
  dsimp only
  cases call.testing with
  | some key => exact Function.update_of_ne different _ _
  | none => rfl

theorem Tested.later (tested : Tested state id key) (wait : Nat) :
    Tested (state.later wait) id key :=
  ⟨tested.past.trans (Nat.le_add_right _ _), tested.counted, tested.unchanged⟩

/-- The test of a lookup survives a step of another call. -/
theorem Tested.perform (tested : Tested state other key) (different : other ≠ id) :
    Tested (state.perform id call orders) other key := by
  have sameTest : (state.perform id call orders).tests other = state.tests other :=
    tests_perform_of_ne different
  have sameTtl : (state.perform id call orders).cold.ttl = state.cold.ttl :=
    call.step_ttl state.cold orders state.clock
  have counted := tested.counted
  rcases storing_cases call key with ⟨store, stored, rfl⟩ | notStored
  · have grown : (state.perform id call orders).storesOf store.urlHash =
        store :: state.storesOf store.urlHash := storesOf_perform_stored stored
    refine ⟨?_, ?_, ?_⟩
    · rw [sameTest]
      exact tested.past
    · rw [sameTest, grown, List.length_cons]
      omega
    · rw [sameTest, grown, List.length_cons]
      intro same
      omega
  · have sameStores : (state.perform id call orders).storesOf key = state.storesOf key :=
      storesOf_perform_of_ne notStored
    refine ⟨?_, ?_, ?_⟩
    · rw [sameTest]
      exact tested.past
    · rw [sameTest, sameStores]
      exact counted
    · rw [sameTest, sameStores, sameTtl]
      intro same entry found
      rcases Call.step_lookup_some found with ⟨store, stored, under, _⟩ | ⟨_, old, present, made⟩
      · exact absurd under (notStored store stored)
      · rw [made]
        exact tested.unchanged same old present

/-- A lookup that has just found an expired entry. -/
theorem tested_perform
    (next : (call.step state.cold orders state.clock).2 = .get key .removeExpired) :
    Tested (state.perform id call orders) id key := by
  obtain ⟨callEq, sameCold, entry, found, expired⟩ := Call.step_removeExpired next
  have coldEq : (state.perform id call orders).cold = state.cold := sameCold
  have testEq : (state.perform id call orders).tests id =
      ⟨state.clock, (state.storesOf key).length⟩ := by
    unfold Callers.perform
    rw [callEq]
    exact Function.update_self _ _ _
  have sameStores : (state.perform id call orders).storesOf key = state.storesOf key :=
    storesOf_perform_of_ne (by simp [callEq, Call.storing])
  refine ⟨?_, ?_, ?_⟩
  · rw [testEq]
    exact Nat.le_refl _
  · rw [testEq, sameStores]
  · rw [testEq, coldEq]
    intro _ other present
    obtain rfl := Option.some.inj (present.symm.trans found)
    exact expired

theorem AllTested.later (allTested : AllTested state) (wait : Nat) :
    AllTested (state.later wait) :=
  ⟨fun id key present => (allTested.tested id key present).later wait, allTested.latest⟩

theorem AllTested.perform (allTested : AllTested state) :
    AllTested (state.perform id call orders) where
  tested := by
    intro other key present
    by_cases same : other = id
    · subst same
      exact tested_perform (by simpa [Callers.perform] using present)
    · have tested := allTested.tested other key (by simpa [Callers.perform, same] using present)
      exact tested.perform same
  latest := by
    intro key entry found
    rcases Call.step_lookup_some found with ⟨store, stored, rfl, made⟩ |
      ⟨notStored, old, present, made⟩
    · exact ⟨store, _, storesOf_perform_stored stored, made⟩
    · obtain ⟨store, older, stores, sameTime⟩ := allTested.latest key old present
      exact ⟨store, older, (storesOf_perform_of_ne notStored).trans stores, made.trans sameTime⟩

theorem AllTested.move (allTested : AllTested state) (event : CallEvent) :
    AllTested (state.move event) := by
  rcases state.move_cases event with ⟨_, same⟩ | ⟨request, _, _, began⟩ |
    ⟨call, orders, _, _, stepped⟩
  · rw [same]
    exact allTested.later event.wait
  · rw [began]
    refine ⟨fun id key present => ?_, allTested.latest⟩
    by_cases same : id = event.id
    · subst same
      cases request <;> simp [Request.entry] at present
    · have tested := allTested.tested id key (by simpa [same] using present)
      exact ⟨(tested.later event.wait).past, tested.counted, tested.unchanged⟩
  · rw [stepped]
    exact (allTested.later event.wait).perform

/-- A removal takes only what was expired at its test, exactly if what was stored
under the key since had been made long enough before. -/
theorem removesOnlyExpired_event_iff (allTested : AllTested state) :
    RemovesOnlyExpired state event ↔ NoRenewalSinceTest state event := by
  constructor
  · intro onlyExpired key store older removes member stores _
    obtain ⟨entry, found⟩ := Option.isSome_iff_exists.mp (AList.lookup_isSome.mpr member)
    obtain ⟨latest, _, latestStores, sameTime⟩ := allTested.latest key entry found
    obtain ⟨rfl, _⟩ := List.cons.inj (stores.symm.trans latestStores)
    rw [← sameTime]
    exact onlyExpired key removes entry found
  · intro noRenewal key removes entry found
    have member : key ∈ state.cold.cache := AList.lookup_isSome.mp (by simp [found])
    have tested := allTested.tested event.id key removes.2
    obtain ⟨store, older, stores, sameTime⟩ := allTested.latest key entry found
    by_cases since : (state.tests event.id).stores ≤ older.length
    · rw [sameTime]
      exact noRenewal key store older removes member stores since
    · have counted := tested.counted
      have length : (state.storesOf key).length = older.length + 1 := by
        rw [stores, List.length_cons]
      exact tested.unchanged (by omega) entry found

end Steps

/-! ### The latest store of a key -/

/-- The call is one of `get`, or one of `insert` that evicts nothing. -/
def Evictionless : Call → Prop
  | .get _ _ => True
  | .insert _ _ _ .checkLength => True
  | .insert _ _ _ (.stamp _) => True
  | .insert _ _ _ (.create _ _) => True
  | .insert _ _ _ (.store _ _ _) => True
  | .returned _ => True
  | _ => False

/-- The event begins no call but one of `get` or `insert`. -/
def GetsOrInserts (event : CallEvent) : Prop :=
  ∀ request, event.action = .call request →
    (∃ urlHash, request = .get urlHash) ∨ ∃ urlHash url html, request = .insert urlHash url html

/-- The cache has not reached its maximum. -/
def HasRoom (state : Callers) (_ : CallEvent) : Prop := state.cold.len < state.cold.maxEntries

instance (state : Callers) (event : CallEvent) : Decidable (HasRoom state event) :=
  inferInstanceAs (Decidable (state.cold.len < state.cold.maxEntries))

/-- All calls are of those kinds, and the latest store of a key is in the map
unless its time has run out. -/
structure Retains (state : Callers) : Prop where
  kinds : ∀ id call, state.calls id = some call → Evictionless call
  latest : ∀ key store older, state.storesOf key = store :: older →
    (∃ entry, state.cold.cache.lookup key = some entry ∧ entry.html = store.html ∧
      entry.createdAt = store.createdAt) ∨
        outlived state.cold.ttl store.createdAt state.clock = true

section Steps

variable {state : Callers} {call : Call} {cold : ColdCache} {orders : Orders} {key : UInt64}
  {now : Nat} {event : CallEvent}

theorem evictionless_step (evictionless : Evictionless call) (room : cold.len < cold.maxEntries) :
    Evictionless (call.step cold orders now).2 := by
  cases call with
  | get urlHash stage =>
      show Evictionless (Call.resume (cold.getStep urlHash now stage).2 (.get urlHash) .found)
      cases (cold.getStep urlHash now stage).2 <;> trivial
  | insert urlHash url html stage =>
      cases stage with
      | checkLength =>
          have notFull : ¬ cold.maxEntries ≤ cold.cache.len := Nat.not_le.mpr room
          simp [Call.step, insertStep, notFull, Call.resume, Evictionless]
      | stamp evicted => trivial
      | create evicted newAccess => trivial
      | store evicted newAccess createdAt => trivial
      | takeFlag => exact evictionless.elim
      | scan => exact evictionless.elim
      | evict keys evicted => exact evictionless.elim
  | remove urlHash => exact evictionless.elim
  | removeByPrefix urlPrefix stage => exact evictionless.elim
  | returned answer => trivial

/-- Among these calls only a lookup removes. -/
theorem get_of_target (evictionless : Evictionless call) (targeted : call.target = some key) :
    call = .get key .removeExpired := by
  cases call with
  | get urlHash stage => cases stage <;> simp_all [Call.target]
  | insert urlHash url html stage => cases stage <;> simp_all [Call.target, Evictionless]
  | remove urlHash => exact evictionless.elim
  | removeByPrefix urlPrefix stage => exact evictionless.elim
  | returned answer => simp [Call.target] at targeted

theorem Retains.later (retains : Retains state) (wait : Nat) : Retains (state.later wait) where
  kinds := retains.kinds
  latest := fun key store older stored => (retains.latest key store older stored).imp_right
    fun expired => outlived_mono (Nat.le_add_right _ _) expired

/-- The latest store of a key survives a step that stores nothing under it. -/
theorem Retains.latest_perform (retains : Retains state) (allTested : AllTested state)
    (steps : event.action = .step orders) (present : state.calls event.id = some call)
    (noRenewal : NoRenewalSinceTest state event)
    (notStored : ∀ store, call.storing = some store → store.urlHash ≠ key) {store : Store}
    {older : List Store} (storesEq : state.storesOf key = store :: older) :
    (∃ entry, (call.step state.cold orders (state.clock + event.wait)).1.cache.lookup key =
        some entry ∧ entry.html = store.html ∧ entry.createdAt = store.createdAt) ∨
      outlived state.cold.ttl store.createdAt (state.clock + event.wait) = true := by
  rcases (retains.later event.wait).latest key store older storesEq with
    ⟨entry, found, sameHtml, sameTime⟩ | expired
  · by_cases targeted : call.target = some key
    · -- The guard makes the removed entry one that had expired at the test.
      obtain rfl := get_of_target (retains.kinds event.id call present) targeted
      have removes : state.RemovesExpired event key := ⟨⟨orders, steps⟩, present⟩
      have expired := (removesOnlyExpired_event_iff allTested).mpr noRenewal key removes entry found
      rw [sameTime] at expired
      have past := (allTested.tested event.id key present).past
      exact Or.inr (outlived_mono (past.trans (Nat.le_add_right _ _)) expired)
    · have kept : ∃ next, (call.step state.cold orders (state.clock + event.wait)).1.cache.lookup
          key = some next ∧ next.html = entry.html ∧ next.createdAt = entry.createdAt :=
        Call.step_lookup_kept found targeted notStored
      obtain ⟨next, nextFound, nextHtml, nextTime⟩ := kept
      exact Or.inl ⟨next, nextFound, nextHtml.trans sameHtml, nextTime.trans sameTime⟩
  · exact Or.inr expired

theorem Retains.perform (retains : Retains state) (allTested : AllTested state)
    (room : HasRoom state event) (steps : event.action = .step orders)
    (present : state.calls event.id = some call) (noRenewal : NoRenewalSinceTest state event) :
    Retains ((state.later event.wait).perform event.id call orders) where
  kinds := by
    intro id current found
    by_cases same : id = event.id
    · subst same
      obtain rfl : (call.step (state.later event.wait).cold orders
          (state.later event.wait).clock).2 = current := by simpa [Callers.perform] using found
      exact evictionless_step (retains.kinds event.id call present) room
    · exact retains.kinds id current (by simpa [Callers.perform, same] using found)
  latest := by
    intro key store older storesEq
    rcases storing_cases call key with ⟨stored, storing, rfl⟩ | notStored
    · rw [storesOf_perform_stored storing, List.cons.injEq] at storesEq
      rw [← storesEq.1]
      exact Or.inl (Call.step_lookup_stored storing)
    · rw [storesOf_perform_of_ne notStored] at storesEq
      have sameTtl := call.step_ttl state.cold orders (state.clock + event.wait)
      change (∃ entry, (call.step state.cold orders (state.clock + event.wait)).1.cache.lookup
        key = some entry ∧ _) ∨ outlived
          (call.step state.cold orders (state.clock + event.wait)).1.ttl _ _ = true
      rw [sameTtl]
      exact retains.latest_perform allTested steps present noRenewal notStored storesEq

theorem Retains.move (retains : Retains state) (allTested : AllTested state)
    (gets : GetsOrInserts event) (room : HasRoom state event)
    (noRenewal : NoRenewalSinceTest state event) : Retains (state.move event) := by
  rcases state.move_cases event with ⟨_, same⟩ | ⟨request, calls, _, began⟩ |
    ⟨call, orders, steps, present, stepped⟩
  · rw [same]
    exact retains.later event.wait
  · rw [began]
    refine ⟨fun id current found => ?_, (retains.later event.wait).latest⟩
    by_cases same : id = event.id
    · subst same
      obtain rfl : request.entry = current := by simpa using found
      rcases gets request calls with ⟨urlHash, rfl⟩ | ⟨urlHash, url, html, rfl⟩ <;> trivial
    · exact retains.kinds id current (by simpa [same] using found)
  · rw [stepped]
    exact retains.perform allTested room steps present noRenewal

/-- What is in the map within its time is answered. -/
theorem Retains.answersFresh (retains : Retains state) : AnswersFresh state := by
  intro key store older now storesEq ordered live
  rcases retains.latest key store older storesEq with ⟨entry, found, sameHtml, sameTime⟩ | expired
  · rw [← sameTime] at live
    simp [getStep, found, live, sameHtml]
  · rw [outlived_mono ordered expired] at live
    contradiction

end Steps

/-! ### Whole runs -/

section Runs

variable {maxEntries ttlSecs : Nat} {events : List CallEvent}

theorem allTested_new (maxEntries ttlSecs : Nat) : AllTested (new maxEntries ttlSecs) where
  tested := fun _ _ absent => by simp [new] at absent
  latest := fun _ _ absent => by simp [new, withTtl] at absent

theorem allTested_run (maxEntries ttlSecs : Nat) (events : List CallEvent) :
    AllTested (Execution.run move (new maxEntries ttlSecs) events) :=
  Execution.run_invariant_always (fun _ state => AllTested state) (allTested_new maxEntries ttlSecs)
    fun _ _ event allTested => allTested.move event

theorem retains_run (gets : ∀ event ∈ events, GetsOrInserts event)
    (room : Execution.Guarded move HasRoom (new maxEntries ttlSecs) events)
    (noRenewal : Execution.Guarded move NoRenewalSinceTest (new maxEntries ttlSecs) events) :
    Retains (Execution.run move (new maxEntries ttlSecs) events) := by
  have guarded : Execution.Guarded move (fun state event =>
      GetsOrInserts event ∧ HasRoom state event ∧ NoRenewalSinceTest state event)
      (new maxEntries ttlSecs) events := by
    intro earlier event later split
    exact ⟨gets event (by simp [split]), room earlier event later split,
      noRenewal earlier event later split⟩
  have start : AllTested (new maxEntries ttlSecs) ∧ Retains (new maxEntries ttlSecs) :=
    ⟨allTested_new maxEntries ttlSecs, fun _ _ absent => by simp [new] at absent,
      fun _ _ _ stored => by simp [new, storesOf] at stored⟩
  have both := Execution.run_invariant (fun _ state => AllTested state ∧ Retains state) start
    (fun _ _ event holds allowed => ⟨holds.1.move event,
      holds.2.move holds.1 allowed.1 allowed.2.1 allowed.2.2⟩) guarded
  exact both.2

/-- **In every interleaving of lookups and insertions below the maximum, the
lookups remove only what they found expired and every entry within its time is
answered, exactly if no lookup removes a key under which an entry was stored
since its test that had not been made a time-to-live before it.** -/
theorem removesOnlyExpired_iff (gets : ∀ event ∈ events, GetsOrInserts event)
    (room : Execution.Guarded move HasRoom (new maxEntries ttlSecs) events) :
    (Execution.Guarded move RemovesOnlyExpired (new maxEntries ttlSecs) events ∧
        ∀ upTo, upTo <+: events →
          AnswersFresh (Execution.run move (new maxEntries ttlSecs) upTo)) ↔
      Execution.Guarded move NoRenewalSinceTest (new maxEntries ttlSecs) events := by
  constructor
  · intro fresh earlier event later split
    exact (removesOnlyExpired_event_iff (allTested_run maxEntries ttlSecs earlier)).mp
      (fresh.1 earlier event later split)
  · intro noRenewal
    constructor
    · intro earlier event later split
      exact (removesOnlyExpired_event_iff (allTested_run maxEntries ttlSecs earlier)).mpr
        (noRenewal earlier event later split)
    · rintro upTo ⟨rest, rfl⟩
      have initialGets : ∀ event ∈ upTo, GetsOrInserts event :=
        fun event member => gets event (List.mem_append_left _ member)
      exact (retains_run initialGets room.initial noRenewal.initial).answersFresh

end Runs

def anyOrders : Orders := ⟨VisitOrder.stored, VisitOrder.stored⟩

/-- The next steps of a call, with no time between them. -/
def steps (id count : Nat) : List CallEvent := List.replicate count ⟨id, 0, .step anyOrders⟩

/-- A page is stored while another thread has made its entry and not stored it
yet; two seconds later a lookup finds the page expired. -/
def expiredLookup : List CallEvent :=
  ⟨0, 0, .call (.insert 1 "/a" "old")⟩ :: steps 0 4 ++ ⟨1, 0, .call (.insert 1 "/a" "late")⟩ ::
    steps 1 3 ++ ⟨2, 2000000000, .call (.get 1)⟩ :: steps 2 1

/-- What is stored since the test is as old as what the test saw. -/
theorem removesOnlyExpired_expiredLookup :
    Execution.Guarded move RemovesOnlyExpired (new 4 1)
      (expiredLookup ++ steps 1 1 ++ steps 2 1) := by
  have gets : ∀ event ∈ expiredLookup ++ steps 1 1 ++ steps 2 1, GetsOrInserts event := by
    simp [expiredLookup, steps, GetsOrInserts]
  exact ((removesOnlyExpired_iff gets (by decide +kernel)).mpr (by decide +kernel)).1

/-- Another thread stores the page anew before the lookup removes its key. -/
def renewedBeforeRemoval : List CallEvent :=
  expiredLookup ++ ⟨3, 0, .call (.insert 1 "/a" "new")⟩ :: steps 3 4 ++ steps 2 1

/-- The lookup removes the new page at the instant it was stored. -/
theorem removes_fresh_entry :
    ¬ ∀ maxEntries ttlSecs events, 1 ≤ maxEntries → 0 < ttlSecs →
      (∀ event ∈ events, GetsOrInserts event) →
        Execution.Guarded move HasRoom (new maxEntries ttlSecs) events →
          Execution.Guarded move RemovesOnlyExpired (new maxEntries ttlSecs) events ∧
            AnswersFresh (Execution.run move (new maxEntries ttlSecs) events) := by
  intro fresh
  have answers := (fresh 4 1 renewedBeforeRemoval (by decide) (by decide)
    (by simp [renewedBeforeRemoval, expiredLookup, steps, GetsOrInserts]) (by decide +kernel)).2
  have found := answers 1 ⟨1, "new", 2000000000⟩ [⟨1, "old", 0⟩] 2000000000 rfl (by decide) rfl
  cases found

end Callers

end RustySsr.Cache.ColdCache
