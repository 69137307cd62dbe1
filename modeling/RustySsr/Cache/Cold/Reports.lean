import RustySsr.Cache.Cold.Callers
import RustySsr.Foundation.Tally

/-!
Owns the numbers that `insert` and `remove_by_prefix` report. Both count the
keys they collect and remove them later, one by one, so a report is true exactly
if every key was still in the map at its removal. `trueReports_iff` states this
for every interleaving, and that the sums of true reports count no entry twice.
-/

namespace RustySsr.Cache.ColdCache

open RustySsr.Platform
open RustySsr.Foundation
open RustySsr.Foundation.Staged

namespace Call

/-- The number that a returned `insert` or `remove_by_prefix` reports. -/
def reported : Call → Option Nat
  | .returned (.inserted evicted) => some evicted
  | .returned (.removedByPrefix count) => some count
  | _ => none

/-- How many keys an `insert` or a `remove_by_prefix` has collected, and how
many of them it has yet to remove. -/
def collected : Call → Option (Nat × Nat)
  | .insert _ _ _ (.evict keys evicted) => some (evicted, keys.length)
  | .insert _ _ _ (.stamp evicted) => some (evicted, 0)
  | .insert _ _ _ (.create evicted _) => some (evicted, 0)
  | .insert _ _ _ (.store evicted _ _) => some (evicted, 0)
  | .insert _ _ _ _ => some (0, 0)
  | .removeByPrefix _ .scan => some (0, 0)
  | .removeByPrefix _ (.remove keys count) => some (count, keys.length)
  | .returned (.inserted evicted) => some (evicted, 0)
  | .returned (.removedByPrefix count) => some (count, 0)
  | _ => none

theorem collected_of_reported {call : Call} {count : Nat} (reports : call.reported = some count) :
    call.collected = some (count, 0) := by
  cases call with
  | returned answer => cases answer <;> simp_all [reported, collected]
  | _ => simp [reported] at reports

theorem collected_entry (request : Request) {total left : Nat}
    (collects : request.entry.collected = some (total, left)) : total = 0 ∧ left = 0 := by
  cases request <;> simp [Request.entry, collected] at collects <;> omega

/-- A step takes one key off what is left, if it removes one, and otherwise
collects as many keys as it leaves to remove. -/
theorem collected_step {call : Call} {cold : ColdCache} {orders : Orders} {now total left : Nat}
    (collects : (call.step cold orders now).2.collected = some (total, left)) :
    ∃ totalBefore leftBefore, call.collected = some (totalBefore, leftBefore) ∧
      totalBefore + left + (if call.target.isSome then 1 else 0) = total + leftBefore := by
  cases call with
  | get urlHash stage =>
      unfold step at collects
      cases outcome : (cold.getStep urlHash now stage).2 <;>
        simp [outcome, resume, collected] at collects
  | insert urlHash url html stage =>
      cases stage with
      | checkLength =>
          refine ⟨0, 0, rfl, ?_⟩
          unfold step insertStep at collects
          dsimp only [resume] at collects
          split_ifs at collects <;> simp [collected] at collects <;> simp [target] <;> omega
      | takeFlag =>
          refine ⟨0, 0, rfl, ?_⟩
          unfold step insertStep at collects
          dsimp only at collects
          split_ifs at collects <;> simp [resume, collected] at collects <;> simp [target] <;> omega
      | scan =>
          refine ⟨0, 0, rfl, ?_⟩
          simp [step, insertStep, resume, collected] at collects
          simp [target, ← collects]
      | evict keys evicted =>
          cases keys with
          | nil =>
              exact ⟨evicted, 0, rfl, by simp_all [step, insertStep, resume, collected, target]⟩
          | cons key rest =>
              refine ⟨evicted, rest.length + 1, rfl, ?_⟩
              simp [step, insertStep, resume, collected] at collects
              simp [target, ← collects]
              omega
      | stamp evicted =>
          exact ⟨evicted, 0, rfl, by simp_all [step, insertStep, resume, collected, target]⟩
      | create evicted newAccess =>
          exact ⟨evicted, 0, rfl, by simp_all [step, insertStep, resume, collected, target]⟩
      | store evicted newAccess createdAt =>
          exact ⟨evicted, 0, rfl, by simp_all [step, insertStep, resume, collected, target]⟩
  | remove urlHash => simp [step, collected] at collects
  | removeByPrefix urlPrefix stage =>
      cases stage with
      | scan =>
          refine ⟨0, 0, rfl, ?_⟩
          simp [step, removeByPrefixStep, resume, collected] at collects
          simp [target, ← collects]
      | remove keys count =>
          cases keys with
          | nil =>
              exact ⟨count, 0, rfl,
                by simp_all [step, removeByPrefixStep, resume, collected, target]⟩
          | cons key rest =>
              refine ⟨count, rest.length + 1, rfl, ?_⟩
              simp [step, removeByPrefixStep, resume, collected] at collects
              simp [target, ← collects]
              omega
  | returned answer => exact ⟨total, left, collects, by simp [target]⟩

/-- How many steps a call that has collected its keys still takes to its report. -/
def remaining : Call → Option Nat
  | .insert _ _ _ (.evict keys _) => some (keys.length + 4)
  | .insert _ _ _ (.stamp _) => some 3
  | .insert _ _ _ (.create _ _) => some 2
  | .insert _ _ _ (.store _ _ _) => some 1
  | .removeByPrefix _ (.remove keys _) => some (keys.length + 1)
  | .returned (.inserted _) => some 0
  | .returned (.removedByPrefix _) => some 0
  | _ => none

theorem reported_isSome_iff {call : Call} {left : Nat} (collected : call.remaining = some left) :
    call.reported.isSome ↔ left = 0 := by
  cases call with
  | insert urlHash url html stage =>
      have later : left ≠ 0 := by cases stage <;> cases collected <;> exact Nat.succ_ne_zero _
      exact iff_of_false Bool.false_ne_true later
  | removeByPrefix urlPrefix stage =>
      have later : left ≠ 0 := by
        cases stage with
        | scan => cases collected
        | remove keys count =>
            cases collected
            exact Nat.succ_ne_zero _
      exact iff_of_false Bool.false_ne_true later
  | returned answer => cases answer <;> cases collected <;> exact iff_of_true rfl rfl
  | get urlHash stage => cases collected
  | remove urlHash => cases collected

theorem remaining_step {call : Call} {left : Nat} (collected : call.remaining = some left)
    (cold : ColdCache) (orders : Orders) (now : Nat) :
    (call.step cold orders now).2.remaining = some (left - 1) := by
  cases call with
  | insert urlHash url html stage =>
      cases stage with
      | evict keys evicted => cases keys <;> cases collected <;> rfl
      | _ => cases collected <;> rfl
  | removeByPrefix urlPrefix stage =>
      cases stage with
      | scan => cases collected
      | remove keys count => cases keys <;> cases collected <;> rfl
  | returned answer => cases answer <;> cases collected <;> rfl
  | get urlHash stage => cases collected
  | remove urlHash => cases collected

/-- The call reports no number when it returns. -/
def silent : Call → Bool
  | .get _ _ => true
  | .remove _ => true
  | .returned (.found _) => true
  | .returned (.removed _) => true
  | _ => false

theorem silent_step {call : Call} (silent : call.silent = true) (cold : ColdCache) (orders : Orders)
    (now : Nat) : (call.step cold orders now).2.silent = true := by
  cases call with
  | get urlHash stage =>
      show (resume (cold.getStep urlHash now stage).2 (.get urlHash) .found).silent = true
      cases (cold.getStep urlHash now stage).2 <;> rfl
  | remove urlHash => rfl
  | returned answer => exact silent
  | insert urlHash url html stage => simp [Call.silent] at silent
  | removeByPrefix urlPrefix stage => simp [Call.silent] at silent

theorem reported_of_silent {call : Call} (silent : call.silent = true) : call.reported = none := by
  cases call with
  | returned answer => cases answer <;> simp_all [Call.silent, reported]
  | _ => rfl

theorem remaining_of_silent {call : Call} (silent : call.silent = true) :
    call.remaining = none := by
  cases call with
  | returned answer => cases answer <;> simp_all [Call.silent, remaining]
  | insert urlHash url html stage => simp [Call.silent] at silent
  | removeByPrefix urlPrefix stage => simp [Call.silent] at silent
  | _ => rfl

/-- A call that removes a key has collected it for its report, or reports none. -/
theorem remaining_or_silent {call : Call} {key : UInt64} (targeted : call.target = some key) :
    (∃ left, call.remaining = some left) ∨ call.silent = true := by
  cases call with
  | insert urlHash url html stage =>
      cases stage with
      | evict keys evicted => exact Or.inl ⟨_, rfl⟩
      | _ => simp [target] at targeted
  | removeByPrefix urlPrefix stage =>
      cases stage with
      | scan => simp [target] at targeted
      | remove keys count => exact Or.inl ⟨_, rfl⟩
  | get urlHash stage => exact Or.inr rfl
  | remove urlHash => exact Or.inr rfl
  | returned answer => simp [target] at targeted

end Call

namespace Callers

/-- The number that the call has reported, if it has returned one. -/
def reports (state : Callers) (id : Nat) : Option Nat := (state.calls id).bind Call.reported

/-- Every reported number is that of the entries that this very call took out,
and no sum of reported numbers counts an entry twice: with the entries that are
left it is at most the number of entries ever stored. -/
def TrueReports (state : Callers) : Prop :=
  (∀ id count, state.reports id = some count → state.takings.count id = count) ∧
    ∀ ids : Finset Nat,
      ∑ id ∈ ids, (state.reports id).getD 0 + state.cold.len ≤ state.stores.length

/-- A step that removes a key finds it in the map. -/
def FindsKey (state : Callers) (event : CallEvent) : Prop :=
  ∀ call orders key, event.action = .step orders → state.calls event.id = some call →
    call.target = some key → key ∈ state.cold.cache

/-- The event makes a step of the call. -/
def isStepOf (id : Nat) (event : CallEvent) : Bool :=
  event.id = id && match event.action with
    | .step _ => true
    | .call _ => false

/-- Every call that gets the steps which it needs to report finds each key that
it has collected still in the map, when it removes it. -/
def FindsReportedKeys (state : Callers) (events : List CallEvent) : Prop :=
  ∀ earlier event rest call left, events = earlier ++ event :: rest →
    (Execution.run move state earlier).calls event.id = some call → call.remaining = some left →
      left ≤ (event :: rest).countP (isStepOf event.id) →
        FindsKey (Execution.run move state earlier) event

/-! ### The steps of a call -/

section OneCall

variable {state : Callers} {id : Nat} {call : Call}

theorem calls_move (present : state.calls id = some call) (event : CallEvent) :
    ∃ orders, (state.move event).calls id =
      some (if isStepOf id event then (call.step state.cold orders (state.clock + event.wait)).2
        else call) := by
  rcases state.move_cases event with ⟨idle, same⟩ | ⟨request, calls, unused, began⟩ |
    ⟨other, orders, stepping, otherPresent, stepped⟩
  · have still : isStepOf id event = false := by
      cases action : event.action with
      | call request => simp [isStepOf, action]
      | step orders =>
          have other : event.id ≠ id := fun same => by simp [← same, idle orders action] at present
          simp [isStepOf, other]
    rw [same, still]
    exact ⟨⟨VisitOrder.stored, VisitOrder.stored⟩, present⟩
  · have other : id ≠ event.id := fun same => by simp [same, unused] at present
    have still : isStepOf id event = false := by simp [isStepOf, calls]
    rw [began, still]
    exact ⟨⟨VisitOrder.stored, VisitOrder.stored⟩, (Function.update_of_ne other _ _).trans present⟩
  · refine ⟨orders, ?_⟩
    rw [stepped]
    by_cases same : id = event.id
    · subst same
      obtain rfl := Option.some.inj (present.symm.trans otherPresent)
      have moves : isStepOf event.id event = true := by simp [isStepOf, stepping]
      rw [moves]
      exact Function.update_self _ _ _
    · have still : isStepOf id event = false := by simp [isStepOf, Ne.symm same]
      rw [still]
      exact (Function.update_of_ne same _ _).trans present

/-- The steps that the events give a call bring it that much closer to its report. -/
theorem remaining_run (present : state.calls id = some call) {left : Nat}
    (collected : call.remaining = some left) (events : List CallEvent) :
    ∃ following, (Execution.run move state events).calls id = some following ∧
      following.remaining = some (left - events.countP (isStepOf id)) := by
  induction events generalizing state call left with
  | nil => exact ⟨call, present, collected⟩
  | cons event events inductionHypothesis =>
      obtain ⟨orders, next⟩ := calls_move present event
      have moved : (if isStepOf id event then
          (call.step state.cold orders (state.clock + event.wait)).2 else call).remaining =
            some (left - if isStepOf id event then 1 else 0) := by
        split_ifs
        · exact Call.remaining_step collected _ _ _
        · exact collected
      obtain ⟨following, reached, ahead⟩ := inductionHypothesis next moved
      refine ⟨following, reached, ?_⟩
      rw [ahead, List.countP_cons, Nat.sub_sub, Nat.add_comm]

theorem silent_run (present : state.calls id = some call) (silent : call.silent = true)
    (events : List CallEvent) :
    ∃ following, (Execution.run move state events).calls id = some following ∧
      following.silent = true :=
  Execution.run_invariant_always (fun _ (current : Callers) =>
    ∃ following, current.calls id = some following ∧ following.silent = true)
    ⟨call, present, silent⟩ fun _ current event ⟨following, reached, still⟩ => by
      obtain ⟨orders, next⟩ := calls_move reached event
      refine ⟨_, next, ?_⟩
      split_ifs
      · exact Call.silent_step still _ _ _
      · exact still

/-- A call that is about to remove a key reports, exactly if it gets the steps
that it needs. -/
theorem reports_isSome_iff (present : state.calls id = some call) {key : UInt64}
    (targeted : call.target = some key) (events : List CallEvent) :
    ((Execution.run move state events).reports id).isSome ↔
      ∃ left, call.remaining = some left ∧ left ≤ events.countP (isStepOf id) := by
  rcases Call.remaining_or_silent targeted with ⟨left, collected⟩ | silent
  · obtain ⟨following, reached, ahead⟩ := remaining_run present collected events
    rw [reports, reached, Option.bind_some, Call.reported_isSome_iff ahead, collected]
    simp [Nat.sub_eq_zero_iff_le]
  · obtain ⟨following, reached, still⟩ := silent_run present silent events
    have never : call.remaining = none := Call.remaining_of_silent silent
    simp [reports, reached, Call.reported_of_silent still, never]

end OneCall

/-! ### The accounts of a call -/

section Records

variable {state : Callers} {id other : Nat} {call : Call} {orders : Orders}

/-- What a step adds to the records of the calls. -/
theorem perform_records (state : Callers) (id : Nat) (call : Call) (orders : Orders) (other : Nat) :
    (state.perform id call orders).takings.count other +
        (state.perform id call orders).misses.count other =
      state.takings.count other + state.misses.count other +
        if other = id ∧ call.target.isSome then 1 else 0 := by
  unfold perform
  dsimp only
  cases call.target with
  | none => simp
  | some key =>
      by_cases same : other = id
      · subst same
        by_cases present : key ∈ state.cold.cache
        · simp [present]
          omega
        · simp [present]
          omega
      · have different : ¬ id = other := fun equal => same equal.symm
        by_cases present : key ∈ state.cold.cache <;> simp [present, same, different]

end Records

/-- What a call has taken out, what it has missed and what it has left to remove
are together what it has collected. -/
structure Balanced (state : Callers) : Prop where
  unused : ∀ id, state.calls id = none → state.takings.count id + state.misses.count id = 0
  settled : ∀ id call total left, state.calls id = some call →
    call.collected = some (total, left) →
      state.takings.count id + state.misses.count id + left = total

/-- No more entries have been taken out or are left than were stored. -/
def Conserved (state : Callers) : Prop :=
  state.takings.length + state.cold.len ≤ state.stores.length

section Steps

variable {state : Callers} {event : CallEvent}

theorem Balanced.move (balanced : Balanced state) (event : CallEvent) :
    Balanced (state.move event) := by
  rcases state.move_cases event with ⟨idle, same⟩ | ⟨request, _, unused, began⟩ |
    ⟨call, orders, _, present, stepped⟩
  · rw [same]
    exact ⟨balanced.unused, balanced.settled⟩
  · rw [began]
    constructor
    · intro id absent
      by_cases same : id = event.id
      · simp [same] at absent
      · exact balanced.unused id (by simpa [same] using absent)
    · intro id call total left found collects
      by_cases same : id = event.id
      · subst same
        have entered : request.entry = call := by simpa using found
        rw [← entered] at collects
        have zeros := Call.collected_entry request collects
        have nothing := balanced.unused event.id unused
        show state.takings.count event.id + state.misses.count event.id + left = total
        omega
      · exact balanced.settled id call total left (by simpa [same] using found) collects
  · rw [stepped]
    constructor
    · intro id absent
      have different : id ≠ event.id := fun same => by
        simp [perform, same] at absent
      have before := balanced.unused id (by simpa [perform, different] using absent)
      have recorded := perform_records (state.later event.wait) event.id call orders id
      rw [if_neg (fun both => different both.1)] at recorded
      exact recorded.trans before
    · intro id current total left found collects
      have recorded := perform_records (state.later event.wait) event.id call orders id
      by_cases same : id = event.id
      · subst same
        have entered : (call.step state.cold orders (state.clock + event.wait)).2 = current := by
          simpa [perform] using found
        rw [← entered] at collects
        obtain ⟨totalBefore, leftBefore, collected, exchanged⟩ := Call.collected_step collects
        have before := balanced.settled event.id call totalBefore leftBefore present collected
        simp only [later_takings, later_misses, true_and] at recorded
        omega
      · have before := balanced.settled id current total left
          (by simpa [perform, same] using found) collects
        rw [if_neg (fun both => same both.1), later_takings, later_misses] at recorded
        omega

theorem Conserved.move (conserved : Conserved state) (event : CallEvent) :
    Conserved (state.move event) := by
  rcases state.move_cases event with ⟨idle, same⟩ | ⟨request, _, _, began⟩ |
    ⟨call, orders, _, _, stepped⟩
  · rw [same]
    exact conserved
  · rw [began]
    exact conserved
  · rw [stepped]
    unfold Conserved at conserved ⊢
    have changed := call.step_change state.cold orders (state.clock + event.wait)
    unfold perform
    show _ + HashMap.len (call.step state.cold orders (state.clock + event.wait)).1.cache ≤ _
    generalize (call.step state.cold orders (state.clock + event.wait)).1.cache = cache at changed
    cases changed with
    | keeps noTarget noStore =>
        rw [noTarget, noStore]
        exact conserved
    | @touches key entry lastAccess noTarget noStore found =>
        have member : key ∈ state.cold.cache := AList.lookup_isSome.mp (by simp [found])
        rw [noTarget, noStore, HashMap.len_insert_of_mem member]
        exact conserved
    | @erases key targeted noStore =>
        rw [targeted, noStore]
        by_cases present : key ∈ state.cold.cache
        · have fewer := HashMap.len_erase_of_mem present
          simp only [later_cold, later_takings, later_stores, present, if_true, List.length_cons]
          unfold ColdCache.len at conserved
          omega
        · simp only [later_cold, later_takings, later_stores, present, if_false,
            HashMap.len_erase_of_notMem present]
          exact conserved
    | stores store url lastAccess noTarget stored =>
        rw [noTarget, stored]
        have more := HashMap.len_insert state.cold.cache store.urlHash
          ⟨url, store.html, lastAccess, store.createdAt⟩
        have fewer := HashMap.len_erase_le state.cold.cache store.urlHash
        simp only [later_takings, later_stores, List.length_cons]
        unfold ColdCache.len at conserved
        omega

/-- A step that finds no key to remove is recorded. -/
theorem mem_misses_move_iff {id : Nat} :
    id ∈ (state.move event).misses ↔
      id ∈ state.misses ∨ (id = event.id ∧ ¬ FindsKey state event) := by
  rcases state.move_cases event with ⟨idle, same⟩ | ⟨request, calls, unused, began⟩ |
    ⟨call, orders, steps, present, stepped⟩
  · have finds : FindsKey state event := fun call orders key steps present => by
      simp [idle orders steps] at present
    rw [same]
    simp [finds]
  · have finds : FindsKey state event := fun call orders key steps => by simp [calls] at steps
    rw [began]
    simp [finds]
  · have finds_iff : FindsKey state event ↔ ∀ key, call.target = some key →
        key ∈ state.cold.cache := by
      constructor
      · exact fun finds key => finds call orders key steps present
      · intro finds other otherOrders key _ otherPresent
        obtain rfl := Option.some.inj (present.symm.trans otherPresent)
        exact finds key
    rw [stepped, finds_iff]
    unfold perform
    cases targeted : call.target with
    | none => simp
    | some key =>
        by_cases found : key ∈ state.cold.cache
        · simp [found]
        · simp [found, or_comm]

end Steps

/-! ### Whole runs -/

section Runs

variable {maxEntries ttlSecs : Nat} {events : List CallEvent}

theorem balanced_run (maxEntries ttlSecs : Nat) (events : List CallEvent) :
    Balanced (Execution.run move (new maxEntries ttlSecs) events) :=
  Execution.run_invariant_always (fun _ state => Balanced state)
    ⟨fun _ _ => rfl, fun _ _ _ _ absent => by simp [new] at absent⟩
    fun _ _ event balanced => balanced.move event

theorem conserved_run (maxEntries ttlSecs : Nat) (events : List CallEvent) :
    Conserved (Execution.run move (new maxEntries ttlSecs) events) :=
  Execution.run_invariant_always (fun _ state => Conserved state) (Nat.le_refl 0)
    fun _ _ event conserved => conserved.move event

/-- The calls of a kind miss no key, exactly if each of their removals finds it. -/
theorem noMisses_iff (kind : Nat → Prop) (state : Callers) (events : List CallEvent) :
    (∀ id, kind id → id ∉ (Execution.run move state events).misses) ↔
      (∀ id, kind id → id ∉ state.misses) ∧
        Execution.Guarded move (fun current event => kind event.id → FindsKey current event) state
          events := by
  induction events generalizing state with
  | nil => exact (and_iff_left (Execution.guarded_nil _ state)).symm
  | cons event events inductionHypothesis =>
      have first : (∀ id, kind id → id ∉ (state.move event).misses) ↔
          (∀ id, kind id → id ∉ state.misses) ∧ (kind event.id → FindsKey state event) := by
        simp only [mem_misses_move_iff, not_or, not_and, not_not]
        constructor
        · exact fun missed => ⟨fun id ofKind => (missed id ofKind).1,
            fun ofKind => (missed event.id ofKind).2 rfl⟩
        · exact fun both id ofKind => ⟨both.1 id ofKind, fun same => both.2 (same ▸ ofKind)⟩
      show (∀ id, kind id → id ∉ (Execution.run move (state.move event) events).misses) ↔ _
      rw [inductionHypothesis, first, Execution.guarded_cons_iff, and_assoc]

theorem reported_balance {id count : Nat}
    (reports : (Execution.run move (new maxEntries ttlSecs) events).reports id = some count) :
    (Execution.run move (new maxEntries ttlSecs) events).takings.count id +
      (Execution.run move (new maxEntries ttlSecs) events).misses.count id = count := by
  obtain ⟨call, present, reported⟩ := Option.bind_eq_some_iff.mp reports
  exact (balanced_run maxEntries ttlSecs events).settled id call count 0 present
    (Call.collected_of_reported reported)

/-- The sum of true reports, with the entries left, is at most the stores. -/
theorem sum_reports_le
    (counted : ∀ id count, (Execution.run move (new maxEntries ttlSecs) events).reports id =
      some count → (Execution.run move (new maxEntries ttlSecs) events).takings.count id = count)
    (ids : Finset Nat) :
    ∑ id ∈ ids, ((Execution.run move (new maxEntries ttlSecs) events).reports id).getD 0 +
        (Execution.run move (new maxEntries ttlSecs) events).cold.len ≤
      (Execution.run move (new maxEntries ttlSecs) events).stores.length := by
  have conserved := conserved_run maxEntries ttlSecs events
  set final := Execution.run move (new maxEntries ttlSecs) events
  have each : ∀ id ∈ ids, (final.reports id).getD 0 ≤ final.takings.count id := by
    intro id _
    cases reports : final.reports id with
    | none => exact Nat.zero_le _
    | some count => exact Nat.le_of_eq (counted id count reports).symm
  have summed := Finset.sum_le_sum each
  have taken := Tally.sum_count_le_length ids final.takings
  unfold Conserved at conserved
  omega

/-- The calls that have reported found their keys, exactly if those did that get
the steps which they need. -/
theorem findsReportedKeys_iff (state : Callers) (events : List CallEvent) :
    Execution.Guarded move (fun current event =>
        ((Execution.run move state events).reports event.id).isSome → FindsKey current event) state
          events ↔
      FindsReportedKeys state events := by
  constructor
  · intro guarded earlier event rest call left split present collected enough stepping orders key
      steps again targeted
    obtain rfl := Option.some.inj (present.symm.trans again)
    have reports := (reports_isSome_iff present targeted (event :: rest)).mpr
      ⟨left, collected, enough⟩
    rw [← Execution.run_append, ← split] at reports
    exact guarded earlier event rest split reports call orders key steps again targeted
  · intro finds earlier event rest split reports call orders key steps present targeted
    rw [split, Execution.run_append, reports_isSome_iff present targeted] at reports
    obtain ⟨left, collected, enough⟩ := reports
    exact finds earlier event rest call left split present collected enough call orders key steps
      present targeted

/-- **In every interleaving, all reported numbers are true exactly if every call
found each key that it collected still in the map when it removed it, unless the
run ends before the call reports.** -/
theorem trueReports_iff (maxEntries ttlSecs : Nat) (events : List CallEvent) :
    TrueReports (Execution.run move (new maxEntries ttlSecs) events) ↔
      FindsReportedKeys (new maxEntries ttlSecs) events := by
  have misses := noMisses_iff
    (fun id => ((Execution.run move (new maxEntries ttlSecs) events).reports id).isSome)
    (new maxEntries ttlSecs) events
  have noneAtStart : ∀ id : Nat,
      ((Execution.run move (new maxEntries ttlSecs) events).reports id).isSome →
        id ∉ (new maxEntries ttlSecs).misses := fun _ _ => List.not_mem_nil
  rw [and_iff_right noneAtStart] at misses
  rw [← findsReportedKeys_iff, ← misses]
  constructor
  · intro trueReports id returned
    obtain ⟨count, reports⟩ := Option.isSome_iff_exists.mp returned
    have balance := reported_balance reports
    have counted := trueReports.1 id count reports
    exact List.count_eq_zero.mp (by omega)
  · intro noMisses
    have counted : ∀ id count,
        (Execution.run move (new maxEntries ttlSecs) events).reports id = some count →
          (Execution.run move (new maxEntries ttlSecs) events).takings.count id = count := by
      intro id count reports
      have balance := reported_balance reports
      have missed := List.count_eq_zero.mpr
        (noMisses id (Option.isSome_iff_exists.mpr ⟨count, reports⟩))
      omega
    exact ⟨counted, sum_reports_le counted⟩

end Runs

/-- One page, and two overlapping removals of its prefix. -/
def overlappingRemovals : List CallEvent :=
  let orders : Orders := ⟨VisitOrder.stored, VisitOrder.stored⟩
  [⟨0, 0, .call (.insert 1 "/a" "page")⟩, ⟨0, 0, .step orders⟩, ⟨0, 0, .step orders⟩,
    ⟨0, 0, .step orders⟩, ⟨0, 0, .step orders⟩, ⟨1, 0, .call (.removeByPrefix "/")⟩,
    ⟨2, 0, .call (.removeByPrefix "/")⟩, ⟨1, 0, .step orders⟩, ⟨2, 0, .step orders⟩,
    ⟨1, 0, .step orders⟩, ⟨2, 0, .step orders⟩, ⟨1, 0, .step orders⟩, ⟨2, 0, .step orders⟩]

/-- Both removals report one entry, and only one was ever stored. -/
theorem counts_one_entry_twice :
    ¬ ∀ maxEntries ttlSecs events, 1 ≤ maxEntries →
      TrueReports (Execution.run move (new maxEntries ttlSecs) events) := by
  intro reports
  have sum := (reports 4 0 overlappingRemovals (by decide)).2 {1, 2}
  revert sum
  decide

end Callers

end RustySsr.Cache.ColdCache
