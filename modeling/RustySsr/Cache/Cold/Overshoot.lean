import RustySsr.Cache.Cold.Steps
import RustySsr.Cache.Cold.Victims
import RustySsr.Foundation.Census
import RustySsr.Foundation.Execution

/-!
Owns how far threads that insert at the same time take the cold cache over its
maximum. An insertion that finds the cache full and the flag free removes an
entry before it stores its own; one that finds the flag taken stores without an
eviction. `overshoot_le` bounds the entries by the threads and by the insertions
of the second kind, which no number of threads bounds.
-/

namespace RustySsr.Cache.ColdCache

open RustySsr.Platform
open RustySsr.Foundation
open RustySsr.Foundation.Staged

/-! ### Threads that insert -/

/-- A call of `insert` that has not returned. -/
structure InsertCall where
  urlHash : UInt64
  url : String
  html : String
  stage : InsertStage

/-- A cold cache and the threads that insert into it, each between calls or
inside one. -/
structure Inserters (threads : Nat) where
  cold : ColdCache
  calls : Fin threads → Option InsertCall

inductive InserterMove where
  | call (urlHash : UInt64) (url html : String)
  | step (orders : Orders) (now : Nat)

structure InserterEvent (threads : Nat) where
  thread : Fin threads
  move : InserterMove

namespace Inserters

variable {threads : Nat}

def new (threads maxEntries ttlSecs : Nat) : Inserters threads where
  cold := withTtl maxEntries ttlSecs
  calls := fun _ => none

/-- The call after a step, unless the step returned. -/
def resumed (call : InsertCall) : Outcome InsertStage Nat → Option InsertCall
  | .continues next => some { call with stage := next }
  | .returns _ => none

/-- One thread begins a call, or makes the next step of its call. -/
def move (state : Inserters threads) (event : InserterEvent threads) : Inserters threads :=
  match state.calls event.thread, event.move with
  | none, .call urlHash url html =>
      { state with
        calls := Function.update state.calls event.thread
          (some ⟨urlHash, url, html, .checkLength⟩) }
  | some call, .step orders now =>
      let stepped := state.cold.insertStep orders call.urlHash call.url call.html now call.stage
      { cold := stepped.1
        calls := Function.update state.calls event.thread (resumed call stepped.2) }
  | none, .step _ _ => state
  | some _, .call _ _ _ => state

/-- The event is an insertion that finds the flag taken and skips the eviction. -/
def skips (state : Inserters threads) (event : InserterEvent threads) : List (Fin threads) :=
  match state.calls event.thread, event.move with
  | some call, .step _ _ =>
      if call.stage = .takeFlag ∧ state.cold.evicting = true then [event.thread] else []
  | _, _ => []

/-- Everything an event can do: nothing, begin a call, or make a step of one. -/
theorem move_cases (state : Inserters threads) (event : InserterEvent threads) :
    (state.move event = state ∧ state.skips event = []) ∨
      (∃ urlHash url html, state.calls event.thread = none ∧
        state.move event =
          { state with
            calls := Function.update state.calls event.thread
              (some ⟨urlHash, url, html, .checkLength⟩) } ∧
        state.skips event = []) ∨
      ∃ call orders now, state.calls event.thread = some call ∧
        state.move event =
          { cold := (state.cold.insertStep orders call.urlHash call.url call.html now
              call.stage).1
            calls := Function.update state.calls event.thread
              (resumed call (state.cold.insertStep orders call.urlHash call.url call.html now
                call.stage).2) } ∧
        state.skips event =
          if call.stage = .takeFlag ∧ state.cold.evicting = true then [event.thread] else [] := by
  obtain ⟨thread, choice⟩ := event
  unfold move skips
  dsimp only
  cases state.calls thread with
  | none =>
      cases choice with
      | call urlHash url html => exact Or.inr (Or.inl ⟨urlHash, url, html, rfl, rfl, rfl⟩)
      | step orders now => exact Or.inl ⟨rfl, rfl⟩
  | some call =>
      cases choice with
      | call urlHash url html => exact Or.inl ⟨rfl, rfl⟩
      | step orders now => exact Or.inr (Or.inr ⟨call, orders, now, rfl, rfl, rfl⟩)

/-! ### One thread evicts at a time -/

/-- The thread of this call holds the eviction flag. -/
def evicts : InsertStage → Bool
  | .scan => true
  | .evict _ _ => true
  | _ => false

/-- The flag is held by at most one thread, and what that thread has left to
remove is in the map. -/
structure OneEvictor (state : Inserters threads) : Prop where
  flagged : ∀ {thread call}, state.calls thread = some call → evicts call.stage = true →
    state.cold.evicting = true
  alone : ∀ {first second firstCall secondCall}, state.calls first = some firstCall →
    state.calls second = some secondCall → evicts firstCall.stage = true →
      evicts secondCall.stage = true → first = second
  removable : ∀ {thread call keys evicted}, state.calls thread = some call →
    call.stage = .evict keys evicted → keys.Nodup ∧ ∀ key ∈ keys, key ∈ state.cold.cache

theorem oneEvictor_new (threads maxEntries ttlSecs : Nat) :
    OneEvictor (new threads maxEntries ttlSecs) where
  flagged := fun called => absurd called (by simp [new])
  alone := fun called => absurd called (by simp [new])
  removable := fun called => absurd called (by simp [new])

/-- One thread moves: what the thread inside an eviction relies on is kept for it,
and the moved thread relies on nothing that does not hold. -/
theorem OneEvictor.update {state : Inserters threads} (one : OneEvictor state)
    {thread : Fin threads} {cold : ColdCache} {next : Option InsertCall}
    (others : ∀ other call, other ≠ thread → state.calls other = some call →
      evicts call.stage = true → cold.evicting = true ∧
        (∀ key, key ∈ state.cold.cache → key ∈ cold.cache) ∧
        ∀ own, next = some own → evicts own.stage = false)
    (own : ∀ call, next = some call → evicts call.stage = true → cold.evicting = true)
    (ownKeys : ∀ call keys evicted, next = some call → call.stage = .evict keys evicted →
      keys.Nodup ∧ ∀ key ∈ keys, key ∈ cold.cache) :
    OneEvictor ⟨cold, Function.update state.calls thread next⟩ where
  flagged := fun {mover call} called holds => by
    by_cases same : mover = thread
    · subst same
      exact own call (by simpa using called) holds
    · exact (others mover call same (by simpa [same] using called) holds).1
  alone := fun {first second firstCall secondCall} firstCalled secondCalled firstHolds
      secondHolds => by
    by_cases firstMoved : first = thread <;> by_cases secondMoved : second = thread
    · rw [firstMoved, secondMoved]
    · subst firstMoved
      have idle := (others second secondCall secondMoved (by simpa [secondMoved] using secondCalled)
        secondHolds).2.2 firstCall (by simpa using firstCalled)
      rw [idle] at firstHolds
      contradiction
    · subst secondMoved
      have idle := (others first firstCall firstMoved (by simpa [firstMoved] using firstCalled)
        firstHolds).2.2 secondCall (by simpa using secondCalled)
      rw [idle] at secondHolds
      contradiction
    · exact one.alone (by simpa [firstMoved] using firstCalled)
        (by simpa [secondMoved] using secondCalled) firstHolds secondHolds
  removable := fun {mover call keys evicted} called stage => by
    by_cases same : mover = thread
    · subst same
      exact ownKeys call keys evicted (by simpa using called) stage
    · have older : state.calls mover = some call := by simpa [same] using called
      obtain ⟨nodup, present⟩ := one.removable older stage
      have kept := (others mover call same older (by rw [stage]; rfl)).2.1
      exact ⟨nodup, fun key member => kept key (present key member)⟩

/-- The thread moves to or stays at a stage outside an eviction. -/
theorem OneEvictor.outside {state : Inserters threads} (one : OneEvictor state)
    (thread : Fin threads) {cold : ColdCache} {next : Option InsertCall}
    (flag : cold.evicting = state.cold.evicting)
    (keeps : ∀ key, key ∈ state.cold.cache → key ∈ cold.cache)
    (idle : ∀ call, next = some call → evicts call.stage = false) :
    OneEvictor ⟨cold, Function.update state.calls thread next⟩ := by
  refine one.update (fun other call _ called holds => ?_) (fun call moved holds => ?_) ?_
  · exact ⟨flag.trans (one.flagged called holds), keeps, idle⟩
  · rw [idle call moved] at holds
    contradiction
  · intro call keys evicted moved stage
    have notIdle := idle call moved
    rw [stage] at notIdle
    contradiction

/-- While no other thread evicts, one thread may. -/
theorem OneEvictor.inside {state : Inserters threads} (one : OneEvictor state)
    {thread : Fin threads} {cold : ColdCache} {call : InsertCall}
    (quiet : ∀ other call, other ≠ thread → state.calls other = some call →
      evicts call.stage = false)
    (flagged : evicts call.stage = true → cold.evicting = true)
    (removable : ∀ keys evicted, call.stage = .evict keys evicted →
      keys.Nodup ∧ ∀ key ∈ keys, key ∈ cold.cache) :
    OneEvictor ⟨cold, Function.update state.calls thread (some call)⟩ := by
  refine one.update (fun other otherCall different called holds => ?_) ?_ ?_
  · rw [quiet other otherCall different called] at holds
    contradiction
  · rintro _ moved
    obtain rfl := Option.some.inj moved
    exact flagged
  · rintro _ keys evicted moved
    obtain rfl := Option.some.inj moved
    exact removable keys evicted

/-- While a thread evicts, the others do not. -/
theorem OneEvictor.quiet {state : Inserters threads} (one : OneEvictor state)
    {thread : Fin threads} {call : InsertCall} (called : state.calls thread = some call)
    (holds : evicts call.stage = true) (other : Fin threads) (otherCall : InsertCall)
    (different : other ≠ thread) (otherCalled : state.calls other = some otherCall) :
    evicts otherCall.stage = false := by
  by_contra alsoHolds
  exact different (one.alone otherCalled called (Bool.not_eq_false _ ▸ alsoHolds) holds)

/-- The candidates of a scan, in any order, are distinct keys of the map. -/
theorem visited_victims_keys (cold : ColdCache) (orders : Orders) :
    ((orders.heap.visit (cold.victims orders.scan)).map Prod.snd).Nodup ∧
      ∀ key ∈ (orders.heap.visit (cold.victims orders.scan)).map Prod.snd, key ∈ cold.cache := by
  obtain ⟨nodup, present⟩ := cold.victims_keys orders.scan
  have visited := (orders.heap.perm (cold.victims orders.scan)).map Prod.snd
  exact ⟨visited.nodup_iff.mpr nodup, fun key member => present key (visited.mem_iff.mp member)⟩

/-- Every event keeps the evictor alone. -/
theorem OneEvictor.move {state : Inserters threads} (one : OneEvictor state)
    (event : InserterEvent threads) : OneEvictor (state.move event) := by
  rcases state.move_cases event with ⟨moved, _⟩ | ⟨urlHash, url, html, _, moved, _⟩ |
    ⟨call, orders, now, called, moved, _⟩
  · rwa [moved]
  · rw [moved]
    exact one.outside _ rfl (fun _ member => member) fun call begun => by
      rw [← Option.some.inj begun]
      rfl
  · rw [moved]
    obtain ⟨urlHash, url, html, stage⟩ := call
    cases stage with
    | checkLength =>
        refine one.outside _ rfl (fun _ member => member) fun call resumed => ?_
        rw [← Option.some.inj resumed]
        show evicts (if _ then _ else _) = false
        split_ifs <;> rfl
    | takeFlag =>
        unfold insertStep
        dsimp only
        split_ifs with taken
        · refine one.outside _ rfl (fun _ member => member) fun call resumed => ?_
          rw [← Option.some.inj resumed]
          rfl
        · refine one.inside (fun other call _ otherCalled => ?_) (fun _ => rfl) ?_
          · by_contra holds
            exact taken (one.flagged otherCalled (Bool.not_eq_false _ ▸ holds))
          · intro keys evicted stage
            contradiction
    | scan =>
        refine one.inside (one.quiet called rfl) (fun _ => one.flagged called rfl) ?_
        intro keys evicted stage
        obtain ⟨rfl, _⟩ := InsertStage.evict.inj stage
        exact visited_victims_keys state.cold orders
    | evict keys evicted =>
        obtain ⟨nodup, present⟩ := one.removable called rfl
        cases keys with
        | nil =>
            refine one.inside (one.quiet called rfl) (fun holds => ?_) ?_
            · contradiction
            · intro keys evicted stage
              contradiction
        | cons key rest =>
            obtain ⟨fresh, restNodup⟩ := List.nodup_cons.mp nodup
            refine one.inside (one.quiet called rfl) (fun _ => one.flagged called rfl) ?_
            intro keys evicted stage
            obtain ⟨rfl, _⟩ := InsertStage.evict.inj stage
            refine ⟨restNodup, fun other member => AList.mem_erase.mpr ⟨?_, ?_⟩⟩
            · exact fun same => fresh (same ▸ member)
            · exact present other (List.mem_cons_of_mem _ member)
    | stamp evicted =>
        refine one.outside _ rfl (fun _ member => member) fun call resumed => ?_
        rw [← Option.some.inj resumed]
        rfl
    | create evicted newAccess =>
        refine one.outside _ rfl (fun _ member => member) fun call resumed => ?_
        rw [← Option.some.inj resumed]
        rfl
    | store evicted newAccess createdAt =>
        refine one.outside _ rfl (fun key member => ?_) fun call resumed => ?_
        · exact (AList.mem_insert _).mpr (Or.inr member)
        · contradiction

/-! ### What an insertion may still add -/

/-- One for a call that will store its page without removing an entry before. -/
def pending : InsertStage → Nat
  | .evict [] _ => 1
  | .stamp _ => 1
  | .create _ _ => 1
  | .store _ _ _ => 1
  | _ => 0

def pendingCall : Option InsertCall → Nat
  | some call => pending call.stage
  | none => 0

theorem pendingCall_le_one : ∀ call : Option InsertCall, pendingCall call ≤ 1
  | none => Nat.zero_le _
  | some ⟨_, _, _, stage⟩ => by
      show pending stage ≤ 1
      unfold pending
      split <;> decide

/-- A step of an insertion moves what is pending into the map. Only a skipped
eviction adds to the two together, unless there is room below the maximum. -/
theorem pending_insertStep {cold : ColdCache} (call : InsertCall) (orders : Orders) (now : Nat)
    (positive : 1 ≤ cold.maxEntries)
    (present : ∀ keys evicted, call.stage = .evict keys evicted → ∀ key ∈ keys, key ∈ cold.cache) :
    (cold.insertStep orders call.urlHash call.url call.html now call.stage).1.len <
        cold.maxEntries ∨
      (cold.insertStep orders call.urlHash call.url call.html now call.stage).1.len +
          pendingCall (resumed call
            (cold.insertStep orders call.urlHash call.url call.html now call.stage).2) ≤
        cold.len + pending call.stage +
          if call.stage = .takeFlag ∧ cold.evicting = true then 1 else 0 := by
  obtain ⟨urlHash, url, html, stage⟩ := call
  cases stage with
  | checkLength =>
      show cold.len < cold.maxEntries ∨ cold.len + pending (if _ then _ else _) ≤ _
      by_cases full : cold.maxEntries ≤ cold.cache.len
      · rw [if_pos full]
        exact Or.inr (Nat.le_add_right _ _)
      · exact Or.inl (Nat.lt_of_not_le full)
  | takeFlag =>
      refine Or.inr ?_
      unfold insertStep
      cases taken : cold.evicting with
      | true => exact Nat.le_of_eq (by simp [resumed, pendingCall, pending])
      | false => exact Nat.le_of_eq (by simp [resumed, pendingCall, pending, len])
  | scan =>
      by_cases full : cold.maxEntries ≤ cold.cache.len
      · have chosen : 0 < (cold.victims orders.scan).length := by
          have batch : evictBatchMin ≤ batchSize cold.maxEntries := Nat.le_max_right _ _
          have pairs : cold.cache.pairs.length = cold.cache.len := List.length_map _
          rw [(cold.victims_selects orders.scan).length, List.length_map, pairs]
          unfold evictBatchMin at batch
          omega
        rw [← (orders.heap.perm _).length_eq] at chosen
        obtain ⟨victim, rest, visited⟩ := List.exists_cons_of_length_pos chosen
        refine Or.inr ?_
        unfold insertStep
        dsimp only
        rw [visited]
        exact Nat.le_refl _
      · exact Or.inl (Nat.lt_of_not_le full)
  | evict keys evicted =>
      refine Or.inr ?_
      cases keys with
      | nil => exact Nat.le_refl _
      | cons key rest =>
          have removed := HashMap.len_erase_of_mem (present _ _ rfl key List.mem_cons_self)
          have light := pendingCall_le_one (some ⟨urlHash, url, html, .evict rest evicted⟩)
          show HashMap.len (AList.erase key cold.cache) +
            pendingCall (some ⟨urlHash, url, html, .evict rest evicted⟩) ≤ cold.cache.len + 0 + 0
          omega
  | stamp evicted => exact Or.inr (Nat.le_refl _)
  | create evicted newAccess => exact Or.inr (Nat.le_refl _)
  | store evicted newAccess createdAt =>
      refine Or.inr ?_
      have stored := HashMap.len_insert cold.cache urlHash ⟨url, html, newAccess, createdAt⟩
      have fewer := HashMap.len_erase_le cold.cache urlHash
      show HashMap.len (AList.insert urlHash ⟨url, html, newAccess, createdAt⟩ cold.cache) + 0 ≤
        cold.cache.len + 1 + 0
      omega

/-- The entries and what is pending. -/
def potential (state : Inserters threads) : Nat := state.cold.len + census pendingCall state.calls

/-- An event adds to the potential only a skipped eviction, unless it leaves room. -/
theorem potential_move {state : Inserters threads} (one : OneEvictor state)
    (positive : 1 ≤ state.cold.maxEntries) (event : InserterEvent threads) :
    (state.move event).cold.len < state.cold.maxEntries ∨
      (state.move event).potential ≤ state.potential + (state.skips event).length := by
  rcases state.move_cases event with ⟨moved, skipped⟩ | ⟨urlHash, url, html, idle, moved, skipped⟩ |
    ⟨call, orders, now, called, moved, skipped⟩
  · rw [moved, skipped]
    exact Or.inr (Nat.le_refl _)
  · rw [moved, skipped]
    have exchanged := census_update pendingCall state.calls event.thread
      (some ⟨urlHash, url, html, .checkLength⟩)
    rw [idle] at exchanged
    exact Or.inr (Nat.add_le_add_left (Nat.le_of_eq exchanged) _)
  · have stepped := pending_insertStep call orders now positive
      fun keys evicted stage => (one.removable called stage).2
    have exchanged := census_update pendingCall state.calls event.thread
      (resumed call (state.cold.insertStep orders call.urlHash call.url call.html now
        call.stage).2)
    rw [called] at exchanged
    rw [moved, skipped]
    refine stepped.imp id fun bound => ?_
    have weight : pendingCall (some call) = pending call.stage := rfl
    rw [apply_ite List.length, List.length_singleton, List.length_nil]
    unfold potential
    dsimp only
    omega

/-! ### Every run -/

theorem maxEntries_move (state : Inserters threads) (event : InserterEvent threads) :
    (state.move event).cold.maxEntries = state.cold.maxEntries := by
  rcases state.move_cases event with ⟨moved, _⟩ | ⟨_, _, _, _, moved, _⟩ |
    ⟨call, orders, now, _, moved, _⟩
  · rw [moved]
  · rw [moved]
  · rw [moved]
    dsimp only
    unfold insertStep
    split
    · rfl
    · split_ifs <;> rfl
    all_goals rfl

theorem maxEntries_run (state : Inserters threads) (events : List (InserterEvent threads)) :
    (Execution.run move state events).cold.maxEntries = state.cold.maxEntries :=
  Execution.run_invariant_always
    (fun _ (current : Inserters threads) => current.cold.maxEntries = state.cold.maxEntries) rfl
    fun _ current event same => (current.maxEntries_move event).trans same

theorem OneEvictor.run {state : Inserters threads} (one : OneEvictor state)
    (events : List (InserterEvent threads)) :
    OneEvictor (Execution.run Inserters.move state events) :=
  Execution.run_invariant_always (fun _ current => OneEvictor current) one
    fun _ _ event current => current.move event

/-- The threads that skip an eviction in the events, in order. -/
def skipped (state : Inserters threads) (events : List (InserterEvent threads)) :
    List (Fin threads) :=
  Execution.trace move skips state events

/-- From a state with room below the maximum the potential grows by the threads
and the skipped evictions. -/
theorem potential_run {state : Inserters threads} (one : OneEvictor state)
    (room : state.cold.len < state.cold.maxEntries) (events : List (InserterEvent threads)) :
    (Execution.run move state events).potential <
      state.cold.maxEntries + threads + (skipped state events).length := by
  have pendingBound : ∀ current : Inserters threads, current.cold.len < state.cold.maxEntries →
      current.potential < state.cold.maxEntries + threads := by
    intro current below
    have light := census_le_card pendingCall_le_one current.calls
    rw [Fintype.card_fin] at light
    exact Nat.add_lt_add_of_lt_of_le below light
  induction events using List.reverseRecOn with
  | nil => exact pendingBound state room
  | append_singleton events event inductionHypothesis =>
      have sameMax := maxEntries_run state events
      have positive : 1 ≤ (Execution.run move state events).cold.maxEntries := by omega
      rw [Execution.run_snoc, skipped, Execution.trace_snoc, List.length_append, ← skipped]
      rcases potential_move (one.run events) positive event with below | grown
      · have bound := pendingBound _ (sameMax ▸ below)
        omega
      · omega

/-- **Threads and skipped evictions bound the overshoot.** Whenever the cache held
fewer entries than its maximum, it exceeds the maximum since then by at most the
threads and the insertions that found the eviction flag taken. -/
theorem overshoot_le {threads maxEntries ttlSecs : Nat}
    {earlier : List (InserterEvent threads)}
    (room : (Execution.run move (new threads maxEntries ttlSecs) earlier).cold.len < maxEntries)
    (later : List (InserterEvent threads)) :
    (Execution.run move (new threads maxEntries ttlSecs) (earlier ++ later)).cold.len ≤
      maxEntries + threads +
        (skipped (Execution.run move (new threads maxEntries ttlSecs) earlier) later).length := by
  have one := (oneEvictor_new threads maxEntries ttlSecs).run earlier
  have sameMax := maxEntries_run (new threads maxEntries ttlSecs) earlier
  have bound := potential_run one (sameMax.symm ▸ room) later
  rw [← Execution.run_append, sameMax] at bound
  exact (Nat.le_add_right _ _).trans bound.le

/-- The first thread fills the cache and stops with the eviction flag in its
hands, while the second inserts three pages. -/
def skippingRun : List (InserterEvent 2) :=
  let step : InserterMove := .step ⟨VisitOrder.stored, VisitOrder.stored⟩ 0
  let first (moves : List InserterMove) := moves.map fun move => InserterEvent.mk 0 move
  let second (moves : List InserterMove) := moves.map fun move => InserterEvent.mk 1 move
  first [.call 1 "/a" "page", step, step, step, step, .call 2 "/b" "page", step, step] ++
    second [.call 3 "/c" "page", step, step, step, step, step, .call 4 "/d" "page", step, step,
      step, step, step, .call 5 "/e" "page", step, step, step, step, step]

theorem overshoot_le_skippingRun :
    (Execution.run move (new 2 1 0) ([] ++ skippingRun)).cold.len ≤
      1 + 2 + (skipped (new 2 1 0) skippingRun).length :=
  overshoot_le (by decide) skippingRun

/-- The threads alone do not bound the overshoot. -/
theorem overshoots_threads :
    ¬ (Execution.run move (new 2 1 0) skippingRun).cold.len ≤ 1 + 2 := by
  decide +kernel

end Inserters

end RustySsr.Cache.ColdCache
