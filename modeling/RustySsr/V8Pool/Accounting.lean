import RustySsr.V8Pool.Soundness

/-!
Owns the account of the pool's requests: in every state that any interleaving
of callers, workers and the drop of the pool can reach, each accepted request
is in exactly one place, is rendered at most once, and its result goes to the
call that made it. The facts are read off the ledger of the state.
-/

namespace RustySsr.V8Pool.Pool

open RustySsr.Foundation

variable {n : Nat}

/-- A place in the pool, down to the position in the queue. -/
inductive Location (n : Nat) where
  | queue (index : Nat)
  | worker (worker : Fin n)
  | finished

/-- The request of the call is at the location. -/
def HasRequestAt (pool : Pool n) (id : CallId) : Location n → Prop
  | .queue index => (pool.queue[index]?).map RenderRequest.responseTx = some id
  | .worker worker => ((pool.workers worker).request?).map RenderRequest.responseTx = some id
  | .finished => ∃ call, pool.calls id = some call ∧
      (call.response = .dropped ∨ ∃ result, call.response = .sent result)

/-- What the pool owes its callers. -/
structure Accounted (config : V8PoolConfig) (pool : Pool n) : Prop where
  onePlace : ∀ id call, pool.calls id = some call → call.accepted = true →
    ∃! location, pool.HasRequestAt id location
  renderedOnce : (pool.started.map fun entry => entry.2.responseTx).Nodup
  renderedAccepted : ∀ worker request, (worker, request) ∈ pool.started →
    ∃ call, pool.calls request.responseTx = some call ∧ call.accepted = true
  sentOwn : ∀ id call result, pool.calls id = some call → call.response = .sent result →
    ∃ worker, ⟨worker, call.request config id, .completed result⟩ ∈ pool.finished
  okOwn : ∀ id call html, pool.calls id = some call → call.phase = .returned (.ok html) →
    ∃ worker, ⟨worker, call.request config id, .completed (.ok html)⟩ ∈ pool.finished
  errOwn : ∀ id call message, pool.calls id = some call →
    call.phase = .returned (.error (.render message)) →
      ∃ worker, ⟨worker, call.request config id, .completed (.error message)⟩ ∈ pool.finished
  crashedOwn : ∀ id call, pool.calls id = some call →
    call.phase = .returned (.error .workerCrashed) →
      ∃ worker, ⟨worker, call.request config id, .panicked⟩ ∈ pool.finished ∧
        pool.workers worker = .ended .panicked
  refusedNotRendered : ∀ id call, pool.calls id = some call →
    call.phase = .returned (.error .timeout) ∨ call.phase = .returned (.error .disconnected) →
      ∀ worker request, (worker, request) ∈ pool.started → request.responseTx ≠ id
  normalExit : ∀ worker, pool.workers worker = .leaving .disconnected ∨
    pool.workers worker = .ended .disconnected → pool.alive = false ∧ pool.queue = []

/-- What a reply channel shows is never a refusal. -/
theorem not_refusal_of_awaited {response : Response} {result : Except PoolError String}
    (awaited : response.awaited = some result) :
    result ≠ .error .timeout ∧ result ≠ .error .disconnected := by
  cases response with
  | pending => simp [Response.awaited] at awaited
  | sent answer =>
      cases answer <;> obtain rfl := Option.some.inj awaited <;> simp
  | dropped =>
      obtain rfl := Option.some.inj awaited
      simp

section Ledger

variable {config : V8PoolConfig} {pool : Pool n} {ledger : Ledger n} {id : CallId}
  {place : Place n}

theorem hasRequestAt_queue_iff (index : Nat) :
    pool.HasRequestAt id (.queue index) ↔ pool.desk.queueIds[index]? = some id := by
  rw [HasRequestAt, Desk.queueIds, List.getElem?_map]
  rfl

/-- A request in the queue is queued in the ledger. -/
theorem queued_of_hasRequestAt (tracks : Tracks config pool.desk ledger)
    (ledgerEq : ledger id = some place) {index : Nat}
    (located : pool.HasRequestAt id (.queue index)) : place = .queued := by
  have member := List.mem_of_getElem? ((hasRequestAt_queue_iff index).mp located)
  rw [← tracks.queued, ledgerEq, Option.some.injEq] at member
  exact member

theorem hasRequestAt_worker_iff (tracks : Tracks config pool.desk ledger)
    (ledgerEq : ledger id = some place) (worker : Fin n) :
    pool.HasRequestAt id (.worker worker) ↔ place = .held worker := by
  have held := tracks.held id worker
  rw [ledgerEq, Option.some.injEq] at held
  rw [held, HasRequestAt, Option.map_eq_some_iff]
  rfl

theorem hasRequestAt_finished_iff {call : Call} (present : pool.calls id = some call)
    (accepted : call.Accepted place.response) :
    pool.HasRequestAt id .finished ↔
      place.response = .dropped ∨ ∃ result, place.response = .sent result := by
  rw [← accepted.shows, HasRequestAt, present]
  simp

/-- The ledger puts every accepted request in exactly one location. -/
theorem existsUnique_location (tracks : Tracks config pool.desk ledger) {call : Call}
    (present : pool.calls id = some call) (wasAccepted : call.accepted = true) :
    ∃! location, pool.HasRequestAt id location := by
  obtain ⟨place, ledgerEq, located⟩ := tracks.call id call present
  have sent : place ≠ .unsent := by
    rintro rfl
    have notAccepted := located.notAccepted
    rw [wasAccepted] at notAccepted
    contradiction
  have inHands := hasRequestAt_worker_iff tracks ledgerEq
  have inQueue : ∀ index, pool.HasRequestAt id (.queue index) → place = .queued :=
    fun index here => queued_of_hasRequestAt tracks ledgerEq here
  have finished := hasRequestAt_finished_iff present (located.accepted sent)
  -- A finished request has a response and so is in no queue and in no hands.
  have final (begun : ∀ worker, place ≠ .held worker) (notQueued : place ≠ .queued)
      (shown : place.response = .dropped ∨ ∃ result, place.response = .sent result) :
      ∃! location, pool.HasRequestAt id location := by
    refine ⟨.finished, finished.mpr shown, ?_⟩
    rintro (index | worker | _) here
    · exact absurd (inQueue index here) notQueued
    · exact absurd ((inHands worker).mp here) (begun worker)
    · rfl
  cases place with
  | unsent => exact absurd rfl sent
  | queued =>
      obtain ⟨index, inside, slot⟩ := List.getElem_of_mem ((tracks.queued id).mp ledgerEq)
      have slotEq : pool.desk.queueIds[index]? = some id :=
        List.getElem?_eq_some_iff.mpr ⟨inside, slot⟩
      refine ⟨.queue index, (hasRequestAt_queue_iff index).mpr slotEq, ?_⟩
      rintro (other | worker | _) here
      · have otherEq := (hasRequestAt_queue_iff other).mp here
        rw [(List.getElem?_inj inside tracks.queueOnce).mp (slotEq.trans otherEq.symm)]
      · exact absurd ((inHands worker).mp here) (by simp)
      · exact absurd (finished.mp here) (by simp [Place.response])
  | held worker =>
      refine ⟨.worker worker, (inHands worker).mpr rfl, ?_⟩
      rintro (index | other | _) here
      · exact absurd (inQueue index here) (by simp)
      · rw [Place.held.inj ((inHands other).mp here)]
      · exact absurd (finished.mp here) (by simp [Place.response])
  | answered result => exact final (by simp) (by simp) (Or.inr ⟨result, rfl⟩)
  | lost => exact final (by simp) (by simp) (Or.inl rfl)
  | discarded => exact final (by simp) (by simp) (Or.inl rfl)

/-- A call that returned a result other than a refusal was accepted, and the
result is what its reply channel shows. -/
theorem response_of_returned (tracks : Tracks config pool.desk ledger) {call : Call}
    (present : pool.calls id = some call) {result : Except PoolError String}
    (returned : call.phase = .returned result) (notTimeout : result ≠ .error .timeout)
    (notDisconnected : result ≠ .error .disconnected) :
    ∃ place, ledger id = some place ∧ call.At config id place ∧
      place.response.awaited = some result := by
  obtain ⟨place, ledgerEq, located⟩ := tracks.call id call present
  have sent : place ≠ .unsent := by
    rintro rfl
    rcases located.phase with ⟨_, own, _⟩ | timeout | disconnected | cancelled <;> simp_all
  refine ⟨place, ledgerEq, located, ?_⟩
  rcases (located.accepted sent).phase with waiting | cancelled | ⟨found, foundEq, awaited⟩
  · simp_all
  · simp_all
  · rw [returned, Phase.returned.injEq] at foundEq
    rw [foundEq, awaited]

theorem answered_of_awaited {result : Except String String}
    (awaited : place.response.awaited = some (result.mapError PoolError.render)) :
    place = .answered result := by
  cases place with
  | answered found =>
      cases found <;> cases result <;>
        simp_all [Place.response, Response.awaited, Except.mapError]
  | _ => cases result <;> simp [Place.response, Response.awaited, Except.mapError] at awaited

/-- The render behind an answered request was of that very request. -/
theorem answered_own (tracks : Tracks config pool.desk ledger) {call : Call}
    (present : pool.calls id = some call) {result : Except String String}
    (answered : ledger id = some (.answered result)) :
    ∃ worker, ⟨worker, call.request config id, .completed result⟩ ∈ pool.finished := by
  obtain ⟨worker, request, member, issued⟩ := tracks.answered id result answered
  have own : some (call.request config id) = some request := by
    rw [← issued, Desk.issued]
    simp [desk, present]
  exact ⟨worker, by rwa [Option.some.inj own]⟩

theorem lost_own (tracks : Tracks config pool.desk ledger) {call : Call}
    (present : pool.calls id = some call) (lost : ledger id = some .lost) :
    ∃ worker, ⟨worker, call.request config id, .panicked⟩ ∈ pool.finished := by
  obtain ⟨worker, request, member, issued⟩ := tracks.lost id lost
  have own : some (call.request config id) = some request := by
    rw [← issued, Desk.issued]
    simp [desk, present]
  exact ⟨worker, by rwa [Option.some.inj own]⟩

/-- A result that a worker sent is the result of the call's own request. -/
theorem sent_own (tracks : Tracks config pool.desk ledger) {call : Call}
    (present : pool.calls id = some call) {result : Except String String}
    (shows : call.response = .sent result) :
    ∃ worker, ⟨worker, call.request config id, .completed result⟩ ∈ pool.finished := by
  obtain ⟨place, ledgerEq, located⟩ := tracks.call id call present
  have sent : place ≠ .unsent := by
    rintro rfl
    exact located.notSent result shows
  have response := (located.accepted sent).shows.symm.trans shows
  cases place with
  | answered found =>
      obtain rfl : found = result := by simpa [Place.response] using response
      exact answered_own tracks present ledgerEq
  | _ => simp [Place.response] at response

end Ledger

/-- The invariants settle the account. -/
theorem Sound.accounted {config : V8PoolConfig} {pool : Pool n} (sound : Sound config pool) :
    Accounted config pool := by
  obtain ⟨ledger, tracks⟩ := sound.ledger
  refine
    { onePlace := fun id call present accepted => existsUnique_location tracks present accepted
      renderedOnce := tracks.startedOnce
      renderedAccepted := ?_
      sentOwn := fun id call result present shows => sent_own tracks present shows
      okOwn := ?_
      errOwn := ?_
      crashedOwn := ?_
      refusedNotRendered := ?_
      normalExit := sound.closed }
  · intro worker request member
    have begun : request.responseTx ∈ pool.desk.startedIds :=
      List.mem_map.mpr ⟨(worker, request), member, rfl⟩
    obtain ⟨place, ledgerEq, started⟩ := (tracks.started _).mp begun
    obtain ⟨call, present⟩ : ∃ call, pool.calls request.responseTx = some call := by
      refine Option.ne_none_iff_exists'.mp fun absent => ?_
      rw [tracks.absent _ absent] at ledgerEq
      contradiction
    obtain ⟨found, foundEq, located⟩ := tracks.call _ call present
    obtain rfl : place = found := Option.some.inj (ledgerEq.symm.trans foundEq)
    exact ⟨call, present, (located.accepted (by rintro rfl; exact started)).wasAccepted⟩
  · intro id call html present returned
    obtain ⟨place, ledgerEq, _, awaited⟩ :=
      response_of_returned tracks present returned (by simp) (by simp)
    have answered : place = .answered (.ok html) := answered_of_awaited awaited
    exact answered_own tracks present (answered ▸ ledgerEq)
  · intro id call message present returned
    obtain ⟨place, ledgerEq, _, awaited⟩ :=
      response_of_returned tracks present returned (by simp) (by simp)
    have answered : place = .answered (.error message) := answered_of_awaited awaited
    exact answered_own tracks present (answered ▸ ledgerEq)
  · intro id call present returned
    obtain ⟨place, ledgerEq, located, awaited⟩ :=
      response_of_returned tracks present returned (by simp) (by simp)
    cases place with
    | lost =>
        obtain ⟨worker, member⟩ := lost_own tracks present ledgerEq
        exact ⟨worker, member, sound.crashed _ member rfl⟩
    | discarded =>
        have cancelled := located.2
        simp_all
    | answered result => cases result <;> simp [Place.response, Response.awaited] at awaited
    | _ => simp [Place.response, Response.awaited] at awaited
  · intro id call present refused worker request member sameId
    have begun : id ∈ pool.desk.startedIds :=
      List.mem_map.mpr ⟨(worker, request), member, sameId⟩
    obtain ⟨place, ledgerEq, started⟩ := (tracks.started id).mp begun
    obtain ⟨found, foundEq, located⟩ := tracks.call id call present
    obtain rfl : place = found := Option.some.inj (ledgerEq.symm.trans foundEq)
    have accepted := located.accepted (by rintro rfl; exact started)
    rcases accepted.phase with waiting | cancelled | ⟨result, returned, awaited⟩
    · simp_all
    · simp_all
    · obtain ⟨notTimeout, notDisconnected⟩ := not_refusal_of_awaited awaited
      simp_all

/-- **The pool neither loses, duplicates nor crosses requests.** Every state that
a pool can reach is accounted for. -/
theorem accounted_of_exec {config : V8PoolConfig} {coreAffinity : Option (List Nat)}
    {events : List (Event n)} {pool : Pool n}
    (executed : Execution.exec (step config) (initial n coreAffinity) events = some pool) :
    Accounted config pool :=
  (sound_of_exec executed).accounted

/-- Two callers and two workers: the second caller is sent first, the requests are
rendered in the other order, and both replies wait before either is received. -/
def crossingRun (first second : Fin 2) : List (Event 2) :=
  [.call "/a" "{}" 0, .call "/b" "{}" 0, .trySend 1 0, .trySend 0 0, .pin first,
    .initRuntime first .ok, .pin second, .initRuntime second .ok, .lock second, .recv second,
    .lock first, .recv first, .render first (.completed (.ok "page of /a")),
    .render second (.completed (.ok "page of /b")), .reply second, .reply first,
    .receiveResponse 0, .receiveResponse 1]

/-- Each caller gets the page of its own request. -/
theorem accounted_crossing_calls :
    ∃ pool : Pool 2,
      Execution.exec (step ⟨2, 4, false, none, "renderPage"⟩) (initial 2 none)
        (crossingRun 0 1) = some pool ∧
      (pool.calls 0).map Call.phase = some (.returned (.ok "page of /a")) ∧
      (pool.calls 1).map Call.phase = some (.returned (.ok "page of /b")) ∧
      Accounted ⟨2, 4, false, none, "renderPage"⟩ pool := by
  obtain ⟨pool, executed, first, second⟩ : ∃ pool : Pool 2,
      Execution.exec (step ⟨2, 4, false, none, "renderPage"⟩) (initial 2 none)
        (crossingRun 0 1) = some pool ∧
      (pool.calls 0).map Call.phase = some (.returned (.ok "page of /a")) ∧
      (pool.calls 1).map Call.phase = some (.returned (.ok "page of /b")) := ⟨_, rfl, rfl, rfl⟩
  exact ⟨pool, executed, first, second, accounted_of_exec executed⟩

end RustySsr.V8Pool.Pool
