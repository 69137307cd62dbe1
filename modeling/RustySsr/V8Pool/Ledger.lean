import RustySsr.V8Pool.Transition

/-!
Owns the ledger of the pool: an abstract view in which the request of every
call is in exactly one place, because the ledger is a function. `Tracks` says
that a desk (what the calls, the queue and the workers' hands hold) agrees with
a ledger, and each change of a desk moves at most one request in it. It does
not own the steps that make these changes.
-/

namespace RustySsr.V8Pool

variable {n : Nat}

/-- Where the request of a call is: still with its caller or dropped by it, in
the queue, in a worker's hands, or finished in one of three ways. -/
inductive Place (n : Nat) where
  | unsent
  | queued
  | held (worker : Fin n)
  | answered (result : Except String String)
  | lost
  | discarded

abbrev Ledger (n : Nat) := CallId → Option (Place n)

/-- A worker has taken the request into its hands. -/
def Place.hasStarted : Place n → Prop
  | .held _ => True
  | .answered _ => True
  | .lost => True
  | _ => False

/-- What the reply channel of an accepted request shows. -/
def Place.response : Place n → Response
  | .answered result => .sent result
  | .lost => .dropped
  | .discarded => .dropped
  | _ => .pending

/-- The request that a call sends. -/
def Call.request (config : V8PoolConfig) (id : CallId) (call : Call) : RenderRequest :=
  ⟨call.url, call.data, config.renderFunction, id⟩

/-- A call that still holds its request, or that ended without sending it. -/
structure Call.Unsent (config : V8PoolConfig) (id : CallId) (call : Call) : Prop where
  notAccepted : call.accepted = false
  notSent : ∀ result, call.response ≠ .sent result
  phase : (∃ deadline, call.phase = .sending (call.request config id) deadline ∧
      call.response = .pending) ∨
    call.phase = .returned (.error .timeout) ∨ call.phase = .returned (.error .disconnected) ∨
      call.phase = .cancelled

/-- A call whose request was accepted and whose reply channel shows the response. -/
structure Call.Accepted (response : Response) (call : Call) : Prop where
  wasAccepted : call.accepted = true
  shows : call.response = response
  phase : call.phase = .waiting ∨ call.phase = .cancelled ∨
    ∃ result, call.phase = .returned result ∧ response.awaited = some result

/-- What a call looks like when its request is in a place. -/
def Call.At (config : V8PoolConfig) (id : CallId) (call : Call) : Place n → Prop
  | .unsent => call.Unsent config id
  | .discarded => call.Accepted .dropped ∧ call.phase = .cancelled
  | place => call.Accepted place.response

/-- What the ledger is about. -/
structure Desk (n : Nat) where
  calls : CallId → Option Call
  queue : List RenderRequest
  hands : Fin n → Option RenderRequest
  started : List (Fin n × RenderRequest)
  finished : List (Rendering n)

namespace Desk

/-- The request that a call of the desk sends. -/
def issued (config : V8PoolConfig) (desk : Desk n) (id : CallId) : Option RenderRequest :=
  (desk.calls id).map (Call.request config id)

def queueIds (desk : Desk n) : List CallId := desk.queue.map RenderRequest.responseTx

def startedIds (desk : Desk n) : List CallId := desk.started.map fun entry => entry.2.responseTx

def updateCall (desk : Desk n) (id : CallId) (change : Call → Call) : Desk n :=
  { desk with calls := Function.update desk.calls id ((desk.calls id).map change) }

def setHand (desk : Desk n) (worker : Fin n) (request : Option RenderRequest) : Desk n :=
  { desk with hands := Function.update desk.hands worker request }

end Desk

/-- The desk agrees with the ledger. -/
structure Tracks (config : V8PoolConfig) (desk : Desk n) (ledger : Ledger n) : Prop where
  call : ∀ id call, desk.calls id = some call →
    ∃ place, ledger id = some place ∧ call.At config id place
  absent : ∀ id, desk.calls id = none → ledger id = none
  queueOwn : ∀ request ∈ desk.queue, desk.issued config request.responseTx = some request
  queueOnce : desk.queueIds.Nodup
  queued : ∀ id, ledger id = some .queued ↔ id ∈ desk.queueIds
  handsOwn : ∀ worker request, desk.hands worker = some request →
    desk.issued config request.responseTx = some request
  held : ∀ id worker, ledger id = some (.held worker) ↔
    ∃ request, desk.hands worker = some request ∧ request.responseTx = id
  startedOnce : desk.startedIds.Nodup
  started : ∀ id, id ∈ desk.startedIds ↔ ∃ place, ledger id = some place ∧ place.hasStarted
  answered : ∀ id result, ledger id = some (.answered result) →
    ∃ worker request, ⟨worker, request, .completed result⟩ ∈ desk.finished ∧
      desk.issued config id = some request
  lost : ∀ id, ledger id = some .lost →
    ∃ worker request, ⟨worker, request, .panicked⟩ ∈ desk.finished ∧
      desk.issued config id = some request

section Changes

variable {config : V8PoolConfig} {desk : Desk n} {ledger : Ledger n}

theorem issued_updateCall (config : V8PoolConfig) (desk : Desk n) (id : CallId)
    {change : Call → Call}
    (keeps : ∀ call, (change call).url = call.url ∧ (change call).data = call.data) :
    (desk.updateCall id change).issued config = desk.issued config := by
  funext other
  by_cases same : other = id
  · subst same
    simp only [Desk.issued, Desk.updateCall, Function.update_self]
    cases desk.calls other with
    | none => rfl
    | some call => simp [Call.request, keeps]
  · simp [Desk.issued, Desk.updateCall, Function.update_of_ne same]

theorem Call.Accepted.not_sending {response : Response} {call : Call}
    (accepted : call.Accepted response) (request : RenderRequest) (deadline : Option Nat) :
    call.phase ≠ .sending request deadline := by
  intro sending
  rcases accepted.phase with waiting | cancelled | ⟨_, returned, _⟩ <;> simp_all

/-- A call without a response has not returned. -/
theorem Call.Accepted.open_phase {call : Call} (accepted : call.Accepted .pending) :
    call.phase = .waiting ∨ call.phase = .cancelled := by
  rcases accepted.phase with waiting | cancelled | ⟨_, _, awaited⟩
  · exact Or.inl waiting
  · exact Or.inr cancelled
  · simp [Response.awaited] at awaited

theorem Call.At.accepted {id : CallId} {call : Call} {place : Place n}
    (located : call.At config id place) (sent : place ≠ .unsent) :
    call.Accepted place.response := by
  cases place with
  | unsent => exact absurd rfl sent
  | discarded => exact located.1
  | queued => exact located
  | held worker => exact located
  | answered result => exact located
  | lost => exact located

theorem Call.Accepted.at_place {call : Call} {place : Place n}
    (accepted : call.Accepted place.response) (sent : place ≠ .unsent) (kept : place ≠ .discarded)
    (config : V8PoolConfig) (id : CallId) : call.At config id place := by
  cases place with
  | unsent => exact absurd rfl sent
  | discarded => exact absurd rfl kept
  | queued => exact accepted
  | held worker => exact accepted
  | answered result => exact accepted
  | lost => exact accepted

/-- A sending call is unsent in the ledger. -/
theorem Tracks.of_sending (tracks : Tracks config desk ledger) {id : CallId} {call : Call}
    {request : RenderRequest} {deadline : Option Nat} (present : desk.calls id = some call)
    (sending : call.phase = .sending request deadline) :
    ledger id = some .unsent ∧ call.accepted = false ∧ call.response = .pending ∧
      request = call.request config id := by
  obtain ⟨place, ledgerEq, located⟩ := tracks.call id call present
  by_cases unsent : place = .unsent
  · subst unsent
    refine ⟨ledgerEq, located.notAccepted, ?_⟩
    rcases located.phase with ⟨_, own, noResponse⟩ | returned | returned | cancelled
    · rw [sending, Phase.sending.injEq] at own
      exact ⟨noResponse, own.1⟩
    all_goals simp_all
  · exact absurd sending ((located.accepted unsent).not_sending request deadline)

/-- A waiting call was accepted, and its request was not discarded. -/
theorem Tracks.of_waiting (tracks : Tracks config desk ledger) {id : CallId} {call : Call}
    (present : desk.calls id = some call) (waiting : call.phase = .waiting) :
    ∃ place, ledger id = some place ∧ place ≠ .unsent ∧ place ≠ .discarded ∧
      call.Accepted place.response := by
  obtain ⟨place, ledgerEq, located⟩ := tracks.call id call present
  have sent : place ≠ .unsent := by
    rintro rfl
    rcases located.phase with ⟨_, own, _⟩ | returned | returned | cancelled <;> simp_all
  have kept : place ≠ .discarded := by
    rintro rfl
    have cancelled := located.2
    simp_all
  exact ⟨place, ledgerEq, sent, kept, located.accepted sent⟩

/-! ### One change at a time -/

/-- A ledger with the same started requests agrees with the same history. -/
theorem Tracks.started_of_same (tracks : Tracks config desk ledger) {changed : Ledger n}
    (same : ∀ id {place}, place.hasStarted → (changed id = some place ↔ ledger id = some place))
    (id : CallId) :
    id ∈ desk.startedIds ↔ ∃ place, changed id = some place ∧ place.hasStarted :=
  (tracks.started id).trans (exists_congr fun _ => and_congr_left fun begun => (same id begun).symm)

theorem update_some_iff {id other : CallId} {new place : Place n} :
    Function.update ledger id (some new) other = some place ↔
      (other = id ∧ new = place) ∨ (other ≠ id ∧ ledger other = some place) := by
  by_cases same : other = id
  · subst same
    simp
  · simp [same]

/-- A new call appears with its request unsent. -/
theorem Tracks.begin (tracks : Tracks config desk ledger) {id : CallId}
    (fresh : desk.calls id = none) {call : Call} (unsent : call.Unsent config id) :
    Tracks config { desk with calls := Function.update desk.calls id (some call) }
      (Function.update ledger id (some .unsent)) := by
  have freshLedger := tracks.absent id fresh
  have issuedOther : ∀ {other request}, desk.issued config other = some request →
      Desk.issued config { desk with calls := Function.update desk.calls id (some call) } other =
        some request := by
    intro other request issued
    have different : other ≠ id := by
      rintro rfl
      simp [Desk.issued, fresh] at issued
    simpa [Desk.issued, Function.update_of_ne different] using issued
  -- No place but `unsent` is new in the ledger.
  have same_place : ∀ {other place}, place ≠ .unsent →
      (Function.update ledger id (some .unsent) other = some place ↔
        ledger other = some place) := by
    intro other place sent
    rw [update_some_iff]
    grind
  refine
    { call := ?_
      absent := ?_
      queueOwn := fun request member => issuedOther (tracks.queueOwn request member)
      queueOnce := tracks.queueOnce
      queued := fun other => (same_place (by simp)).trans (tracks.queued other)
      handsOwn := fun worker request hand => issuedOther (tracks.handsOwn worker request hand)
      held := fun other worker => (same_place (by simp)).trans (tracks.held other worker)
      startedOnce := tracks.startedOnce
      started := ?_
      answered := ?_
      lost := ?_ }
  · intro other otherCall present
    by_cases same : other = id
    · subst same
      simp only [Function.update_self, Option.some.injEq] at present
      subst present
      exact ⟨.unsent, by simp, unsent⟩
    · simp only [Function.update_of_ne same] at present ⊢
      exact tracks.call other otherCall present
  · intro other absent
    by_cases same : other = id
    · subst same
      simp at absent
    · simp only [Function.update_of_ne same] at absent ⊢
      exact tracks.absent other absent
  · exact tracks.started_of_same fun other _ begun => same_place (by rintro rfl; exact begun)
  · intro other result ledgerEq
    obtain ⟨worker, request, member, issued⟩ :=
      tracks.answered other result ((same_place (by simp)).mp ledgerEq)
    exact ⟨worker, request, member, issuedOther issued⟩
  · intro other ledgerEq
    obtain ⟨worker, request, member, issued⟩ :=
      tracks.lost other ((same_place (by simp)).mp ledgerEq)
    exact ⟨worker, request, member, issuedOther issued⟩

/-- The call of the desk is changed, and its request moves to a place. -/
theorem Tracks.move_calls (tracks : Tracks config desk ledger) {id : CallId} {call : Call}
    (new : Place n) {change : Call → Call} (present : desk.calls id = some call)
    (located : (change call).At config id new) :
    (∀ other otherCall, (desk.updateCall id change).calls other = some otherCall →
      ∃ place, Function.update ledger id (some new) other = some place ∧
        otherCall.At config other place) ∧
    ∀ other, (desk.updateCall id change).calls other = none →
      Function.update ledger id (some new) other = none := by
  refine ⟨fun other otherCall otherPresent => ?_, fun other absent => ?_⟩
  · by_cases same : other = id
    · subst same
      simp only [Desk.updateCall, Function.update_self, present, Option.map_some,
        Option.some.injEq] at otherPresent
      subst otherPresent
      exact ⟨new, by simp, located⟩
    · simp only [Desk.updateCall, Function.update_of_ne same] at otherPresent ⊢
      exact tracks.call other otherCall otherPresent
  · by_cases same : other = id
    · subst same
      simp [Desk.updateCall, present] at absent
    · simp only [Desk.updateCall, Function.update_of_ne same] at absent ⊢
      exact tracks.absent other absent

/-- A call changes while its request stays in its place. -/
theorem Tracks.change (tracks : Tracks config desk ledger) (change : Call → Call) {id : CallId}
    {call : Call} {place : Place n} (present : desk.calls id = some call)
    (ledgerEq : ledger id = some place)
    (keeps : ∀ call, (change call).url = call.url ∧ (change call).data = call.data)
    (located : (change call).At config id place) :
    Tracks config (desk.updateCall id change) ledger := by
  have unchanged : Function.update ledger id (some place) = ledger := by
    rw [← ledgerEq, Function.update_eq_self]
  obtain ⟨callAt, absent⟩ := tracks.move_calls place present located
  rw [unchanged] at callAt absent
  have issuedEq := issued_updateCall config desk id keeps
  exact
    { call := callAt
      absent := absent
      queueOwn := fun request member => issuedEq ▸ tracks.queueOwn request member
      queueOnce := tracks.queueOnce
      queued := tracks.queued
      handsOwn := fun worker request hand => issuedEq ▸ tracks.handsOwn worker request hand
      held := tracks.held
      startedOnce := tracks.startedOnce
      started := tracks.started
      answered := fun other result answered => issuedEq ▸ tracks.answered other result answered
      lost := fun other lost => issuedEq ▸ tracks.lost other lost }

/-- An unsent request joins the end of the queue. -/
theorem Tracks.enqueue (tracks : Tracks config desk ledger) (change : Call → Call) {id : CallId}
    {call : Call} (present : desk.calls id = some call)
    (ledgerEq : ledger id = some .unsent)
    (keeps : ∀ call, (change call).url = call.url ∧ (change call).data = call.data)
    (located : (change call).Accepted .pending) :
    Tracks config
      (Desk.updateCall { desk with queue := desk.queue ++ [call.request config id] } id change)
      (Function.update ledger id (some .queued)) := by
  obtain ⟨callAt, absent⟩ := tracks.move_calls .queued present located
  have issuedEq := issued_updateCall config desk id keeps
  have own : desk.issued config id = some (call.request config id) := by
    simp [Desk.issued, present]
  have notQueued : id ∉ desk.queueIds := fun member => by
    rw [← tracks.queued, ledgerEq] at member
    simp at member
  have queueIdsEq : Desk.queueIds (Desk.updateCall
      { desk with queue := desk.queue ++ [call.request config id] } id change) =
        desk.queueIds ++ [id] := by
    simp [Desk.queueIds, Desk.updateCall, Call.request]
  have same_place : ∀ {other place}, place ≠ .unsent → place ≠ .queued →
      (Function.update ledger id (some .queued) other = some place ↔
        ledger other = some place) := by
    intro other place sent waiting
    rw [update_some_iff]
    grind
  refine
    { call := callAt
      absent := absent
      queueOwn := ?_
      queueOnce := ?_
      queued := ?_
      handsOwn := fun worker request hand => issuedEq ▸ tracks.handsOwn worker request hand
      held := fun other worker => (same_place (by simp) (by simp)).trans (tracks.held other worker)
      startedOnce := tracks.startedOnce
      started := ?_
      answered := fun other result answered =>
        issuedEq ▸ tracks.answered other result ((same_place (by simp) (by simp)).mp answered)
      lost := fun other lost =>
        issuedEq ▸ tracks.lost other ((same_place (by simp) (by simp)).mp lost) }
  · intro request member
    rcases List.mem_append.mp member with old | last
    · exact issuedEq ▸ tracks.queueOwn request old
    · rw [List.mem_singleton.mp last]
      exact issuedEq ▸ own
  · rw [queueIdsEq, ← List.concat_eq_append]
    exact tracks.queueOnce.concat notQueued
  · intro other
    rw [queueIdsEq, update_some_iff, List.mem_append, List.mem_singleton, tracks.queued]
    grind
  · exact tracks.started_of_same fun other _ begun =>
      same_place (by rintro rfl; exact begun) (by rintro rfl; exact begun)

/-- A worker takes the first request of the queue into its empty hands. -/
theorem Tracks.take (tracks : Tracks config desk ledger) {worker : Fin n}
    {request : RenderRequest} {rest : List RenderRequest} (queue : desk.queue = request :: rest)
    (empty : desk.hands worker = none) :
    Tracks config
      (Desk.setHand
        { desk with queue := rest, started := desk.started ++ [(worker, request)] } worker
        (some request))
      (Function.update ledger request.responseTx (some (.held worker))) := by
  have idsEq : desk.queueIds = request.responseTx :: rest.map RenderRequest.responseTx := by
    simp [Desk.queueIds, queue]
  have ledgerEq : ledger request.responseTx = some .queued :=
    (tracks.queued _).mpr (by simp [idsEq])
  have once := tracks.queueOnce
  rw [idsEq, List.nodup_cons] at once
  have own := tracks.queueOwn request (by simp [queue])
  have notStarted : request.responseTx ∉ desk.startedIds := fun member => by
    obtain ⟨place, placeEq, begun⟩ := (tracks.started _).mp member
    rw [ledgerEq, Option.some.injEq] at placeEq
    subst placeEq
    exact begun
  have startedEq : Desk.startedIds (Desk.setHand
      { desk with queue := rest, started := desk.started ++ [(worker, request)] } worker
      (some request)) = desk.startedIds ++ [request.responseTx] := by
    simp [Desk.startedIds, Desk.setHand]
  have notHeld : ∀ other, ledger other ≠ some (.held worker) := by
    intro other held
    obtain ⟨_, hand, _⟩ := (tracks.held other worker).mp held
    simp [empty] at hand
  refine
    { call := ?_
      absent := ?_
      queueOwn := fun other member =>
        tracks.queueOwn other (by rw [queue]; exact List.mem_cons_of_mem _ member)
      queueOnce := once.2
      queued := ?_
      handsOwn := ?_
      held := ?_
      startedOnce := ?_
      started := ?_
      answered := fun other result answered =>
        tracks.answered other result (by grind [update_some_iff])
      lost := fun other lost => tracks.lost other (by grind [update_some_iff]) }
  · intro other call present
    obtain ⟨place, placeEq, located⟩ := tracks.call other call present
    by_cases same : other = request.responseTx
    · subst same
      rw [ledgerEq, Option.some.injEq] at placeEq
      subst placeEq
      exact ⟨.held worker, by simp, located⟩
    · exact ⟨place, by rwa [Function.update_of_ne same], located⟩
  · intro other missing
    have different : other ≠ request.responseTx := by
      rintro rfl
      have := tracks.absent _ missing
      simp [ledgerEq] at this
    rw [Function.update_of_ne different]
    exact tracks.absent other missing
  · intro other
    show _ ↔ other ∈ rest.map RenderRequest.responseTx
    have queued := tracks.queued other
    rw [idsEq, List.mem_cons] at queued
    rw [update_some_iff]
    grind
  · intro holder held hand
    by_cases same : holder = worker
    · subst same
      simp only [Desk.setHand, Function.update_self, Option.some.injEq] at hand
      subst hand
      exact own
    · simp only [Desk.setHand, Function.update_of_ne same] at hand
      exact tracks.handsOwn holder held hand
  · intro other holder
    rw [update_some_iff]
    by_cases same : holder = worker
    · subst same
      simp only [Desk.setHand, Function.update_self, Option.some.injEq]
      grind
    · simp only [Desk.setHand, Function.update_of_ne same]
      have held := tracks.held other holder
      grind
  · rw [startedEq, ← List.concat_eq_append]
    exact tracks.startedOnce.concat notStarted
  · intro other
    have started := tracks.started other
    rw [startedEq, List.mem_append, List.mem_singleton]
    by_cases same : other = request.responseTx
    · subst same
      simp [Place.hasStarted]
    · rw [Function.update_of_ne same]
      simpa [same] using started

/-- An unsent request goes straight into a worker's hands: it arrives in the
empty queue and is taken at once. -/
theorem Tracks.hand (tracks : Tracks config desk ledger) (change : Call → Call) {id : CallId}
    {call : Call} {worker : Fin n} (present : desk.calls id = some call)
    (ledgerEq : ledger id = some .unsent)
    (keeps : ∀ call, (change call).url = call.url ∧ (change call).data = call.data)
    (located : (change call).Accepted .pending) (emptyQueue : desk.queue = [])
    (emptyHand : desk.hands worker = none) :
    ∃ ledger, Tracks config
      (Desk.updateCall (Desk.setHand
        { desk with started := desk.started ++ [(worker, call.request config id)] } worker
        (some (call.request config id))) id change) ledger := by
  obtain ⟨calls, queue, hands, started, finished⟩ := desk
  subst emptyQueue
  exact ⟨_, (tracks.enqueue change present ledgerEq keeps located).take rfl emptyHand⟩

/-- The history of finished renders grows. -/
theorem Tracks.record (tracks : Tracks config desk ledger) (rendering : Rendering n) :
    Tracks config { desk with finished := desk.finished ++ [rendering] } ledger :=
  { call := tracks.call
    absent := tracks.absent
    queueOwn := tracks.queueOwn
    queueOnce := tracks.queueOnce
    queued := tracks.queued
    handsOwn := tracks.handsOwn
    held := tracks.held
    startedOnce := tracks.startedOnce
    started := tracks.started
    answered := fun id result answered =>
      let ⟨worker, request, member, issued⟩ := tracks.answered id result answered
      ⟨worker, request, List.mem_append_left _ member, issued⟩
    lost := fun id lost =>
      let ⟨worker, request, member, issued⟩ := tracks.lost id lost
      ⟨worker, request, List.mem_append_left _ member, issued⟩ }

/-- The call of a request in a worker's hands was accepted and has no response. -/
theorem Tracks.of_hand (tracks : Tracks config desk ledger) {worker : Fin n}
    {request : RenderRequest} (hand : desk.hands worker = some request) :
    ledger request.responseTx = some (.held worker) ∧
      ∃ call, desk.calls request.responseTx = some call ∧ call.Accepted .pending ∧
        (call.phase = .waiting ∨ call.phase = .cancelled) := by
  have ledgerEq := (tracks.held request.responseTx worker).mpr ⟨request, hand, rfl⟩
  have own := tracks.handsOwn worker request hand
  obtain ⟨call, present, _⟩ := Option.map_eq_some_iff.mp own
  obtain ⟨place, placeEq, located⟩ := tracks.call _ call present
  rw [ledgerEq, Option.some.injEq] at placeEq
  subst placeEq
  exact ⟨ledgerEq, call, present, located, Call.Accepted.open_phase located⟩

/-- A request leaves a worker's hands for its final place. -/
theorem Tracks.settle (tracks : Tracks config desk ledger) (change : Call → Call)
    {worker : Fin n} {request : RenderRequest} (hand : desk.hands worker = some request)
    {call : Call} (present : desk.calls request.responseTx = some call)
    (keeps : ∀ call, (change call).url = call.url ∧ (change call).data = call.data)
    {outcome : RenderOutcome} (recorded : ⟨worker, request, outcome⟩ ∈ desk.finished)
    {new : Place n} (final : (new = .lost ∧ outcome = .panicked) ∨
      ∃ result, new = .answered result ∧ outcome = .completed result)
    (located : (change call).Accepted new.response) :
    Tracks config ((desk.updateCall request.responseTx change).setHand worker none)
      (Function.update ledger request.responseTx (some new)) := by
  have locatedNew : (change call).At config request.responseTx new := by
    rcases final with ⟨rfl, _⟩ | ⟨_, rfl, _⟩ <;> exact located
  obtain ⟨callAt, absent⟩ := tracks.move_calls new present locatedNew
  have issuedEq := issued_updateCall config desk request.responseTx keeps
  obtain ⟨ledgerEq, _⟩ := tracks.of_hand hand
  have own := tracks.handsOwn worker request hand
  have onlyHere : ∀ other, ledger other = some (.held worker) → other = request.responseTx := by
    intro other held
    obtain ⟨found, sameHand, rfl⟩ := (tracks.held other worker).mp held
    rw [hand, Option.some.injEq] at sameHand
    rw [sameHand]
  refine
    { call := callAt
      absent := absent
      queueOwn := fun other member => issuedEq ▸ tracks.queueOwn other member
      queueOnce := tracks.queueOnce
      queued := ?_
      handsOwn := ?_
      held := ?_
      startedOnce := tracks.startedOnce
      started := ?_
      answered := ?_
      lost := ?_ }
  · intro other
    refine Iff.trans ?_ (tracks.queued other)
    rw [update_some_iff]
    grind
  · intro holder other held
    by_cases same : holder = worker
    · subst same
      simp [Desk.setHand] at held
    · simp only [Desk.setHand, Function.update_of_ne same] at held
      exact issuedEq ▸ tracks.handsOwn holder other held
  · intro other holder
    rw [update_some_iff]
    by_cases same : holder = worker
    · subst same
      simp only [Desk.setHand, Function.update_self]
      grind
    · simp only [Desk.setHand, Function.update_of_ne same]
      have held := tracks.held other holder
      show _ ↔ ∃ found, desk.hands holder = some found ∧ _
      grind
  · intro other
    refine (tracks.started other).trans ?_
    by_cases same : other = request.responseTx
    · subst same
      rcases final with ⟨rfl, _⟩ | ⟨_, rfl, _⟩ <;> simp [ledgerEq, Place.hasStarted]
    · rw [Function.update_of_ne same]
  · intro other result answered
    rw [update_some_iff] at answered
    rcases answered with ⟨rfl, newEq⟩ | ⟨_, old⟩
    · rcases final with ⟨rfl, _⟩ | ⟨_, rfl, rfl⟩
      · contradiction
      · obtain rfl := Place.answered.inj newEq
        exact ⟨worker, request, recorded, issuedEq ▸ own⟩
    · exact issuedEq ▸ tracks.answered other result old
  · intro other lost
    rw [update_some_iff] at lost
    rcases lost with ⟨rfl, newEq⟩ | ⟨_, old⟩
    · rcases final with ⟨rfl, rfl⟩ | ⟨_, rfl, _⟩
      · exact ⟨worker, request, recorded, issuedEq ▸ own⟩
      · contradiction
    · exact issuedEq ▸ tracks.lost other old

/-- The queue is dropped with the receiver, when no call waits any more. -/
theorem Tracks.discard (tracks : Tracks config desk ledger)
    (unborrowed : ∀ id call, desk.calls id = some call → call.inFlight = false) :
    Tracks config
      { desk with
        queue := []
        calls := fun id =>
          if id ∈ desk.queueIds then
            (desk.calls id).map fun call => { call with response := .dropped }
          else desk.calls id }
      (fun id => if id ∈ desk.queueIds then some .discarded else ledger id) := by
  have issuedEq : Desk.issued config { desk with
        queue := []
        calls := fun id =>
          if id ∈ desk.queueIds then
            (desk.calls id).map fun call => { call with response := .dropped }
          else desk.calls id } = desk.issued config := by
    funext id
    simp only [Desk.issued]
    split_ifs
    · cases desk.calls id <;> rfl
    · rfl
  have same_place : ∀ {id place}, place ≠ .queued → place ≠ .discarded →
      ((if id ∈ desk.queueIds then some .discarded else ledger id) = some place ↔
        ledger id = some place) := by
    intro id place waiting kept
    have queued := tracks.queued id
    split_ifs <;> grind
  refine
    { call := ?_
      absent := ?_
      queueOwn := fun request member => absurd member List.not_mem_nil
      queueOnce := List.nodup_nil
      queued := ?_
      handsOwn := fun worker request hand => issuedEq ▸ tracks.handsOwn worker request hand
      held := fun id worker => (same_place (by simp) (by simp)).trans (tracks.held id worker)
      startedOnce := tracks.startedOnce
      started := ?_
      answered := fun id result answered =>
        issuedEq ▸ tracks.answered id result ((same_place (by simp) (by simp)).mp answered)
      lost := fun id lost =>
        issuedEq ▸ tracks.lost id ((same_place (by simp) (by simp)).mp lost) }
  · intro id call present
    dsimp only at present ⊢
    split_ifs at present ⊢ with member
    · obtain ⟨old, oldPresent, rfl⟩ := Option.map_eq_some_iff.mp present
      obtain ⟨place, placeEq, located⟩ := tracks.call id old oldPresent
      rw [(tracks.queued id).mpr member, Option.some.injEq] at placeEq
      subst placeEq
      have cancelled : old.phase = .cancelled := by
        refine (Call.Accepted.open_phase located).resolve_left fun waiting => ?_
        have notInFlight := unborrowed id old oldPresent
        simp [Call.inFlight, waiting] at notInFlight
      exact ⟨.discarded, rfl, ⟨located.wasAccepted, rfl, Or.inr (Or.inl cancelled)⟩, cancelled⟩
    · exact tracks.call id call present
  · intro id missing
    dsimp only at missing ⊢
    split_ifs at missing ⊢ with member
    · have queued := (tracks.queued id).mpr member
      rw [Option.map_eq_none_iff] at missing
      rw [tracks.absent id missing] at queued
      contradiction
    · exact tracks.absent id missing
  · intro id
    have queued := tracks.queued id
    show (if id ∈ desk.queueIds then some .discarded else ledger id) = some .queued ↔
      id ∈ ([] : List CallId)
    split_ifs <;> grind
  · exact tracks.started_of_same fun id _ begun =>
      same_place (by rintro rfl; exact begun) (by rintro rfl; exact begun)

end Changes

end RustySsr.V8Pool
