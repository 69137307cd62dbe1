import Mathlib.Data.Fintype.Basic
import Mathlib.Logic.Function.Basic
import RustySsr.Foundation.Execution

/-!
Owns the V8 thread pool of `src/v8_pool/pool.rs` as a machine: the bounded
request channel behind its mutex, the reply channel of every call, the turns of
the retry loop in `render_with_data`, and the steps of a worker thread from its
start to its end. The results of the runtime and of a render are chosen by the
event, so every JavaScript behaviour is covered. `accepted`, `started` and
`finished` only record history: no step reads them.
-/

namespace RustySsr.V8Pool

open RustySsr.Foundation

structure V8PoolConfig where
  numThreads : Nat
  queueCapacity : Nat
  pinThreads : Bool
  requestTimeout : Option Nat
  renderFunction : String
deriving DecidableEq, Repr

inductive PoolError where
  | timeout
  | disconnected
  | workerCrashed
  | render (message : String)
deriving DecidableEq, Repr

/-- A call of `render_with_data`, numbered in the order in which calls begin. -/
abbrev CallId := Nat

/-- A request, with the call that holds the receiving end of its reply channel. -/
structure RenderRequest where
  url : String
  data : String
  renderFunction : String
  responseTx : CallId
deriving DecidableEq, Repr

/-- A reply channel: its sender is alive, has sent, or was dropped unsent. -/
inductive Response where
  | pending
  | sent (result : Except String String)
  | dropped

/-- The result of `response_rx.await`, once there is one. -/
def Response.awaited : Response → Option (Except PoolError String)
  | .pending => none
  | .sent (.ok html) => some (.ok html)
  | .sent (.error message) => some (.error (.render message))
  | .dropped => some (.error .workerCrashed)

/-- Where a call of `render_with_data` stands. -/
inductive Phase where
  | sending (request : RenderRequest) (deadline : Option Nat)
  | waiting
  | returned (result : Except PoolError String)
  | cancelled

structure Call where
  url : String
  data : String
  phase : Phase
  response : Response
  accepted : Bool

/-- How a worker thread left its work. -/
inductive Exit where
  | initFailed (message : String)
  | disconnected
  | panicked
deriving DecidableEq, Repr

/-- Where a worker thread stands. -/
inductive Worker where
  | spawned
  | pinned
  | idle
  | receiving
  | rendering (request : RenderRequest)
  | replying (request : RenderRequest) (result : Except String String)
  | leaving (exit : Exit)
  | ended (exit : Exit)

/-- How `init_runtime` comes out. -/
inductive InitOutcome where
  | ok
  | err (message : String)
  | panicked

/-- How the render of a request comes out. -/
inductive RenderOutcome where
  | completed (result : Except String String)
  | panicked

structure Rendering (n : Nat) where
  worker : Fin n
  request : RenderRequest
  outcome : RenderOutcome

/-- The pool with `n` worker threads, its channels, and every call so far. -/
structure Pool (n : Nat) where
  alive : Bool
  queue : List RenderRequest
  lockHolder : Option (Fin n)
  workers : Fin n → Worker
  workerCount : Nat
  coreAffinity : Option (List Nat)
  nextCore : Nat
  calls : CallId → Option Call
  nextCall : CallId
  started : List (Fin n × RenderRequest)
  finished : List (Rendering n)

def Worker.hasEnded : Worker → Bool
  | .ended _ => true
  | _ => false

/-- The request in a worker's hands. -/
def Worker.request? : Worker → Option RenderRequest
  | .rendering request => some request
  | .replying request _ => some request
  | _ => none

/-- The call is running, and so borrows the pool. -/
def Call.inFlight (call : Call) : Bool :=
  match call.phase with
  | .sending _ _ => true
  | .waiting => true
  | _ => false

namespace Pool

variable {n : Nat}

/-- The pool right after `V8Pool::new`, with every worker thread spawned. -/
def initial (n : Nat) (coreAffinity : Option (List Nat)) : Pool n where
  alive := true
  queue := []
  lockHolder := none
  workers := fun _ => .spawned
  workerCount := n
  coreAffinity := coreAffinity
  nextCore := 0
  calls := fun _ => none
  nextCall := 0
  started := []
  finished := []

/-- `V8Pool::new`, given the core ids that the system reports. -/
def new (config : V8PoolConfig) (coreIds : Option (List Nat)) : Pool config.numThreads :=
  initial config.numThreads (if config.pinThreads then coreIds else none)

/-- `V8Pool::new_stub_with`: a pool without workers. -/
def newStubWith : Pool 0 := initial 0 none

def setWorker (pool : Pool n) (worker : Fin n) (state : Worker) : Pool n :=
  { pool with workers := Function.update pool.workers worker state }

def updateCall (pool : Pool n) (id : CallId) (change : Call → Call) : Pool n :=
  { pool with calls := Function.update pool.calls id ((pool.calls id).map change) }

/-- Some owner of the request receiver is left: the pool keeps one handle of it,
and every worker thread keeps one until it ends. -/
def receiverAlive (pool : Pool n) : Bool :=
  pool.alive || decide (∃ worker, (pool.workers worker).hasEnded = false)

/-- The last handle of the receiver takes the queued requests with it, and their
reply channels lose their senders. -/
def releaseReceiver (pool : Pool n) : Pool n :=
  if pool.receiverAlive then pool
  else
    { pool with
      queue := []
      calls := fun id =>
        if id ∈ pool.queue.map RenderRequest.responseTx then
          (pool.calls id).map fun call => { call with response := .dropped }
        else pool.calls id }

/-- The end of a worker thread, which drops its handle of the receiver. -/
def endWorker (pool : Pool n) (worker : Fin n) (exit : Exit) : Pool n :=
  (pool.setWorker worker (.ended exit)).releaseReceiver

/-- A worker takes a request into its hands and renders it next. -/
def startRender (pool : Pool n) (worker : Fin n) (request : RenderRequest) : Pool n :=
  { pool.setWorker worker (.rendering request) with
    lockHolder := none
    started := pool.started ++ [(worker, request)] }

def finishRender (pool : Pool n) (worker : Fin n) (request : RenderRequest)
    (outcome : RenderOutcome) : Pool n :=
  { pool with finished := pool.finished ++ [⟨worker, request, outcome⟩] }

/-! ### The calls -/

inductive SendResult (n : Nat) where
  | ok (pool : Pool n)
  | full
  | disconnected

/-- `SyncSender::try_send`. A channel of capacity zero hands the request to a
worker that is blocked in `recv`. -/
def send (config : V8PoolConfig) (pool : Pool n) (request : RenderRequest) : SendResult n :=
  if pool.receiverAlive = false then .disconnected
  else if config.queueCapacity = 0 then
    match pool.lockHolder with
    | some worker => .ok (pool.startRender worker request)
    | none => .full
  else if pool.queue.length < config.queueCapacity then
    .ok { pool with queue := pool.queue ++ [request] }
  else .full

/-- The start of `render_with_data`, up to its first attempt to send. -/
def call (config : V8PoolConfig) (pool : Pool n) (url data : String) (now : Nat) :
    Option (Pool n) :=
  if pool.alive then
    let request := ⟨url, data, config.renderFunction, pool.nextCall⟩
    let deadline := config.requestTimeout.map fun timeout => now + timeout
    some
      { pool with
        calls := Function.update pool.calls pool.nextCall
          (some ⟨url, data, .sending request deadline, .pending, false⟩)
        nextCall := pool.nextCall + 1 }
  else none

/-- A call gives up before it has sent its request, which is dropped. -/
def giveUp (pool : Pool n) (id : CallId) (phase : Phase) : Pool n :=
  pool.updateCall id fun call => { call with phase := phase, response := .dropped }

/-- One turn of the loop around `try_send`. -/
def trySend (config : V8PoolConfig) (pool : Pool n) (id : CallId) (now : Nat) :
    Option (Pool n) :=
  match pool.calls id with
  | some ⟨_, _, .sending request deadline, _, _⟩ =>
      some (match pool.send config request with
        | .ok sentPool =>
            sentPool.updateCall id fun call => { call with phase := .waiting, accepted := true }
        | .full =>
            match deadline with
            | some deadline =>
                if deadline ≤ now then pool.giveUp id (.returned (.error .timeout)) else pool
            | none => pool
        | .disconnected => pool.giveUp id (.returned (.error .disconnected)))
  | _ => none

/-- The caller drops the future at one of its awaits. -/
def cancel (pool : Pool n) (id : CallId) : Option (Pool n) :=
  match pool.calls id with
  | some ⟨_, _, .sending _ _, _, _⟩ => some (pool.giveUp id .cancelled)
  | some ⟨_, _, .waiting, _, _⟩ =>
      some (pool.updateCall id fun call => { call with phase := .cancelled })
  | _ => none

def receiveResponse (pool : Pool n) (id : CallId) : Option (Pool n) :=
  match pool.calls id with
  | some ⟨_, _, .waiting, response, _⟩ =>
      response.awaited.map fun result =>
        pool.updateCall id fun call => { call with phase := .returned result }
  | _ => none

/-- `drop` of the pool, possible only while no call borrows it. -/
def drop (pool : Pool n) : Option (Pool n) :=
  if pool.alive = true ∧
      ∀ id < pool.nextCall, ((pool.calls id).all fun call => !call.inFlight) = true then
    some { pool with alive := false }.releaseReceiver
  else none

/-! ### The workers -/

/-- Pinning to a core: the remainder by the number of cores panics when the
system reports an empty list. -/
def pin (pool : Pool n) (worker : Fin n) : Option (Pool n) :=
  match pool.workers worker with
  | .spawned =>
      match pool.coreAffinity with
      | none => some (pool.setWorker worker .pinned)
      | some cores =>
          let counted := { pool with nextCore := pool.nextCore + 1 }
          if cores.length = 0 then some (counted.endWorker worker .panicked)
          else some (counted.setWorker worker .pinned)
  | _ => none

/-- `init_runtime` and the branch on its result. -/
def initRuntime (pool : Pool n) (worker : Fin n) (outcome : InitOutcome) : Option (Pool n) :=
  match pool.workers worker with
  | .pinned =>
      match outcome with
      | .ok => some (pool.setWorker worker .idle)
      | .err message => some (pool.setWorker worker (.leaving (.initFailed message)))
      | .panicked => some (pool.endWorker worker .panicked)
  | _ => none

/-- `request_rx.lock()`. -/
def lock (pool : Pool n) (worker : Fin n) : Option (Pool n) :=
  match pool.workers worker, pool.lockHolder with
  | .idle, none => some { pool.setWorker worker .receiving with lockHolder := some worker }
  | _, _ => none

/-- `rx.recv()` returns and the lock is released: a queued request is taken, and
the end of the channel is seen once the sender is gone and the queue is empty. -/
def recv (pool : Pool n) (worker : Fin n) : Option (Pool n) :=
  match pool.workers worker with
  | .receiving =>
      match pool.queue with
      | request :: rest => some ({ pool with queue := rest }.startRender worker request)
      | [] =>
          if pool.alive then none
          else some { pool.setWorker worker (.leaving .disconnected) with lockHolder := none }
  | _ => none

/-- `with_runtime(render_html)`. A panic drops the request with the thread. -/
def render (pool : Pool n) (worker : Fin n) (outcome : RenderOutcome) : Option (Pool n) :=
  match pool.workers worker with
  | .rendering request =>
      some (match outcome with
        | .completed result =>
            (pool.finishRender worker request outcome).setWorker worker (.replying request result)
        | .panicked =>
            ((pool.finishRender worker request outcome).updateCall request.responseTx fun call =>
              { call with response := .dropped }).endWorker worker .panicked)
  | _ => none

/-- `response_tx.send(result)`. What is sent to a dropped receiver is lost. -/
def reply (pool : Pool n) (worker : Fin n) : Option (Pool n) :=
  match pool.workers worker with
  | .replying request result =>
      some ((pool.updateCall request.responseTx fun call =>
        { call with response := .sent result }).setWorker worker .idle)
  | _ => none

/-- The decrement of the worker count at the end of the thread. -/
def leave (pool : Pool n) (worker : Fin n) : Option (Pool n) :=
  match pool.workers worker with
  | .leaving exit =>
      some ({ pool with workerCount := pool.workerCount - 1 }.endWorker worker exit)
  | _ => none

/-! ### The machine -/

inductive Event (n : Nat) where
  | call (url data : String) (now : Nat)
  | trySend (id : CallId) (now : Nat)
  | cancel (id : CallId)
  | receiveResponse (id : CallId)
  | drop
  | pin (worker : Fin n)
  | initRuntime (worker : Fin n) (outcome : InitOutcome)
  | lock (worker : Fin n)
  | recv (worker : Fin n)
  | render (worker : Fin n) (outcome : RenderOutcome)
  | reply (worker : Fin n)
  | leave (worker : Fin n)

def step (config : V8PoolConfig) (pool : Pool n) : Event n → Option (Pool n)
  | .call url data now => pool.call config url data now
  | .trySend id now => pool.trySend config id now
  | .cancel id => pool.cancel id
  | .receiveResponse id => pool.receiveResponse id
  | .drop => pool.drop
  | .pin worker => pool.pin worker
  | .initRuntime worker outcome => pool.initRuntime worker outcome
  | .lock worker => pool.lock worker
  | .recv worker => pool.recv worker
  | .render worker outcome => pool.render worker outcome
  | .reply worker => pool.reply worker
  | .leave worker => pool.leave worker

end Pool

end RustySsr.V8Pool
