import Mathlib.Data.Int.Notation
import Mathlib.Data.Nat.Notation
import Mathlib.Logic.Function.Basic
import SecureLlm.Library.Dict
import SecureLlm.Library.Mailbox

/-!
# The Model Manager

The manager keeps loaded models in slots. A slot has a backend, a queue of jobs
and one worker task that takes them in order. Requests look for a slot, load one
where there is none and put their job in its queue; timers, evictions,
`force_unload` and `shutdown` unload slots.

All of it runs on one event loop. A step goes from one `await` to the next, and
any task that can go on may be the next to do so. The calls to the backend are
the exception: those the worker makes itself block the loop until they return,
and those it hands to a thread run beside it. So a call is a step when it begins
and another when it ends.

Slots, jobs and calls are numbered as they are made. A slot and its backend have
one number.

## Main definitions

* `Loaded`: A slot.
* `Job`, `Call`: A job and the future its caller waits for, and a backend call.
* `Work`: What a task of the manager is at.
* `ModelManager`: The state of the manager and of all of its tasks.
* `ModelManager.hit`, `ModelManager.loadOrEvict`: The two paths of
  `ensure_loaded`.
* `ModelManager.submit`: `_submit`, up to where the caller waits.
* `ModelManager.beginUnload`, `ModelManager.close`: The two ends of `_unload`.
* `ModelManager.workerStep`, `ModelManager.threadStep`,
  `ModelManager.clientStep`, `ModelManager.taskStep`: Who can do what.
* `ModelManager.step`: One step of the manager.
-/

namespace SecureLlm

open Library

namespace Models

/-- What a manager is configured with. -/
structure Config where
  maxLoaded : ℕ
  nCtxDefault : ℤ
  queueDepth : ℤ

/-- `queue.full()`. A depth that is not positive is no bound. -/
def Config.full (cfg : Config) (queue : List (Mail ℕ)) : Bool :=
  decide (0 < cfg.queueDepth ∧ cfg.queueDepth ≤ queue.length)

/-- The bound on the chunks a stream handle buffers. -/
def handleSize : ℕ := 64

inductive Kind where
  | chat
  | complete
  | embed
  deriving DecidableEq

/-- The arguments of `ensure_loaded`, the LoRA set by its fingerprint, and the
    job its caller submits afterwards, if it does. -/
structure Request where
  tenant : String
  modelId : String
  nCtx : Option ℤ
  mode : String
  loraFp : String
  job : Option (Kind × Bool)

/-- The key a slot for a request has. -/
def Request.cacheKey (r : Request) : String :=
  r.tenant ++ ":" ++ r.modelId ++ ":" ++ r.mode ++ ":" ++ r.loraFp

/-- A request of the default tenant for one model. -/
def Request.sample (nCtx : Option ℤ) (job : Option (Kind × Bool)) : Request :=
  ⟨"default", "llama", nCtx, "chat", "", job⟩

/-- `n_ctx or self._n_ctx_default`. -/
def Config.nCtx (cfg : Config) (r : Request) : ℤ :=
  match r.nCtx with
  | none => cfg.nCtxDefault
  | some n => if n = 0 then cfg.nCtxDefault else n

inductive ModelState where
  | loaded
  | unloading
  deriving DecidableEq

/-- Where a slot's worker is. A job and a call are named by their numbers. -/
inductive Worker where
  /-- At `queue.get()`. -/
  | waiting
  /-- In a call it makes itself. -/
  | calling (job call : ℕ)
  /-- At `to_thread(next, generator)`. -/
  | pulling (job call : ℕ)
  /-- Putting a chunk in the stream handle. -/
  | putting (job : ℕ)
  /-- Putting the end mark in the stream handle, and whether it was cancelled. -/
  | finishing (job : ℕ) (cancelled : Bool)
  /-- Returned or cancelled. -/
  | ended (cancelled : Bool)
  deriving DecidableEq

/-- The job a worker is executing and has not answered. -/
def Worker.serving : Worker → Option ℕ
  | .calling j _ => some j
  | _ => none

def Worker.isEnded : Worker → Bool
  | .ended _ => true
  | _ => false

/-- A slot. Its queue holds the numbers of jobs, `cancelRequested` is a
    cancellation the worker has not been given yet, `timer` is whether the idle
    timer is set, and a closed slot has no `_llm`. -/
structure Loaded where
  cacheKey : String
  nCtx : ℤ
  state : ModelState
  queue : List (Mail ℕ)
  worker : Worker
  cancelRequested : Bool
  timer : Bool
  closed : Bool

/-- A job: its slot, whether its future is unresolved, the cancel event of its
    stream handle and how many items the handle buffers. -/
structure Job where
  slot : ℕ
  kind : Kind
  stream : Bool
  pending : Bool
  cancelled : Bool
  buffered : ℕ

/-- Does the answer to a job come as a stream? -/
def Job.streams (job : Job) : Bool := job.kind ≠ .embed && job.stream

/-- What came of a `next` on a generator. -/
inductive Pulled where
  | chunk
  | done
  | error
  deriving DecidableEq

/-- A call handed to a thread waits there until the thread gets to it. -/
inductive CallState where
  | queued
  | running
  | ended (result : Pulled)
  | dropped
  deriving DecidableEq

/-- A call of a backend. -/
structure Call where
  slot : ℕ
  state : CallState
  deriving DecidableEq

/-- How far an `_unload` is: at the put of the stop, or waiting for the worker,
    and if so whether the wait has timed out or was cancelled itself. -/
inductive Phase where
  | putting
  | waiting
  | timedOut
  | cancelled
  deriving DecidableEq

/-- Does the wait for a worker go through, once the worker has returned or was
    cancelled? A wait that timed out takes either. -/
def Phase.passes : Phase → Bool → Bool
  | .waiting, interrupted => !interrupted
  | .timedOut, _ => true
  | _, _ => false

/-- Does the wait raise? -/
def Phase.raises : Phase → Bool → Bool
  | .waiting, interrupted => interrupted
  | .cancelled, _ => true
  | _, _ => false

/-- An `_unload` under way, with its two arguments. -/
structure Unload where
  key : String
  slot : ℕ
  phase : Phase

/-- Who awaits an `_unload`: `ensure_loaded` to make room, `force_unload` or
    `shutdown` with targets left, or an idle timer. -/
inductive Then where
  | load (r : Request)
  | next (targets : List (String × ℕ))
  | stop

/-- What a task is at: waiting for the load lock, not yet in `_idle_offload`, or
    in an `_unload`. -/
inductive Work where
  | acquire (r : Request)
  | idle (slot : ℕ)
  | unload (u : Unload) (after : Then)

/-- A call that began, or a close, on a backend. -/
inductive Note where
  | began (slot : ℕ)
  | closed (slot : ℕ)
  deriving DecidableEq

/-- The manager: its slots and the table of them, who holds the load locks, its
    tasks, jobs and calls, whether a call blocks the loop and, newest first,
    what was done to backends. -/
structure ModelManager where
  slots : List Loaded
  loaded : Dict String ℕ
  loadLocks : String → Option ℕ
  closing : Bool
  work : ℕ → Option Work
  jobs : List Job
  calls : List Call
  busy : Bool
  history : List Note

namespace ModelManager

/-- Nothing is loaded. -/
def start : ModelManager :=
  ⟨[], .empty, fun _ => none, false, fun _ => none, [], [], false, []⟩

variable (cfg : Config) (m : ModelManager)

/-- Change a slot. -/
def change (b : ℕ) (f : Loaded → Loaded) : ModelManager :=
  { m with slots := m.slots.modify b f }

/-- Change a job. -/
def changeJob (j : ℕ) (f : Job → Job) : ModelManager :=
  { m with jobs := m.jobs.modify j f }

/-- Change a call. -/
def changeCall (c : ℕ) (state : CallState) : ModelManager :=
  { m with calls := m.calls.modify c (fun call => { call with state }) }

/-- A new call of a backend. -/
def addCall (b : ℕ) (state : CallState) : ModelManager :=
  { m with calls := m.calls ++ [⟨b, state⟩] }

/-- A new job. -/
def addJob (job : Job) : ModelManager := { m with jobs := m.jobs ++ [job] }

def note (n : Note) : ModelManager := { m with history := n :: m.history }

def setBusy (busy : Bool) : ModelManager := { m with busy }

def setLoaded (loaded : Dict String ℕ) : ModelManager := { m with loaded }

/-- Who holds a load lock from now on. -/
def setLock (key : String) (holder : Option ℕ) : ModelManager :=
  { m with loadLocks := Function.update m.loadLocks key holder }

/-- What a task is at from now on. -/
def setWork (k : ℕ) (w : Option Work) : ModelManager :=
  { m with work := Function.update m.work k w }

/-- The worker of a slot goes on to another place. -/
def move (b : ℕ) (w : Worker) : ModelManager := m.change b (fun s => { s with worker := w })

/-- `_reset_idle`. -/
def resetIdle (b : ℕ) : ModelManager := m.change b (fun s => { s with timer := true })

/-! ## Requests -/

/-- The slot that is loaded for a request with enough context. -/
def hit (r : Request) : Option ℕ :=
  match m.loaded.get? r.cacheKey with
  | none => none
  | some b =>
    match m.slots[b]? with
    | none => none
    | some s => if r.nCtx.all (fun n => decide (n ≤ s.nCtx)) then some b else none

/-- `_submit`, up to where the caller waits. To a full queue it submits nothing
    and raises; otherwise the put does not suspend. -/
def submit (b : ℕ) (r : Request) : ModelManager :=
  match r.job, m.slots[b]? with
  | some (kind, stream), some s =>
    if cfg.full s.queue then m
    else (m.change b fun s => { s with queue := s.queue ++ [.item m.jobs.length] }).addJob
      ⟨b, kind, stream, true, false, 0⟩
  | _, _ => m

/-- `_load`, which does not suspend, and the assignment of the slot to its key. -/
def load (r : Request) : ModelManager :=
  { m with
    slots := m.slots ++
      [⟨r.cacheKey, cfg.nCtx r, .loaded, [], .waiting, false, true, false⟩]
    loaded := m.loaded.set r.cacheKey m.slots.length }

/-- `_unload` up to its first `await`. -/
def beginUnload (k : ℕ) (key : String) (b : ℕ) (after : Then) : ModelManager :=
  (m.change b (fun s => { s with state := .unloading, timer := false })).setWork k
    (some (.unload ⟨key, b, .putting⟩ after))

/-- A task leaves `ensure_loaded`, and with it the load lock. -/
def leave (k : ℕ) (r : Request) : ModelManager :=
  (m.setWork k none).setLock r.cacheKey none

/-- The rest of `ensure_loaded` under the lock: evict the least recently used
    slot while there is no room, then load, and submit the job. Where there is
    no room and nothing to evict, or the load fails, it raises. -/
def loadOrEvict (k : ℕ) (r : Request) (loads : Bool) : ModelManager :=
  if cfg.maxLoaded ≤ m.loaded.entries.length then
    match m.loaded.entries with
    | [] => m.leave k r
    | (key, victim) :: _ => m.beginUnload k key victim (.load r)
  else if loads then ((m.leave k r).load cfg r).submit cfg m.slots.length r
  else m.leave k r

/-- The first targets of `force_unload` and `shutdown`. -/
def sweep (k : ℕ) : List (String × ℕ) → ModelManager
  | [] => m.setWork k none
  | (key, b) :: rest => m.beginUnload k key b (.next rest)

/-- What is loaded for a model of a tenant. -/
def targets (tenant modelId : String) : List (String × ℕ) :=
  m.loaded.entries.filter fun e => (tenant ++ ":" ++ modelId ++ ":").toList.isPrefixOf e.1.toList

/-! ## Unloading -/

/-- The worker of a slot is cancelled. One that has ended does not notice. -/
def cancelWorker (b : ℕ) : ModelManager :=
  m.change b fun s => { s with cancelRequested := s.cancelRequested || !s.worker.isEnded }

/-- The end of `_unload`: the backend is closed and the key leaves the table. -/
def close (u : Unload) : ModelManager :=
  ((m.change u.slot fun s => { s with closed := true }).note (.closed u.slot)).setLoaded
    (m.loaded.erase u.key)

/-- Who awaited an `_unload` goes on. -/
def proceed (k : ℕ) (loads : Bool) : Then → ModelManager
  | .load r => m.loadOrEvict cfg k r loads
  | .next rest => m.sweep k rest
  | .stop => m.setWork k none

/-- Who awaited an `_unload` is left by its exception. -/
def fail (k : ℕ) : Then → ModelManager
  | .load r => m.leave k r
  | _ => m.setWork k none

/-! ## The worker -/

/-- The head of the loop over a generator: unless the stream is cancelled the
    next chunk is asked for in a thread. -/
def pump (b j : ℕ) (cancelled : Bool) : ModelManager :=
  if cancelled then m.move b (.finishing j false)
  else (m.move b (.pulling j m.calls.length)).addCall b .queued

/-- The worker is back from a call it made itself. It resolves the future, with
    the stream handle or with the result, or with the exception; if the caller
    has given up the future refuses, and the worker goes on. -/
def answer (b j : ℕ) (job : Job) (ok : Bool) : ModelManager :=
  let resolved := m.changeJob j (fun job => { job with pending := false })
  if ok && job.pending then
    if job.streams then resolved.pump b j job.cancelled
    else (resolved.resetIdle b).move b .waiting
  else resolved.move b .waiting

/-- What a worker does next. -/
inductive WorkerEvent where
  /-- It takes from its queue. -/
  | take
  /-- Its own call returns, or raises. -/
  | answer (ok : Bool)
  /-- It gets what `next` returned or raised in the thread. -/
  | receive
  /-- Its put to the stream handle goes through. -/
  | put
  /-- It gets the cancellation it was sent. -/
  | interrupt

/-- One step of the worker of a slot. -/
def workerStep (b : ℕ) (e : WorkerEvent) : Option ModelManager := do
  let s ← m.slots[b]?
  match e, s.cancelRequested, s.worker with
  | .take, false, .waiting =>
    match s.queue with
    | [] => none
    | .stop :: rest => some (m.change b fun s => { s with queue := rest, worker := .ended false })
    | .item j :: rest => some ((((m.change b fun s =>
        { s with queue := rest, worker := .calling j m.calls.length }).addCall b .running).note
          (.began b)).setBusy true)
  | .answer ok, _, .calling j c => do
    let job ← m.jobs[j]?
    some (((m.changeCall c (.ended .done)).setBusy false).answer b j job ok)
  | .receive, false, .pulling j c =>
    match m.calls[c]? with
    | some ⟨_, .ended .chunk⟩ => some (m.move b (.putting j))
    | some ⟨_, .ended _⟩ => some (m.move b (.finishing j false))
    | _ => none
  | .put, false, .putting j => do
    let job ← m.jobs[j]?
    if job.buffered < handleSize then
      some ((m.changeJob j fun job => { job with buffered := job.buffered + 1 }).pump b j
        job.cancelled)
    else none
  | .put, false, .finishing j cancelled => do
    let job ← m.jobs[j]?
    if job.buffered < handleSize then
      some (((m.changeJob j fun job => { job with buffered := job.buffered + 1 }).resetIdle b).move
        b (if cancelled then .ended true else .waiting))
    else none
  | .interrupt, true, w =>
    let m := m.change b fun s => { s with cancelRequested := false }
    match w with
    | .waiting | .finishing _ _ => some (m.move b (.ended true))
    | .putting j => some (m.move b (.finishing j true))
    | .pulling j c =>
      -- A call the thread has not begun is dropped; one it has begun runs on.
      match m.calls[c]? with
      | some ⟨_, .queued⟩ => some ((m.changeCall c .dropped).move b (.finishing j true))
      | _ => some (m.move b (.finishing j true))
    | _ => none
  | _, _, _ => none

/-- What a thread does with a call it was handed. -/
inductive ThreadEvent where
  | start
  | stop (result : Pulled)

def threadStep (c : ℕ) (e : ThreadEvent) : Option ModelManager := do
  let call ← m.calls[c]?
  match e, call.state with
  | .start, .queued => some ((m.changeCall c .running).note (.began call.slot))
  | .stop result, .running => some (m.changeCall c (.ended result))
  | _, _ => none

/-- What the caller of a job does: it reads from the stream handle, cancels the
    stream, or is cancelled while it waits for the future. -/
inductive ClientEvent where
  | read
  | cancel
  | giveUp

def clientStep (j : ℕ) (e : ClientEvent) : Option ModelManager := do
  let job ← m.jobs[j]?
  match e with
  | .read =>
    if 0 < job.buffered then
      some (m.changeJob j fun job => { job with buffered := job.buffered - 1 })
    else none
  | .cancel =>
    if job.stream && !job.pending then
      some (m.changeJob j fun job => { job with cancelled := true })
    else none
  | .giveUp => some (m.changeJob j fun job => { job with pending := false })

/-! ## The tasks -/

/-- What a task of the manager does. -/
inductive TaskEvent where
  /-- A request comes in. -/
  | request (r : Request)
  /-- It gets the load lock. -/
  | acquire (loads : Bool)
  /-- An operator unloads a model. -/
  | forceUnload (tenant modelId : String)
  | shutdown
  /-- The idle timer of a slot fires and creates the task. -/
  | fire (slot : ℕ)
  /-- The task a timer created begins. -/
  | idle
  /-- Its put of the stop goes through. -/
  | put
  /-- Its wait for the worker times out. -/
  | timeout
  /-- Its wait goes through. -/
  | close (loads : Bool)
  /-- Its wait raises. -/
  | abort
  /-- It is cancelled from outside. -/
  | cancel

/-- One step of a task. -/
def taskStep (k : ℕ) (e : TaskEvent) : Option ModelManager :=
  match e, m.work k with
  | .request r, none =>
    match m.hit r with
    | some b => some (((m.setLoaded (m.loaded.moveToEnd r.cacheKey)).resetIdle b).submit cfg b r)
    -- Nothing fits without the lock, so the task waits for it.
    | none => some (m.setWork k (some (.acquire r)))
  | .acquire loads, some (.acquire r) =>
    match m.loadLocks r.cacheKey, m.hit r with
    | some _, _ => none
    -- Someone loaded it meanwhile. This second look does not move the key to the end.
    | none, some b => some (((m.setWork k none).resetIdle b).submit cfg b r)
    | none, none => some ((m.setLock r.cacheKey (some k)).loadOrEvict cfg k r loads)
  | .forceUnload tenant modelId, none => some (m.sweep k (m.targets tenant modelId))
  | .shutdown, none => some ({ m with closing := true }.sweep k m.loaded.entries)
  | .fire b, none => do
    let s ← m.slots[b]?
    -- A timer that was cancelled does not fire.
    if s.timer then
      some ((m.change b fun s => { s with timer := false }).setWork k (some (.idle b)))
    else none
  | .idle, some (.idle b) => do
    let s ← m.slots[b]?
    -- Whether jobs wait in the queue is not asked.
    if m.closing || s.state ≠ .loaded then some (m.setWork k none)
    else some (m.beginUnload k s.cacheKey b .stop)
  | .put, some (.unload u after) => do
    let s ← m.slots[u.slot]?
    -- The put waits while the queue is full.
    if u.phase = .putting ∧ cfg.full s.queue = false then
      some ((m.change u.slot fun s => { s with queue := s.queue ++ [.stop] }).setWork k
        (some (.unload { u with phase := .waiting } after)))
    else none
  | .timeout, some (.unload u after) =>
    if u.phase = .waiting then
      some ((m.cancelWorker u.slot).setWork k (some (.unload { u with phase := .timedOut } after)))
    else none
  | .close loads, some (.unload u after) => do
    let s ← m.slots[u.slot]?
    match s.worker with
    | .ended cancelled =>
      if u.phase.passes cancelled then some ((m.close u).proceed cfg k loads after) else none
    | _ => none
  | .abort, some (.unload u after) => do
    let s ← m.slots[u.slot]?
    match s.worker with
    | .ended cancelled =>
      if u.phase.raises cancelled then some (m.fail k after) else none
    | _ => none
  -- A task that is not yet in `_unload` just ends.
  | .cancel, some (.acquire _) => some (m.setWork k none)
  | .cancel, some (.idle _) => some (m.setWork k none)
  | .cancel, some (.unload u after) =>
    match u.phase with
    -- At the put no worker is told. At the wait, `wait_for` cancels the worker.
    | .putting => some (m.fail k after)
    | .cancelled => none
    | _ => some ((m.cancelWorker u.slot).setWork k
        (some (.unload { u with phase := .cancelled } after)))
  | _, _ => none

/-- Someone does something. -/
inductive Event where
  | worker (b : ℕ) (e : WorkerEvent)
  | thread (c : ℕ) (e : ThreadEvent)
  | client (j : ℕ) (e : ClientEvent)
  | task (k : ℕ) (e : TaskEvent)

/-- Does an event wait while a call blocks the loop? All do but those of threads
    and the return of the call itself. -/
def Event.onLoop : Event → Bool
  | .thread _ _ => false
  | .worker _ (.answer _) => false
  | _ => true

/-- One step of the manager. -/
def step (m : ModelManager) (e : Event) : Option ModelManager :=
  if m.busy && e.onLoop then none
  else match e with
    | .worker b e => m.workerStep b e
    | .thread c e => m.threadStep c e
    | .client j e => m.clientStep j e
    | .task k e => m.taskStep cfg k e

end ModelManager

end Models

end SecureLlm
