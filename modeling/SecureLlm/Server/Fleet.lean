import SecureLlm.Routers.EnvelopeDep

/-!
# A Fleet of Servers

Any number of server processes over one Redis. Each process runs the tasks of
its requests on one event loop; a task runs alone to its next suspension, and
Redis executes each command at one moment, in whatever order the commands of
different tasks reach it. A record may expire in Redis at any time.

A request that is accepted leaves a handler behind, which holds the session
object and may seal any number of envelopes for it, at any time: one response,
or the chunks of a stream. The admin handler may first put the live direction
aside and seal under that. A single server over the in-memory store is the
fleet with one process whose tasks never ask Redis.

## Main definitions

* `Op`, `Result`: The operations of the session manager and what they return.
* `Op.task`: The task of an operation.
* `Fleet`: The state of a fleet.
* `Event`, `Fleet.step`: What may happen, and what it does.
* `Fleet.Run`: Runs all of whose steps meet a condition.
* `Fleet.steps`: The run of a list of events.

## Theorems

* `Fleet.Run.trans`: Runs compose.
* `Fleet.Run.mono`: A condition may be weakened.
* `Fleet.run_of_steps`, `Fleet.exists_run`: A list of events that goes through
  is a run.
-/

namespace SecureLlm

open Library

/-- The operations on sessions that the routers use. -/
inductive Op where
  | create (material : SessionMaterial)
  | lookupAsync (sid : Bytes)
  | terminate (sid : Bytes)
  | reapExpired
  | decryptRequest (request : Request) (schema : Bytes → Except String Unit)

inductive Result where
  | created (sess : Ref)
  | found (sess : Option Ref)
  | terminated (removed : Bool)
  | reaped (removed : ℕ)
  | accepted (sess : Ref)
  deriving DecidableEq

/-- The task of an operation. -/
def Op.task (aead : Aead) (manager : SessionManager) : Op → Task Result
  | .create material => do return .created (← manager.create material)
  | .lookupAsync sid => do return .found (← manager.lookupAsync sid)
  | .terminate sid => do return .terminated (← manager.terminate sid)
  | .reapExpired => do return .reaped (← manager.reapExpired)
  | .decryptRequest request schema => do
    return .accepted (← SecureLlm.decryptRequest aead request manager schema).1

/-- An operation under way, and what is left of its task. -/
structure Job (ι : Type) where
  inst : ι
  op : Op
  rest : Task Result

/-- The handler of an accepted request: its session, and the direction the
    admin handler has put aside. -/
structure Handler (ι : Type) where
  inst : ι
  sess : Ref
  saved : Option DirectionKeys

/-- The direction a handler answers under, if not the session's own. -/
def Handler.direction {ι : Type} (h : Handler ι) (useSaved : Bool) : Option DirectionKeys :=
  if useSaved then h.saved else none

/-- Processes, Redis, the operations under way, the handlers of accepted
    requests, and, newest first, what operations have ended with. -/
structure Fleet (ι : Type) where
  proc : ι → Process
  redis : String → Option Record
  jobs : ℕ → Option (Job ι)
  handlers : ℕ → Option (Handler ι)
  results : List (ι × Op × Except Exc Result)

/-- What may happen next: an operation starts, a task runs on, Redis executes
    a task's command, a record expires in Redis, a handler puts its session's
    direction aside, or a handler seals an envelope. -/
inductive Event (ι : Type) where
  | start (k : ℕ) (inst : ι) (op : Op)
  | run (k : ℕ) (clock : ℕ → ℚ)
  | serve (k : ℕ)
  | expire (name : String)
  | save (k : ℕ)
  | respond (k : ℕ) (useSaved : Bool) (method path : String) (body : Bytes)
  | chunk (k : ℕ) (method path : String) (body : Bytes)

/-- An operation run from start to end with nothing in between, Redis answering
    each of its commands at once. -/
def Event.whole {ι : Type} (k : ℕ) (inst : ι) (op : Op) (calls : ℕ) : List (Event ι) :=
  .start k inst op :: .run k (fun _ => 0) ::
    (List.replicate calls [.serve k, .run k (fun _ => 0)]).flatten

/-- The decryption of a sample request. -/
def Op.sample (counter : ℕ) : Op := .decryptRequest (.sample counter) (fun _ => .ok ())

namespace Fleet

variable {ι : Type} [DecidableEq ι]

/-- Nothing has happened yet. -/
def start : Fleet ι := ⟨fun _ => .start, fun _ => none, fun _ => none, fun _ => none, []⟩

/-- A task has run on. If it has ended its result is kept, and an accepted
    request leaves its handler behind. -/
def settle (f : Fleet ι) (k : ℕ) (inst : ι) (op : Op) (p : Process) (rest : Task Result) :
    Fleet ι :=
  let f := { f with proc := Function.update f.proc inst p }
  match rest with
  | .done (.accepted sess) =>
    { f with
      jobs := Function.update f.jobs k none
      handlers := Function.update f.handlers k (some ⟨inst, sess, none⟩)
      results := (inst, op, .ok (.accepted sess)) :: f.results }
  | .done res =>
    { f with
      jobs := Function.update f.jobs k none
      results := (inst, op, .ok res) :: f.results }
  | .fail e =>
    { f with
      jobs := Function.update f.jobs k none
      results := (inst, op, .error e) :: f.results }
  | rest => { f with jobs := Function.update f.jobs k (some ⟨inst, op, rest⟩) }

/-- A handler seals; sealing does not suspend and reads no clock. -/
def sealBy (f : Fleet ι) (h : Handler ι) (task : Task Bytes) : Fleet ι :=
  let p := (task.advance (fun _ => 0) (f.proc h.inst)).1
  { f with proc := Function.update f.proc h.inst p }

variable (aead : Aead) (manager : SessionManager)

/-- One step. An event that does not apply has no successor. -/
def step (f : Fleet ι) : Event ι → Option (Fleet ι)
  | .start k inst op =>
    match f.jobs k, f.handlers k with
    | none, none => some
        { f with jobs := Function.update f.jobs k (some ⟨inst, op, op.task aead manager⟩) }
    | _, _ => none
  | .run k clock =>
    match f.jobs k with
    | none => none
    | some job =>
      let (p, _, rest) := job.rest.advance clock (f.proc job.inst)
      some (f.settle k job.inst job.op p rest)
  | .serve k =>
    match f.jobs k with
    | some ⟨inst, op, .call c next⟩ =>
      let (db, reply) := c.exec f.redis
      some { f with
        redis := db
        jobs := Function.update f.jobs k (some ⟨inst, op, next reply⟩) }
    | _ => none
  | .expire name => some { f with redis := Function.update f.redis name none }
  | .save k =>
    match f.handlers k with
    | none => none
    | some h =>
      -- The keys as they are now, which a termination zeroizes later.
      let saved := some ((f.proc h.inst).heap h.sess).s2c
      some { f with handlers := Function.update f.handlers k (some { h with saved }) }
  | .respond k useSaved method path body =>
    match f.handlers k with
    | none => none
    | some h => some (f.sealBy h
        (encryptResponse aead h.sess body method path (h.direction useSaved)))
  | .chunk k method path body =>
    match f.handlers k with
    | none => none
    | some h => some (f.sealBy h (sealChunk aead h.sess body method path))

/-- The runs all of whose steps meet a condition on the state before the step
    and the event. -/
inductive Run (ok : Fleet ι → Event ι → Prop) (f : Fleet ι) : Fleet ι → Prop where
  | refl : Run ok f f
  | tail (g h : Fleet ι) (e : Event ι) (hrun : Run ok f g) (hok : ok g e)
      (hstep : g.step aead manager e = some h) : Run ok f h

/-- Any step may be taken. -/
def Anything : Fleet ι → Event ι → Prop := fun _ _ => True

variable {aead manager}

theorem Run.trans (ok : Fleet ι → Event ι → Prop) (f g h : Fleet ι)
    (hfg : Run aead manager ok f g) (hgh : Run aead manager ok g h) :
    Run aead manager ok f h := by
  induction hgh with
  | refl => exact hfg
  | tail u v e _ hok hstep ih => exact Run.tail u v e ih hok hstep

theorem Run.mono (ok ok' : Fleet ι → Event ι → Prop) (hok : ∀ f e, ok f e → ok' f e)
    (f g : Fleet ι) (h : Run aead manager ok f g) : Run aead manager ok' f g := by
  induction h with
  | refl => exact Run.refl
  | tail g u e _ he hstep ih => exact Run.tail g u e ih (hok _ _ he) hstep

/-- Take a list of events, each of which has to meet a condition. -/
def steps (aead : Aead) (manager : SessionManager) (ok : Fleet ι → Event ι → Bool) :
    Fleet ι → List (Event ι) → Option (Fleet ι)
  | f, [] => some f
  | f, e :: es =>
    if ok f e then (f.step aead manager e).bind (fun g => g.steps aead manager ok es) else none

variable (aead manager)

theorem run_of_steps (ok : Fleet ι → Event ι → Bool) (f g : Fleet ι) (es : List (Event ι))
    (h : f.steps aead manager ok es = some g) :
    Run aead manager (fun f e => ok f e = true) f g := by
  induction es generalizing f with
  | nil =>
      rw [← Option.some.inj h]
      exact Run.refl
  | cons e es ih =>
      rw [steps] at h
      by_cases hok : ok f e = true
      · rw [if_pos hok, Option.bind_eq_some_iff] at h
        obtain ⟨u, hstep, hrest⟩ := h
        exact Run.trans _ f u g (Run.tail f u e Run.refl hok hstep) (ih u hrest)
      · rw [if_neg hok] at h
        exact absurd h nofun

/-- A list of events that goes through to a fleet with a property. -/
theorem exists_run (ok : Fleet ι → Event ι → Bool) (f : Fleet ι) (es : List (Event ι))
    (P : Fleet ι → Prop) [DecidablePred P]
    (h : (f.steps aead manager ok es).any (fun g => decide (P g)) = true) :
    ∃ g, Run aead manager (fun f e => ok f e = true) f g ∧ P g := by
  obtain ⟨g, hg, hP⟩ := (Option.any_eq_true _ _).mp h
  exact ⟨g, run_of_steps aead manager ok f g es hg, of_decide_eq_true hP⟩

end Fleet

end SecureLlm
