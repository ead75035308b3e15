import SecureLlm.Llm.Order

/-!
# Synchronous Sources

`stream_chat_envelopes` with a synchronous iterable of chunks. Each task that reads
calls `next` in a thread. When the time is up the task is cancelled as it is for an
asynchronous iterator, but a call that a thread has begun goes on: what it returns
goes nowhere. A call that no thread has begun yet may be dropped, or begin late.

The loop is the one that reads from a handle. It has no handle here.

## Main definitions

* `Source`: The iterable.
* `NextCall`: A call of `next` in a thread.
* `Sourced`, `Sourced.step`: The loop with the iterable and the calls.

## Theorems

* `Sourced.move_of_step`: What a step can do.
-/

namespace SecureLlm

open Library Transition Models

namespace Llm

/-- A synchronous iterable: how many chunks it has, and whether it is a generator, which
    is not to be called while it is executing. -/
structure Source where
  count : ℕ
  generator : Bool

/-- What comes of a `next`. -/
inductive Taken where
  | chunk (n : ℕ)
  | sentinel
  /-- `ValueError`, of a generator that is executing. -/
  | raised
  deriving DecidableEq

/-- Where the loop is with it. -/
def Taken.phase : Taken → Phase
  | .chunk n => .woken (.item n)
  | .sentinel => .woken .stop
  | .raised => .raised none

/-- A call of `next` that was handed to a thread. -/
inductive NextCall where
  | queued
  | running
  | returned (x : Taken)
  deriving DecidableEq

/-- Would a call raise, with these others? -/
def Source.busy (src : Source) (calls : List NextCall) : Bool :=
  src.generator && calls.contains .running

/-- What is next, and how many chunks have been taken then. -/
def Source.item (src : Source) (taken : ℕ) : Taken :=
  if taken < src.count then .chunk taken else .sentinel

def Source.after (src : Source) (taken : ℕ) : ℕ := if taken < src.count then taken + 1 else taken

/-- The loop, the call of the task it waits for, those of tasks that were cancelled, and
    how many chunks were taken. -/
structure Sourced where
  loop : Streaming
  call : Option NextCall
  abandoned : List NextCall
  taken : ℕ

/-- What happens. The calls of tasks that were cancelled go by their places. -/
inductive SourceEvent where
  /-- Somebody sets the cancel event. -/
  | cancel
  /-- The loop looks at the cancel event and begins to read. -/
  | go
  /-- A thread begins the call. -/
  | begin
  /-- The iterable returns. -/
  | next
  /-- The task gets what was returned. -/
  | get
  /-- The loop goes on with it. -/
  | wake
  /-- The time is up. -/
  | timeout
  /-- The wait of the loop is cancelled. -/
  | abort
  /-- The process goes on elsewhere. -/
  | elsewhere (p : Process)
  /-- A call that no thread has begun is dropped. -/
  | drop (i : ℕ)
  /-- A thread begins a call that nobody waits for. -/
  | beginLate (i : ℕ)
  /-- The iterable returns to it. -/
  | nextLate (i : ℕ)

namespace Sourced

variable (aead : Aead) (src : Source) (st : Stream)

/-- The generator is called. -/
def start (p : Process) : Sourced := ⟨.start p, none, [], 0⟩

variable (s : Sourced)

/-- What a cancelled task leaves behind. What has been returned to it is gone. -/
def left : Option NextCall → List NextCall
  | some .queued => [.queued]
  | some .running => [.running]
  | _ => []

/-- One step. -/
def step : SourceEvent → Option Sourced
  | .cancel => (s.loop.step aead st .cancel).map fun loop => { s with loop }
  -- `create_task(_next_chunk())`, and the wait for it.
  | .go => (s.loop.step aead st .go).map fun loop =>
      { s with loop, call := if loop.phase = .racing then some .queued else none }
  -- `next(sync_iter, _SENTINEL)`. A generator that is executing raises at once.
  | .begin =>
    match s.call with
    | some .queued =>
      some { s with
        call := some (if src.busy s.abandoned then .returned .raised else .running) }
    | _ => none
  -- Other calls may have taken chunks since it began.
  | .next =>
    match s.call with
    | some .running =>
      some { s with call := some (.returned (src.item s.taken)), taken := src.after s.taken }
    | _ => none
  -- `v is _SENTINEL` raises `StopAsyncIteration` in the task.
  | .get =>
    match s.loop.phase, s.call with
    | .racing, some (.returned x) =>
      some { s with loop := { s.loop with phase := x.phase }, call := none }
    | _, _ => none
  | .wake => (s.loop.step aead st .wake).map fun loop => { s with loop }
  -- `chunk_task.cancel()`.
  | .timeout => (s.loop.step aead st .timeout).map fun loop =>
      { s with loop, call := none, abandoned := s.abandoned ++ left s.call }
  | .abort => (s.loop.step aead st .abort).map fun loop => { s with loop }
  | .elsewhere p => (s.loop.step aead st (.elsewhere p)).map fun loop => { s with loop }
  -- The thread pool drops what it has not begun.
  | .drop i =>
    match s.abandoned[i]? with
    | some .queued => some { s with abandoned := s.abandoned.eraseIdx i }
    | _ => none
  | .beginLate i =>
    match s.abandoned[i]? with
    | some .queued =>
      some { s with
        abandoned := if src.busy (s.abandoned ++ s.call.toList) then s.abandoned.eraseIdx i
          else s.abandoned.set i .running }
    | _ => none
  -- What is returned here goes to nobody.
  | .nextLate i =>
    match s.abandoned[i]? with
    | some .running =>
      some { s with abandoned := s.abandoned.eraseIdx i, taken := src.after s.taken }
    | _ => none

/-- The steps. -/
inductive Move : SourceEvent → Sourced → Prop where
  | cancel (loop : Streaming) : Move .cancel { s with loop }
  | leave (hphase : s.loop.phase = .head) (hcancelled : s.loop.handle.cancelled = true) :
      Move .go { s with loop := s.loop.finish, call := none }
  | race (hphase : s.loop.phase = .head) :
      Move .go { s with loop := { s.loop with phase := .racing }, call := some .queued }
  | refuse (hcall : s.call = some .queued) : Move .begin { s with call := some (.returned .raised) }
  | begin (hcall : s.call = some .queued) : Move .begin { s with call := some .running }
  | next (hcall : s.call = some .running) :
      Move .next { s with call := some (.returned (src.item s.taken)), taken := src.after s.taken }
  | get (x : Taken) (hphase : s.loop.phase = .racing) (hcall : s.call = some (.returned x)) :
      Move .get { s with loop := { s.loop with phase := x.phase }, call := none }
  | wake (x : Mail ℕ) (hphase : s.loop.phase = .woken x) :
      Move .wake { s with loop := s.loop.resume aead st x }
  | timeout (calls : List NextCall) (hphase : s.loop.phase = .racing) :
      Move .timeout { s with
        loop := s.loop.sealNext aead st none keepalive (st.codec.dumps keepalive)
        call := none
        abandoned := calls }
  | abort (loop : Streaming) : Move .abort { s with loop }
  | elsewhere (p : Process) : Move (.elsewhere p) { s with loop := { s.loop with proc := p } }
  | late (e : SourceEvent) (calls : List NextCall)
      (he : (∃ i, e = .drop i) ∨ ∃ i, e = .beginLate i) :
      Move e { s with abandoned := calls }
  | nextLate (i : ℕ) (calls : List NextCall) :
      Move (.nextLate i) { s with abandoned := calls, taken := src.after s.taken }

variable {aead src st s} {u : Sourced}

/-- What a step can do. -/
theorem move_of_step {e : SourceEvent} (h : s.step aead src st e = some u) :
    s.Move aead src st e u := by
  unfold step at h
  cases e with
  | cancel =>
      rcases Option.map_eq_some_iff.mp h with ⟨loop, -, rfl⟩
      exact .cancel loop
  | go =>
      rcases Option.map_eq_some_iff.mp h with ⟨loop, hloop, rfl⟩
      cases Streaming.move_of_step hloop with
      | handle e e' handle he hhandle => rcases he with ⟨he, -⟩ | ⟨he, -⟩ <;> cases he
      | leave hphase hcancelled => exact .leave hphase hcancelled
      | race hphase hcancelled => exact .race hphase
  | begin =>
      dsimp only at h
      split at h
      · rename_i hcall
        rw [← Option.some.inj h]
        split
        · exact .refuse hcall
        · exact .begin hcall
      · cases h
  | next =>
      dsimp only at h
      split at h
      · rename_i hcall
        rw [← Option.some.inj h]
        exact .next hcall
      · cases h
  | get =>
      dsimp only at h
      split at h
      · rename_i x hphase hcall
        rw [← Option.some.inj h]
        exact .get x hphase hcall
      · cases h
  | wake =>
      rcases Option.map_eq_some_iff.mp h with ⟨loop, hloop, rfl⟩
      unfold Streaming.step at hloop
      dsimp only at hloop
      split at hloop
      · rename_i x hphase
        rw [← Option.some.inj hloop]
        exact .wake x hphase
      · cases hloop
  | timeout =>
      rcases Option.map_eq_some_iff.mp h with ⟨loop, hloop, rfl⟩
      unfold Streaming.step at hloop
      dsimp only at hloop
      split at hloop
      · rename_i hphase
        rw [← Option.some.inj hloop]
        exact .timeout _ hphase
      · cases hloop
  | abort =>
      rcases Option.map_eq_some_iff.mp h with ⟨loop, -, rfl⟩
      exact .abort loop
  | elsewhere p =>
      rcases Option.map_eq_some_iff.mp h with ⟨loop, hloop, rfl⟩
      rw [← Option.some.inj hloop]
      exact .elsewhere p
  | drop i =>
      dsimp only at h
      split at h
      · rw [← Option.some.inj h]
        exact .late _ _ (Or.inl ⟨i, rfl⟩)
      · cases h
  | beginLate i =>
      dsimp only at h
      split at h
      · rw [← Option.some.inj h]
        exact .late _ _ (Or.inr ⟨i, rfl⟩)
      · cases h
  | nextLate i =>
      dsimp only at h
      split at h
      · rw [← Option.some.inj h]
        exact .nextLate i _
      · cases h

end Sourced

end Llm

end SecureLlm
