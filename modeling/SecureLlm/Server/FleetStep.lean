import SecureLlm.Server.Fleet

/-!
# What the Steps of a Fleet Do

The inversion of `Fleet.step`. A step that goes through is one of six: an
operation starts, a task runs on, Redis serves a command, a record expires, a
handler puts a direction aside, or a handler emits an envelope. Everything that
is proved of a step is proved of these six.

## Main definitions

* `Fleet.sealing`: Which handler seals at an event, and under what.
* `Fleet.keys`: The direction it seals under.
* `Fleet.Stepped`: The six steps.

## Theorems

* `sealFor_advance`, `sealChunk_advance`: What
  sealing does to a process.
* `Fleet.stepped_of_step`: A step is one of the six.
* `Fleet.settle_cases`, `Fleet.job_of_settle`: What is left of a task that has run on.
* `Fleet.handler_of_step`: Where a handler comes from.
-/

namespace SecureLlm

open Library

section Sealing

variable (aead : Aead) (r : Ref) (body : Bytes) (method path : String)
  (direction : Option DirectionKeys) (clock : ℕ → ℚ) (p : Process)

/-- Sealing bumps the counter whatever happens, and an envelope that comes out
    is noted with its direction. -/
theorem sealFor_advance :
    (sealFor aead r body method path direction).advance clock p =
      match sealEnvelope aead (direction.getD (p.heap r).s2c) ((p.heap r).s2cCounter + 1 : ℕ)
          (p.heap r).sessionId method path body with
      | .ok envelope => ((p.change r Session.bump).note r
          (.sealed (direction.getD (p.heap r).s2c)), clock, .done envelope)
      | .error e => (p.change r Session.bump, clock, .fail e) := by
  have hheap : (p.change r Session.bump).heap r = (p.heap r).bump := Process.heap_change_self _ _ _
  show ((Coop.bind (Task.ofExcept (sealEnvelope aead
    (direction.getD ((p.change r Session.bump).heap r).s2c)
    ((p.change r Session.bump).heap r).s2cCounter ((p.change r Session.bump).heap r).sessionId
    method path body)) _).advance clock (p.change r Session.bump)) = _
  rw [hheap]
  show ((Coop.bind (Task.ofExcept (sealEnvelope aead (direction.getD (p.heap r).s2c)
    ((p.heap r).s2cCounter + 1 : ℕ) (p.heap r).sessionId method path body)) _).advance clock
    (p.change r Session.bump)) = _
  cases sealEnvelope aead (direction.getD (p.heap r).s2c) ((p.heap r).s2cCounter + 1 : ℕ)
      (p.heap r).sessionId method path body with
  | error e => rfl
  | ok envelope =>
      show ((p.change r Session.bump).note r
        (.sealed (direction.getD ((p.change r Session.bump).heap r).s2c)), clock, _) = _
      rw [hheap]
      rfl

/-- A chunk is sealed under the session's own direction. -/
theorem sealChunk_advance :
    (∃ envelope, (sealFor aead r body method path none).advance clock p
        = ((p.change r Session.bump).note r (.sealed (p.heap r).s2c), clock, .done envelope) ∧
      (sealChunk aead r body method path).advance clock p
        = ((p.change r Session.bump).note r (.sealed (p.heap r).s2c), clock,
          .done (utf8 "data: " ++ utf8 (b64encode envelope) ++ utf8 "\n\n"))) ∨
    (∃ e, (sealFor aead r body method path none).advance clock p
        = (p.change r Session.bump, clock, .fail e) ∧
      (sealChunk aead r body method path).advance clock p
        = (p.change r Session.bump, clock, .fail e)) := by
  have hseal := sealFor_advance aead r body method path none clock p
  dsimp only [Option.getD_none] at hseal
  cases henv : sealEnvelope aead (p.heap r).s2c ((p.heap r).s2cCounter + 1 : ℕ)
      (p.heap r).sessionId method path body with
  | ok envelope =>
      rw [henv] at hseal
      exact Or.inl ⟨envelope, hseal, Coop.advance_bind _ _ _ _ _ _ _ hseal⟩
  | error e =>
      rw [henv] at hseal
      exact Or.inr ⟨e, hseal, Coop.advance_bind_fail _ _ _ _ _ _ _ hseal⟩

end Sealing

namespace Fleet

variable {ι : Type} [DecidableEq ι]

/-- The handler that seals at an event, and the direction it uses in place of
    its session's own, if any. -/
def sealing (f : Fleet ι) : Event ι → Option (Handler ι × Option DirectionKeys)
  | .respond k useSaved _ _ _ => (f.handlers k).map (fun h => (h, h.direction useSaved))
  | .chunk k _ _ _ => (f.handlers k).map (fun h => (h, none))
  | _ => none

/-- The session a handler answers for, as it is now. -/
def session (f : Fleet ι) (h : Handler ι) : Session := (f.proc h.inst).heap h.sess

/-- The direction a handler seals under. -/
def keys (f : Fleet ι) (h : Handler ι) (direction : Option DirectionKeys) : DirectionKeys :=
  direction.getD (f.session h).s2c

/-- The six steps of a fleet. -/
inductive Stepped (aead : Aead) (manager : SessionManager) (f : Fleet ι) :
    Event ι → Fleet ι → Prop where
  | start (k : ℕ) (inst : ι) (op : Op) (hjob : f.jobs k = none) (hhandler : f.handlers k = none) :
      Stepped aead manager f (.start k inst op)
        { f with jobs := Function.update f.jobs k (some ⟨inst, op, op.task aead manager⟩) }
  | run (k : ℕ) (clock : ℕ → ℚ) (job : Job ι) (p : Process) (clock' : ℕ → ℚ) (rest : Task Result)
      (hjob : f.jobs k = some job)
      (hrun : job.rest.advance clock (f.proc job.inst) = (p, clock', rest)) :
      Stepped aead manager f (.run k clock) (f.settle k job.inst job.op p rest)
  | serve (k : ℕ) (inst : ι) (op : Op) (c : RedisCall) (next : RedisReply c → Task Result)
      (hjob : f.jobs k = some ⟨inst, op, .call c next⟩) :
      Stepped aead manager f (.serve k)
        { f with
          redis := (c.exec f.redis).1
          jobs := Function.update f.jobs k (some ⟨inst, op, next (c.exec f.redis).2⟩) }
  | expire (name : String) :
      Stepped aead manager f (.expire name)
        { f with redis := Function.update f.redis name none }
  | save (k : ℕ) (h : Handler ι) (hhandler : f.handlers k = some h) :
      Stepped aead manager f (.save k)
        { f with
          handlers := Function.update f.handlers k
            (some { h with saved := some (f.session h).s2c }) }
  | emit (e : Event ι) (h : Handler ι) (d : Option DirectionKeys) (p : Process)
      (hsealing : f.sealing e = some (h, d))
      (hp : p = (f.proc h.inst).change h.sess Session.bump ∨
        p = ((f.proc h.inst).change h.sess Session.bump).note h.sess (.sealed (f.keys h d))) :
      Stepped aead manager f e { f with proc := Function.update f.proc h.inst p }

variable (aead : Aead) (manager : SessionManager) (f : Fleet ι)

/-- The process of a handler that has sealed. -/
theorem sealFor_process (r : Ref) (body : Bytes) (method path : String)
    (d : Option DirectionKeys) (clock : ℕ → ℚ) (p : Process) :
    ((sealFor aead r body method path d).advance clock p).1 = p.change r Session.bump ∨
      ((sealFor aead r body method path d).advance clock p).1
        = (p.change r Session.bump).note r (.sealed (d.getD (p.heap r).s2c)) := by
  rw [sealFor_advance]
  cases sealEnvelope aead (d.getD (p.heap r).s2c) ((p.heap r).s2cCounter + 1 : ℕ)
      (p.heap r).sessionId method path body with
  | ok envelope => exact Or.inr rfl
  | error e => exact Or.inl rfl

theorem stepped_of_step (e : Event ι) (g : Fleet ι) (hstep : f.step aead manager e = some g) :
    f.Stepped aead manager e g := by
  cases e with
  | start k inst op =>
      rw [step] at hstep
      cases hjob : f.jobs k with
      | some job => simp only [hjob, reduceCtorEq] at hstep
      | none =>
          cases hhandler : f.handlers k with
          | some h => simp only [hjob, hhandler, reduceCtorEq] at hstep
          | none =>
              simp only [hjob, hhandler, Option.some.injEq] at hstep
              rw [← hstep]
              exact Stepped.start k inst op hjob hhandler
  | run k clock =>
      rw [step] at hstep
      cases hjob : f.jobs k with
      | none => simp only [hjob, reduceCtorEq] at hstep
      | some job =>
          simp only [hjob, Option.some.injEq] at hstep
          rw [← hstep]
          exact Stepped.run k clock job _ _ _ hjob rfl
  | serve k =>
      rw [step] at hstep
      cases hjob : f.jobs k with
      | none => simp only [hjob, reduceCtorEq] at hstep
      | some job =>
          obtain ⟨inst, op, rest⟩ := job
          cases rest with
          -- Only a job that waits for Redis is served.
          | call c next =>
              simp only [hjob, Option.some.injEq] at hstep
              rw [← hstep]
              exact Stepped.serve k inst op c next hjob
          | done a => simp only [hjob, reduceCtorEq] at hstep
          | fail e => simp only [hjob, reduceCtorEq] at hstep
          | now next => simp only [hjob, reduceCtorEq] at hstep
          | step upd next => simp only [hjob, reduceCtorEq] at hstep
          | wait ready next => simp only [hjob, reduceCtorEq] at hstep
  | expire name =>
      rw [step, Option.some.injEq] at hstep
      rw [← hstep]
      exact Stepped.expire name
  | save k =>
      rw [step] at hstep
      cases hhandler : f.handlers k with
      | none => simp only [hhandler, reduceCtorEq] at hstep
      | some h =>
          simp only [hhandler, Option.some.injEq] at hstep
          rw [← hstep]
          exact Stepped.save k h hhandler
  | respond k useSaved method path body =>
      rw [step] at hstep
      cases hhandler : f.handlers k with
      | none => simp only [hhandler, reduceCtorEq] at hstep
      | some h =>
          simp only [hhandler, Option.some.injEq] at hstep
          rw [← hstep]
          refine Stepped.emit _ h (h.direction useSaved) _ ?_ ?_
          · rw [sealing, hhandler]
            rfl
          · exact sealFor_process aead _ _ _ _ _ _ _
  | chunk k method path body =>
      rw [step] at hstep
      cases hhandler : f.handlers k with
      | none => simp only [hhandler, reduceCtorEq] at hstep
      | some h =>
          simp only [hhandler, Option.some.injEq] at hstep
          rw [← hstep]
          refine Stepped.emit _ h none _ ?_ ?_
          · rw [sealing, hhandler]
            rfl
          -- Sealing a chunk takes a counter, or fails with nothing changed.
          · rcases sealChunk_advance aead h.sess body method path (fun _ => 0) (f.proc h.inst) with
              ⟨envelope, -, hchunk⟩ | ⟨e, -, hchunk⟩
            · rw [hchunk]
              exact Or.inr rfl
            · rw [hchunk]
              exact Or.inl rfl

/-- A task that has run on has ended with a result, has raised, or is
    suspended; an accepted request has left a handler. -/
theorem settle_cases (k : ℕ) (inst : ι) (op : Op) (p : Process) (rest : Task Result) :
    (∃ res, rest = .done res ∧ (f.settle k inst op p rest).jobs = Function.update f.jobs k none ∧
        (f.settle k inst op p rest).results = (inst, op, .ok res) :: f.results ∧
        ((f.settle k inst op p rest).handlers = f.handlers ∨
          ∃ sess, res = .accepted sess ∧ (f.settle k inst op p rest).handlers
            = Function.update f.handlers k (some ⟨inst, sess, none⟩))) ∨
      (∃ e, rest = .fail e ∧ (f.settle k inst op p rest).jobs = Function.update f.jobs k none ∧
        (f.settle k inst op p rest).results = (inst, op, .error e) :: f.results ∧
        (f.settle k inst op p rest).handlers = f.handlers) ∨
      ((∀ res, rest ≠ .done res) ∧ (∀ e, rest ≠ .fail e) ∧
        (f.settle k inst op p rest).jobs = Function.update f.jobs k (some ⟨inst, op, rest⟩) ∧
        (f.settle k inst op p rest).results = f.results ∧
        (f.settle k inst op p rest).handlers = f.handlers) := by
  cases rest with
  | done res =>
      refine Or.inl ⟨res, rfl, ?_⟩
      cases res with
      | accepted sess => exact ⟨rfl, rfl, Or.inr ⟨sess, rfl, rfl⟩⟩
      | created sess => exact ⟨rfl, rfl, Or.inl rfl⟩
      | found o => exact ⟨rfl, rfl, Or.inl rfl⟩
      | terminated b => exact ⟨rfl, rfl, Or.inl rfl⟩
      | reaped n => exact ⟨rfl, rfl, Or.inl rfl⟩
  | fail e => exact Or.inr (Or.inl ⟨e, rfl, rfl, rfl, rfl⟩)
  | now next => exact Or.inr (Or.inr ⟨nofun, nofun, rfl, rfl, rfl⟩)
  | step upd next => exact Or.inr (Or.inr ⟨nofun, nofun, rfl, rfl, rfl⟩)
  | wait ready next => exact Or.inr (Or.inr ⟨nofun, nofun, rfl, rfl, rfl⟩)
  | call c next => exact Or.inr (Or.inr ⟨nofun, nofun, rfl, rfl, rfl⟩)

/-- A job after a task has run on was there before, or is what is left of the
    task. -/
theorem job_of_settle {k k' : ℕ} {inst : ι} {op : Op} {p : Process} {rest : Task Result}
    {job : Job ι} (h : (f.settle k inst op p rest).jobs k' = some job) :
    (k' ≠ k ∧ f.jobs k' = some job) ∨
      (k' = k ∧ job = ⟨inst, op, rest⟩ ∧ (∀ res, rest ≠ .done res) ∧ ∀ e, rest ≠ .fail e) := by
  by_cases hk : k' = k
  · refine Or.inr ⟨hk, ?_⟩
    rcases settle_cases f k inst op p rest with
      ⟨_, -, hjobs, -⟩ | ⟨_, -, hjobs, -⟩ | ⟨hdone, hfail, hjobs, -⟩
    · rw [hjobs, hk, Function.update_self] at h
      exact absurd h nofun
    · rw [hjobs, hk, Function.update_self] at h
      exact absurd h nofun
    · rw [hjobs, hk, Function.update_self] at h
      exact ⟨(Option.some.inj h).symm, hdone, hfail⟩
  · refine Or.inl ⟨hk, ?_⟩
    rcases settle_cases f k inst op p rest with
      ⟨_, -, hjobs, -⟩ | ⟨_, -, hjobs, -⟩ | ⟨-, -, hjobs, -⟩
    · rwa [hjobs, Function.update_of_ne hk] at h
    · rwa [hjobs, Function.update_of_ne hk] at h
    · rwa [hjobs, Function.update_of_ne hk] at h

theorem settle_proc (k : ℕ) (inst : ι) (op : Op) (p : Process) (rest : Task Result) :
    (f.settle k inst op p rest).proc = Function.update f.proc inst p := by
  cases rest with
  | done res => cases res <;> rfl
  | _ => rfl

theorem settle_redis (k : ℕ) (inst : ι) (op : Op) (p : Process) (rest : Task Result) :
    (f.settle k inst op p rest).redis = f.redis := by
  cases rest with
  | done res => cases res <;> rfl
  | _ => rfl

/-- A handler after a step was there before, or it is new and has put nothing
    aside, or it has just put its session's direction aside. -/
theorem handler_of_step (e : Event ι) (g : Fleet ι) (hstep : f.step aead manager e = some g)
    (k : ℕ) (h : Handler ι) (hg : g.handlers k = some h) :
    f.handlers k = some h ∨ h.saved = none ∨ ∃ h', e = .save k ∧ f.handlers k = some h' ∧
      h = { h' with saved := some (f.session h').s2c } := by
  cases stepped_of_step aead manager f e g hstep with
  | start k' inst op hjob hhandler => exact Or.inl hg
  | run k' clock job p clock' rest hjob hrun =>
      rcases settle_cases f k' job.inst job.op p rest with
        ⟨res, -, -, -, hhandlers⟩ | ⟨e, -, -, -, hhandlers⟩ | ⟨-, -, -, -, hhandlers⟩
      · rcases hhandlers with hsame | ⟨sess, -, hnew⟩
        · rw [hsame] at hg
          exact Or.inl hg
        · rw [hnew] at hg
          by_cases hk : k = k'
          · rw [hk, Function.update_self, Option.some.injEq] at hg
            rw [← hg]
            exact Or.inr (Or.inl rfl)
          · rw [Function.update_of_ne hk] at hg
            exact Or.inl hg
      · rw [hhandlers] at hg
        exact Or.inl hg
      · rw [hhandlers] at hg
        exact Or.inl hg
  | serve k' inst op c next hjob => exact Or.inl hg
  | expire name => exact Or.inl hg
  | save k' h' hhandler =>
      by_cases hk : k = k'
      · simp only [hk, Function.update_self, Option.some.injEq] at hg
        refine Or.inr (Or.inr ⟨h', by rw [hk], by rw [hk]; exact hhandler, hg.symm⟩)
      · simp only [Function.update_of_ne hk] at hg
        exact Or.inl hg
  | emit _ h' d p hsealing hp => exact Or.inl hg

end Fleet

end SecureLlm
