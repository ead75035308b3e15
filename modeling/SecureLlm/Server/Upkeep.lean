import SecureLlm.Server.FleetInvariant
import SecureLlm.Session.Erasure

/-!
# Upkeep

What a fleet keeps of its sessions. A property that no change to a session
breaks, and that every session is made with, holds of all objects and of all
records in Redis, in every run over either store. A step that loses no open
session moreover keeps every object that is in a table or closed.

## Main definitions

* `Process.Spares`: A change that loses no open session.
* `Fleet.Standing`: Every session has the property, and the tasks under way keep
  it.

## Theorems

* `Op.within`: The operations are within the bounds of upkeep.
* `Fleet.Standing.settle`: What a task that runs on leaves behind.
* `Fleet.Standing.step`: A step keeps the property.
-/

namespace SecureLlm

open Library

/-- The operations are within the bounds of upkeep. -/
theorem Op.within {P : Session → Prop} (hP : Session.Lasting P) (aead : Aead)
    (manager : SessionManager) (hstore : TidyStore P manager.store) (op : Op)
    (hcreate : ∀ m, op = .create m → ∀ now, P (.ofMaterial m manager.ttl manager.maxLife now))
    (time : Option ℚ) (p : Process) (h : p.All P) :
    (op.task aead manager).Within (upkeep P) (fun _ _ => True) time p := by
  cases op with
  | create m =>
      exact Coop.Within.bind _ _ _ _ time p h (Coop.Within.mono _ _ _ _ time p
        (fun _ _ _ _ _ => trivial) (create_within hstore time p h m (hcreate m rfl)))
  | lookupAsync sid =>
      exact Coop.Within.bind _ _ _ _ time p h (Coop.Within.mono _ _ _ _ time p
        (fun _ _ _ _ _ => trivial) (lookupAsync_within hstore time p h hP sid))
  | terminate sid =>
      exact Coop.Within.bind _ _ _ _ time p h (Coop.Within.mono _ _ _ _ time p
        (fun _ _ _ _ _ => trivial) (terminate_within hstore time p hP sid))
  | reapExpired =>
      exact Coop.Within.bind _ _ _ _ time p h (Coop.Within.mono _ _ _ _ time p
        (fun _ _ _ _ _ => trivial) (withLock_within time p _ (fun q hq =>
          hstore.reapExpired none q hq)))
  | decryptRequest request schema =>
      exact Coop.Within.bind _ _ _ _ time p h (Coop.Within.mono _ _ _ _ time p
        (fun _ _ _ _ _ => trivial) (decryptRequest_within hstore time p h hP aead request schema))

/-- The change does not lose an open session. -/
def Process.Spares (time : Option ℚ) (p q : Process) : Prop := ¬ p.Loses time q

namespace Fleet

variable {ι : Type}

/-- Every session has the property, in the processes and in Redis, and the tasks
    under way keep it. -/
structure Standing (P : Session → Prop) (f : Fleet ι) : Prop where
  procs : ∀ inst, (f.proc inst).All P
  redis : ∀ name v, f.redis name = some v → v.All P
  jobs : ∀ k job, f.jobs k = some job → ∀ p : Process, p.All P →
    job.rest.Within (upkeep P) (fun _ _ => True) none p

theorem standing_start (P : Session → Prop) (hdefault : P default) :
    (start : Fleet ι).Standing P where
  procs _ _ := hdefault
  redis _ _ h := absurd h nofun
  jobs _ _ h := absurd h nofun

variable {P : Session → Prop} {f : Fleet ι}

/-- Redis executes a command within the bounds, and answers within them. -/
theorem Standing.exec (h : f.Standing P) (c : RedisCall) (hask : (upkeep P).ask c) :
    (∀ name v, (c.exec f.redis).1 name = some v → v.All P) ∧
      (upkeep P).reply c (c.exec f.redis).2 := by
  cases c with
  | get name => exact ⟨h.redis, fun v hv => h.redis name v hv⟩
  | set name value ex =>
      refine ⟨fun name' v hv => ?_, trivial⟩
      rw [RedisCall.exec_set] at hv
      by_cases hname : name' = name
      · rw [hname, Function.update_self, Option.some.injEq] at hv
        rw [← hv]
        exact hask
      · rw [Function.update_of_ne hname] at hv
        exact h.redis name' v hv
  | delete name =>
      refine ⟨fun name' v hv => ?_, trivial⟩
      rw [RedisCall.exec_delete] at hv
      by_cases hname : name' = name
      · rw [hname, Function.update_self] at hv
        exact absurd hv nofun
      · rw [Function.update_of_ne hname] at hv
        exact h.redis name' v hv

/-- A job is replaced by one that keeps the property. -/
theorem Standing.updateJob (h : f.Standing P) (k : ℕ) (job : Option (Job ι))
    (hjob : ∀ j, job = some j → ∀ p : Process, p.All P →
      j.rest.Within (upkeep P) (fun _ _ => True) none p) (k' : ℕ) (job' : Job ι)
    (hk' : Function.update f.jobs k job k' = some job') (p : Process) (hp : p.All P) :
    job'.rest.Within (upkeep P) (fun _ _ => True) none p := by
  by_cases hk : k' = k
  · rw [hk, Function.update_self] at hk'
    exact hjob job' hk' p hp
  · rw [Function.update_of_ne hk] at hk'
    exact h.jobs k' job' hk' p hp

theorem emit_upkeep (hP : Session.Lasting P) (p q : Process) (r : Ref) (d : DirectionKeys)
    (hp : p.All P)
    (hq : q = p.change r Session.bump ∨ q = (p.change r Session.bump).note r (.sealed d)) :
    q.All P ∧ p.Fine q := by
  have hbump : (p.change r Session.bump).All P := hp.change p P r _ hP.bump
  have hfine : p.Fine (p.change r Session.bump) := .change p r _ (fun _ hs => hs)
  rcases hq with rfl | rfl
  · exact ⟨hbump, hfine⟩
  · exact ⟨hbump, hfine⟩

variable [DecidableEq ι]

theorem Standing.updateProc (h : f.Standing P) (inst : ι) (q : Process) (hq : q.All P) (i : ι) :
    (Function.update f.proc inst q i).All P := by
  by_cases hi : i = inst
  · rw [hi, Function.update_self]
    exact hq
  · rw [Function.update_of_ne hi]
    exact h.procs i

/-- One process changes to another that holds what it did. -/
theorem holds_update (inst i : ι) (q : Process) (r : Ref)
    (hq : (f.proc inst).Holds r → q.Holds r) (h : (f.proc i).Holds r) :
    (Function.update f.proc inst q i).Holds r := by
  by_cases hi : i = inst
  · rw [hi, Function.update_self]
    exact hq (hi ▸ h)
  · rw [Function.update_of_ne hi]
    exact h

omit [DecidableEq ι] in
/-- A task that runs on and loses no open session keeps what is held. -/
theorem holds_advance {α : Type} (task : Task α) (post : α → Process → Prop) (clock : ℕ → ℚ)
    (p : Process) (hp : p.All P) (htask : task.Within (upkeep P) post none p)
    (halong : task.Along Process.Spares none clock p) (r : Ref) (hr : p.Holds r) :
    (task.advance clock p).1.Holds r := by
  refine (Coop.Within.advance (upkeep P) post Process.Spares (fun q => q.Holds r) ?_ task none clock
    p (fun _ => trivial) hp htask halong hr).2.1
  intro t s u hchange hspares hs
  exact hchange.resolve_right hspares r hs

/-- A task that runs on keeps the property, and so will what is left of it. -/
theorem Standing.settle (h : f.Standing P) (k : ℕ) (inst : ι) (op : Op) (task : Task Result)
    (clock clock' : ℕ → ℚ) (p q : Process) (rest : Task Result) (hp : p.All P)
    (htask : task.Within (upkeep P) (fun _ _ => True) none p)
    (hrun : task.advance clock p = (q, clock', rest)) : (f.settle k inst op q rest).Standing P := by
  have hadvance := Coop.Within.advance (upkeep P) _ (fun _ _ _ => True) (fun _ => True)
    (fun _ _ _ _ _ _ => trivial) task none clock p (fun _ => trivial) hp htask
    (Coop.along_trivial _ _ _ _) trivial
  rw [hrun] at hadvance
  rcases hadvance with ⟨hq, -, hrest⟩
  refine ⟨?_, ?_, fun k' job' hk' u hu => ?_⟩
  · rw [settle_proc]
    exact h.updateProc inst q hq
  · rw [settle_redis]
    exact h.redis
  · rcases job_of_settle f hk' with ⟨-, hold⟩ | ⟨-, hleft, hdone, hfail⟩
    · exact h.jobs k' job' hold u hu
    · rw [hleft]
      rcases hrest with ⟨a, ha, -⟩ | ⟨e, he⟩ | hwithin
      · exact absurd ha (hdone a)
      · exact absurd he (hfail e)
      · exact hwithin none u

/-- A step keeps the property, if sessions are made with it, and if it loses no
    open session it keeps every object that is held. -/
theorem Standing.step (hP : Session.Lasting P) (aead : Aead) (manager : SessionManager)
    (hstore : TidyStore P manager.store) (h : f.Standing P) (g : Fleet ι) (e : Event ι)
    (hcreate : ∀ k inst m, e = .start k inst (.create m) →
      ∀ now, P (.ofMaterial m manager.ttl manager.maxLife now))
    (hstep : f.step aead manager e = some g) :
    g.Standing P ∧ ((∀ k clock job, e = .run k clock → f.jobs k = some job →
      job.rest.Along Process.Spares none clock (f.proc job.inst)) →
        ∀ i r, (f.proc i).Holds r → (g.proc i).Holds r) := by
  cases stepped_of_step aead manager f e g hstep with
  | start k inst op hjob hhandler =>
      refine ⟨⟨h.procs, h.redis, h.updateJob k _ fun j hj p hp => ?_⟩, fun _ _ _ hr => hr⟩
      rw [← Option.some.inj hj]
      exact Op.within hP aead manager hstore op
        (fun m hm => hcreate k inst m (by rw [hm])) none p hp
  | run k clock job p clock' rest hjob hrun =>
      have htask := h.jobs k job hjob _ (h.procs job.inst)
      refine ⟨h.settle k job.inst job.op job.rest clock clock' _ p rest (h.procs job.inst) htask
        hrun, fun hspares i r hr => ?_⟩
      have hholds := holds_advance job.rest _ clock _ (h.procs job.inst) htask
        (hspares k clock job rfl hjob) r
      rw [hrun] at hholds
      rw [settle_proc]
      exact holds_update job.inst i p r hholds hr
  | serve k inst op c next hjob =>
      have hwithin := h.jobs k _ hjob
      rcases h.exec c (hwithin _ (h.procs inst)).1 with ⟨hredis, hreply⟩
      refine ⟨⟨h.procs, hredis, h.updateJob k _ fun j hj p hp => ?_⟩, fun _ _ _ hr => hr⟩
      rw [← Option.some.inj hj]
      exact (hwithin p hp).2 p _ hp hreply
  | expire name =>
      refine ⟨⟨h.procs, fun name' v hv => ?_, h.jobs⟩, fun _ _ _ hr => hr⟩
      -- What has expired is no record any more.
      by_cases hname : name' = name
      · simp only [hname, Function.update_self] at hv
        exact absurd hv nofun
      · simp only [Function.update_of_ne hname] at hv
        exact h.redis name' v hv
  | save k hd hhandler => exact ⟨⟨h.procs, h.redis, h.jobs⟩, fun _ _ _ hr => hr⟩
  | emit _ hd d p hsealing hp =>
      rcases emit_upkeep hP _ p hd.sess _ (h.procs hd.inst) hp with ⟨hall, hfine⟩
      exact ⟨⟨h.updateProc hd.inst p hall, h.redis, h.jobs⟩,
        fun _ i r hr => holds_update hd.inst i p r (hfine r) hr⟩

end Fleet

end SecureLlm
