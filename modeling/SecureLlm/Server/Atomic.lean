import SecureLlm.Server.FleetStep

/-!
# Servers Without Redis

Over the in-memory store no operation ever suspends: nothing is asked of Redis,
and the lock is only held between two points of one uninterrupted run, so it is
free whenever an operation wants it. Each operation of such a server is atomic,
and what is suspended there has not begun.

## Main definitions

* `Process.Locked`: The lock is held or free.
* `Fleet.Idle`: No lock is held, and no operation under way has begun.

## Theorems

* `withLock_ends`: A task that ends, under the lock.
* `lookupAsync_ends`, `decryptRequest_ends`, `Op.ends`: Each operation runs to
  its end and leaves the lock free.
* `Fleet.Idle.settle`: What is under way runs to its end.
* `Fleet.Idle.step`: Between its steps a server in memory is idle.
* `create_advance`: What creating a session does to a process.
-/

namespace SecureLlm

open Library

/-- The lock is held, or it is free. -/
def Process.Locked (b : Bool) (p : Process) : Prop := p.locked = b

section Ends

variable {α : Type} (b : Bool) (sid : Bytes) (r : Ref) (p : Process)

-- The lock is free when it is asked for, and given back on both exits.
theorem withLock_ends (body : Task α) (hfree : p.Locked false)
    (hbody : ∀ q : Process, q.Locked true → body.Ends (Process.Locked true) q) :
    (Task.withLock body).Ends (Process.Locked false) p := by
  have hready : (!p.locked) = true := by rw [show p.locked = false from hfree]; rfl
  refine ⟨hready, ?_⟩
  exact Coop.Ends.tryFinally (Process.Locked true) _ _ _ _ (hbody _ rfl) (fun q hq t _ => hq _ rfl)

section Steps

variable (Q : Process → Prop)

/-- A task that looks an id up goes on with what the table has under it. -/
theorem tableGet_ends (f : Option Ref → Task α) (h : (f (p.table.get? sid)).Ends Q p) :
    (tableGet sid >>= f).Ends Q p := h

theorem read_ends (f : Session → Task α) (h : (f (p.heap r)).Ends Q p) :
    (Task.read r >>= f).Ends Q p := h

theorem change_ends (g : Session → Session) (f : Unit → Task α)
    (h : (f ()).Ends Q (p.change r g)) : (Task.change r g >>= f).Ends Q p := h

end Steps

theorem isExpired_bind_ends (f : Bool → Task α)
    (h : ∀ expired, (f expired).Ends (Process.Locked b) p) :
    (Task.isExpired r >>= f).Ends (Process.Locked b) p := fun _ => h _

namespace InMemory

theorem lookup_ends (hp : p.Locked b) : (InMemory.lookup sid).Ends (Process.Locked b) p := by
  refine tableGet_ends sid p _ _ ?_
  cases p.table.get? sid with
  | none => exact hp
  | some r =>
      refine isExpired_bind_ends b r p _ (fun expired => ?_)
      cases expired with
      | true => exact hp
      | false => exact hp

theorem put_ends (hp : p.Locked b) : (InMemory.put r).Ends (Process.Locked b) p := hp

end InMemory

theorem reapKeys_ends (keys : List Bytes) (removed : ℕ) (hp : p.Locked b) :
    (reapKeys keys removed).Ends (Process.Locked b) p := by
  induction keys generalizing removed p with
  | nil => exact hp
  | cons sid rest ih =>
      refine tableGet_ends sid p _ _ ?_
      cases p.table.get? sid with
      | none => exact hp
      | some r =>
          refine isExpired_bind_ends b r p _ (fun expired => ?_)
          cases expired with
          | true => exact ih (p.drop sid) (removed + 1) hp
          | false => exact ih p removed hp

variable (ttl maxLife : ℤ)

theorem find_ends (hp : p.Locked b) :
    (SessionManager.find ⟨ttl, maxLife, InMemory.store⟩ sid).Ends (Process.Locked b) p := by
  refine Coop.Ends.bind _ _ _ p (InMemory.lookup_ends b sid p hp) (fun o q hq => ?_)
  cases o with
  | none => exact InMemory.lookup_ends b sid q hq
  | some r => exact hq

theorem lookupAsync_ends (hp : p.Locked b) :
    (SessionManager.lookupAsync ⟨ttl, maxLife, InMemory.store⟩ sid).Ends (Process.Locked b) p := by
  refine Coop.Ends.bind _ _ _ p (find_ends b sid p ttl maxLife hp) (fun o q hq => ?_)
  cases o with
  | none => exact hq
  | some r =>
      refine isExpired_bind_ends b r q _ (fun expired => ?_)
      cases expired with
      | true => exact hq
      | false => exact hq

theorem terminate_ends (hp : p.Locked false) :
    (SessionManager.terminate ⟨ttl, maxLife, InMemory.store⟩ sid).Ends
      (Process.Locked false) p := by
  refine withLock_ends p _ hp (fun q hq => ?_)
  refine Coop.Ends.bind _ _ _ q (find_ends true sid q ttl maxLife hq) (fun o u hu => ?_)
  cases o with
  | none => exact hu
  | some r => exact hu

theorem decryptRequest_ends {V : Type} (aead : Aead) (request : Request)
    (schema : Bytes → Except String V) (hp : p.Locked b) :
    (decryptRequest aead request ⟨ttl, maxLife, InMemory.store⟩ schema).Ends (Process.Locked b)
      p := by
  rw [decryptRequest]
  by_cases hshort : request.body.length < 41
  · simp only [if_pos hshort]
    exact hp
  simp only [if_neg hshort]
  cases unpackEnvelope request.body with
  | error e => exact hp
  | ok env =>
      refine Coop.Ends.bind _ _ _ p (lookupAsync_ends b env.sessionId p ttl maxLife hp)
        (fun o q hq => ?_)
      cases o with
      | none => exact hq
      | some r =>
          refine read_ends r q _ _ ?_
          cases (q.heap r).replay.checkAndAdvance env.counter with
          | error e => exact hq
          | ok window =>
              refine change_ends r q _ _ _ ?_
              cases openEnvelope aead (q.heap r).c2s (q.heap r).sessionId request.method
                  request.path request.body with
              | error e => cases e <;> exact hq
              | ok result =>
                  dsimp only
                  cases schema result.2 with
                  | error message => exact hq
                  | ok value => exact fun _ => hq

/-- Every operation runs to its end and leaves the lock free. -/
theorem Op.ends (aead : Aead) (op : Op) (hp : p.Locked false) :
    (op.task aead ⟨ttl, maxLife, InMemory.store⟩).Ends (Process.Locked false) p := by
  cases op with
  | create m =>
      refine Coop.Ends.bind _ _ _ p ?_ (fun _ _ hq => hq)
      intro now
      exact Coop.Ends.bind _ (Task.withLock (InMemory.put p.next)) _ _
        (withLock_ends _ _ hp (fun q hq => InMemory.put_ends true p.next q hq)) (fun _ _ hq => hq)
  | lookupAsync sid =>
      exact Coop.Ends.bind _ _ _ p (lookupAsync_ends false sid p ttl maxLife hp) (fun _ _ hq => hq)
  | terminate sid =>
      exact Coop.Ends.bind _ _ _ p (terminate_ends sid p ttl maxLife hp) (fun _ _ hq => hq)
  | reapExpired =>
      refine Coop.Ends.bind _ _ _ p (withLock_ends p _ hp (fun q hq => ?_)) (fun _ _ hq => hq)
      exact reapKeys_ends true q _ 0 hq
  | decryptRequest request schema =>
      exact Coop.Ends.bind _ _ _ p (decryptRequest_ends false p ttl maxLife aead request schema hp)
        (fun _ _ hq => hq)

end Ends

/-- Creating a session makes one object, of the handshake's material, and leaves
    the others alone. -/
theorem create_advance (aead : Aead) (ttl maxLife : ℤ) (m : SessionMaterial) (clock : ℕ → ℚ)
    (p : Process) (hp : p.Locked false) :
    ∃ clock', (Op.task aead ⟨ttl, maxLife, InMemory.store⟩ (.create m)).advance clock p =
      ((((p.alloc (.ofMaterial m ttl maxLife (clock 0)) .created).setLocked true).assign
        ((p.alloc (.ofMaterial m ttl maxLife (clock 0)) .created).heap p.next).sessionId
        p.next).setLocked false, clock', .done (.created p.next)) := by
  have hready : (!p.locked) = true := by rw [show p.locked = false from hp]; rfl
  refine ⟨fun n => clock (n + 1), ?_⟩
  show (if (!p.locked) = true then _ else _) = _
  rw [if_pos hready]
  rfl

namespace Fleet

variable {ι : Type}

/-- No lock is held, and what is under way has not begun. -/
structure Idle (aead : Aead) (manager : SessionManager) (f : Fleet ι) : Prop where
  free : ∀ i, (f.proc i).Locked false
  fresh : ∀ k job, f.jobs k = some job → job.rest = job.op.task aead manager

theorem idle_start (aead : Aead) (manager : SessionManager) :
    (start : Fleet ι).Idle aead manager :=
  ⟨fun _ => rfl, fun _ _ h => absurd h nofun⟩

variable [DecidableEq ι] {aead : Aead} {ttl maxLife : ℤ} {f : Fleet ι}

/-- What is under way on an idle server in memory runs to its end: it leaves the
    lock free, and its result behind. -/
theorem Idle.settle (h : f.Idle aead ⟨ttl, maxLife, InMemory.store⟩) (k : ℕ) (job : Job ι)
    (hjob : f.jobs k = some job) (clock clock' : ℕ → ℚ) (p : Process) (rest : Task Result)
    (hrun : job.rest.advance clock (f.proc job.inst) = (p, clock', rest)) :
    p.Locked false ∧ ∃ res,
      (f.settle k job.inst job.op p rest).jobs = Function.update f.jobs k none ∧
      (f.settle k job.inst job.op p rest).results = (job.inst, job.op, res) :: f.results ∧
      ∀ a, res = .ok a → rest = .done a := by
  have hends := Op.ends (f.proc job.inst) ttl maxLife aead job.op (h.free job.inst)
  rw [← h.fresh k job hjob] at hends
  have hadvance := hends.advance _ _ clock _
  rw [hrun] at hadvance
  refine ⟨hadvance.1, ?_⟩
  rcases settle_cases f k job.inst job.op p rest with
    ⟨a, hdone, hjobs, hresults, -⟩ | ⟨e, -, hjobs, hresults, -⟩ | ⟨hdone, hfail, -⟩
  · exact ⟨.ok a, hjobs, hresults, fun b hb => by rw [hdone, Except.ok.inj hb]⟩
  · exact ⟨.error e, hjobs, hresults, fun b hb => absurd hb nofun⟩
  · rcases hadvance.2 with ⟨a, ha⟩ | ⟨err, he⟩
    · exact absurd ha (hdone a)
    · exact absurd he (hfail err)

/-- A server in memory that is idle is idle again after a step. -/
theorem Idle.step (h : f.Idle aead ⟨ttl, maxLife, InMemory.store⟩) (g : Fleet ι) (e : Event ι)
    (hstep : f.step aead ⟨ttl, maxLife, InMemory.store⟩ e = some g) :
    g.Idle aead ⟨ttl, maxLife, InMemory.store⟩ := by
  have hproc : ∀ inst p, p.Locked false → ∀ i, (Function.update f.proc inst p i).Locked false := by
    intro inst p hp i
    by_cases hi : i = inst
    · rw [hi, Function.update_self]
      exact hp
    · rw [Function.update_of_ne hi]
      exact h.free i
  cases stepped_of_step aead _ f e g hstep with
  | start k inst op hjob hhandler =>
      refine ⟨h.free, fun k' job hk' => ?_⟩
      by_cases hk : k' = k
      · simp only [hk, Function.update_self, Option.some.injEq] at hk'
        rw [← hk']
      · simp only [Function.update_of_ne hk] at hk'
        exact h.fresh k' job hk'
  | run k clock job p clock' rest hjob hrun =>
      rcases h.settle k job hjob clock clock' p rest hrun with ⟨hfree, -, hjobs, -⟩
      refine ⟨?_, fun k' job' hk' => ?_⟩
      · rw [settle_proc]
        exact hproc job.inst p hfree
      · rw [hjobs] at hk'
        by_cases hk : k' = k
        · rw [hk, Function.update_self] at hk'
          exact absurd hk' nofun
        · rw [Function.update_of_ne hk] at hk'
          exact h.fresh k' job' hk'
  | serve k inst op c next hjob =>
      -- An operation in memory never waits, so none is ever served.
      have hends := Op.ends (f.proc inst) ttl maxLife aead op (h.free inst)
      rw [← h.fresh k _ hjob] at hends
      exact absurd hends id
  | expire name => exact ⟨h.free, h.fresh⟩
  | save k hd hhandler => exact ⟨h.free, h.fresh⟩
  | emit _ hd d p hsealing hp =>
      refine ⟨hproc hd.inst p ?_, h.fresh⟩
      rcases hp with rfl | rfl
      · exact h.free hd.inst
      · exact h.free hd.inst

end Fleet

end SecureLlm
