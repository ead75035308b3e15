import SecureLlm.Server.FleetStep
import SecureLlm.Session.ManagerSafe

/-!
# The Invariant of a Fleet

Every process keeps its invariant, every record in Redis was written in the
run, every task under way will keep the contract when it goes on, and every
handler holds a session object that exists. One step keeps all of it,
`Fleet.Invariant.step`, so every run does.

There are two parameters. The discipline says what kind of sessions the run
makes and what its handlers seal. A set of sessions for each instance says what
is off limits there: the instance does not cache such a session, and Redis does
not hold it. With no session off limits this is the plain invariant.

## Main definitions

* `Op.target`: The session an operation is about.
* `Terms.Outcome`: What an operation promises of its result.
* `Fleet.Invariant`: The invariant.
* `Fleet.Allows`: The steps that keep it.

## Theorems

* `Op.safe`: Every operation is a safe task.
* `Process.emit_consistent`: Sealing keeps a process consistent.
* `Fleet.Invariant.update`: The invariant through a change of one process.
* `Fleet.Invariant.step`: An allowed step keeps the invariant.
* `Fleet.invariant_of_run`: A run of allowed steps keeps the invariant.
* `Fleet.Invariant.advance`: What a task that runs on keeps and promises.
* `Fleet.Invariant.history`: What a step adds to a history.
-/

namespace SecureLlm

open Library

/-- The session an operation is about. -/
def Op.target : Op → Option Bytes
  | .create material => some material.sessionId
  | .lookupAsync sid => some sid
  | .terminate sid => some sid
  | .reapExpired => none
  | .decryptRequest request _ => requestTarget request

/-- What an operation's result is worth: a session found is one, and the
    session of an accepted request exists. Neither is off limits. -/
def Terms.Outcome (T : Terms) (op : Op) : Result → Process → Prop
  | .found o, p => ∀ sid, op = .lookupAsync sid → T.Found sid o p
  | .accepted sess, p => sess < p.next ∧ ∀ sid, op.target = some sid → sid ∉ T.off
  | _, _ => True

/-- Every operation is a safe task, on terms about its own session. -/
theorem Op.safe (T : Terms) (aead : Aead) (manager : SessionManager)
    (hstore : LawfulStore T manager.store) (op : Op) (ht : T.target = op.target)
    (hcreate : ∀ m, op = .create m → T.remote = true ∧ m.sessionId ∉ T.off ∧
      ∀ now, T.discipline.kind (.ofMaterial m manager.ttl manager.maxLife now))
    (p : Process) (h : T.contract.inv p) :
    (op.task aead manager).Safe T.contract (T.Outcome op) p := by
  cases op with
  | create m =>
      obtain ⟨hremote, hoff, hkind⟩ := hcreate m rfl
      exact Coop.Safe.seq T.contract _ _ _ _ p h
        (create_safe T manager hremote hstore m p ht hoff h hkind) (fun _ _ _ _ _ => trivial)
  | lookupAsync sid =>
      refine Coop.Safe.seq T.contract _ _ _ _ p h (lookupAsync_safe T manager hstore sid p ht h)
        (fun o q _ _ hfound => ?_)
      intro sid' heq
      rw [← Op.lookupAsync.inj heq]
      exact hfound
  | terminate sid =>
      exact Coop.Safe.seq T.contract _ _ _ _ p h (terminate_safe T manager hstore sid p ht)
        (fun _ _ _ _ _ => trivial)
  | reapExpired =>
      exact Coop.Safe.seq T.contract _ _ _ _ p h (reapExpired_safe T manager hstore p)
        (fun _ _ _ _ _ => trivial)
  | decryptRequest request schema =>
      exact Coop.Safe.seq T.contract _ _ _ _ p h
        (decryptRequest_safe T manager aead hstore request schema p (fun _ hs => ht.trans hs) h)
        (fun _ _ _ _ ⟨env, _, _, hacc⟩ => ⟨hacc.exists_after, fun sid hsid => by
          rw [Op.target, requestTarget, hacc.unpacked] at hsid
          rw [← Option.some.inj hsid]
          exact hacc.allowed⟩)

/-- Sealing keeps a process consistent: the counter it seals under is above
    every counter noted for the session so far. -/
theorem Process.emit_consistent (D : Discipline) (p q : Process) (r : Ref) (keys : DirectionKeys)
    (h : p.Consistent D) (hr : r < p.next) (hnoted : D.noted ⟨r, (p.heap r).bump, .sealed keys⟩)
    (hq : q = p.change r Session.bump ∨ q = (p.change r Session.bump).note r (.sealed keys)) :
    q.Consistent D ∧ p.Grows q ∧ q.table = p.table := by
  have hbump := Session.evolves_bump (p.heap r)
  have hchange := p.change_consistent D r Session.bump h hbump
  have hgrows := p.change_grows r Session.bump hbump
  rcases hq with rfl | rfl
  · exact ⟨hchange, hgrows, rfl⟩
  · refine ⟨?_, hgrows.trans _ _ _ (Process.note_grows _ r (.sealed keys)), rfl⟩
    refine Process.note_consistent D _ r (.sealed keys) hchange hr ⟨nofun, nofun⟩ ?_ ?_
    · rw [Process.heap_change_self]
      exact hnoted
    · intro _ _ n hn hnr
      rw [Process.heap_change_self, ← hnr]
      exact Nat.lt_succ_of_le (h.notes n hn).2.1.s2cCounter

namespace Fleet

variable {ι : Type} (D : Discipline) (off : ι → Set Bytes)

/-- The terms a task runs on: on its instance, about its operation's session. -/
def terms (inst : ι) (op : Op) : Terms := ⟨D, op.target, off inst, true⟩

structure Invariant (f : Fleet ι) : Prop where
  procs : ∀ i, (f.proc i).Consistent D ∧ ∀ sid ∈ off i, (f.proc i).table.get? sid = none
  redis : ∀ name value, f.redis name = some value → ∃ s, D.written s ∧ value = serialize s ∧
    name = redisKey s.sessionId ∧ ∀ i, s.sessionId ∉ off i
  jobs : ∀ k job, f.jobs k = some job →
    job.rest.Settled (terms D off job.inst job.op).contract
      ((terms D off job.inst job.op).Outcome job.op) (f.proc job.inst)
  handlers : ∀ k h, f.handlers k = some h → h.sess < (f.proc h.inst).next

/-- The steps that keep the invariant: handshakes make sessions of the run's
    kind, handlers seal what the run allows, what is written to Redis is known
    as such, and what is off limits anywhere is written only where it is off
    limits, which is nowhere. -/
structure Allows (manager : SessionManager) (f : Fleet ι) (e : Event ι) : Prop where
  creates : ∀ k inst m, e = .start k inst (.create m) → m.sessionId ∉ off inst ∧
    ∀ now, D.kind (.ofMaterial m manager.ttl manager.maxLife now)
  seals : ∀ h d, f.sealing e = some (h, d) →
    D.noted ⟨h.sess, (f.session h).bump, .sealed (f.keys h d)⟩
  stored : ∀ i, ∀ n ∈ (f.proc i).history, n.kind = .stored → D.written n.session
  sets : ∀ k inst op sid value ex next, e = .serve k →
    f.jobs k = some ⟨inst, op, .call (.set (redisKey sid) value ex) next⟩ →
    sid ∉ off inst → ∀ i, sid ∉ off i

theorem invariant_start : (start : Fleet ι).Invariant D off where
  procs _ := ⟨Process.consistent_start D, fun _ _ => rfl⟩
  redis _ _ h := absurd h nofun
  jobs _ _ h := absurd h nofun
  handlers _ _ h := absurd h nofun

/-- What is known of any run at all: nothing is off limits, and the discipline
    asks for nothing. -/
def anything : Discipline where
  kind _ := True
  written _ := True
  noted _ := True
  kind_evolves _ _ _ _ := trivial
  kind_rehydrated _ _ := trivial
  noted_created _ _ _ := trivial
  noted_hydrated _ _ _ := trivial
  noted_stored _ _ _ := trivial

/-- Nothing is off limits. -/
def unrestricted : ι → Set Bytes := fun _ => ∅

theorem allows_anything (manager : SessionManager) (f : Fleet ι) (e : Event ι) :
    Allows anything unrestricted manager f e :=
  ⟨fun _ _ _ _ => ⟨fun h => h, fun _ => trivial⟩, fun _ _ _ => trivial,
    fun _ _ _ _ => trivial, fun _ _ _ _ _ _ _ _ _ _ _ h => h⟩

variable {D off} {f : Fleet ι}

theorem Invariant.inv (h : f.Invariant D off) (inst : ι) (op : Op) :
    (terms D off inst op).contract.inv (f.proc inst) := h.procs inst

/-- A job is replaced by one that is settled. -/
theorem Invariant.updateJob (h : f.Invariant D off) (k : ℕ) (job : Option (Job ι))
    (hjob : ∀ j, job = some j → j.rest.Settled (terms D off j.inst j.op).contract
      ((terms D off j.inst j.op).Outcome j.op) (f.proc j.inst)) :
    ({ f with jobs := Function.update f.jobs k job } : Fleet ι).Invariant D off where
  procs := h.procs
  redis := h.redis
  jobs k' j hj := by
    by_cases hk : k' = k
    · rw [hk] at hj
      simp only [Function.update_self] at hj
      exact hjob j hj
    · simp only [Function.update_of_ne hk] at hj
      exact h.jobs k' j hj
  handlers := h.handlers

/-- Redis holds something else that was written in the run. -/
theorem Invariant.updateRedis (h : f.Invariant D off) (db : String → Option Record)
    (hdb : ∀ name value, db name = some value → ∃ s, D.written s ∧ value = serialize s ∧
      name = redisKey s.sessionId ∧ ∀ i, s.sessionId ∉ off i) :
    ({ f with redis := db } : Fleet ι).Invariant D off :=
  ⟨h.procs, hdb, h.jobs, h.handlers⟩

/-- A handler is put in place. -/
theorem Invariant.updateHandler (h : f.Invariant D off) (k : ℕ) (hd : Handler ι)
    (hhd : hd.sess < (f.proc hd.inst).next) :
    ({ f with handlers := Function.update f.handlers k (some hd) } : Fleet ι).Invariant D off :=
  ⟨h.procs, h.redis, h.jobs, fun k' hd' hhandler => by
    by_cases hk : k' = k
    · simp only [hk, Function.update_self, Option.some.injEq] at hhandler
      rw [← hhandler]
      exact hhd
    · simp only [Function.update_of_ne hk] at hhandler
      exact h.handlers k' hd' hhandler⟩

/-- The invariant does not look at the results. -/
theorem Invariant.congr (h : f.Invariant D off) {g : Fleet ι} (hproc : g.proc = f.proc)
    (hredis : g.redis = f.redis) (hjobs : g.jobs = f.jobs) (hhandlers : g.handlers = f.handlers) :
    g.Invariant D off := by
  refine ⟨?_, ?_, ?_, ?_⟩
  · rw [hproc]
    exact h.procs
  · rw [hredis]
    exact h.redis
  · rw [hproc, hjobs]
    exact h.jobs
  · rw [hproc, hhandlers]
    exact h.handlers

/-- A handler that seals is one of the fleet's. -/
theorem handler_of_sealing (f : Fleet ι) (e : Event ι) (h : Handler ι) (d : Option DirectionKeys)
    (hsealing : f.sealing e = some (h, d)) : ∃ k, f.handlers k = some h := by
  cases e with
  | respond k useSaved method path body =>
      obtain ⟨h', hh, heq⟩ := Option.map_eq_some_iff.mp hsealing
      rw [← (Prod.mk.inj heq).1]
      exact ⟨k, hh⟩
  | chunk k method path body =>
      obtain ⟨h', hh, heq⟩ := Option.map_eq_some_iff.mp hsealing
      rw [← (Prod.mk.inj heq).1]
      exact ⟨k, hh⟩
  | start k inst op => exact absurd hsealing nofun
  | run k clock => exact absurd hsealing nofun
  | serve k => exact absurd hsealing nofun
  | expire name => exact absurd hsealing nofun
  | save k => exact absurd hsealing nofun

/-- Redis answers a command as it may, and holds what it may afterwards. -/
theorem Invariant.exec (h : f.Invariant D off) (inst : ι) (op : Op) (c : RedisCall)
    (hperm : (terms D off inst op).contract.perm (f.proc inst) c)
    (hstored : ∀ n ∈ (f.proc inst).history, n.kind = .stored → D.written n.session)
    (hset : ∀ sid value ex, c = .set (redisKey sid) value ex → sid ∉ off inst →
      ∀ i, sid ∉ off i) :
    (terms D off inst op).Answers c (c.exec f.redis).2 ∧
      ({ f with redis := (c.exec f.redis).1 } : Fleet ι).Invariant D off := by
  cases c with
  | get name =>
      refine ⟨fun value hvalue => ?_, h⟩
      obtain ⟨s, hwritten, heq, hname, hoff⟩ := h.redis name value hvalue
      exact ⟨s, hwritten, heq, hname, hoff inst⟩
  | set name value ex =>
      refine ⟨trivial, h.updateRedis _ (fun name' value' hvalue => ?_)⟩
      obtain ⟨-, sid, -, rfl, hoff, n, hn, hkind, rfl, rfl⟩ := hperm
      rw [RedisCall.exec_set] at hvalue
      by_cases hname : name' = redisKey n.session.sessionId
      · rw [hname, Function.update_self, Option.some.injEq] at hvalue
        exact ⟨n.session, hstored n hn hkind, hvalue.symm, hname, hset _ _ _ rfl hoff⟩
      · rw [Function.update_of_ne hname] at hvalue
        exact h.redis name' value' hvalue
  | delete name =>
      refine ⟨trivial, h.updateRedis _ (fun name' value' hvalue => ?_)⟩
      rw [RedisCall.exec_delete] at hvalue
      by_cases hname : name' = name
      · rw [hname, Function.update_self] at hvalue
        exact absurd hvalue nofun
      · rw [Function.update_of_ne hname] at hvalue
        exact h.redis name' value' hvalue

/-- A task that runs on keeps its contract. Where it ends its outcome is what
    its operation promises, and otherwise it stays safe. -/
theorem Invariant.advance (h : f.Invariant D off) (k : ℕ) (job : Job ι)
    (hjob : f.jobs k = some job) (clock clock' : ℕ → ℚ) (p : Process) (rest : Task Result)
    (hrun : job.rest.advance clock (f.proc job.inst) = (p, clock', rest)) :
    (terms D off job.inst job.op).contract.inv p ∧
      (terms D off job.inst job.op).contract.guar (f.proc job.inst) p ∧
      (∀ res, rest = .done res → (terms D off job.inst job.op).Outcome job.op res p) ∧
      ((∀ res, rest ≠ .done res) → rest.Settled (terms D off job.inst job.op).contract
        ((terms D off job.inst job.op).Outcome job.op) p) := by
  have hsafe := h.jobs k job hjob (f.proc job.inst) (h.inv job.inst job.op)
    (Coop.rely_refl _ _)
  obtain ⟨hinv, hguar, hrest⟩ := Coop.Safe.advance _ _ _ clock _ (h.inv _ _) hsafe
  simp only [hrun] at hinv hguar hrest
  refine ⟨hinv, hguar, fun res hres => ?_, fun hdone => ?_⟩
  · rcases hrest with ⟨a, ha, hpost⟩ | ⟨e, he⟩ | hsettled
    · rw [hres, Coop.done.injEq] at ha
      rw [ha]
      exact hpost
    · rw [hres] at he
      exact absurd he nofun
    · rw [hres] at hsettled
      exact hsettled p hinv (Coop.rely_refl _ _)
  · rcases hrest with ⟨a, ha, -⟩ | ⟨e, he⟩ | hsettled
    · exact absurd ha (hdone a)
    · rw [he]
      exact fun _ _ _ => trivial
    · exact hsettled

/-- A direction that a handler seals under in place of its session's own is the
    one it has put aside. -/
theorem saved_of_sealing (f : Fleet ι) (e : Event ι) (h : Handler ι) (d : DirectionKeys)
    (hsealing : f.sealing e = some (h, some d)) :
    ∃ k, f.handlers k = some h ∧ h.saved = some d := by
  cases e with
  | respond k useSaved method path body =>
      obtain ⟨h', hh, heq⟩ := Option.map_eq_some_iff.mp hsealing
      obtain ⟨rfl, hd⟩ := Prod.mk.inj heq
      refine ⟨k, hh, ?_⟩
      cases useSaved with
      | true => exact hd
      | false => exact absurd hd nofun
  | chunk k method path body =>
      obtain ⟨h', hh, heq⟩ := Option.map_eq_some_iff.mp hsealing
      exact absurd (Prod.mk.inj heq).2 nofun
  | start k inst op => exact absurd hsealing nofun
  | run k clock => exact absurd hsealing nofun
  | serve k => exact absurd hsealing nofun
  | expire name => exact absurd hsealing nofun
  | save k => exact absurd hsealing nofun

variable [DecidableEq ι]

/-- One process changes, and everything suspended there goes on as safely. -/
theorem Invariant.update (h : f.Invariant D off) (inst : ι) (q : Process) (hq : q.Consistent D)
    (hoff : ∀ sid ∈ off inst, q.table.get? sid = none) (hgrows : (f.proc inst).Grows q) :
    ({ f with proc := Function.update f.proc inst q } : Fleet ι).Invariant D off where
  procs i := by
    by_cases hi : i = inst
    · rw [hi]
      simp only [Function.update_self]
      exact ⟨hq, hoff⟩
    · simp only [Function.update_of_ne hi]
      exact h.procs i
  redis := h.redis
  jobs k job hjob := by
    by_cases hi : job.inst = inst
    · simp only [hi, Function.update_self]
      refine Coop.Settled.mono _ _ _ _ _ (hi ▸ h.jobs k job hjob) ⟨hgrows, fun hc => ?_⟩
      exact absurd hc nofun
    · simp only [Function.update_of_ne hi]
      exact h.jobs k job hjob
  handlers k hd hhandler := by
    by_cases hi : hd.inst = inst
    · simp only [hi, Function.update_self]
      exact lt_of_lt_of_le (hi ▸ h.handlers k hd hhandler) hgrows.next
    · simp only [Function.update_of_ne hi]
      exact h.handlers k hd hhandler

/-- What is left of a task that has run on keeps the invariant. -/
theorem Invariant.settle (h : f.Invariant D off) (k : ℕ) (job : Job ι) (hjob : f.jobs k = some job)
    (clock clock' : ℕ → ℚ) (p : Process) (rest : Task Result)
    (hrun : job.rest.advance clock (f.proc job.inst) = (p, clock', rest)) :
    (f.settle k job.inst job.op p rest).Invariant D off := by
  obtain ⟨hinv, hguar, hdone, hsettled⟩ := h.advance k job hjob clock clock' p rest hrun
  have hupd := h.update job.inst p hinv.1 hinv.2 hguar.1.1
  have hproc : Function.update f.proc job.inst p job.inst = p := Function.update_self _ _ _
  rcases settle_cases f k job.inst job.op p rest with
    ⟨res, hres, hjobs, -, hhandlers⟩ | ⟨e, -, hjobs, -, hhandlers⟩ |
    ⟨hnot, -, hjobs, -, hhandlers⟩
  · have hnone := hupd.updateJob k none nofun
    rcases hhandlers with hsame | ⟨sess, rfl, hnew⟩
    · exact hnone.congr (settle_proc ..) (settle_redis ..) hjobs hsame
    · -- The session of an accepted request exists.
      have hhandler := hnone.updateHandler k ⟨job.inst, sess, none⟩ (by
        simp only [hproc]
        exact (hdone _ hres).1)
      exact hhandler.congr (settle_proc ..) (settle_redis ..) hjobs hnew
  · have hnone := hupd.updateJob k none nofun
    exact hnone.congr (settle_proc ..) (settle_redis ..) hjobs hhandlers
  · have hsome := hupd.updateJob k (some ⟨job.inst, job.op, rest⟩) (fun j hj => by
      rw [← Option.some.inj hj]
      simp only [hproc]
      exact hsettled hnot)
    exact hsome.congr (settle_proc ..) (settle_redis ..) hjobs hhandlers

/-- An allowed step keeps the invariant. -/
theorem Invariant.step (aead : Aead) (manager : SessionManager)
    (hstore : ∀ T : Terms, T.remote = true → LawfulStore T manager.store) (g : Fleet ι)
    (e : Event ι) (h : f.Invariant D off) (hallows : Allows D off manager f e)
    (hstep : f.step aead manager e = some g) : g.Invariant D off := by
  cases stepped_of_step aead manager f e g hstep with
  | start k inst op hjob hhandler =>
      refine h.updateJob k _ (fun j hj => ?_)
      rw [← Option.some.inj hj]
      intro p hp _
      refine Op.safe _ aead manager (hstore _ rfl) op rfl (fun m hm => ⟨rfl, ?_⟩) p hp
      exact hallows.creates k inst m (by rw [hm])
  | run k clock job p clock' rest hjob hrun => exact h.settle k job hjob clock clock' p rest hrun
  | serve k inst op c next hjob =>
      obtain ⟨hperm, hnext⟩ := Coop.Settled.call _ _ _ _ _ (h.inv inst op) (h.jobs k _ hjob)
      obtain ⟨hreply, hredis⟩ := h.exec inst op c hperm (hallows.stored inst)
        (fun sid value ex hc hoff => by
          subst hc
          exact hallows.sets k inst op sid value ex next rfl hjob hoff)
      refine hredis.updateJob k _ (fun j hj => ?_)
      rw [← Option.some.inj hj]
      exact hnext _ hreply
  | expire name =>
      refine h.updateRedis _ (fun name' value hvalue => ?_)
      by_cases hname : name' = name
      · rw [hname, Function.update_self] at hvalue
        exact absurd hvalue nofun
      · rw [Function.update_of_ne hname] at hvalue
        exact h.redis name' value hvalue
  | save k hd hhandler => exact h.updateHandler k _ (h.handlers k hd hhandler)
  | emit _ hd d p hsealing hp =>
      obtain ⟨k, hk⟩ := handler_of_sealing f e hd d hsealing
      obtain ⟨hcons, hgrows, htable⟩ := Process.emit_consistent D _ p hd.sess (f.keys hd d)
        (h.procs hd.inst).1 (h.handlers k hd hk) (hallows.seals hd d hsealing) hp
      refine h.update hd.inst p hcons (fun sid hsid => ?_) hgrows
      rw [htable]
      exact (h.procs hd.inst).2 sid hsid

/-- A step only lets processes grow. -/
theorem Invariant.grows (aead : Aead) (manager : SessionManager) (g : Fleet ι) (e : Event ι)
    (h : f.Invariant D off) (hallows : Allows D off manager f e)
    (hstep : f.step aead manager e = some g) (i : ι) : (f.proc i).Grows (g.proc i) := by
  have hupdate : ∀ inst p, (f.proc inst).Grows p →
      (f.proc i).Grows (Function.update f.proc inst p i) := by
    intro inst p hp
    by_cases hi : i = inst
    · rw [hi, Function.update_self]
      exact hp
    · rw [Function.update_of_ne hi]
      exact Process.Grows.refl _
  cases stepped_of_step aead manager f e g hstep with
  | start k inst op hjob hhandler => exact Process.Grows.refl _
  | run k clock job p clock' rest hjob hrun =>
      rw [settle_proc]
      exact hupdate _ _ (h.advance k job hjob clock clock' p rest hrun).2.1.1.1
  | serve k inst op c next hjob => exact Process.Grows.refl _
  | expire name => exact Process.Grows.refl _
  | save k hd hhandler => exact Process.Grows.refl _
  | emit _ hd d p hsealing hp =>
      obtain ⟨k, hk⟩ := handler_of_sealing f e hd d hsealing
      exact hupdate _ _ (Process.emit_consistent D _ p hd.sess (f.keys hd d)
        (h.procs hd.inst).1 (h.handlers k hd hk) (hallows.seals hd d hsealing) hp).2.1

/-- What a step adds to a history. Where a handler seals it is the note on its
    envelope at most, and elsewhere nothing has been sealed. -/
theorem Invariant.history (aead : Aead) (manager : SessionManager) (g : Fleet ι) (e : Event ι)
    (h : f.Invariant D off) (hstep : f.step aead manager e = some g) (i : ι) :
    ∃ notes, (g.proc i).history = notes ++ (f.proc i).history ∧ ∀ n ∈ notes,
      (f.sealing e = none ∧ n.isSealed = false) ∨
        ∃ hd d, f.sealing e = some (hd, d) ∧ hd.inst = i ∧ n.ref = hd.sess ∧
          n.kind = .sealed (f.keys hd d) := by
  have hsame (q : Fleet ι) (hq : q.proc i = f.proc i) :
      ∃ notes, (q.proc i).history = notes ++ (f.proc i).history ∧ ∀ n ∈ notes,
        (f.sealing e = none ∧ n.isSealed = false) ∨
          ∃ hd d, f.sealing e = some (hd, d) ∧ hd.inst = i ∧ n.ref = hd.sess ∧
            n.kind = .sealed (f.keys hd d) :=
    ⟨[], by rw [hq]; rfl, fun _ hn => absurd hn List.not_mem_nil⟩
  cases stepped_of_step aead manager f e g hstep with
  | start k inst op hjob hhandler => exact hsame _ rfl
  | run k clock job p clock' rest hjob hrun =>
      by_cases hi : i = job.inst
      · rcases (h.advance k job hjob clock clock' p rest hrun).2.1.2.2 with ⟨notes, hnotes, hquiet⟩
        refine ⟨notes, ?_, fun n hn => Or.inl ⟨rfl, hquiet n hn⟩⟩
        rw [settle_proc, hi, Function.update_self, hnotes]
      · refine hsame _ ?_
        rw [settle_proc, Function.update_of_ne hi]
  | serve k inst op c next hjob => exact hsame _ rfl
  | expire name => exact hsame _ rfl
  | save k hd hhandler => exact hsame _ rfl
  | emit _ hd d p hsealing hp =>
      by_cases hi : i = hd.inst
      · subst hi
        rcases hp with rfl | rfl
        · refine ⟨[], ?_, fun _ hn => absurd hn List.not_mem_nil⟩
          simp only [Function.update_self]
          rfl
        · refine ⟨[⟨hd.sess, ((f.proc hd.inst).change hd.sess Session.bump).heap hd.sess,
            .sealed (f.keys hd d)⟩], ?_, fun n hn => Or.inr ⟨hd, d, hsealing, rfl, ?_⟩⟩
          · simp only [Function.update_self]
            rfl
          · rw [List.mem_singleton.mp hn]
            exact ⟨rfl, rfl⟩
      · exact hsame _ (Function.update_of_ne hi _ _)

/-- A run of allowed steps keeps the invariant. -/
theorem invariant_of_run (aead : Aead) (manager : SessionManager)
    (hstore : ∀ T : Terms, T.remote = true → LawfulStore T manager.store)
    (ok : Fleet ι → Event ι → Prop)
    (hok : ∀ f e, f.Invariant D off → ok f e → Allows D off manager f e) (f g : Fleet ι)
    (h : f.Invariant D off) (hrun : Run aead manager ok f g) : g.Invariant D off := by
  induction hrun with
  | refl => exact h
  | tail u v e _ he hstep ih => exact ih.step aead manager hstore v e (hok u e ih he) hstep

/-- Every run keeps the invariant that asks for nothing. -/
theorem Run.invariant (aead : Aead) (manager : SessionManager)
    (hstore : ∀ T : Terms, T.remote = true → LawfulStore T manager.store)
    (ok : Fleet ι → Event ι → Prop) (f : Fleet ι) (hrun : Run aead manager ok start f) :
    f.Invariant anything unrestricted :=
  invariant_of_run aead manager hstore ok (fun f e _ _ => allows_anything manager f e) start f
    (invariant_start _ _) hrun

end Fleet

end SecureLlm
