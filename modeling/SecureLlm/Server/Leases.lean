import Mathlib.Tactic.Linarith
import SecureLlm.Library.Asking
import SecureLlm.Library.Transition
import SecureLlm.Server.FleetStep

/-!
# Records with a Time to Live

A fleet whose Redis drops a record once its time to live is over. The time is what is
left of the session's life, in whole seconds and not less than the floor, counted from
when the command is executed, which may be long after it was worked out.

Beside the fleet stands what Redis would hold if it never dropped anything. The two
differ in sessions alone that are over a second later. So a fleet may take a record
that is missing for a session that is gone: for no session that has a second left has
Redis forgotten what the fleet wrote.

## Main definitions

* `Leased`: A fleet, the time, and when each record is due.
* `Leased.kept`: What Redis would hold otherwise.
* `allowedAt`: What the tasks ask of Redis.
* `Leased.Covered`: The invariant.

## Theorems

* `Op.asks`: Every operation asks for times to live that are right.
* `keyTtl_reaches`: How far a time to live reaches.
* `redis_forgets_no_session`: What the fleet's Redis has forgotten.
-/

namespace SecureLlm

open Library Transition

/-- When the session is over, if it is not used or closed before. -/
def Session.ends (s : Session) : ℚ :=
  min (s.lastUsedAt + s.ttlSeconds) (s.createdAt + s.maxLifetimeSeconds)

/-- What a task may ask of Redis: a session is written under its own key, with a time
    to live worked out from the last reading of the clock. -/
def allowedAt (floor : ℤ) : Option ℚ → RedisCall → Prop
  | t, .set name value ex => ∃ (session : Session) (now : ℚ), t = some now ∧
    name = redisKey session.sessionId ∧ value = serialize session ∧
    ex = RedisStore.keyTtl floor session now
  | _, _ => True

section

variable {floor : ℤ} {α : Type} {t : Option ℚ}

theorem isExpired_asks {f : Bool → Task α} {r : Ref}
    (h : ∀ b t, (f b).Asks (allowedAt floor) t) :
    (Task.isExpired r >>= f).Asks (allowedAt floor) t :=
  fun now p => h ((p.heap r).isExpired now) (some now)

theorem reapKeys_asks (keys : List Bytes) (removed : ℕ) :
    (reapKeys keys removed).Asks (allowedAt floor) t := by
  induction keys generalizing removed t with
  | nil => trivial
  | cons sid rest ih =>
      intro p
      dsimp only
      cases p.table.get? sid with
      | none => trivial
      | some r =>
          refine isExpired_asks fun b t => ?_
          cases b with
          | true => exact fun _ => ih (removed + 1)
          | false => exact ih removed

theorem lookup_asks (sid : Bytes) : (RedisStore.lookup sid).Asks (allowedAt floor) t := by
  intro p
  dsimp only
  cases p.table.get? sid with
  | none => trivial
  | some r =>
      refine isExpired_asks fun b t => ?_
      cases b with
      | true => exact fun _ => trivial
      | false => trivial

theorem fetch_asks (sid : Bytes) : (RedisStore.fetch sid).Asks (allowedAt floor) t := by
  refine ⟨trivial, fun o => ?_⟩
  cases o with
  | none => trivial
  | some blob =>
      change Coop.Asks _ (Coop.bind (Task.ofExcept (deserialize blob)) _) _
      refine Coop.Asks.bind ?_ fun session t p => isExpired_asks fun b t => ?_
      · cases deserialize blob with
        | ok session => trivial
        | error e => trivial
      · cases b with
        | true => exact ⟨trivial, fun _ => trivial⟩
        | false => exact fun _ => trivial

theorem hydrate_asks (sid : Bytes) : (RedisStore.hydrate sid).Asks (allowedAt floor) t := by
  intro p
  dsimp only
  cases p.table.get? sid with
  | none => exact fetch_asks sid
  | some r =>
      refine isExpired_asks fun b t => ?_
      cases b with
      | true => exact fetch_asks sid
      | false => trivial

/-- The time to live is worked out right before it is sent. -/
theorem put_asks (r : Ref) : (RedisStore.put floor r).Asks (allowedAt floor) t :=
  fun _ _ now p _ => ⟨⟨p.heap r, now, rfl, rfl, rfl, rfl⟩, fun _ => trivial⟩

theorem delete_asks (sid : Bytes) : (RedisStore.delete sid).Asks (allowedAt floor) t :=
  fun _ => ⟨trivial, fun _ => trivial⟩

theorem withLock_asks {body : Task α} (h : body.Asks (allowedAt floor) none) :
    (Task.withLock body).Asks (allowedAt floor) t :=
  fun _ => Coop.Asks.tryFinally h fun _ _ => trivial

variable {ttl maxLife : ℤ}

/-- The manager of a server over Redis. -/
def redisManager (ttl maxLife floor : ℤ) : SessionManager := ⟨ttl, maxLife, RedisStore.store floor⟩

theorem find_asks (sid : Bytes) :
    ((redisManager ttl maxLife floor).find sid).Asks (allowedAt floor) t := by
  refine Coop.Asks.bind (lookup_asks sid) fun o t => ?_
  cases o with
  | none => exact hydrate_asks sid
  | some r => trivial

theorem lookupAsync_asks (sid : Bytes) :
    ((redisManager ttl maxLife floor).lookupAsync sid).Asks (allowedAt floor) t := by
  refine Coop.Asks.bind (find_asks sid) fun o t => ?_
  cases o with
  | none => trivial
  | some r =>
      refine isExpired_asks fun b t => ?_
      cases b with
      | true =>
          exact Coop.Asks.bind (fun _ => trivial) fun _ _ =>
            Coop.Asks.bind (delete_asks sid) fun _ _ => trivial
      | false => trivial

theorem terminate_asks (sid : Bytes) :
    ((redisManager ttl maxLife floor).terminate sid).Asks (allowedAt floor) t := by
  refine withLock_asks (Coop.Asks.bind (find_asks sid) fun o t => ?_)
  cases o with
  | none => trivial
  | some r => exact fun _ => delete_asks sid

theorem create_asks (material : SessionMaterial) :
    ((redisManager ttl maxLife floor).create material).Asks (allowedAt floor) t := by
  refine Coop.Asks.bind (fun _ => trivial) fun now t => ?_
  refine Coop.Asks.bind (fun _ => trivial) fun sess t => ?_
  exact Coop.Asks.bind (withLock_asks (put_asks sess)) fun _ _ => trivial

theorem decryptRequest_asks {V : Type} (aead : Aead) (request : Request)
    (schema : Bytes → Except String V) :
    (decryptRequest aead request (redisManager ttl maxLife floor) schema).Asks
      (allowedAt floor) t := by
  unfold decryptRequest
  by_cases hshort : request.body.length < 41
  · simp only [if_pos hshort]
    trivial
  · simp only [if_neg hshort]
    cases unpackEnvelope request.body with
    | error e => trivial
    | ok env =>
        refine Coop.Asks.bind (lookupAsync_asks env.sessionId) fun o t => ?_
        cases o with
        | none => trivial
        | some sess =>
            refine Coop.Asks.bind (fun _ => trivial) fun session t => ?_
            cases session.replay.checkAndAdvance env.counter with
            | error e => trivial
            | ok window =>
                refine Coop.Asks.bind (fun _ => trivial) fun _ t => ?_
                split
                · trivial
                · trivial
                · split
                  · trivial
                  · refine Coop.Asks.bind (fun _ => trivial) fun now t => ?_
                    refine Coop.Asks.bind (fun _ => trivial) fun _ t => ?_
                    exact Coop.Asks.bind (put_asks sess) fun _ _ => trivial

/-- **What the fleet asks of Redis.** Every operation writes sessions under their own
    keys, each with the time to live its last reading of the clock gives. -/
theorem Op.asks (aead : Aead) (op : Op) :
    (op.task aead (redisManager ttl maxLife floor)).Asks (allowedAt floor) t := by
  cases op with
  | create material => exact Coop.Asks.bind (create_asks material) fun _ _ => trivial
  | lookupAsync sid => exact Coop.Asks.bind (lookupAsync_asks sid) fun _ _ => trivial
  | terminate sid => exact Coop.Asks.bind (terminate_asks sid) fun _ _ => trivial
  | reapExpired =>
      refine Coop.Asks.bind (withLock_asks ?_) fun _ _ => trivial
      exact fun _ => reapKeys_asks _ 0
  | decryptRequest request schema =>
      exact Coop.Asks.bind (decryptRequest_asks aead request schema) fun _ _ => trivial

end

/-- What `max(0, int(x))` is short of. -/
theorem sub_one_lt_whole (x : ℚ) : x - 1 < ((max 0 (truncate x) : ℤ) : ℚ) := by
  by_cases hx : 0 ≤ x
  · have hfloor : x - 1 < (x.floor : ℚ) := by
      have := Rat.lt_floor (x := x)
      linarith
    have hle : ((x.floor : ℤ) : ℚ) ≤ ((max 0 (truncate x) : ℤ) : ℚ) := by
      rw [truncate, if_pos hx]
      exact_mod_cast le_max_right 0 x.floor
    linarith
  · have hle : (0 : ℚ) ≤ ((max 0 (truncate x) : ℤ) : ℚ) := by
      exact_mod_cast le_max_left 0 (truncate x)
    linarith

/-- **How far a time to live reaches**: to the last second of the session. -/
theorem keyTtl_reaches (floor : ℤ) (s : Session) (now : ℚ) :
    s.ends < now + RedisStore.keyTtl floor s now + 1 := by
  have hidle := sub_one_lt_whole (s.lastUsedAt + s.ttlSeconds - now)
  have hage := sub_one_lt_whole (s.createdAt + s.maxLifetimeSeconds - now)
  have hends : s.ends - now - 1 < ((min (max 0 (truncate (s.lastUsedAt + s.ttlSeconds - now)))
      (max 0 (truncate (s.createdAt + s.maxLifetimeSeconds - now))) : ℤ) : ℚ) := by
    rw [Int.cast_min, lt_min_iff]
    refine ⟨?_, ?_⟩
    · have := min_le_left (s.lastUsedAt + (s.ttlSeconds : ℚ)) (s.createdAt + s.maxLifetimeSeconds)
      rw [Session.ends]
      linarith
    · have := min_le_right (s.lastUsedAt + (s.ttlSeconds : ℚ)) (s.createdAt + s.maxLifetimeSeconds)
      rw [Session.ends]
      linarith
  have hfloor : ((min (max 0 (truncate (s.lastUsedAt + s.ttlSeconds - now)))
      (max 0 (truncate (s.createdAt + s.maxLifetimeSeconds - now))) : ℤ) : ℚ) ≤
      (RedisStore.keyTtl floor s now : ℚ) := by
    exact_mod_cast le_max_right floor _
  linarith

/-- A session that is over has expired. -/
theorem Session.isExpired_of_ends {s : Session} {time : ℚ} (h : s.ends < time) :
    s.isExpired time = true := by
  rw [Session.isExpired]
  rw [Session.ends, min_lt_iff] at h
  by_cases hclosed : s.closed = true
  · rw [if_pos hclosed]
  · rw [if_neg hclosed]
    by_cases hidle : (s.ttlSeconds : ℚ) < time - s.lastUsedAt
    · rw [if_pos hidle]
    · rw [if_neg hidle]
      rcases h with h | h
      · exact absurd (by linarith) hidle
      · exact decide_eq_true (by linarith)

/-- A fleet, the time, when Redis drops each record, and what it would hold if it never
    did. -/
structure Leased (ι : Type) where
  fleet : Fleet ι
  now : ℚ
  due : String → ℚ
  kept : String → Option Record

/-- An event of the fleet, and when it happens. -/
structure TimedEvent (ι : Type) where
  time : ℚ
  event : Event ι

namespace Leased

variable {ι : Type} [DecidableEq ι]

/-- From some time on. -/
def start (now : ℚ) : Leased ι := ⟨.start, now, fun _ => now, fun _ => none⟩

/-- The command that Redis executes at an event. -/
def command (w : Leased ι) : Event ι → Option RedisCall
  | .serve k =>
    match w.fleet.jobs k with
    | some ⟨_, _, .call c _⟩ => some c
    | _ => none
  | _ => none

/-- When records are due, after a command at a time. -/
def dueAfter (due : String → ℚ) (time : ℚ) : RedisCall → String → ℚ
  | .set name _ ex => Function.update due name (time + ex)
  | _ => due

/-- One step. Redis drops a record when it is due, or later. -/
def step (aead : Aead) (manager : SessionManager) (w : Leased ι) (e : TimedEvent ι) :
    Option (Leased ι) :=
  (w.fleet.step aead manager e.event).map fun fleet => {
    fleet
    now := e.time
    due := ((w.command e.event).map (dueAfter w.due e.time)).getD w.due
    kept := ((w.command e.event).map fun c => (c.exec w.kept).1).getD w.kept }

/-- Time does not go back, no server's clock is ahead of it, and Redis drops no record
    before it is due. -/
structure Proper (w : Leased ι) (e : TimedEvent ι) : Prop where
  time : w.now ≤ e.time
  clock : ∀ k clock, e.event = .run k clock → ∀ n, clock n ≤ e.time
  due : ∀ name, e.event = .expire name → w.due name ≤ e.time

/-- Redis holds nothing but what it was given, and still holds every session that has a
    second left. -/
structure Remembers (w : Leased ι) : Prop where
  given : ∀ name v, w.fleet.redis name = some v → w.kept name = some v
  holds : ∀ name v s, w.kept name = some v → deserialize v = .ok s →
    s.isExpired (w.now + 1) = false → w.fleet.redis name = some v

section

variable {aead : Aead} {ttl maxLife floor : ℤ} {w u : Leased ι} {e : TimedEvent ι}

/-- A record of a session, written under its own key. -/
def Holds (name : String) (v : Record) (bound : ℚ) : Prop :=
  ∃ s : Session, name = redisKey s.sessionId ∧ v = serialize s ∧ s.ends < bound + 1

/-- The invariant: what the tasks are about to write reaches to the end of its session,
    and so does what Redis holds; what it has dropped has reached it. -/
structure Covered (floor : ℤ) (w : Leased ι) : Prop where
  jobs : ∀ k job, w.fleet.jobs k = some job →
    ∃ t, (∀ r, t = some r → r ≤ w.now) ∧ job.rest.Asks (allowedAt floor) t
  held : ∀ name v, w.fleet.redis name = some v → Holds name v (w.due name) ∧ w.kept name = some v
  dropped : ∀ name v, w.kept name = some v →
    w.fleet.redis name = some v ∨ Holds name v w.now

theorem Holds.mono {name : String} {v : Record} {a b : ℚ} (h : Holds name v a) (hab : a ≤ b) :
    Holds name v b := by
  rcases h with ⟨s, hname, hv, hends⟩
  exact ⟨s, hname, hv, by linarith⟩

omit [DecidableEq ι] in
theorem covered_start (now : ℚ) : (start now : Leased ι).Covered floor := by
  refine ⟨fun k job hjob => ?_, fun name v hv => ?_, fun name v hv => ?_⟩
  · exact absurd hjob (by simp [start, Fleet.start])
  · exact absurd hv (by simp [start, Fleet.start])
  · exact absurd hv (by simp [start])

omit [DecidableEq ι] in
/-- A step that leaves Redis alone. -/
theorem Covered.quiet (h : w.Covered floor) {fleet : Fleet ι} {time : ℚ} (htime : w.now ≤ time)
    (hredis : fleet.redis = w.fleet.redis)
    (hjobs : ∀ k job, fleet.jobs k = some job →
      ∃ t, (∀ r, t = some r → r ≤ time) ∧ job.rest.Asks (allowedAt floor) t) :
    (⟨fleet, time, w.due, w.kept⟩ : Leased ι).Covered floor := by
  refine ⟨hjobs, fun name v hv => h.held name v (hredis ▸ hv), fun name v hv => ?_⟩
  rcases h.dropped name v hv with hheld | hover
  · exact Or.inl (hredis ▸ hheld)
  · exact Or.inr (hover.mono htime)

omit [DecidableEq ι] in
/-- The jobs of before, by a later time. -/
theorem Covered.jobs_later (h : w.Covered floor) {time : ℚ} (htime : w.now ≤ time) (k : ℕ)
    (job : Job ι) (hjob : w.fleet.jobs k = some job) :
    ∃ t, (∀ r, t = some r → r ≤ time) ∧ job.rest.Asks (allowedAt floor) t := by
  rcases h.jobs k job hjob with ⟨t, ht, hasks⟩
  exact ⟨t, fun r hr => (ht r hr).trans htime, hasks⟩

omit [DecidableEq ι] in
/-- Redis executes a command that a task was allowed to ask for. -/
theorem Covered.exec (h : w.Covered floor) {c : RedisCall} {t : Option ℚ} {time : ℚ}
    {fleet : Fleet ι} (htime : w.now ≤ time) (ht : ∀ r, t = some r → r ≤ w.now)
    (hask : allowedAt floor t c) (hredis : fleet.redis = (c.exec w.fleet.redis).1)
    (hjobs : ∀ k job, fleet.jobs k = some job →
      ∃ t, (∀ r, t = some r → r ≤ time) ∧ job.rest.Asks (allowedAt floor) t) :
    (⟨fleet, time, dueAfter w.due time c, (c.exec w.kept).1⟩ : Leased ι).Covered floor := by
  cases c with
  | get name => exact h.quiet htime hredis hjobs
  | delete gone =>
      refine ⟨hjobs, fun name v hv => ?_, fun name v hv => ?_⟩
      · rw [hredis, RedisCall.exec_delete] at hv
        change Holds name v (w.due name) ∧ Function.update w.kept gone none name = some v
        by_cases hname : name = gone
        · rw [hname, Function.update_self] at hv
          cases hv
        · rw [Function.update_of_ne hname] at hv ⊢
          exact h.held name v hv
      · change Function.update w.kept gone none name = some v at hv
        rw [hredis, RedisCall.exec_delete]
        by_cases hname : name = gone
        · rw [hname, Function.update_self] at hv
          cases hv
        · rw [Function.update_of_ne hname] at hv ⊢
          exact (h.dropped name v hv).imp_right fun hover => hover.mono htime
  | set key value ex =>
      rcases hask with ⟨s, now, hnow, hname, hvalue, hex⟩
      have hreach : Holds key value (time + ex) := by
        have hlate := keyTtl_reaches floor s now
        have hpast : now ≤ time := (ht now hnow).trans htime
        rw [← hex] at hlate
        exact ⟨s, hname, hvalue, by linarith⟩
      refine ⟨hjobs, fun name v hv => ?_, fun name v hv => ?_⟩
      · rw [hredis, RedisCall.exec_set] at hv
        change Holds name v (Function.update w.due key (time + ex) name) ∧
          Function.update w.kept key (some value) name = some v
        by_cases hname : name = key
        · rw [hname, Function.update_self] at hv
          rw [hname, Function.update_self, Function.update_self, ← Option.some.inj hv]
          exact ⟨hreach, rfl⟩
        · rw [Function.update_of_ne hname] at hv
          rw [Function.update_of_ne hname, Function.update_of_ne hname]
          exact h.held name v hv
      · change Function.update w.kept key (some value) name = some v at hv
        rw [hredis, RedisCall.exec_set]
        by_cases hname : name = key
        · rw [hname, Function.update_self] at hv ⊢
          exact Or.inl hv
        · rw [Function.update_of_ne hname] at hv ⊢
          exact (h.dropped name v hv).imp_right fun hover => hover.mono htime

omit [DecidableEq ι] in
/-- A record that is due is dropped. -/
theorem Covered.expire (h : w.Covered floor) {gone : String} {time : ℚ} {fleet : Fleet ι}
    (htime : w.now ≤ time) (hdue : w.due gone ≤ time)
    (hredis : fleet.redis = Function.update w.fleet.redis gone none)
    (hjobs : ∀ k job, fleet.jobs k = some job →
      ∃ t, (∀ r, t = some r → r ≤ time) ∧ job.rest.Asks (allowedAt floor) t) :
    (⟨fleet, time, w.due, w.kept⟩ : Leased ι).Covered floor := by
  refine ⟨hjobs, fun name v hv => ?_, fun name v hv => ?_⟩
  · rw [hredis] at hv
    by_cases hname : name = gone
    · rw [hname, Function.update_self] at hv
      cases hv
    · rw [Function.update_of_ne hname] at hv
      exact h.held name v hv
  · rw [hredis]
    rcases h.dropped name v hv with hheld | hover
    · by_cases hname : name = gone
      · rw [← hname] at hdue
        exact Or.inr ((h.held name v hheld).1.mono hdue)
      · rw [Function.update_of_ne hname]
        exact Or.inl hheld
    · exact Or.inr (hover.mono htime)

/-- **Every step keeps the invariant.** -/
theorem Covered.step (h : w.Covered floor) (hproper : w.Proper e)
    (hstep : w.step aead (redisManager ttl maxLife floor) e = some u) : u.Covered floor := by
  rw [Leased.step, Option.map_eq_some_iff] at hstep
  rcases hstep with ⟨fleet, hfleet, rfl⟩
  rcases e with ⟨time, event⟩
  have hlater := h.jobs_later hproper.time
  have hnew : ∀ {k : ℕ} {job : Job ι} {jobs : ℕ → Option (Job ι)},
      jobs = Function.update w.fleet.jobs k (some job) →
      (∃ t, (∀ r, t = some r → r ≤ time) ∧ job.rest.Asks (allowedAt floor) t) →
      ∀ k' job', jobs k' = some job' →
        ∃ t, (∀ r, t = some r → r ≤ time) ∧ job'.rest.Asks (allowedAt floor) t := by
    intro k job jobs hjobs hjob k' job' hjob'
    rw [hjobs] at hjob'
    by_cases hk : k' = k
    · rw [hk, Function.update_self] at hjob'
      rw [← Option.some.inj hjob']
      exact hjob
    · rw [Function.update_of_ne hk] at hjob'
      exact hlater k' job' hjob'
  cases Fleet.stepped_of_step aead _ w.fleet event fleet hfleet with
  | start k inst op hjob hhandler =>
      exact h.quiet hproper.time rfl
        (hnew rfl ⟨none, fun r hr => absurd hr (by simp), Op.asks aead op⟩)
  | run k clock job p clock' rest hjob hrun =>
      refine h.quiet hproper.time (w.fleet.settle_redis k job.inst job.op p rest) ?_
      intro k' job' hjob'
      rcases Fleet.job_of_settle w.fleet hjob' with ⟨-, hold⟩ | ⟨-, rfl, -⟩
      · exact hlater k' job' hold
      · rcases hlater k job hjob with ⟨t, ht, hasks⟩
        have hleft := hasks.advance (fun r => r ≤ time) clock (w.fleet.proc job.inst)
          (hproper.clock k clock rfl) ht
        rw [hrun] at hleft
        exact hleft
  | serve k inst op c next hjob =>
      rcases h.jobs k _ hjob with ⟨t, ht, hask, hnext⟩
      have hcommand : w.command (.serve k) = some c := by
        rw [command, hjob]
      rw [hcommand]
      exact h.exec hproper.time ht hask rfl
        (hnew rfl ⟨none, fun r hr => absurd hr (by simp), hnext _⟩)
  | expire name => exact h.expire hproper.time (hproper.due name rfl) rfl hlater
  | save k hd hhandler => exact h.quiet hproper.time rfl hlater
  | emit _ hd d p hsealing hp =>
      have hnone : w.command event = none := by
        cases event with
        | serve k => cases hsealing
        | _ => rfl
      rw [hnone]
      exact h.quiet hproper.time rfl hlater

omit [DecidableEq ι] in
theorem Covered.remembers (h : w.Covered floor) : w.Remembers := by
  refine ⟨fun name v hv => (h.held name v hv).2, fun name v s hv hs hlives => ?_⟩
  rcases h.dropped name v hv with hheld | ⟨written, -, rfl, hends⟩
  · exact hheld
  · rw [deserialize_serialize] at hs
    have hover : written.rehydrated.ends < w.now + 1 := hends
    rw [← Except.ok.inj hs, Session.isExpired_of_ends hover] at hlives
    cases hlives

end

end Leased

/-- **Redis forgets no session that is not over.** In every run of a fleet over a Redis
    that drops each record once its time to live is over, whatever its requests and
    however late their commands are executed: Redis still holds what the fleet has
    written last, and not deleted, of every session that has a second left. -/
theorem redis_forgets_no_session {ι : Type} [DecidableEq ι] (aead : Aead) (ttl maxLife floor : ℤ)
    (now : ℚ) (w : Leased ι)
    (hrun : Run (Leased.step aead (redisManager ttl maxLife floor)) (fun t e _ => t.Proper e)
      (.start now) w) :
    w.Remembers := by
  have hcovered : w.Covered floor := by
    refine hrun.invariant (fun t => t.Covered floor) (Leased.covered_start now) ?_
    intro t e u ht hproper hstep
    exact ht.step hproper hstep
  exact hcovered.remembers

/-- A session that is made, written ten seconds late, and dropped when that is due. -/
def leasedSample : List (TimedEvent Unit) :=
  [⟨0, .start 0 () (.create .sample)⟩, ⟨1, .run 0 (fun _ => 0)⟩, ⟨10, .serve 0⟩,
    ⟨11, .run 0 (fun _ => 0)⟩, ⟨910, .expire (redisKey SessionMaterial.sample.sessionId)⟩]

theorem redis_forgets_no_session_sample :
    ∃ w : Leased Unit, w.fleet.results.length = 1 ∧
      (w.kept (redisKey SessionMaterial.sample.sessionId)).isSome = true ∧
      w.fleet.redis (redisKey SessionMaterial.sample.sessionId) = none ∧ w.Remembers := by
  have hplay : ((playIf (fun w e => decide (w.now ≤ e.time) && decide (w.due
      (redisKey SessionMaterial.sample.sessionId) ≤ e.time ∨ e.time < 900)) (Leased.step .sample
        (redisManager 900 3600 60)) (.start 0) leasedSample).any fun w => decide
          (w.fleet.results.length = 1 ∧
            (w.kept (redisKey SessionMaterial.sample.sessionId)).isSome = true ∧
              w.fleet.redis (redisKey SessionMaterial.sample.sessionId) = none)) = true := by
    decide +kernel
  rcases (Option.any_eq_true _ _).mp hplay with ⟨w, hw, hend⟩
  rcases of_decide_eq_true hend with ⟨hresults, hkept, hredis⟩
  refine ⟨w, hresults, hkept, hredis, ?_⟩
  refine redis_forgets_no_session .sample 900 3600 60 0 w (run_of_playIf_of _ _ ?_ hw)
  intro e he t u hcheck
  rw [Bool.and_eq_true] at hcheck
  have htime := of_decide_eq_true hcheck.1
  have hdue := of_decide_eq_true hcheck.2
  simp only [leasedSample, List.mem_cons, List.not_mem_nil, or_false] at he
  rcases he with rfl | rfl | rfl | rfl | rfl
  · exact ⟨htime, fun k clock h => absurd h (by simp), fun name h => absurd h (by simp)⟩
  · refine ⟨htime, fun k clock h n => ?_, fun name h => absurd h (by simp)⟩
    rw [← (Event.run.inj h).2]
    have hpast : (0 : ℚ) ≤ 1 := by decide +kernel
    exact hpast
  · exact ⟨htime, fun k clock h => absurd h (by simp), fun name h => absurd h (by simp)⟩
  · refine ⟨htime, fun k clock h n => ?_, fun name h => absurd h (by simp)⟩
    rw [← (Event.run.inj h).2]
    have hpast : (0 : ℚ) ≤ 11 := by decide +kernel
    exact hpast
  · refine ⟨htime, fun k clock h => absurd h (by simp), fun name h => ?_⟩
    rw [← Event.expire.inj h]
    exact hdue.resolve_right (by decide +kernel)

end SecureLlm
