import SecureLlm.Crypto.Keystore
import SecureLlm.Server.Delivery
import SecureLlm.Server.Outlived

/-!
# Revocation

A server with its keystore, over either store, and a clock that never goes back.
Clients shake hands with it, the operations of the routers run on its event loop,
and the allowlist is read again while all of that is under way.

Reading the allowlist again touches no session. What it does is keep a key that
is gone or revoked from shaking hands, and so the sessions of that key come to
their end with the maximum lifetime of the last of them.

## Main definitions

* `Setup`: What a server is configured with.
* `Admission`: A handshake that was accepted.
* `Gate`: The server, its keystore, and what has been accepted.
* `Visit`, `Gate.step`: What may happen, and what it does.
* `Gate.Proper`: The clock goes on, and session ids have their length.
* `Gate.Run`: Runs all of whose states meet a condition.
* `Gate.Outlives`, `Gate.Sound`: What every run keeps.

## Theorems

* `Fleet.make_server`: What a handshake does to the server.
* `Gate.Sound.step`: A step keeps what is known of the run.
* `revocation_ends_handshakes`: What revoking a key does.
* `revoked_session_accepted`: What it does not do.
-/

namespace SecureLlm

open Library

/-- What a server is configured with, and the cryptography it uses. -/
structure Setup where
  crypto : Primitives
  aead : Aead
  skewSeconds : ℤ
  ttlSeconds : ℤ
  maxLife : ℤ
  backend : Backend

def Setup.manager (s : Setup) : SessionManager := ⟨s.ttlSeconds, s.maxLife, s.backend.store⟩

/-- A handshake that was accepted: the request, the session id it was given, and
    when its session was made. -/
structure Admission where
  request : HandshakeRequest
  sessionId : Bytes
  time : ℚ

/-- The handshake was the client's with this static key. -/
def Admission.By (a : Admission) (clientStaticPk : Bytes) : Prop :=
  b64dText a.request.clientStaticPk = .ok clientStaticPk

/-- The session of a request that has been accepted. -/
def Op.acceptedSid (op : Op) (rest : Task Result) : Option Bytes :=
  match op, rest with
  | .decryptRequest request _, .done (.accepted _) => requestTarget request
  | _, _ => none

theorem Op.of_acceptedSid (op : Op) (rest : Task Result) (sid : Bytes)
    (h : op.acceptedSid rest = some sid) : ∃ request schema sess,
      op = .decryptRequest request schema ∧ rest = .done (.accepted sess) ∧
        requestTarget request = some sid := by
  unfold Op.acceptedSid at h
  split at h
  · exact ⟨_, _, _, rfl, rfl, h⟩
  · exact absurd h nofun

/-- The readings of the clock a task leaves. -/
def Fleet.unread (f : Fleet Unit) (k : ℕ) (clock : ℕ → ℚ) : ℕ → ℚ :=
  match f.jobs k with
  | none => clock
  | some job => (job.rest.advance clock (f.proc job.inst)).2.1

/-- The server and its keystore, the time its clock has reached, when each
    operation began and, newest first, which handshakes have been accepted, and on
    which sessions requests have been, with the time each of them began. -/
structure Gate where
  server : Fleet Unit
  keystore : Keystore
  now : ℚ
  began : ℕ → ℚ
  admitted : List Admission
  accepted : List (Bytes × ℚ)

/-- A client shakes hands, another operation begins or runs on, Redis or a
    handler does something, or the allowlist is read again. -/
inductive Visit where
  | handshake (k : ℕ) (req : HandshakeRequest)
      (attestation : Option (Bytes → Except String (Option Bytes))) (clock : ℕ → ℚ)
      (serverEphSk sessionId : Bytes)
  | start (k : ℕ) (op : Op) (time : ℚ)
  | run (k : ℕ) (clock : ℕ → ℚ)
  | other (e : Event Unit)
  | reload (load : String → Except Exc (Dict Bytes AuthorizedClient)) (time : ℚ)

namespace Gate

/-- Nothing has happened yet. -/
def start (keystore : Keystore) (now : ℚ) : Gate :=
  ⟨Fleet.start, keystore, now, fun _ => now, [], []⟩

variable (s : Setup)

/-- One step. A handshake makes its session without suspending first, and one
    that is refused, or an allowlist that cannot be read, changes nothing. -/
def step (g : Gate) : Visit → Option Gate
  | .handshake k req attestation clock serverEphSk sessionId =>
    match performHandshake s.crypto req g.keystore.server g.keystore.allowlist s.skewSeconds
      s.ttlSeconds req.serverHost none attestation (clock 0) serverEphSk sessionId with
    -- Whoever is refused leaves no session.
    | .error _ => some { g with now := clock 1 }
    | .ok (_, material) => do
      let f ← g.server.step s.aead s.manager (.start k () (.create material))
      let server ← f.step s.aead s.manager (.run k (fun n => clock (n + 1)))
      return { g with
        server
        now := f.unread k (fun n => clock (n + 1)) 0
        admitted := ⟨req, sessionId, clock 1⟩ :: g.admitted }
  -- Sessions are made by handshakes only.
  | .start _ (.create _) _ => none
  | .start k op time =>
    (g.server.step s.aead s.manager (.start k () op)).map fun server =>
      { g with server, now := time, began := Function.update g.began k time }
  | .run k clock =>
    match g.server.jobs k with
    | none => none
    | some job =>
      let (p, clock', rest) := job.rest.advance clock (g.server.proc job.inst)
      some { g with
        server := g.server.settle k job.inst job.op p rest
        now := clock' 0
        accepted :=
          ((job.op.acceptedSid rest).map fun sid => (sid, g.began k)).toList ++ g.accepted }
  | .other (.start _ _ _) => none
  | .other (.run _ _) => none
  | .other e => (g.server.step s.aead s.manager e).map fun server => { g with server }
  | .reload load time =>
    match g.keystore.reloadAllowlist load with
    -- A file that does not load leaves the allowlist as it was.
    | .error _ => some { g with now := time }
    | .ok (keystore, _) => some { g with keystore, now := time }

/-- The clock does not go back, and session ids have the length they are made
    with. -/
def Proper (g : Gate) : Visit → Prop
  | .handshake _ _ _ clock _ sessionId =>
    Monotone clock ∧ g.now ≤ clock 0 ∧ sessionId.length = sessionIdBytes
  | .start _ _ time => g.now ≤ time
  | .run _ clock => Monotone clock ∧ g.now ≤ clock 0
  | .other _ => True
  | .reload _ time => g.now ≤ time

/-- The runs all of whose steps are proper and lead to a state with a property. -/
inductive Run (ok : Gate → Prop) (g : Gate) : Gate → Prop where
  | refl : Run ok g g
  | tail (h h' : Gate) (v : Visit) (hrun : Run ok g h) (hproper : h.Proper v)
      (hstep : h.step s v = some h') (hok : ok h') : Run ok g h'

end Gate

/-- A request on the session that begins after the time will not be accepted. -/
def Job.Late (sid : Bytes) (b began : ℚ) (job : Job Unit) : Prop :=
  ∀ request schema, job.op = .decryptRequest request schema → requestTarget request = some sid →
    b < began → ∀ p, (aging sid b).inv p →
      job.rest.Within (aging sid b) (fun _ _ => False) none p

/-- By the time every object of the session, and every record of it, is as old as
    it may be, and no request that begins later is accepted. -/
structure Gate.Outlives (sid : Bytes) (b : ℚ) (g : Gate) : Prop where
  standing : g.server.Standing (Session.Outlived sid b)
  late : ∀ k job, g.server.jobs k = some job → job.Late sid b (g.began k)
  accepted : ∀ t, (sid, t) ∈ g.accepted → t ≤ b

/-- What every run keeps. Nothing is known of an id that no handshake has handed
    out, and a session is outlived once the maximum lifetime has passed since the
    last handshake that did. -/
structure Gate.Sound (s : Setup) (g : Gate) : Prop where
  invariant : g.server.Invariant Fleet.anything Fleet.unrestricted
  began : ∀ k, g.began k ≤ g.now
  times : ∀ a ∈ g.admitted, a.time ≤ g.now
  ids : ∀ a ∈ g.admitted, a.sessionId.length = sessionIdBytes
  unknown : ∀ sid, (∀ a ∈ g.admitted, a.sessionId ≠ sid) →
    g.server.Invariant Fleet.anything (fun _ => {sid}) ∧ ∀ t, (sid, t) ∉ g.accepted
  outlives : ∀ sid b, sid.length = sessionIdBytes →
    (∀ a ∈ g.admitted, a.sessionId = sid → a.time + s.maxLife ≤ b) → g.Outlives sid b

namespace Fleet

/-- A job that has just been put in place does not matter once it has run on. -/
theorem settle_start {ι : Type} [DecidableEq ι] (f : Fleet ι) (k : ℕ) (inst : ι) (op : Op)
    (job : Option (Job ι)) (p : Process) (rest : Task Result) :
    ({ f with jobs := Function.update f.jobs k job } : Fleet ι).settle k inst op p rest =
      f.settle k inst op p rest := by
  cases rest with
  | done res => cases res <;> simp only [settle, Function.update_idem]
  | fail e => simp only [settle, Function.update_idem]
  | now next => simp only [settle, Function.update_idem]
  | step upd next => simp only [settle, Function.update_idem]
  | wait ready next => simp only [settle, Function.update_idem]
  | call c next => simp only [settle, Function.update_idem]

/-- What is left of a handshake's operation once its session is made. -/
def putNew (manager : SessionManager) (sess : Ref) : Task Result :=
  (Task.withLock (manager.store.put sess) >>= fun _ => pure sess) >>= fun sess =>
    pure (.created sess)

/-- A session is made at the first reading of the clock, and then put in place. -/
theorem make_server (aead : Aead) (manager : SessionManager) (f f' g : Fleet Unit) (k : ℕ)
    (m : SessionMaterial) (clock : ℕ → ℚ)
    (hstart : f.step aead manager (.start k () (.create m)) = some f')
    (hrun : f'.step aead manager (.run k clock) = some g) :
    ∃ p clock' rest,
      (putNew manager (f.proc ()).next).advance (fun n => clock (n + 1))
        ((f.proc ()).alloc (.ofMaterial m manager.ttl manager.maxLife (clock 0)) .created) =
          (p, clock', rest) ∧
      g = f.settle k () (.create m) p rest ∧ f'.unread k clock = clock' := by
  cases stepped_of_step aead manager f _ f' hstart with
  | start _ _ _ hjob hhandler =>
      cases stepped_of_step aead manager _ _ g hrun with
      | run _ _ job p clock' rest hjob' hadvance =>
          simp only [Function.update_self, Option.some.injEq] at hjob'
          subst hjob'
          refine ⟨p, clock', rest, hadvance, settle_start .., ?_⟩
          simp only [unread, Function.update_self]
          exact congrArg (fun x => x.2.1) hadvance
      | emit _ hd d p hsealing hp => exact absurd hsealing nofun
  | emit _ hd d p hsealing hp => exact absurd hsealing nofun

end Fleet

/-- Any event but the start of a handshake keeps an id off limits. -/
theorem Fleet.allows_unknown (manager : SessionManager) (f : Fleet Unit) (e : Event Unit)
    (sid : Bytes) (he : ∀ k inst m, e = .start k inst (.create m) → m.sessionId ≠ sid) :
    Fleet.Allows Fleet.anything (fun _ => {sid}) manager f e :=
  ⟨fun k inst m h => ⟨fun hmem => he k inst m h hmem, fun _ => trivial⟩, fun _ _ _ => trivial,
    fun _ _ _ _ => trivial, fun _ _ _ _ _ _ _ _ _ h _ => h⟩

/-- A request on the session that begins is refused, if it is late. -/
theorem late_task (s : Setup) (sid : Bytes) (b began : ℚ) (op : Op) :
    (⟨(), op, op.task s.aead s.manager⟩ : Job Unit).Late sid b began := by
  intro request schema hop htarget _ p hp
  simp only at hop ⊢
  subst hop
  refine Coop.Within.bind _ _ _ _ none p hp (Coop.Within.mono _ _ _ _ none p ?_
    (decryptRequest_outlived (s.backend.refuses sid b) none p hp s.aead request schema htarget))
  exact fun _ _ hfalse => hfalse.elim

namespace Gate

variable {s : Setup} {g : Gate}

/-- Redis answers a late request with records of outlived sessions. -/
theorem Outlives.reply {sid : Bytes} {b : ℚ} (h : g.Outlives sid b)
    (hinv : g.server.Invariant Fleet.anything Fleet.unrestricted) (c : RedisCall) :
    (aging sid b).reply c (c.exec g.server.redis).2 := by
  cases c with
  | get name =>
      intro v hv
      rcases hinv.redis name v hv with ⟨s, -, rfl, hname, -⟩
      exact ⟨s, rfl, hname, h.standing.redis name _ hv _ (deserialize_serialize s)⟩
  | set name value ex => trivial
  | delete name => trivial

-- Neither the start of an operation nor a run of one.
theorem Outlives.other {sid : Bytes} {b : ℚ} (h : g.Outlives sid b)
    (hinv : g.server.Invariant Fleet.anything Fleet.unrestricted) (e : Event Unit)
    (server : Fleet Unit) (hstart : ∀ k inst op, e ≠ .start k inst op)
    (hrun : ∀ k clock, e ≠ .run k clock)
    (hstep : g.server.step s.aead s.manager e = some server) :
    ({ g with server } : Gate).Outlives sid b := by
  refine ⟨?_, ?_, h.accepted⟩
  · exact (h.standing.step (Session.outlived_lasting sid b) s.aead s.manager
      (s.backend.tidy (Session.outlived_lasting sid b)) server e
      (fun k inst m he => absurd he (hstart k inst _)) hstep).1
  · intro k' job' hk'
    cases Fleet.stepped_of_step s.aead s.manager g.server e server hstep with
    | start k inst op hjob hhandler => exact absurd rfl (hstart k inst op)
    | run k clock job p clock' rest hjob hadvance => exact absurd rfl (hrun k clock)
    | serve k inst op c next hjob =>
        by_cases hk : k' = k
        · simp only [hk, Function.update_self, Option.some.injEq] at hk'
          rw [← hk', hk]
          intro request schema hop htarget hlate p hp
          exact (h.late k _ hjob request schema hop htarget hlate p hp).2 p _ hp (h.reply hinv c)
        · simp only [Function.update_of_ne hk] at hk'
          exact h.late k' job' hk'
    | expire name => exact h.late k' job' hk'
    | save k hd hhandler => exact h.late k' job' hk'
    | emit _ hd d p hsealing hp => exact h.late k' job' hk'

/-- A job that runs on is still late if it was, and is not accepted then. -/
theorem Outlives.run {sid : Bytes} {b : ℚ} (h : g.Outlives sid b)
    (hinv : g.server.Invariant Fleet.anything Fleet.unrestricted) (k : ℕ) (clock clock' : ℕ → ℚ)
    (job : Job Unit) (p : Process) (rest : Task Result) (hjob : g.server.jobs k = some job)
    (hbegan : ∀ n, g.began k ≤ clock n)
    (hadvance : job.rest.advance clock (g.server.proc job.inst) = (p, clock', rest)) (now : ℚ) :
    ({ g with
        server := g.server.settle k job.inst job.op p rest
        now := now
        accepted := ((job.op.acceptedSid rest).map fun sid => (sid, g.began k)).toList ++
          g.accepted } : Gate).Outlives sid b := by
  have hproc : (aging sid b).inv (g.server.proc job.inst) :=
    ⟨(hinv.procs job.inst).1, h.standing.procs job.inst⟩
  have hwithin : ∀ request schema, job.op = .decryptRequest request schema →
      requestTarget request = some sid → b < g.began k →
      (∃ e, rest = .fail e) ∨ ∀ q, rest.Within (aging sid b) (fun _ _ => False) none q := by
    intro request schema hop htarget hlate
    -- A request that begins after the bound finds no session, whatever it waits for.
    have hrun := Coop.Within.advance (aging sid b) _ (fun _ _ _ => True) (fun _ => True)
      (fun _ _ _ _ _ _ => trivial) job.rest none clock _ (fun n => lt_of_lt_of_le hlate (hbegan n))
      hproc (h.late k job hjob request schema hop htarget hlate _ hproc)
      (Coop.along_trivial _ _ _ _) trivial
    rw [hadvance] at hrun
    rcases hrun.2.2 with ⟨a, -, hfalse⟩ | hfail | hrest
    · exact hfalse.elim
    · exact Or.inl hfail
    · exact Or.inr fun q => hrest none q
  refine ⟨?_, ?_, ?_⟩
  · exact h.standing.settle k job.inst job.op job.rest clock clock' _ p rest
      (h.standing.procs job.inst)
      (h.standing.jobs k job hjob _ (h.standing.procs job.inst)) hadvance
  · intro k' job' hk'
    rcases Fleet.job_of_settle g.server hk' with ⟨-, hold⟩ | ⟨hk, hleft, -, hfail⟩
    · exact h.late k' job' hold
    · rw [hleft, hk]
      intro request schema hop htarget hlate q _
      rcases hwithin request schema hop htarget hlate with ⟨e, he⟩ | hrest
      · exact absurd he (hfail e)
      · exact hrest q
  · intro t ht
    simp only [List.mem_append, Option.mem_toList, Option.map_eq_some_iff] at ht
    rcases ht with ⟨sid', hsid, heq⟩ | hold
    · rcases Prod.mk.inj heq with ⟨rfl, rfl⟩
      by_contra hlate
      rcases Op.of_acceptedSid _ _ _ hsid with ⟨request, schema, sess, hop, rfl, htarget⟩
      rcases hwithin request schema hop htarget (not_le.mp hlate) with ⟨e, he⟩ | hrest
      · exact absurd he nofun
      · exact hrest p
    · exact h.accepted t hold

theorem sound_start (keystore : Keystore) (now : ℚ) : (start keystore now).Sound s where
  invariant := Fleet.invariant_start _ _
  began _ := le_refl _
  times _ h := absurd h List.not_mem_nil
  ids _ h := absurd h List.not_mem_nil
  unknown _ _ := ⟨Fleet.invariant_start _ _, fun _ => List.not_mem_nil⟩
  outlives sid b hlen _ := {
    standing := Fleet.standing_start _ fun hsid => by
      rw [← hsid] at hlen
      exact absurd hlen (by decide)
    late := fun _ _ h => absurd h nofun
    accepted := fun _ h => absurd h List.not_mem_nil }

/-- Time passes, and the allowlist may be another. -/
theorem Sound.later (h : g.Sound s) (keystore : Keystore) (now : ℚ) (hnow : g.now ≤ now) :
    ({ g with keystore, now } : Gate).Sound s where
  invariant := h.invariant
  began k := le_trans (h.began k) hnow
  times a ha := le_trans (h.times a ha) hnow
  ids := h.ids
  unknown := h.unknown
  outlives sid b hlen hb :=
    ⟨(h.outlives sid b hlen hb).standing, (h.outlives sid b hlen hb).late,
      (h.outlives sid b hlen hb).accepted⟩

/-- An operation that is no handshake begins. -/
theorem Sound.start (h : g.Sound s) (k : ℕ) (op : Op) (time : ℚ) (htime : g.now ≤ time)
    (hop : ∀ m, op ≠ .create m) (server : Fleet Unit)
    (hstep : g.server.step s.aead s.manager (.start k () op) = some server) :
    ({ g with server, now := time, began := Function.update g.began k time } : Gate).Sound s where
  invariant := h.invariant.step s.aead s.manager (fun T hT => s.backend.lawful T hT) server _
    (Fleet.allows_anything _ _ _) hstep
  began k' := by
    by_cases hk : k' = k
    · simp only [hk, Function.update_self, le_refl]
    · simp only [Function.update_of_ne hk]
      exact le_trans (h.began k') htime
  times a ha := le_trans (h.times a ha) htime
  ids := h.ids
  unknown sid hsid := by
    refine ⟨(h.unknown sid hsid).1.step s.aead s.manager (fun T hT => s.backend.lawful T hT)
      server _ (Fleet.allows_unknown _ _ _ sid fun _ _ m he => ?_) hstep, (h.unknown sid hsid).2⟩
    exact absurd (Event.start.inj he).2.2 (hop m)
  outlives sid b hlen hb := by
    have hout := h.outlives sid b hlen hb
    refine ⟨?_, fun k' job hk' => ?_, hout.accepted⟩
    · exact (hout.standing.step (Session.outlived_lasting sid b) s.aead s.manager
        (s.backend.tidy (Session.outlived_lasting sid b)) server _
        (fun k' inst m he => absurd (Event.start.inj he).2.2 (hop m)) hstep).1
    · cases Fleet.stepped_of_step s.aead s.manager g.server _ server hstep with
      | start _ _ _ hjob hhandler =>
          by_cases hk : k' = k
          · simp only [hk, Function.update_self, Option.some.injEq] at hk'
            rw [← hk']
            exact late_task s sid b _ op
          · simp only [Function.update_of_ne hk] at hk' ⊢
            exact hout.late k' job hk'
      | emit _ hd d p hsealing hp => exact absurd hsealing nofun

/-- An operation runs on. -/
theorem Sound.run (h : g.Sound s) (k : ℕ) (clock clock' : ℕ → ℚ) (hclock : Monotone clock)
    (hnow : g.now ≤ clock 0) (job : Job Unit) (p : Process) (rest : Task Result)
    (hjob : g.server.jobs k = some job)
    (hadvance : job.rest.advance clock (g.server.proc job.inst) = (p, clock', rest)) :
    ({ g with
        server := g.server.settle k job.inst job.op p rest
        now := clock' 0
        accepted := ((job.op.acceptedSid rest).map fun sid => (sid, g.began k)).toList ++
          g.accepted } : Gate).Sound s := by
  have hnow' : g.now ≤ clock' 0 := by
    rcases Coop.advance_clock job.rest clock (g.server.proc job.inst) with ⟨n, hn⟩
    rw [hadvance] at hn
    simp only at hn
    rw [hn]
    exact le_trans hnow (hclock (Nat.zero_le _))
  refine ⟨?_, fun k' => le_trans (h.began k') hnow', fun a ha => le_trans (h.times a ha) hnow',
    h.ids, ?_, ?_⟩
  · exact h.invariant.settle k job hjob clock clock' p rest hadvance
  · intro sid hsid
    rcases h.unknown sid hsid with ⟨hinv, hnone⟩
    refine ⟨hinv.settle k job hjob clock clock' p rest hadvance, fun t ht => ?_⟩
    simp only [List.mem_append, Option.mem_toList, Option.map_eq_some_iff] at ht
    rcases ht with ⟨sid', hsid', heq⟩ | hold
    · rcases Prod.mk.inj heq with ⟨rfl, -⟩
      rcases Op.of_acceptedSid _ _ _ hsid' with ⟨request, schema, sess, hop, hrest, htarget⟩
      -- The invariant with the id switched off says that no request is accepted on it.
      have houtcome := (hinv.advance k job hjob clock clock' p rest hadvance).2.2.1 _ hrest
      exact houtcome.2 sid' (by rw [hop]; exact htarget) rfl
    · exact hnone t hold
  · intro sid b hlen hb
    refine (h.outlives sid b hlen hb).run h.invariant k clock clock' job p rest hjob (fun n => ?_)
      hadvance (clock' 0)
    exact le_trans (h.began k) (le_trans hnow (hclock (Nat.zero_le n)))

/-- Redis or a handler does something. -/
theorem Sound.other (h : g.Sound s) (e : Event Unit) (server : Fleet Unit)
    (hstart : ∀ k inst op, e ≠ .start k inst op) (hrun : ∀ k clock, e ≠ .run k clock)
    (hstep : g.server.step s.aead s.manager e = some server) :
    ({ g with server } : Gate).Sound s where
  invariant := h.invariant.step s.aead s.manager (fun T hT => s.backend.lawful T hT) server e
    (Fleet.allows_anything _ _ _) hstep
  began := h.began
  times := h.times
  ids := h.ids
  unknown sid hsid :=
    ⟨(h.unknown sid hsid).1.step s.aead s.manager (fun T hT => s.backend.lawful T hT) server e
      (Fleet.allows_unknown _ _ _ sid fun k inst _ he => absurd he (hstart k inst _)) hstep,
      (h.unknown sid hsid).2⟩
  outlives sid b hlen hb := (h.outlives sid b hlen hb).other h.invariant e server hstart hrun hstep

/-- A handshake is accepted and its session made. -/
theorem Sound.handshake (h : g.Sound s) (k : ℕ) (req : HandshakeRequest) (m : SessionMaterial)
    (hid : m.sessionId.length = sessionIdBytes) (clock : ℕ → ℚ) (hclock : Monotone clock)
    (hnow : g.now ≤ clock 0) (f server : Fleet Unit)
    (hstart : g.server.step s.aead s.manager (.start k () (.create m)) = some f)
    (hrun : f.step s.aead s.manager (.run k (fun n => clock (n + 1))) = some server) :
    ({ g with
        server
        now := f.unread k (fun n => clock (n + 1)) 0
        admitted := ⟨req, m.sessionId, clock 1⟩ :: g.admitted } : Gate).Sound s := by
  rcases Fleet.make_server s.aead s.manager g.server f server k m _ hstart hrun with
    ⟨p, clock', rest, hadvance, hserver, hunread⟩
  -- The session is dated when it is made, and time goes on from there.
  have hlate : clock 1 ≤ f.unread k (fun n => clock (n + 1)) 0 := by
    rcases Coop.advance_clock (Fleet.putNew s.manager (g.server.proc ()).next)
      (fun n => clock (n + 1 + 1)) ((g.server.proc ()).alloc
        (.ofMaterial m s.manager.ttl s.manager.maxLife (clock 1)) .created) with ⟨n, hn⟩
    rw [hunread, show clock' = _ from (congrArg (fun x => x.2.1) hadvance).symm.trans hn]
    exact hclock (Nat.le_add_left 1 _)
  have hnow' : g.now ≤ f.unread k (fun n => clock (n + 1)) 0 :=
    le_trans hnow (le_trans (hclock (Nat.zero_le 1)) hlate)
  -- The two steps keep the invariant, also with other ids switched off.
  have hstep : ∀ off : Unit → Set Bytes, m.sessionId ∉ off () →
      g.server.Invariant Fleet.anything off → server.Invariant Fleet.anything off := by
    intro off hoff hinv
    have hallows : ∀ (u : Fleet Unit) (e : Event Unit),
        (∀ k inst m', e = .start k inst (.create m') → m'.sessionId ∉ off inst) →
          Fleet.Allows Fleet.anything off s.manager u e := fun u e he =>
      ⟨fun k inst m' hm => ⟨he k inst m' hm, fun _ => trivial⟩, fun _ _ _ => trivial,
        fun _ _ _ _ => trivial, fun _ _ _ _ _ _ _ _ _ h _ => h⟩
    have hf := hinv.step s.aead s.manager (fun T hT => s.backend.lawful T hT) f _
      (hallows _ _ fun _ _ m' he => by
        rw [← Op.create.inj (Event.start.inj he).2.2]
        exact hoff) hstart
    exact hf.step s.aead s.manager (fun T hT => s.backend.lawful T hT) server _
      (hallows f (.run k _) fun _ _ _ he => nomatch he) hrun
  refine ⟨hstep _ (fun h => h) h.invariant, fun k' => le_trans (h.began k') hnow', ?_, ?_, ?_, ?_⟩
  · intro a ha
    rcases List.mem_cons.mp ha with rfl | hold
    · exact hlate
    · exact le_trans (h.times a hold) hnow'
  · intro a ha
    rcases List.mem_cons.mp ha with rfl | hold
    · exact hid
    · exact h.ids a hold
  · intro sid hsid
    have hold := h.unknown sid fun a ha => hsid a (List.mem_cons_of_mem _ ha)
    exact ⟨hstep _ (hsid _ List.mem_cons_self) hold.1, hold.2⟩
  · intro sid b hlen hb
    have hout := h.outlives sid b hlen fun a ha => hb a (List.mem_cons_of_mem _ ha)
    have hmade : ((g.server.proc ()).alloc
        (.ofMaterial m s.manager.ttl s.manager.maxLife (clock 1)) .created).All
          (Session.Outlived sid b) :=
      (hout.standing.procs ()).alloc _ _ _ _ (fun hsid => hb _ List.mem_cons_self hsid)
    -- Putting the new session in place makes no session of the id outlast the bound.
    have hput : (Fleet.putNew s.manager (g.server.proc ()).next).Within
        (upkeep (Session.Outlived sid b)) (fun _ _ => True) none ((g.server.proc ()).alloc
          (.ofMaterial m s.manager.ttl s.manager.maxLife (clock 1)) .created) :=
      Coop.Within.bind _ _ _ _ none _ hmade (Coop.Within.mono _ _ _ _ none _
        (fun _ _ _ _ _ => trivial)
        (putNew_within (s.backend.tidy (Session.outlived_lasting sid b)) none _ hmade _))
    refine ⟨?_, fun k' job hk' => ?_, hout.accepted⟩
    · rw [hserver]
      exact hout.standing.settle k () (.create m) _ _ clock' _ p rest hmade hput hadvance
    -- The job of the handshake is not one of a request.
    · by_cases hk : k' = k
      · intro request schema hop
        rw [hserver] at hk'
        rcases Fleet.settle_cases g.server k () (.create m) p rest with
          ⟨_, -, hjobs, -⟩ | ⟨_, -, hjobs, -⟩ | ⟨-, -, hjobs, -⟩
        · simp only [hjobs, hk, Function.update_self] at hk'
          exact absurd hk' nofun
        · simp only [hjobs, hk, Function.update_self] at hk'
          exact absurd hk' nofun
        · simp only [hjobs, hk, Function.update_self, Option.some.injEq] at hk'
          rw [← hk'] at hop
          exact absurd hop nofun
      -- The other jobs are where they were.
      · have hsame : server.jobs k' = g.server.jobs k' := by
          rw [hserver]
          rcases Fleet.settle_cases g.server k () (.create m) p rest with
            ⟨_, -, hjobs, -⟩ | ⟨_, -, hjobs, -⟩ | ⟨-, -, hjobs, -⟩
          · rw [hjobs, Function.update_of_ne hk]
          · rw [hjobs, Function.update_of_ne hk]
          · rw [hjobs, Function.update_of_ne hk]
        simp only [hsame] at hk'
        exact hout.late k' job hk'

/-- A step keeps what is known of the run. Whoever it lets in was admitted by the
    allowlist it found. -/
theorem Sound.step (h : g.Sound s) (g' : Gate) (v : Visit) (hproper : g.Proper v)
    (hstep : g.step s v = some g') :
    g'.Sound s ∧ (g'.admitted = g.admitted ∨
      ∃ a pk, g'.admitted = a :: g.admitted ∧ a.By pk ∧ g.keystore.Admits pk) := by
  cases v with
  | handshake k req attestation clock serverEphSk sessionId =>
      rcases hproper with ⟨hclock, hnow, hid⟩
      rw [Gate.step] at hstep
      split at hstep
      · rw [← Option.some.inj hstep]
        exact ⟨h.later g.keystore _ (le_trans hnow (hclock (Nat.zero_le 1))), Or.inl rfl⟩
      · rename_i response m hm
        rcases performHandshake_admits s.crypto req g.keystore _ _ _ _ _ _ _ _ _ _ hm with
          ⟨⟨pk, hpk, hadmits⟩, hsid⟩
        simp only [bind, Option.bind_eq_some_iff, pure, Option.some.injEq] at hstep
        rcases hstep with ⟨f, hstart, server, hrun, rfl⟩
        rw [← hsid] at hid ⊢
        exact ⟨h.handshake k req m hid clock hclock hnow f server hstart hrun,
          Or.inr ⟨_, pk, rfl, hpk, hadmits⟩⟩
  | start k op time =>
      have hop : ∀ m, op ≠ .create m := by
        rintro m rfl
        exact absurd hstep nofun
      have hserver : ∃ server, g.server.step s.aead s.manager (.start k () op) = some server ∧
          { g with server, now := time, began := Function.update g.began k time } = g' := by
        cases op with
        | create m => exact absurd rfl (hop m)
        | lookupAsync sid => exact Option.map_eq_some_iff.mp hstep
        | terminate sid => exact Option.map_eq_some_iff.mp hstep
        | reapExpired => exact Option.map_eq_some_iff.mp hstep
        | decryptRequest request schema => exact Option.map_eq_some_iff.mp hstep
      rcases hserver with ⟨server, hserver, rfl⟩
      exact ⟨h.start k op time hproper hop server hserver, Or.inl rfl⟩
  | run k clock =>
      rw [Gate.step] at hstep
      split at hstep
      · exact absurd hstep nofun
      · rename_i job hjob
        rw [← Option.some.inj hstep]
        exact ⟨h.run k clock _ hproper.1 hproper.2 job _ _ hjob rfl, Or.inl rfl⟩
  | other e =>
      have hserver : (∀ k inst op, e ≠ .start k inst op) ∧ (∀ k clock, e ≠ .run k clock) ∧
          ∃ server, g.server.step s.aead s.manager e = some server ∧ { g with server } = g' := by
        cases e with
        | start k inst op => exact absurd hstep nofun
        | run k clock => exact absurd hstep nofun
        | serve k => exact ⟨nofun, nofun, Option.map_eq_some_iff.mp hstep⟩
        | expire name => exact ⟨nofun, nofun, Option.map_eq_some_iff.mp hstep⟩
        | save k => exact ⟨nofun, nofun, Option.map_eq_some_iff.mp hstep⟩
        | respond k useSaved method path body =>
            exact ⟨nofun, nofun, Option.map_eq_some_iff.mp hstep⟩
        | chunk k method path body => exact ⟨nofun, nofun, Option.map_eq_some_iff.mp hstep⟩
      rcases hserver with ⟨hstart, hrun, server, hserver, rfl⟩
      exact ⟨h.other e server hstart hrun hserver, Or.inl rfl⟩
  | reload load time =>
      rw [Gate.step] at hstep
      split at hstep
      · rw [← Option.some.inj hstep]
        exact ⟨h.later g.keystore time hproper, Or.inl rfl⟩
      · rename_i keystore n hload
        rw [← Option.some.inj hstep]
        exact ⟨h.later keystore time hproper, Or.inl rfl⟩

/-- While the allowlist does not admit a key, nobody with it is let in. -/
theorem Sound.run_revoked (h : g.Sound s) (g' : Gate) (clientStaticPk : Bytes)
    (hrevoked : ¬ g.keystore.Admits clientStaticPk)
    (hrun : Run s (fun h => ¬ h.keystore.Admits clientStaticPk) g g') :
    g'.Sound s ∧ (¬ g'.keystore.Admits clientStaticPk) ∧ g.admitted ⊆ g'.admitted ∧
      ∀ a ∈ g'.admitted, a.By clientStaticPk → a ∈ g.admitted := by
  induction hrun with
  | refl => exact ⟨h, hrevoked, List.Subset.refl _, fun _ ha _ => ha⟩
  | tail u u' v _ hproper hstep hok ih =>
      rcases ih with ⟨hsound, hgone, hsub, hold⟩
      -- Whoever is let in has a key that is admitted, and this one is not.
      rcases hsound.step u' v hproper hstep with ⟨hsound', hsame | ⟨a, pk, hnew, hby, hadmits⟩⟩
      · rw [hsame]
        exact ⟨hsound', hok, hsub, hold⟩
      · rw [hnew]
        refine ⟨hsound', hok, List.subset_cons_of_subset _ hsub, fun a' ha' hby' => ?_⟩
        rcases List.mem_cons.mp ha' with rfl | hmem
        · rw [Except.ok.inj (hby'.symm.trans hby)] at hgone
          exact absurd hadmits hgone
        · exact hold a' hmem hby'

theorem sound_of_run (ok : Gate → Prop) (keystore : Keystore) (now : ℚ)
    (hrun : Run s ok (Gate.start keystore now) g) : g.Sound s := by
  induction hrun with
  | refl => exact sound_start keystore now
  | tail u u' v _ hproper hstep _ ih => exact (ih.step u' v hproper hstep).1

end Gate

/-- **Revocation ends the handshakes of a key, and its sessions with them.** From
    a state in which the allowlist does not admit a client's key, and for as long
    as no later allowlist does, no handshake of the key is accepted; and a request
    accepted on a session of the key is on one that a handshake before had made,
    and began no later than the maximum lifetime after the state. -/
theorem revocation_ends_handshakes (s : Setup) (keystore : Keystore) (now : ℚ) (g g' : Gate)
    (clientStaticPk : Bytes)
    (hbefore : Gate.Run s (fun _ => True) (Gate.start keystore now) g)
    (hrevoked : ¬ g.keystore.Admits clientStaticPk)
    (hafter : Gate.Run s (fun h => ¬ h.keystore.Admits clientStaticPk) g g') :
    (∀ a ∈ g'.admitted, a.By clientStaticPk → a ∈ g.admitted) ∧
    ∀ sid time, (sid, time) ∈ g'.accepted →
      (∀ a ∈ g'.admitted, a.sessionId = sid → a.By clientStaticPk) →
        (∃ a ∈ g.admitted, a.sessionId = sid ∧ a.By clientStaticPk) ∧ time ≤ g.now + s.maxLife := by
  have hsound := Gate.sound_of_run _ keystore now hbefore
  rcases hsound.run_revoked g' clientStaticPk hrevoked hafter with ⟨hsound', -, hsub, hold⟩
  refine ⟨hold, fun sid time haccepted hby => ?_⟩
  -- Some handshake has handed the id out.
  have hknown : ∃ a ∈ g'.admitted, a.sessionId = sid := by
    by_contra hnone
    simp only [not_exists, not_and] at hnone
    exact (hsound'.unknown sid hnone).2 time haccepted
  rcases hknown with ⟨a, ha, hsid⟩
  have hlen : sid.length = sessionIdBytes := by
    rw [← hsid]
    exact hsound'.ids a ha
  refine ⟨⟨a, hold a ha (hby a ha hsid), hsid, hby a ha hsid⟩, ?_⟩
  refine (hsound'.outlives sid _ hlen fun a' ha' hsid' => ?_).accepted time haccepted
  have htime := hsound.times a' (hold a' ha' (hby a' ha' hsid'))
  exact Rat.add_le_add_right.mpr htime

/-- A server in memory that lists one client. -/
def Setup.sample : Setup := ⟨.sample, .sample, 30, 900, 3600, .memory⟩

def AuthorizedClient.sample : AuthorizedClient where
  name := "t"
  x25519Pk := pad32 [1]
  ed25519Pk := [2]
  scopes := ["chat"]

def Keystore.sample : Keystore where
  server := ⟨[3], pad32 [3], [4], [4]⟩
  allowlist := Dict.empty.set (pad32 [1]) .sample
  allowlistPath := some "clients"

/-- The handshake of that client. -/
def HandshakeRequest.sample : HandshakeRequest where
  clientStaticPk := b64e (pad32 [1])
  clientEphemeralPk := b64e (pad32 [5])
  timestamp := 100
  transcriptSig := b64e ([2] ++
    transcript (utf8 protocolLabel) (pad32 [1]) (pad32 [5]) (utf8 "h") 100)
  serverHost := some "h"

theorem handshake_sample : ∃ response c2s s2c,
    performHandshake .sample .sample Keystore.sample.server Keystore.sample.allowlist 30 900
      (some "h") none none 110 [6] (List.replicate 16 7) =
      .ok (response, ({
        sessionId := List.replicate 16 7
        c2s := c2s
        s2c := s2c
        ttlSeconds := 900
        clientFingerprint := fingerprint .sample (pad32 [1])
        scopes := ["chat"] } : SessionMaterial)) := by
  have hauth : Authentic .sample .sample Keystore.sample.allowlist 30 (some "h")
      ((none : Option ℤ).getD (truncate 110))
      ⟨pad32 [1], pad32 [5], .sample,
        transcript (utf8 protocolLabel) (pad32 [1]) (pad32 [5]) (utf8 "h") 100⟩ :=
    { protocol := Or.inl rfl
      skew := by decide +kernel
      staticPk := b64dText_b64e _
      ephPk := b64dText_b64e _
      sig := ⟨_, b64dText_b64e _⟩
      staticPk_length := length_pad32 _
      ephPk_length := length_pad32 _
      listed := by
        rw [Keystore.sample, Dict.get?_set, if_pos rfl]
      notRevoked := rfl
      notBefore := nofun
      notAfter := nofun
      transcript := ⟨utf8 "h", by
        have hhost : HandshakeRequest.sample.host (some "h") = Text.ofString "h" := by decide
        rw [hhost, Text.encode_ofString], rfl⟩
      signed := ⟨_, b64dText_b64e _, beq_self_eq_true _⟩ }
  rcases hkdf_length Primitives.sample _ _ sessionKeysInfo 72 (by decide) with
    ⟨keystream, hks, hlen⟩
  rcases deriveDirections_ok keystream hlen with ⟨c2s, s2c, hdirs⟩
  have hsession := establishSession_ok Primitives.sample ⟨pad32 [1], pad32 [5], .sample,
    transcript (utf8 protocolLabel) (pad32 [1]) (pad32 [5]) (utf8 "h") 100⟩ Keystore.sample.server
    900 [6] (List.replicate 16 7) _ _ _ keystream c2s s2c rfl rfl rfl hks hdirs
  exact ⟨_, c2s, s2c,
    (performHandshake_of_authentic _ _ _ _ _ _ _ _ _ _ _ _ _ hauth).trans hsession⟩

theorem Gate.step_handshake (s : Setup) (g : Gate) (k : ℕ) (req : HandshakeRequest)
    (attestation : Option (Bytes → Except String (Option Bytes))) (clock : ℕ → ℚ)
    (serverEphSk sessionId : Bytes) (response : HandshakeResponse) (m : SessionMaterial)
    (f server : Fleet Unit)
    (hm : performHandshake s.crypto req g.keystore.server g.keystore.allowlist s.skewSeconds
      s.ttlSeconds req.serverHost none attestation (clock 0) serverEphSk sessionId =
        .ok (response, m))
    (hstart : g.server.step s.aead s.manager (.start k () (.create m)) = some f)
    (hrun : f.step s.aead s.manager (.run k (fun n => clock (n + 1))) = some server) :
    g.step s (.handshake k req attestation clock serverEphSk sessionId) = some { g with
      server
      now := f.unread k (fun n => clock (n + 1)) 0
      admitted := ⟨req, sessionId, clock 1⟩ :: g.admitted } := by
  simp only [Gate.step, hm, hstart, hrun, bind, Option.bind, pure]

/-- A first session that is made in memory. -/
theorem make_first (aead : Aead) (ttl maxLife : ℤ) (m : SessionMaterial) (time : ℚ) :
    ∃ f server : Fleet Unit,
    Fleet.start.step aead ⟨ttl, maxLife, InMemory.store⟩ (.start 0 () (.create m)) = some f ∧
    f.step aead ⟨ttl, maxLife, InMemory.store⟩ (.run 0 (fun _ => time)) = some server ∧
    f.unread 0 (fun _ => time) = (fun _ => time) ∧
    (server.proc ()).table.get? m.sessionId = some 0 ∧
    (server.proc ()).heap 0 = .ofMaterial m ttl maxLife time ∧
    server.jobs 1 = none ∧ server.handlers 1 = none := by
  refine ⟨_, _, rfl, rfl, rfl, ?_, rfl, rfl, rfl⟩
  exact (Dict.get?_set (Dict.empty : Dict Bytes Ref) m.sessionId m.sessionId 0).trans (if_pos rfl)

/-- A request a client seals first. -/
theorem exists_request (aead : Aead) (direction : DirectionKeys) (sid : Bytes)
    (hsid : sid.length = sessionIdBytes) : ∃ (body : Bytes) (env : Envelope), env.counter = 1 ∧
      openEnvelope aead direction sid "POST" "/v1/chat" body = .ok (env, []) := by
  have haad : ∃ aad, buildAad "POST" "/v1/chat" sid 1 = .ok aad := ⟨_, rfl⟩
  rcases haad with ⟨aad, haad⟩
  have hnonce : ∃ nonce, nonceFor direction 1 = .ok nonce :=
    ⟨_, (nonceFor_eq_ok_iff direction 1 _).mpr ⟨by decide, by decide, rfl⟩⟩
  rcases hnonce with ⟨nonce, hnonce⟩
  have hpack := packEnvelope_natCast sid 1 nonce (aead.encrypt [] aad nonce direction.key) hsid
    (length_nonceFor _ _ _ hnonce) (by decide)
  have hseal := (sealEnvelope_eq_ok_iff aead direction 1 sid "POST" "/v1/chat" [] _).mpr
    ⟨nonce, aad, hnonce, haad, hpack⟩
  rcases openEnvelope_sealEnvelope aead direction 1 sid "POST" "/v1/chat" [] _ hsid hseal with
    ⟨env, hcounter, hopen⟩
  exact ⟨_, env, hcounter, hopen⟩

/-- The first request on a session is accepted in memory while the session lives. -/
theorem accept_first (aead : Aead) (ttl maxLife : ℤ) (m : SessionMaterial) (t time : ℚ)
    (request : Request) (env : Envelope) (f : Fleet Unit)
    (hopen : openEnvelope aead m.c2s m.sessionId request.method request.path request.body =
      .ok (env, []))
    (hcounter : env.counter = 1)
    (htable : (f.proc ()).table.get? m.sessionId = some 0)
    (hheap : (f.proc ()).heap 0 = .ofMaterial m ttl maxLife t)
    (hlive : (Session.ofMaterial m ttl maxLife t).isExpired time = false) :
    ∃ p, ((Op.decryptRequest request (fun _ => .ok ())).task aead
      ⟨ttl, maxLife, InMemory.store⟩).advance (fun _ => time) (f.proc ()) =
        (p, fun _ => time, .done (.accepted 0)) := by
  rcases (openEnvelope_eq_ok_iff _ _ _ _ _ _ _ _).mp hopen with ⟨hunpack, hsid, -⟩
  have hlookup := lookupAsync_advance ttl maxLife env.sessionId time (f.proc ())
  rw [(Process.live_eq_some_iff _ _ time 0).mpr ⟨hsid ▸ htable, hheap ▸ hlive⟩] at hlookup
  have hrun := decryptRequest_of_lookup aead ttl maxLife request (fun _ => .ok ()) (f.proc ()) env
    hunpack _ _ _ 0 hlookup
  have hcheck : ∃ window,
      (Session.ofMaterial m ttl maxLife t).replay.checkAndAdvance (env.counter : ℤ) =
        .ok window := by
    rw [hcounter]
    exact ⟨_, rfl⟩
  rcases hcheck with ⟨window, hcheck⟩
  rw [hheap, hcheck] at hrun
  simp only at hrun
  rw [show (Session.ofMaterial m ttl maxLife t).c2s = m.c2s from rfl,
    show (Session.ofMaterial m ttl maxLife t).sessionId = m.sessionId from rfl, hopen] at hrun
  exact ⟨_, Coop.advance_bind _ _ _ _ _ _ _ hrun⟩

/-- A request begins and is accepted without a suspension. -/
theorem Gate.run_request (s : Setup) (ok : Gate → Prop) (g : Gate) (k : ℕ) (request : Request)
    (schema : Bytes → Except String Unit) (time : ℚ) (p : Process) (sess : Ref) (sid : Bytes)
    (hjobs : g.server.jobs k = none) (hhandlers : g.server.handlers k = none) (hnow : g.now ≤ time)
    (htarget : requestTarget request = some sid)
    (hadvance : ((Op.decryptRequest request schema).task s.aead s.manager).advance (fun _ => time)
      (g.server.proc ()) = (p, fun _ => time, .done (.accepted sess)))
    (hok : ∀ h : Gate, h.keystore = g.keystore → ok h) :
    ∃ g', Gate.Run s ok g g' ∧ g'.admitted = g.admitted ∧
      g'.accepted = (sid, time) :: g.accepted := by
  have hstart : ∃ u, g.step s (.start k (.decryptRequest request schema) time) = some u ∧
      u = { g with
        server := { g.server with
          jobs := Function.update g.server.jobs k (some ⟨(), .decryptRequest request schema,
            (Op.decryptRequest request schema).task s.aead s.manager⟩) }
        now := time
        began := Function.update g.began k time } := by
    refine ⟨_, ?_, rfl⟩
    simp only [Gate.step, Fleet.step, hjobs, hhandlers, Option.map_some]
  rcases hstart with ⟨u, hu, hstate⟩
  have hrun : ∃ v, u.step s (.run k (fun _ => time)) = some v ∧ v.keystore = g.keystore ∧
      v.admitted = g.admitted ∧ v.accepted = (sid, time) :: g.accepted := by
    rw [hstate]
    simp only [Gate.step, Function.update_self, hadvance, Op.acceptedSid, htarget]
    exact ⟨_, rfl, rfl, rfl, rfl⟩
  rcases hrun with ⟨v, hv, hkeystore, hadmitted, haccepted⟩
  have hproper : u.Proper (.run k fun _ => time) := by
    rw [hstate]
    exact ⟨fun _ _ _ => le_refl _, le_refl _⟩
  have hbegun : Gate.Run s ok g u :=
    .tail _ _ (.start k (.decryptRequest request schema) time) .refl hnow hu
      (hok u (hstate ▸ rfl))
  exact ⟨v, .tail _ _ _ hbegun hproper hv (hok v hkeystore), hadmitted, haccepted⟩

/-- The listed client shakes hands, its key is taken off the allowlist, and then
    a request on its session is accepted. -/
theorem run_revoked_sample : ∃ (g₀ g g' : Gate) (a : Admission),
    Gate.Run .sample (fun _ => True) (Gate.start .sample 0) g₀ ∧
    g₀.Proper (.reload (fun _ => .ok Dict.empty) 200) ∧
    g₀.step .sample (.reload (fun _ => .ok Dict.empty) 200) = some g ∧
    ¬ g.keystore.Admits (pad32 [1]) ∧
    Gate.Run .sample (fun h => ¬ h.keystore.Admits (pad32 [1])) g g' ∧
    g₀.admitted = [a] ∧ g.admitted = [a] ∧ g'.admitted = [a] ∧ a.By (pad32 [1]) ∧
    g.accepted = [] ∧ g'.accepted = [(a.sessionId, 300)] := by
  rcases handshake_sample with ⟨response, c2s, s2c, hm⟩
  rcases exists_request .sample c2s (List.replicate 16 7) rfl with ⟨body, env, hcounter, hopen⟩
  generalize hmaterial : SessionMaterial.mk (List.replicate 16 7) c2s s2c 900
    (fingerprint .sample (pad32 [1])) ["chat"] "default" = m at hm
  rcases make_first .sample 900 3600 m 110 with
    ⟨f, server, hstart, hrun, hunread, htable, hheap, hjobs, hhandlers⟩
  have hstep := Gate.step_handshake .sample (Gate.start .sample 0) 0 .sample none (fun _ => 110) [6]
    (List.replicate 16 7) response m f server hm hstart hrun
  have htarget : requestTarget ⟨"POST", "/v1/chat", body⟩ = some (List.replicate 16 7) := by
    rcases (openEnvelope_eq_ok_iff _ _ _ _ _ _ _ _).mp hopen with ⟨hunpack, hsid, -⟩
    simp only [requestTarget, hunpack, hsid]
  have hlive : (Session.ofMaterial m 900 3600 110).isExpired 300 = false := by
    have hused : ¬ ((900 : ℤ) : ℚ) < 300 - 110 := by decide +kernel
    have hmade : ¬ ((3600 : ℤ) : ℚ) < 300 - 110 := by decide +kernel
    rw [← hmaterial]
    exact (if_neg hused).trans (decide_eq_false hmade)
  have haccept := accept_first .sample 900 3600 m 110 300 ⟨"POST", "/v1/chat", body⟩ env server
    (by rw [← hmaterial]; exact hopen) hcounter htable hheap hlive
  rcases haccept with ⟨p, haccept⟩
  have hmade : ∃ g₀, (Gate.start .sample 0).step .sample
      (.handshake 0 .sample none (fun _ => 110) [6] (List.replicate 16 7)) = some g₀ ∧
      g₀.server = server ∧ g₀.keystore = .sample ∧ g₀.now = 110 ∧ g₀.accepted = [] ∧
      g₀.admitted = [⟨.sample, List.replicate 16 7, 110⟩] :=
    ⟨_, hstep, rfl, rfl, congrFun hunread 0, rfl, rfl⟩
  rcases hmade with ⟨g₀, hstep, hserver, hkeystore, hnow, hnone, hadmitted⟩
  -- The allowlist is read again, and the client is not in it any more.
  have hreload : ∃ g, g₀.step .sample (.reload (fun _ => .ok Dict.empty) 200) = some g ∧
      g.server = server ∧ g.keystore.allowlist = Dict.empty ∧ g.now = 200 ∧ g.accepted = [] ∧
      g.admitted = [⟨.sample, List.replicate 16 7, 110⟩] := by
    simp only [Gate.step, Keystore.reloadAllowlist, hkeystore, Keystore.sample]
    exact ⟨_, rfl, hserver, rfl, rfl, hnone, hadmitted⟩
  rcases hreload with ⟨g, hreload, hserver', hempty, hnow', hnone', hadmitted'⟩
  have hgone : ¬ g.keystore.Admits (pad32 [1]) := by
    rintro ⟨entry, hlisted, -⟩
    rw [hempty] at hlisted
    cases hlisted
  have hafter := Gate.run_request .sample (fun h => ¬ h.keystore.Admits (pad32 [1])) g 1
    ⟨"POST", "/v1/chat", body⟩ (fun _ => .ok ()) 300 p 0 (List.replicate 16 7)
    (hserver' ▸ hjobs) (hserver' ▸ hhandlers) (hnow' ▸ by decide +kernel) htarget
    (hserver' ▸ haccept) (fun h hsame => hsame ▸ hgone)
  rcases hafter with ⟨g', hrun', hsame, haccepted⟩
  have hproper : (Gate.start .sample 0).Proper
      (.handshake 0 .sample none (fun _ => 110) [6] (List.replicate 16 7)) :=
    ⟨fun _ _ _ => le_refl _, show (0 : ℚ) ≤ 110 by decide +kernel, rfl⟩
  exact ⟨g₀, g, g', _, .tail _ _ _ .refl hproper hstep trivial,
    show g₀.now ≤ 200 by rw [hnow]; decide +kernel, hreload, hgone, hrun', hadmitted, hadmitted',
    hsame.trans hadmitted', b64dText_b64e _, hnone', haccepted.trans (congrArg _ hnone')⟩

/-- The theorem on this run: its last request began within the lifetime. -/
theorem revocation_ends_handshakes_sample : ∃ (g g' : Gate) (a : Admission),
    ¬ g.keystore.Admits (pad32 [1]) ∧ g'.accepted = [(a.sessionId, 300)] ∧
    (∀ a ∈ g'.admitted, a.By (pad32 [1]) → a ∈ g.admitted) ∧ a ∈ g.admitted ∧
    (300 : ℚ) ≤ g.now + (3600 : ℤ) := by
  rcases run_revoked_sample with ⟨g₀, g, g', a, hrun, hproper, hreload, hgone, hrun', -, hadmitted,
    hadmitted', hby, -, haccepted⟩
  have hends := revocation_ends_handshakes .sample .sample 0 g g' (pad32 [1])
    (.tail _ _ _ hrun hproper hreload trivial) hgone hrun'
  have hold := hends.2 a.sessionId 300 (by rw [haccepted]; exact List.mem_cons_self)
    fun a' ha' _ => by
    rw [hadmitted', List.mem_singleton] at ha'
    rw [ha']
    exact hby
  exact ⟨g, g', a, hgone, haccepted, hends.1, by rw [hadmitted]; exact List.mem_cons_self, hold.2⟩

/-- The session of a client that the allowlist has just dropped is accepted. -/
theorem revoked_session_accepted : ∃ (s : Setup) (g₀ g g' : Gate) (a : Admission) (pk : Bytes)
    (load : String → Except Exc (Dict Bytes AuthorizedClient)) (reloaded time : ℚ),
    Gate.Run s (fun _ => True) (Gate.start .sample 0) g₀ ∧ a ∈ g₀.admitted ∧ a.By pk ∧
    g₀.Proper (.reload load reloaded) ∧ g₀.step s (.reload load reloaded) = some g ∧
    ¬ g.keystore.Admits pk ∧ Gate.Run s (fun h => ¬ h.keystore.Admits pk) g g' ∧
    reloaded < time ∧ (a.sessionId, time) ∉ g.accepted ∧ (a.sessionId, time) ∈ g'.accepted := by
  rcases run_revoked_sample with ⟨g₀, g, g', a, hrun, hproper, hreload, hgone, hrun', hadmitted, -,
    -, hby, hnone, haccepted⟩
  refine ⟨.sample, g₀, g, g', a, pad32 [1], _, _, 300, hrun, ?_, hby, hproper, hreload, hgone,
    hrun', by decide +kernel, ?_, ?_⟩
  · rw [hadmitted]
    exact List.mem_cons_self
  · rw [hnone]
    exact List.not_mem_nil
  · rw [haccepted]
    exact List.mem_cons_self

end SecureLlm
