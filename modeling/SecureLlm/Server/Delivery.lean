import SecureLlm.Library.Purge
import SecureLlm.Routers.EnvelopeDep

/-!
# Delivering a Body

What a delivery does to a server over the in-memory store. It runs to its end at
once, so it is a function of the process: nothing but the session it is for may
change, and how that one changes is a function of the session alone. A server
that takes deliveries is a machine, and each of its sessions is a part of it
that is a machine of its own.

## Main definitions

* `Delivery`: A request at a time.
* `Process.deliver`: What a server does with it.
* `Session.receive`: What it does to its session.
* `Process.live`: The session a lookup finds.
* `Process.Indexed`: The table maps session ids to sessions with those ids.

## Theorems

* `lookupAsync_advance`: A lookup changes nothing.
* `deliver_malformed`, `deliver_unknown`, `deliver_found`: A delivery, by what
  is found for it.
* `deliver_view`: A session sees only what is delivered for it.
-/

namespace SecureLlm

open Library

/-- A request that reaches a handler with its schema at a time. -/
structure Delivery where
  request : Request
  schema : Bytes → Except String Unit
  time : ℚ

/-- Decrypt a delivered request, and say whether it was accepted. -/
def Process.deliver (aead : Aead) (manager : SessionManager) : Machine Process Delivery Bool :=
  fun p d =>
    let out := (decryptRequest aead d.request manager d.schema).advance (fun _ => d.time) p
    (out.1, match out.2.2 with
      | .done _ => true
      | _ => false)

/-- What becomes of a session when a request is delivered, and whether it is
    accepted. -/
def Session.receive (aead : Aead) : Machine Session Delivery Bool := fun s d =>
  match unpackEnvelope d.request.body with
  | .error _ => (s, false)
  | .ok env =>
    if env.sessionId ≠ s.sessionId then (s, false)
    else if s.isExpired d.time then (s, false)
    else
      match s.replay.checkAndAdvance env.counter with
      | .error _ => (s, false)
      | .ok window =>
        match openEnvelope aead s.c2s s.sessionId d.request.method d.request.path
          d.request.body with
        | .error _ => (s.advance window, false)
        | .ok (_, plaintext) =>
          match d.schema plaintext with
          | .error _ => (s.advance window, false)
          | .ok _ => ((s.advance window).touch d.time, true)

/-- The session that is found under an id at a time. -/
def Process.live (p : Process) (sid : Bytes) (time : ℚ) : Option Ref :=
  (p.table.get? sid).filter fun r => !(p.heap r).isExpired time

theorem Process.live_eq_some_iff (p : Process) (sid : Bytes) (time : ℚ) (r : Ref) :
    p.live sid time = some r ↔ p.table.get? sid = some r ∧ (p.heap r).isExpired time = false := by
  rw [live, Option.filter_eq_some_iff, Bool.not_eq_true']

section Lookup

variable (ttl maxLife : ℤ) (sid : Bytes) (time : ℚ) (p : Process)

theorem tableGet_advance {α : Type} (f : Option Ref → Task α) :
    (tableGet sid >>= f).advance (fun _ => time) p =
      (f (p.table.get? sid)).advance (fun _ => time) p := rfl

theorem lookup_advance :
    (InMemory.lookup sid).advance (fun _ => time) p =
      (p, fun _ => time, .done (p.live sid time)) := by
  refine (tableGet_advance sid time p _).trans ?_
  unfold Process.live
  cases p.table.get? sid with
  | none => rfl
  | some r =>
      show Coop.advance (if (p.heap r).isExpired time = true then .done none else .done (some r))
        (fun _ => time) p = _
      rw [Option.filter_some]
      cases (p.heap r).isExpired time with
      | true => rfl
      | false => rfl

/-- Looking a session up at a time changes nothing, and finds it if it is live. -/
theorem lookupAsync_advance :
    (SessionManager.lookupAsync ⟨ttl, maxLife, InMemory.store⟩ sid).advance (fun _ => time) p =
      (p, fun _ => time, .done (p.live sid time)) := by
  have hlookup := lookup_advance sid time p
  have hfind : (SessionManager.find ⟨ttl, maxLife, InMemory.store⟩ sid).advance
      (fun _ => time) p = (p, fun _ => time, .done (p.live sid time)) := by
    refine (Coop.advance_bind _ _ _ _ _ _ _ hlookup).trans ?_
    cases hlive : p.live sid time with
    | none =>
        show (InMemory.lookup sid).advance (fun _ => time) p = _
        rw [hlookup, hlive]
    | some r => rfl
  refine (Coop.advance_bind _ _ _ _ _ _ _ hfind).trans ?_
  cases hlive : p.live sid time with
  | none => rfl
  | some r =>
      -- The session was live when it was found, and no time has passed.
      show Coop.advance (if (p.heap r).isExpired time = true then _ else .done (some r))
        (fun _ => time) p = _
      rw [((p.live_eq_some_iff sid time r).mp hlive).2, if_neg Bool.false_ne_true]
      rfl

end Lookup

section Decrypt

variable {T : Type} (aead : Aead) (ttl maxLife : ℤ) (request : Request)
  (schema : Bytes → Except String T) (time : ℚ) (p : Process)

-- A body that is too short does not parse either.
theorem length_of_unpackEnvelope (body : Bytes) (env : Envelope)
    (h : unpackEnvelope body = .ok env) : ¬ body.length < 41 := by
  rcases unpackEnvelope_eq_ok body env h with ⟨hwf, hbody⟩
  rw [hbody, length_frame env hwf]
  omega

theorem decryptRequest_malformed (e : Exc) (h : unpackEnvelope request.body = .error e) :
    (decryptRequest aead request ⟨ttl, maxLife, InMemory.store⟩ schema).advance (fun _ => time) p =
      (p, fun _ => time, .fail (httpError .badEnvelope 400 "")) := by
  rw [decryptRequest]
  by_cases hshort : request.body.length < 41
  · simp only [if_pos hshort]
    rfl
  · simp only [if_neg hshort, h]
    rfl

theorem decryptRequest_unknown (env : Envelope) (h : unpackEnvelope request.body = .ok env)
    (hlive : p.live env.sessionId time = none) :
    (decryptRequest aead request ⟨ttl, maxLife, InMemory.store⟩ schema).advance (fun _ => time) p =
      (p, fun _ => time, .fail (httpError .unknownSession 401 "")) := by
  have hlookup := lookupAsync_advance ttl maxLife env.sessionId time p
  rw [hlive] at hlookup
  rw [decryptRequest]
  simp only [if_neg (length_of_unpackEnvelope _ env h), h]
  exact Coop.advance_bind _ _ _ _ _ _ _ hlookup

/-- From the check of the counter on, for a session that was found. -/
theorem decryptRequest_of_lookup (env : Envelope) (h : unpackEnvelope request.body = .ok env)
    (clock clock' : ℕ → ℚ) (q : Process) (r : Ref)
    (hlookup : (SessionManager.lookupAsync ⟨ttl, maxLife, InMemory.store⟩ env.sessionId).advance
      clock p = (q, clock', .done (some r))) :
    (decryptRequest aead request ⟨ttl, maxLife, InMemory.store⟩ schema).advance clock p =
      match (q.heap r).replay.checkAndAdvance env.counter with
      | .error _ => (q, clock', .fail (httpError .replayDetected 400 ""))
      | .ok window =>
        match openEnvelope aead (q.heap r).c2s (q.heap r).sessionId request.method request.path
          request.body with
        | .error (.envelopeAuthError _) =>
          (q.change r (fun s => s.advance window), clock', .fail (httpError .decryptFailed 400 ""))
        | .error e => (q.change r (fun s => s.advance window), clock', .fail e)
        | .ok (_, plaintext) =>
          match schema plaintext with
          | .error message => (q.change r (fun s => s.advance window), clock',
              .fail (httpError .badRequest 400 message))
          | .ok value =>
            (((q.change r (fun s => s.advance window)).change r
              (fun s => s.touch (clock' 0))).assign (q.heap r).sessionId r,
                fun n => clock' (n + 1), .done (r, value)) := by
  rw [decryptRequest]
  simp only [if_neg (length_of_unpackEnvelope _ env h), h]
  refine (Coop.advance_bind _ _ _ _ _ _ _ hlookup).trans ?_
  show Coop.advance (match (q.heap r).replay.checkAndAdvance env.counter with
    | .error _ => _
    | .ok window => _) _ q = _
  cases (q.heap r).replay.checkAndAdvance env.counter with
  | error e => rfl
  | ok window =>
      show Coop.advance (match openEnvelope aead (q.heap r).c2s (q.heap r).sessionId
          request.method request.path request.body with
        | .error (.envelopeAuthError _) => _
        | .error e => _
        | .ok (_, plaintext) => _) _ (q.change r (fun s => s.advance window)) = _
      cases openEnvelope aead (q.heap r).c2s (q.heap r).sessionId request.method request.path
          request.body with
      | error e => cases e <;> rfl
      | ok result =>
          dsimp only
          cases schema result.2 with
          | error message => rfl
          | ok value =>
              -- Neither change touches the id.
              have hsid : (((q.change r (fun s => s.advance window)).change r
                  (fun s => s.touch (clock' 0))).heap r).sessionId = (q.heap r).sessionId := by
                rw [Process.heap_change_self, Process.heap_change_self]
                rfl
              show (((q.change r (fun s => s.advance window)).change r
                (fun s => s.touch (clock' 0))).assign _ r, _, _) = _
              rw [hsid]

end Decrypt

section Deliver

variable (aead : Aead) (ttl maxLife : ℤ) (p : Process) (d : Delivery)

/-- A delivery that no live session is found for changes nothing. -/
theorem deliver_lost (h : ∀ env, unpackEnvelope d.request.body = .ok env →
      p.live env.sessionId d.time = none) :
    p.deliver aead ⟨ttl, maxLife, InMemory.store⟩ d = (p, false) := by
  rw [Process.deliver]
  cases hunpack : unpackEnvelope d.request.body with
  | error e => rw [decryptRequest_malformed aead ttl maxLife d.request d.schema d.time p e hunpack]
  | ok env =>
      rw [decryptRequest_unknown aead ttl maxLife d.request d.schema d.time p env hunpack
        (h env hunpack)]

/-- A delivery for a live session changes it and nothing else. -/
theorem deliver_found (env : Envelope) (h : unpackEnvelope d.request.body = .ok env) (r : Ref)
    (hlive : p.live env.sessionId d.time = some r)
    (hsid : (p.heap r).sessionId = env.sessionId) :
    (p.deliver aead ⟨ttl, maxLife, InMemory.store⟩ d).2 = ((p.heap r).receive aead d).2 ∧
      (p.deliver aead ⟨ttl, maxLife, InMemory.store⟩ d).1.heap =
        Function.update p.heap r ((p.heap r).receive aead d).1 ∧
      ∀ sid x, (p.deliver aead ⟨ttl, maxLife, InMemory.store⟩ d).1.table.get? sid = some x ↔
        p.table.get? sid = some x := by
  rcases (p.live_eq_some_iff _ _ r).mp hlive with ⟨htable, hlate⟩
  rw [Process.deliver, Session.receive, h,
    decryptRequest_of_lookup aead ttl maxLife d.request d.schema
    p env h _ _ p r (hlive ▸ lookupAsync_advance ttl maxLife env.sessionId d.time p)]
  simp only [hsid, ne_eq, not_true_eq_false, if_false, hlate, Bool.false_eq_true]
  cases (p.heap r).replay.checkAndAdvance env.counter with
  | error e => exact ⟨rfl, (Function.update_eq_self r p.heap).symm, fun _ _ => Iff.rfl⟩
  | ok window =>
      dsimp only
      cases openEnvelope aead (p.heap r).c2s env.sessionId d.request.method d.request.path
          d.request.body with
      | error e => cases e <;> exact ⟨rfl, rfl, fun _ _ => Iff.rfl⟩
      | ok result =>
          dsimp only
          cases d.schema result.2 with
          | error message => exact ⟨rfl, rfl, fun _ _ => Iff.rfl⟩
          | ok value =>
              refine ⟨rfl, ?_, fun sid x => ?_⟩
              · show Function.update (Function.update p.heap r _) r _ = _
                rw [Function.update_idem, Process.heap_change_self]
              · -- The session is written back under its own id.
                show (p.table.set env.sessionId r).get? sid = some x ↔ _
                rw [Dict.get?_set]
                by_cases hs : sid = env.sessionId
                · rw [if_pos hs, hs, htable]
                · rw [if_neg hs]

end Deliver

/-- The table maps session ids to sessions with those ids. -/
def Process.Indexed (p : Process) : Prop :=
  ∀ sid r, p.table.get? sid = some r → (p.heap r).sessionId = sid

/-- Receiving a request changes neither a session's id nor its keys. -/
theorem receive_same (aead : Aead) (s : Session) (d : Delivery) :
    (s.receive aead d).1.sessionId = s.sessionId ∧ (s.receive aead d).1.c2s = s.c2s := by
  rw [Session.receive]
  cases unpackEnvelope d.request.body with
  | error e => exact ⟨rfl, rfl⟩
  | ok env =>
      dsimp only
      by_cases hsid : env.sessionId ≠ s.sessionId
      · rw [if_pos hsid]
        exact ⟨rfl, rfl⟩
      rw [if_neg hsid]
      by_cases hlate : s.isExpired d.time = true
      · rw [if_pos hlate]
        exact ⟨rfl, rfl⟩
      rw [if_neg hlate]
      cases s.replay.checkAndAdvance env.counter with
      | error e => exact ⟨rfl, rfl⟩
      | ok window =>
          dsimp only
          cases openEnvelope aead s.c2s s.sessionId d.request.method d.request.path
              d.request.body with
          | error e => exact ⟨rfl, rfl⟩
          | ok result =>
              dsimp only
              cases d.schema result.2 with
              | error message => exact ⟨rfl, rfl⟩
              | ok value => exact ⟨rfl, rfl⟩

-- A request for another session, or for none, is not for this one.
theorem receive_foreign (aead : Aead) (s : Session) (d : Delivery)
    (h : ∀ env, unpackEnvelope d.request.body = .ok env → env.sessionId = s.sessionId →
      s.isExpired d.time = true) : s.receive aead d = (s, false) := by
  rw [Session.receive]
  cases hunpack : unpackEnvelope d.request.body with
  | error e => rfl
  | ok env =>
      dsimp only
      by_cases hsid : env.sessionId = s.sessionId
      · rw [if_neg (not_not.mpr hsid), if_pos (h env hunpack hsid)]
      · rw [if_pos hsid]

/-- A session of a server sees what is delivered for it, and nothing else. -/
theorem deliver_view (aead : Aead) (ttl maxLife : ℤ) (sid : Bytes) (r : Ref)
    (keep : Delivery → Bool)
    (hkeep : ∀ d, keep d = true → ∃ env, unpackEnvelope d.request.body = .ok env ∧
      env.sessionId = sid) :
    (Process.deliver aead ⟨ttl, maxLife, InMemory.store⟩).View (Session.receive aead)
      (fun p => p.Indexed ∧ p.table.get? sid = some r) (fun p => p.heap r) keep := by
  have hstep : ∀ (p : Process) (d : Delivery), p.Indexed → p.table.get? sid = some r →
      ((p.deliver aead ⟨ttl, maxLife, InMemory.store⟩ d).1.Indexed ∧
        (p.deliver aead ⟨ttl, maxLife, InMemory.store⟩ d).1.table.get? sid = some r) ∧
      (p.deliver aead ⟨ttl, maxLife, InMemory.store⟩ d).1.heap r =
        ((p.heap r).receive aead d).1 ∧
      (keep d = true → (p.deliver aead ⟨ttl, maxLife, InMemory.store⟩ d).2 =
        ((p.heap r).receive aead d).2) := by
    intro p d hindexed htable
    have hsid := hindexed sid r htable
    by_cases hlost : ∀ env, unpackEnvelope d.request.body = .ok env →
        p.live env.sessionId d.time = none
    · have hreceive : (p.heap r).receive aead d = (p.heap r, false) := by
        refine receive_foreign aead (p.heap r) d (fun env hunpack heq => ?_)
        by_contra hlate
        have hlive := (p.live_eq_some_iff env.sessionId d.time r).mpr
          ⟨by rw [heq, hsid]; exact htable, Bool.not_eq_true _ ▸ hlate⟩
        rw [hlost env hunpack] at hlive
        exact absurd hlive nofun
      rw [deliver_lost aead ttl maxLife p d hlost, hreceive]
      exact ⟨⟨hindexed, htable⟩, rfl, fun _ => rfl⟩
    · simp only [not_forall] at hlost
      rcases hlost with ⟨env, hunpack, hlive⟩
      rcases Option.ne_none_iff_exists'.mp hlive with ⟨x, hx⟩
      have htablex := ((p.live_eq_some_iff _ _ x).mp hx).1
      have hsidx := hindexed _ x htablex
      rcases deliver_found aead ttl maxLife p d env hunpack x hx hsidx with
        ⟨hanswer, hheap, htable'⟩
      refine ⟨⟨fun sid' y hy => ?_, (htable' sid r).mpr htable⟩, ?_, fun hd => ?_⟩
      · have hold := hindexed sid' y ((htable' sid' y).mp hy)
        rw [hheap]
        by_cases hyx : y = x
        · rw [hyx, Function.update_self, (receive_same aead _ d).1, ← hyx]
          exact hold
        · rw [Function.update_of_ne hyx]
          exact hold
      · rw [hheap]
        by_cases hrx : r = x
        · rw [hrx, Function.update_self]
        · -- The request is for another session.
          rw [Function.update_of_ne hrx, receive_foreign aead (p.heap r) d]
          intro env' hunpack' heq
          rw [hunpack, Except.ok.injEq] at hunpack'
          rw [← hunpack', hsid] at heq
          rw [heq, htable, Option.some.injEq] at htablex
          exact absurd htablex hrx
      · rcases hkeep d hd with ⟨env', hunpack', heq⟩
        rw [hunpack, Except.ok.injEq] at hunpack'
        rw [← hunpack'] at heq
        rw [heq, htable, Option.some.injEq] at htablex
        rw [hanswer, htablex]
  exact ⟨fun p d h => (hstep p d h.1 h.2).1, fun p d h => (hstep p d h.1 h.2).2.1,
    fun p d h => (hstep p d h.1 h.2).2.2⟩

/-- A server that has made the sample session. -/
def Process.withSample : Process :=
  (Process.start.alloc (.ofMaterial .sample 900 3600 0) .created).assign
    SessionMaterial.sample.sessionId 0

end SecureLlm
