import SecureLlm.Routers.EnvelopeDep
import SecureLlm.Session.StoreSafe

/-!
# The Manager's Operations Keep the Contract

The session manager's operations and the decryption of a request, proved safe
over any lawful store.

`decryptRequest_safe` carries the most: an accepted request had its counter
admitted and its body opened by the session as it was at one moment, open and
with the keys it had then, and from then on the session does not admit that
counter again. Nothing else needs to be known about what happened while the
request waited for Redis.

## Main definitions

* `Acceptance`: What an accepted request has gone through.
* `requestTarget`: The session a request is about.

## Theorems

* `Terms.withLock_safe`: Running a safe task under the lock.
* `lookupAsync_safe`, `terminate_safe`, `create_safe`, `reapExpired_safe`: The
  manager's operations.
* `decryptRequest_safe`: Decrypting a request.
-/

namespace SecureLlm

open Library

variable (T : Terms) (manager : SessionManager)

/-- A safe task under the lock. The lock is released on both exits. -/
theorem Terms.withLock_safe {α : Type} (body : Task α) (post : α → Process → Prop) (p : Process)
    (hbody : ∀ q, T.contract.inv q → T.contract.rely p q → body.Safe T.contract post q)
    (hpost : ∀ a q, T.contract.inv q → post a q → post a (q.setLocked false)) :
    (Task.withLock body).Safe T.contract post p := by
  intro t ht hg _
  obtain ⟨hinv, hguar⟩ := T.setLocked_ok t true ht
  refine ⟨hinv, hguar, ?_⟩
  have hrely := T.contract.rely_trans _ _ _ hg (T.contract.guar_rely _ _ hguar)
  refine Coop.Safe.tryFinally T.contract _ _ _ _ hinv (fun u hu => ?_) ?_
  · exact ⟨(T.setLocked_ok u false hu).1, (T.setLocked_ok u false hu).2, trivial⟩
  · refine Coop.Safe.mono T.contract _ _ _ _ (fun a u _ _ hp hu => ?_) hinv (hbody _ hinv hrely)
    exact ⟨(T.setLocked_ok u false hu).1, (T.setLocked_ok u false hu).2, hpost a u hu hp⟩

/-- Closing a session and going on. -/
theorem Terms.zeroize_bind {β : Type} (post : β → Process → Prop) (r : Ref) (f : Unit → Task β)
    (p : Process) (h : T.contract.inv p)
    (hnext : ∀ q, T.contract.inv q → (f ()).Safe T.contract post q) :
    (Task.change r Session.zeroize >>= f).Safe T.contract post p := by
  have hstep := T.change_ok p r Session.zeroize h (Session.evolves_zeroize _)
  exact Coop.Safe.modify_bind T.contract post _ f p hstep (hnext _ hstep.1)

theorem find_safe (hstore : LawfulStore T manager.store) (sid : Bytes) (p : Process)
    (ht : T.target = some sid) (h : T.contract.inv p) :
    (manager.find sid).Safe T.contract (T.Found sid) p := by
  refine Coop.Safe.seq T.contract _ _ _ _ p h (hstore.lookup sid p h) (fun o q hq _ hfound => ?_)
  cases o with
  | none => exact hstore.hydrate sid q ht hq
  | some r => exact hfound

theorem lookupAsync_safe (hstore : LawfulStore T manager.store) (sid : Bytes) (p : Process)
    (ht : T.target = some sid) (h : T.contract.inv p) :
    (manager.lookupAsync sid).Safe T.contract (T.Found sid) p := by
  refine Coop.Safe.seq T.contract _ _ _ _ p h (find_safe T manager hstore sid p ht h)
    (fun o q hq _ hfound => ?_)
  cases o with
  | none => exact T.found_none sid q
  | some r =>
      obtain ⟨hlt, hsid, -, hoff⟩ := hfound r rfl
      refine T.isExpired_bind _ r _ q hq ?_ (fun hopen => T.found_some sid r q hlt hsid hopen hoff)
      refine T.zeroize_bind _ r _ q hq (fun u hu => ?_)
      exact Coop.Safe.seq T.contract _ _ _ _ u hu (hstore.delete sid u ht hu)
        (fun _ v _ _ _ => T.found_none sid v)

theorem terminate_safe (hstore : LawfulStore T manager.store) (sid : Bytes) (p : Process)
    (ht : T.target = some sid) :
    (manager.terminate sid).Safe T.contract (fun _ _ => True) p := by
  refine T.withLock_safe _ _ p (fun q hq _ => ?_) (fun _ _ _ _ => trivial)
  refine Coop.Safe.seq T.contract _ _ _ _ q hq (find_safe T manager hstore sid q ht hq)
    (fun o u hu _ _ => ?_)
  cases o with
  | none => trivial
  | some r => exact T.zeroize_bind _ r _ u hu (fun v hv => hstore.delete sid v ht hv)

theorem reapExpired_safe (hstore : LawfulStore T manager.store) (p : Process) :
    manager.reapExpired.Safe T.contract (fun _ _ => True) p :=
  T.withLock_safe _ _ p (fun q hq _ => hstore.reapExpired q hq) (fun _ _ _ _ => trivial)

/-- Creation makes an object of the handshake's material and stores it. -/
theorem create_safe (hremote : T.remote = true) (hstore : LawfulStore T manager.store)
    (material : SessionMaterial) (p : Process) (ht : T.target = some material.sessionId)
    (hoff : material.sessionId ∉ T.off) (h : T.contract.inv p)
    (hkind : ∀ now,
      T.discipline.kind (.ofMaterial material manager.ttl manager.maxLife now)) :
    (manager.create material).Safe T.contract (fun _ _ => True) p := by
  intro now
  obtain ⟨hinv, hguar⟩ := T.alloc_ok p _ .created hremote h (hkind now)
    (T.discipline.noted_created p.next _ (hkind now)) rfl
  refine ⟨hinv, hguar, ?_⟩
  have hnew : ((p.alloc (.ofMaterial material manager.ttl manager.maxLife now) .created).heap
      p.next).sessionId = material.sessionId := by
    rw [Process.heap_alloc_self]
    rfl
  refine Coop.Safe.seq T.contract (fun _ _ => True) _ (Task.withLock (manager.store.put p.next)) _
    _ hinv ?_ (fun _ _ _ _ _ => trivial)
  refine T.withLock_safe _ _ _ (fun q hq hrely => ?_) (fun _ _ _ _ => trivial)
  have hsid : (q.heap p.next).sessionId = material.sessionId :=
    (hrely.1.evolves p.next (Nat.lt_succ_self _)).sessionId.trans hnew
  exact hstore.put p.next q hq (lt_of_lt_of_le (Nat.lt_succ_self _) hrely.1.next)
    (by rw [hsid]; exact ht) (by rw [hsid]; exact hoff)

/-- The session a request is about, if its framing parses. -/
def requestTarget (request : Request) : Option Bytes :=
  match unpackEnvelope request.body with
  | .ok env => some env.sessionId
  | .error _ => none

/-- What an accepted request has gone through: its session, as it was when the
    counter was checked, was open, admitted the counter and opened the body. -/
structure Acceptance {V : Type} (aead : Aead) (request : Request) (schema : Bytes → Except String V)
    (p q : Process) (r : Ref) (value : V) (env : Envelope) (plaintext : Bytes) (s : Session) :
    Prop where
  unpacked : unpackEnvelope request.body = .ok env
  session : s.sessionId = env.sessionId
  allowed : env.sessionId ∉ T.off
  isOpen : s.closed = false
  kind : T.discipline.kind s
  admitted : s.replay.admits env.counter = true
  opened : openEnvelope aead s.c2s s.sessionId request.method request.path request.body
    = .ok (env, plaintext)
  valid : schema plaintext = .ok value
  exists_after : r < q.next
  before : r < p.next → (p.heap r).Evolves s
  after : s.Evolves (q.heap r)
  refused : (q.heap r).replay.admits env.counter = false

/-- The end of an accepted request: its session is used and written back. -/
theorem accept_safe {V : Type} (hstore : LawfulStore T manager.store) (aead : Aead)
    (request : Request) (schema : Bytes → Except String V) (p q : Process) (r : Ref) (value : V)
    (env : Envelope) (plaintext : Bytes) (window : ReplayWindow)
    (ht : T.target = some env.sessionId) (hq : T.contract.inv q) (hpq : T.contract.rely p q)
    (hunpack : unpackEnvelope request.body = .ok env) (hlt : r < q.next)
    (hsid : (q.heap r).sessionId = env.sessionId) (hopen : (q.heap r).closed = false)
    (hoff : env.sessionId ∉ T.off)
    (hcheck : (q.heap r).replay.checkAndAdvance env.counter = .ok window)
    (hopened : openEnvelope aead (q.heap r).c2s (q.heap r).sessionId request.method request.path
      request.body = .ok (env, plaintext))
    (hschema : schema plaintext = .ok value) :
    Coop.Safe T.contract
      (fun a q => ∃ env plaintext s, Acceptance T aead request schema p q a.1 a.2 env plaintext s)
      (do
        let now ← Coop.time
        Task.change r (fun s => s.touch now)
        manager.persist r
        return (r, value))
      (q.change r (fun s => s.advance window)) := by
  intro now
  -- Two changes of the object, and then the write through the store.
  have hadvance := T.change_ok q r (fun s => s.advance window) hq
    (Session.evolves_advance (q.heap r) window env.counter hcheck)
  have htouch := T.change_ok _ r (fun s => s.touch now) hadvance.1
    (Session.evolves_touch _ now)
  refine Coop.Safe.modify_bind T.contract _ _ _ _ htouch ?_
  generalize hu : (q.change r (fun s => s.advance window)).change r (fun s => s.touch now) = u
  rw [hu] at htouch
  have hqu : T.contract.rely q u :=
    T.contract.rely_trans _ _ _ hadvance.2.1 htouch.2.1
  have hsidu : (u.heap r).sessionId = env.sessionId := (hqu.1.evolves r hlt).sessionId.trans hsid
  have hrefused : (u.heap r).replay.admits env.counter = false := by
    rw [← hu, Process.heap_change_self, Process.heap_change_self]
    exact ReplayWindow.not_admits_of_checkAndAdvance _ _ _ hcheck
  refine Coop.Safe.seq T.contract _ _ (manager.persist r) _ u htouch.1
    (hstore.put r u htouch.1 (lt_of_lt_of_le hlt hqu.1.next) (by rw [hsidu]; exact ht)
      (by rw [hsidu]; exact hoff)) (fun _ v _ huv _ => ?_)
  have hqv := hqu.1.trans _ _ _ huv.1
  refine ⟨env, plaintext, q.heap r, ?_⟩
  exact {
    unpacked := hunpack
    session := hsid
    allowed := hoff
    isOpen := hopen
    kind := hq.1.kind r hlt
    admitted := (ReplayWindow.checkAndAdvance_natCast_ok_iff _ _).mp ⟨window, hcheck⟩
    opened := hopened
    valid := hschema
    exists_after := lt_of_lt_of_le hlt hqv.next
    before := fun hr => hpq.1.evolves r hr
    after := hqv.evolves r hlt
    refused := by
      rw [← Bool.not_eq_true]
      intro hadm
      -- A window that admits a counter later admitted it before.
      have hadm' := (huv.1.evolves r (lt_of_lt_of_le hlt hqu.1.next)).admits env.counter hadm
      rw [hrefused] at hadm'
      exact absurd hadm' nofun }

theorem decryptRequest_safe {V : Type} (aead : Aead) (hstore : LawfulStore T manager.store)
    (request : Request) (schema : Bytes → Except String V) (p : Process)
    (ht : ∀ sid, requestTarget request = some sid → T.target = some sid)
    (h : T.contract.inv p) :
    (decryptRequest aead request manager schema).Safe T.contract
      (fun a q => ∃ env plaintext s,
        Acceptance T aead request schema p q a.1 a.2 env plaintext s) p := by
  rw [decryptRequest]
  by_cases hshort : request.body.length < 41
  · simp only [if_pos hshort]
    trivial
  simp only [if_neg hshort]
  cases hunpack : unpackEnvelope request.body with
  | error e => trivial
  | ok env =>
      have htarget : T.target = some env.sessionId := ht _ (by rw [requestTarget, hunpack])
      refine Coop.Safe.seq T.contract _ _ _ _ p h
        (lookupAsync_safe T manager hstore env.sessionId p htarget h) (fun o q hq hpq hfound => ?_)
      cases o with
      | none => trivial
      | some r =>
          obtain ⟨hlt, hsid, hopen, hoff⟩ := hfound r rfl
          refine Coop.Safe.gets_bind T.contract _ _ _ q hq ?_
          cases hcheck : (q.heap r).replay.checkAndAdvance env.counter with
          | error e => trivial
          | ok window =>
              -- From here to the write-back the task does not suspend.
              have hadvance := Session.evolves_advance (q.heap r) window env.counter hcheck
              have hstep := T.change_ok q r (fun s => s.advance window) hq hadvance
              refine Coop.Safe.modify_bind T.contract _ _ _ q hstep ?_
              cases hopened : openEnvelope aead (q.heap r).c2s (q.heap r).sessionId request.method
                  request.path request.body with
              | error e => cases e <;> trivial
              | ok result =>
                  obtain ⟨env', plaintext⟩ := result
                  have henv : env' = env := by
                    have := ((openEnvelope_eq_ok_iff _ _ _ _ _ _ _ _).mp hopened).1
                    exact Except.ok.inj (this.symm.trans hunpack)
                  dsimp only
                  cases hschema : schema plaintext with
                  | error message => trivial
                  | ok value =>
                      exact accept_safe T manager hstore aead request schema p q r value env
                        plaintext window htarget hq hpq hunpack hlt hsid hopen hoff hcheck
                        (henv ▸ hopened) hschema

end SecureLlm
