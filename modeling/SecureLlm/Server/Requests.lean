import SecureLlm.Server.Network

/-!
# What Accepting a Request Shows

An accepted request was opened under its session's key. The framing is exact
and the additional data determines the request, so what was opened is what a
client has sealed, or else something the server itself has sealed for the same
session; but the server seals under the other key of the handshake, or for a
session it has closed, and a closed session opens nothing.

That a session admits a counter once is the business of its replay window. That
there is one window is because a session has one object.

## Main definitions

* `Discipline.requests`: Sessions, while they are open, hold the keys of their
  handshake.
* `Objects`: A session has one object.
* `SealedByClient`: A body comes from its session's client.
* `Acceptances`: What is known of the accepted requests.

## Theorems

* `run_local`: What an operation other than a handshake does to a process.
* `Objects.grow`, `Objects.start`, `Objects.create`: A session keeps one object.
* `World.sealed_of_acceptance`: An accepted request was sealed by its client.
* `Acceptances.accept`: An accepted request is a new one.
-/

namespace SecureLlm

open Library

/-- A session of one of the handshakes, with its keys for as long as it is
    open. -/
def Session.OfHandshake (hs : Handshakes) (s : Session) : Prop :=
  s.sessionId ∈ hs.ids ∧
    (s.closed = false → s.c2s = hs.c2s s.sessionId ∧ s.s2c = hs.s2c s.sessionId)

theorem Session.OfHandshake.evolves (hs : Handshakes) (s t : Session) (hst : s.Evolves t)
    (h : s.OfHandshake hs) : t.OfHandshake hs := by
  refine ⟨by rw [hst.sessionId]; exact h.1, fun hopen => ?_⟩
  rw [hst.sessionId, hst.c2s hopen, hst.s2c hopen]
  exact h.2 (hst.open_of_open s t hopen)

/-- Every session is of one of the handshakes, and what is sealed for one is
    sealed under its handshake's key or after it was closed. -/
def Discipline.requests (hs : Handshakes) : Discipline where
  kind s := s.OfHandshake hs
  written s := s.OfHandshake hs
  noted n := n.session.OfHandshake hs ∧
    ∀ d, n.kind = .sealed d → d = hs.s2c n.session.sessionId ∨ n.session.closed = true
  kind_evolves s t := Session.OfHandshake.evolves hs s t
  kind_rehydrated _ h := h
  noted_created _ _ h := ⟨h, fun _ => nofun⟩
  noted_hydrated _ _ h := ⟨h, fun _ => nofun⟩
  noted_stored _ _ h := ⟨h, fun _ => nofun⟩

/-- An operation other than a handshake makes no object, and if it accepts a
    request it is the decryption of one. -/
theorem run_local (D : Discipline) (aead : Aead) (ttl maxLife : ℤ) (op : Op)
    (hop : ∀ m, op ≠ .create m) (clock clock' : ℕ → ℚ) (p q : Process) (rest : Task Result)
    (hp : p.Consistent D)
    (hrun : (op.task aead ⟨ttl, maxLife, InMemory.store⟩).advance clock p = (q, clock', rest)) :
    p.Grows q ∧ q.next = p.next ∧ ∀ request schema r, op = .decryptRequest request schema →
      rest = .done (.accepted r) → ∃ env plaintext s,
        Acceptance ⟨D, op.target, ∅, false⟩ aead request schema p q r () env plaintext s := by
  have hinv : (Terms.contract ⟨D, op.target, ∅, false⟩).inv p := ⟨hp, nofun⟩
  have hsafe : (op.task aead ⟨ttl, maxLife, InMemory.store⟩).Safe
      (Terms.contract ⟨D, op.target, ∅, false⟩) (fun res q => ∀ request schema r,
        op = .decryptRequest request schema → res = .accepted r → ∃ env plaintext s,
          Acceptance ⟨D, op.target, ∅, false⟩ aead request schema p q r () env plaintext s) p := by
    cases op with
    | decryptRequest request schema =>
        refine Coop.Safe.seq _ _ _ _ _ p hinv (decryptRequest_safe _ _ aead (memory_lawful _)
          request schema p (fun _ h => h) hinv) (fun a u _ _ hacc => ?_)
        rintro request' schema' r hop' hres
        rcases Op.decryptRequest.inj hop' with ⟨rfl, rfl⟩
        rw [← Result.accepted.inj hres]
        exact hacc
    -- The others accept no request.
    | create m => exact absurd rfl (hop m)
    | lookupAsync sid =>
        exact Coop.Safe.mono _ _ _ _ p (fun _ _ _ _ _ _ _ _ h => absurd h nofun) hinv
          (Op.safe _ aead _ (memory_lawful _) _ rfl (fun m h => absurd h (hop m)) p hinv)
    | terminate sid =>
        exact Coop.Safe.mono _ _ _ _ p (fun _ _ _ _ _ _ _ _ h => absurd h nofun) hinv
          (Op.safe _ aead _ (memory_lawful _) _ rfl (fun m h => absurd h (hop m)) p hinv)
    | reapExpired =>
        exact Coop.Safe.mono _ _ _ _ p (fun _ _ _ _ _ _ _ _ h => absurd h nofun) hinv
          (Op.safe _ aead _ (memory_lawful _) _ rfl (fun m h => absurd h (hop m)) p hinv)
  have hadvance := Coop.Safe.advance _ _ _ clock p hinv hsafe
  rw [hrun] at hadvance
  rcases hadvance with ⟨hinv', hguar, hrest⟩
  refine ⟨hguar.1.1, hguar.1.2 rfl, fun request schema r hop' hres => ?_⟩
  rcases hrest with ⟨a, ha, hpost⟩ | ⟨e, he⟩ | hsettled
  · rw [show rest = Coop.done a from ha, Coop.done.injEq] at hres
    exact hpost request schema r hop' hres
  · rw [show rest = Coop.fail e from he] at hres
    exact absurd hres nofun
  · rw [show rest = Coop.done (Result.accepted r) from hres] at hsettled
    exact hsettled q hinv' (Coop.rely_refl _ _) request schema r hop' rfl

/-- A session has one object, an id has one handshake, and a handshake that has
    not made its object yet is the only one for it. -/
structure Objects (p : Process) (made : List Bytes) (jobs : ℕ → Option (Job Unit)) : Prop where
  mem_made : ∀ r < p.next, (p.heap r).sessionId ∈ made
  unique : ∀ r < p.next, ∀ r' < p.next, (p.heap r).sessionId = (p.heap r').sessionId → r = r'
  pending : ∀ k i m rest, jobs k = some ⟨i, .create m, rest⟩ → m.sessionId ∈ made ∧
    (∀ r < p.next, (p.heap r).sessionId ≠ m.sessionId) ∧
    ∀ k' i' m' rest', jobs k' = some ⟨i', .create m', rest'⟩ → m'.sessionId = m.sessionId → k' = k

namespace Objects

variable {p q : Process} {made : List Bytes} {jobs jobs' : ℕ → Option (Job Unit)}

-- No object is made, and no operation begins.
theorem grow (h : Objects p made jobs) (hgrows : p.Grows q) (hnext : q.next = p.next)
    (hjobs : ∀ k i m rest, jobs' k = some ⟨i, .create m, rest⟩ →
      jobs k = some ⟨i, .create m, rest⟩) :
    Objects q made jobs' := by
  have hid : ∀ r < q.next, r < p.next ∧ (q.heap r).sessionId = (p.heap r).sessionId := by
    intro r hr
    rw [hnext] at hr
    exact ⟨hr, (hgrows.evolves r hr).sessionId⟩
  refine ⟨fun r hr => ?_, fun r hr r' hr' heq => ?_, fun k i m rest hk => ?_⟩
  · rw [(hid r hr).2]
    exact h.mem_made r (hid r hr).1
  · rw [(hid r hr).2, (hid r' hr').2] at heq
    exact h.unique r (hid r hr).1 r' (hid r' hr').1 heq
  · rcases h.pending k i m rest (hjobs k i m rest hk) with ⟨hmade, hnone, hother⟩
    refine ⟨hmade, fun r hr => ?_, fun k' i' m' rest' hk' => ?_⟩
    · rw [(hid r hr).2]
      exact hnone r (hid r hr).1
    · exact hother k' i' m' rest' (hjobs k' i' m' rest' hk')

-- A handshake begins, with an id of its own.
theorem start (h : Objects p made jobs) (k : ℕ) (inst : Unit) (m : SessionMaterial)
    (task : Task Result) (hnew : m.sessionId ∉ made) :
    Objects p (m.sessionId :: made)
      (Function.update jobs k (some ⟨inst, .create m, task⟩)) := by
  refine ⟨fun r hr => List.mem_cons_of_mem _ (h.mem_made r hr), h.unique,
    fun k' i m' rest hk' => ?_⟩
  have hold : ∀ k' i m' rest, jobs k' = some ⟨i, .create m', rest⟩ →
      m'.sessionId ≠ m.sessionId := fun k' i m' rest hk' heq =>
    hnew (heq ▸ (h.pending k' i m' rest hk').1)
  by_cases hk : k' = k
  · rw [hk, Function.update_self, Option.some.injEq, Job.mk.injEq] at hk'
    rcases hk' with ⟨-, hop, -⟩
    rw [← Op.create.inj hop]
    refine ⟨List.mem_cons_self, fun r hr heq => hnew (heq ▸ h.mem_made r hr), ?_⟩
    intro k'' i'' m'' rest'' hk'' heq
    by_cases hkk : k'' = k
    · rw [hkk, hk]
    · rw [Function.update_of_ne hkk] at hk''
      exact absurd heq (hold k'' i'' m'' rest'' hk'')
  · rw [Function.update_of_ne hk] at hk'
    rcases h.pending k' i m' rest hk' with ⟨hmade, hnone, hother⟩
    refine ⟨List.mem_cons_of_mem _ hmade, hnone, fun k'' i'' m'' rest'' hk'' heq => ?_⟩
    by_cases hkk : k'' = k
    · rw [hkk, Function.update_self, Option.some.injEq, Job.mk.injEq] at hk''
      rw [← Op.create.inj hk''.2.1] at heq
      exact absurd heq.symm (hold k' i m' rest hk')
    · rw [Function.update_of_ne hkk] at hk''
      exact hother k'' i'' m'' rest'' hk'' heq

-- A handshake makes the one object of its session.
theorem create (h : Objects p made jobs) (k : ℕ) (i : Unit) (m : SessionMaterial)
    (rest : Task Result) (hjob : jobs k = some ⟨i, .create m, rest⟩) (hgrows : p.Grows q)
    (hnext : q.next = p.next + 1) (hnew : (q.heap p.next).sessionId = m.sessionId) :
    Objects q made (Function.update jobs k none) := by
  rcases h.pending k i m rest hjob with ⟨hmade, hnone, hother⟩
  -- An object is the new one, or one there was, under the id it had.
  have hid : ∀ r < q.next, (r = p.next ∧ (q.heap r).sessionId = m.sessionId) ∨
      (r < p.next ∧ (q.heap r).sessionId = (p.heap r).sessionId) := by
    intro r hr
    by_cases hlast : r = p.next
    · exact Or.inl ⟨hlast, by rw [hlast, hnew]⟩
    · rw [hnext] at hr
      have hlt : r < p.next := Nat.lt_of_le_of_ne (Nat.lt_succ_iff.mp hr) hlast
      exact Or.inr ⟨hlt, (hgrows.evolves r hlt).sessionId⟩
  refine ⟨fun r hr => ?_, fun r hr r' hr' heq => ?_, fun k' i' m' rest' hk' => ?_⟩
  · rcases hid r hr with ⟨-, hsid⟩ | ⟨hlt, hsid⟩
    · rw [hsid]
      exact hmade
    · rw [hsid]
      exact h.mem_made r hlt
  · rcases hid r hr with ⟨hr, hsid⟩ | ⟨hlt, hsid⟩
    · rcases hid r' hr' with ⟨hr', -⟩ | ⟨hlt', hsid'⟩
      · rw [hr, hr']
      -- No object there was has the id of a creation that is pending.
      · exact absurd ((hsid'.symm.trans heq.symm).trans hsid) (hnone r' hlt')
    · rcases hid r' hr' with ⟨-, hsid'⟩ | ⟨hlt', hsid'⟩
      · exact absurd ((hsid.symm.trans heq).trans hsid') (hnone r hlt)
      · exact h.unique r hlt r' hlt' ((hsid.symm.trans heq).trans hsid')
  · have hne : k' ≠ k := fun hk => by
      rw [hk, Function.update_self] at hk'
      exact absurd hk' nofun
    rw [Function.update_of_ne hne] at hk'
    rcases h.pending k' i' m' rest' hk' with ⟨hmade', hnone', hother'⟩
    refine ⟨hmade', fun r hr => ?_, fun k'' i'' m'' rest'' hk'' heq => ?_⟩
    · rcases hid r hr with ⟨-, hsid⟩ | ⟨hlt, hsid⟩
      · rw [hsid]
        exact fun heq => hne (hother k' i' m' rest' hk' heq.symm)
      · rw [hsid]
        exact hnone' r hlt
    · by_cases hkk : k'' = k
      · rw [hkk, Function.update_self] at hk''
        exact absurd hk'' nofun
      · rw [Function.update_of_ne hkk] at hk''
        exact hother' k'' i'' m'' rest'' hk'' heq

end Objects

/-- A request was sealed by the client of a session, with the plaintext that its
    body opens to. -/
def SealedByClient (aead : Aead) (hs : Handshakes) (sent : List Sealing) (sid : Bytes)
    (request : Request) (schema : Bytes → Except String Unit) : Prop :=
  ∃ env plaintext, env.sessionId = sid ∧ unpackEnvelope request.body = .ok env ∧
    openEnvelope aead (hs.c2s sid) sid request.method request.path request.body
      = .ok (env, plaintext) ∧
    schema plaintext = .ok () ∧
    ∃ x ∈ sent, x.sessionId = sid ∧ x.counter = env.counter ∧
      x.method.toUpper = request.method.toUpper ∧ x.path = request.path ∧ x.plaintext = plaintext

namespace World

variable {aead : Aead} {hs : Handshakes} {w : World}

-- What the server has sealed does not open as a request: for the same session it
-- was sealed under the other key, or after the session was closed.
theorem not_produced_by_server (hcons : w.proc.Consistent (.requests hs))
    {jobs : ℕ → Option (Job Unit)} (hobjects : Objects w.proc w.made jobs) (s : Session) (r : Ref)
    (hr : r < w.proc.next) (hevolves : (w.proc.heap r).Evolves s) (hopen : s.closed = false)
    (hs' : s.OfHandshake hs) (n : Note) (hn : n ∈ w.proc.history) (d : DirectionKeys)
    (hkind : n.kind = .sealed d) (hkey : (hs.c2s s.sessionId).key = d.key)
    (hsid : n.session.sessionId = s.sessionId) : False := by
  rcases hcons.notes n hn with ⟨hlt, hev, -, hsealed⟩
  rcases hsealed d hkind with hd | hclosed
  · rw [hd, hsid] at hkey
    exact hs.keys_ne s.sessionId hs'.1 hkey
  · -- The session has one object, so it is the one that was closed.
    have hsame : n.ref = r := hobjects.unique n.ref hlt r hr (by
      rw [hev.sessionId, hsid, hevolves.sessionId])
    rw [hsame] at hev
    rw [hevolves.closed (hev.closed hclosed)] at hopen
    exact absurd hopen nofun

/-- An accepted request was sealed by its session's client. -/
theorem sealed_of_acceptance (hcons : w.proc.Consistent (.requests hs))
    {jobs : ℕ → Option (Job Unit)} (hobjects : Objects w.proc w.made jobs)
    (hclients : ∀ x ∈ w.sent, x.sessionId ∈ hs.ids ∧ IsMethod x.method ∧ IsPath x.path)
    (request : Request) (schema : Bytes → Except String Unit)
    (hmethod : IsMethod request.method) (hpath : IsPath request.path)
    (hopens : ∀ env aad plaintext, unpackEnvelope request.body = .ok env →
      buildAad request.method request.path env.sessionId env.counter = .ok aad →
      aead.decrypt env.ciphertext aad env.nonce (hs.c2s env.sessionId).key = some plaintext →
      w.Produced aead hs (hs.c2s env.sessionId).key env.nonce aad env.ciphertext)
    (target : Option Bytes) (q : Process) (r : Ref) (hr : r < w.proc.next) (env : Envelope)
    (plaintext : Bytes) (s : Session)
    (hacc : Acceptance ⟨.requests hs, target, ∅, false⟩ aead request schema w.proc q r () env
      plaintext s) : SealedByClient aead hs w.sent env.sessionId request schema := by
  have hkind : s.OfHandshake hs := hacc.kind
  have hkeys : s.c2s = hs.c2s env.sessionId := by
    rw [(hkind.2 hacc.isOpen).1, hacc.session]
  have hopened := hacc.opened
  rw [hkeys, hacc.session] at hopened
  rcases (openEnvelope_eq_ok_iff _ _ _ _ _ _ _ _).mp hopened with ⟨hunpack, -, aad, haad, hdec⟩
  have hlen : env.sessionId.length = sessionIdBytes :=
    (unpackEnvelope_eq_ok _ _ hunpack).1.sessionId
  refine ⟨env, plaintext, rfl, hunpack, hopened, hacc.valid, ?_⟩
  rcases hopens env aad plaintext hunpack haad hdec with
    -- The client has encrypted it, or the server has, and then under the other key.
    ⟨x, hx, -, hnonce, haad', hct⟩ | ⟨n, hn, d, m, p, pt, hsealed, hkey, -, haad', -⟩
  · rcases hclients x hx with ⟨hid, hxm, hxp⟩
    rcases buildAad_inj x.method request.method x.path request.path x.sessionId env.sessionId
      x.counter env.counter aad hxm hmethod hxp hpath (by rw [hs.length_ids _ hid, hlen]) haad' haad
      with ⟨hsid, hcounter, hupper, hpaths⟩
    refine ⟨x, hx, hsid, hcounter, hupper, hpaths, ?_⟩
    rw [hct, aead.decrypt_encrypt _ _ _ _ (length_nonceFor _ _ _ hnonce)
      (DirectionKeys.key_length _), Option.some.injEq] at hdec
    exact hdec
  · have hnid : n.session.sessionId ∈ hs.ids := (hcons.notes n hn).2.2.1.1
    rcases buildAad_split m request.method p request.path n.session.sessionId env.sessionId _
      env.counter aad (by rw [hs.length_ids _ hnid, hlen]) haad' haad with ⟨hsid, -⟩
    rw [← hacc.session] at hkey hsid
    exact (not_produced_by_server hcons hobjects s r hr (hacc.before hr) hacc.isOpen hkind n hn d
      hsealed hkey hsid).elim

end World

/-- What is known of the accepted requests: their counters are all different and
    refused from then on, and their clients have sealed them. -/
structure Acceptances (aead : Aead) (hs : Handshakes) (sent : List Sealing)
    (results : List (Unit × Op × Except Exc Result)) (p : Process) : Prop where
  refused : ∀ x ∈ results.filterMap acceptedCounter, ∃ r < p.next,
    (p.heap r).sessionId = x.1 ∧ (p.heap r).replay.admits x.2 = false
  nodup : (results.filterMap acceptedCounter).Nodup
  sealed : ∀ request schema r,
    ((), Op.decryptRequest request schema, .ok (Result.accepted r)) ∈ results →
      r < p.next ∧ SealedByClient aead hs sent (p.heap r).sessionId request schema

namespace Acceptances

variable {aead : Aead} {hs : Handshakes} {sent : List Sealing}
  {results : List (Unit × Op × Except Exc Result)} {p q : Process}

-- What a window refuses it keeps refusing, and what was sealed stays so.
theorem grow (h : Acceptances aead hs sent results p) (hgrows : p.Grows q) (sent' : List Sealing)
    (hsent : sent ⊆ sent') : Acceptances aead hs sent' results q := by
  refine ⟨fun x hx => ?_, h.nodup, fun request schema r hmem => ?_⟩
  · rcases h.refused x hx with ⟨r, hr, hsid, hrefused⟩
    have hev := hgrows.evolves r hr
    refine ⟨r, lt_of_lt_of_le hr hgrows.next, by rw [hev.sessionId, hsid], ?_⟩
    rw [← Bool.not_eq_true]
    intro hadmits
    rw [hev.admits x.2 hadmits] at hrefused
    exact absurd hrefused nofun
  · rcases h.sealed request schema r hmem with
      ⟨hr, env, plaintext, hsid, hunpack, hopen, hvalid, x, hx, hrest⟩
    refine ⟨lt_of_lt_of_le hr hgrows.next, ?_⟩
    rw [(hgrows.evolves r hr).sessionId]
    exact ⟨env, plaintext, hsid, hunpack, hopen, hvalid, x, hsent hx, hrest⟩

-- A result that accepts nothing.
theorem other (h : Acceptances aead hs sent results p) (op : Op) (res : Except Exc Result)
    (hnot : ∀ request schema r, op = .decryptRequest request schema → res ≠ .ok (.accepted r)) :
    Acceptances aead hs sent (((), op, res) :: results) p := by
  have hnone : acceptedCounter ((), op, res) = none := by
    unfold acceptedCounter
    split
    · next request schema r heq =>
        rcases Prod.mk.inj (Prod.mk.inj heq).2 with ⟨hop, hres⟩
        exact absurd hres (hnot request schema r hop)
    · rfl
  have hsame : (((), op, res) :: results).filterMap acceptedCounter =
      results.filterMap acceptedCounter := List.filterMap_cons_none hnone
  refine ⟨?_, ?_, fun request schema r hmem => ?_⟩
  · rw [hsame]
    exact h.refused
  · rw [hsame]
    exact h.nodup
  · rcases List.mem_cons.mp hmem with heq | hold
    · rcases Prod.mk.inj (Prod.mk.inj heq).2 with ⟨hop, hres⟩
      exact absurd hres.symm (hnot request schema r hop.symm)
    · exact h.sealed request schema r hold

/-- An accepted request is a new one: its window admitted the counter, and does
    not any more. -/
theorem accept {made : List Bytes} {jobs : ℕ → Option (Job Unit)}
    (h : Acceptances aead hs sent results p) (hobjects : Objects p made jobs) (hgrows : p.Grows q)
    (request : Request) (schema : Bytes → Except String Unit) (r : Ref) (hr : r < p.next)
    (env : Envelope) (hunpack : unpackEnvelope request.body = .ok env)
    (hsealed : SealedByClient aead hs sent env.sessionId request schema)
    (hsid : (p.heap r).sessionId = env.sessionId)
    (hadmits : (p.heap r).replay.admits env.counter = true)
    (hrefused : (q.heap r).replay.admits env.counter = false) :
    Acceptances aead hs sent
      (((), .decryptRequest request schema, .ok (.accepted r)) :: results) q := by
  have hcounter : acceptedCounter ((), .decryptRequest request schema, .ok (.accepted r)) =
      some (env.sessionId, env.counter) := by
    simp only [acceptedCounter, hunpack]
  have hcons := List.filterMap_cons_some (l := results) hcounter
  have hnew : (env.sessionId, env.counter) ∉ results.filterMap acceptedCounter := by
    intro hmem
    rcases h.refused _ hmem with ⟨r', hr', hsid', hrefused'⟩
    rw [hobjects.unique r' hr' r hr (hsid'.trans hsid.symm), hadmits] at hrefused'
    exact absurd hrefused' nofun
  have hq := h.grow hgrows sent (List.Subset.refl _)
  have hrq : r < q.next := lt_of_lt_of_le hr hgrows.next
  have hsidq : (q.heap r).sessionId = env.sessionId := (hgrows.evolves r hr).sessionId.trans hsid
  refine ⟨fun x hx => ?_, ?_, fun request' schema' r' hmem => ?_⟩
  · rw [hcons] at hx
    rcases List.mem_cons.mp hx with rfl | hold
    · exact ⟨r, hrq, hsidq, hrefused⟩
    · exact hq.refused x hold
  · rw [hcons]
    exact List.nodup_cons.mpr ⟨hnew, h.nodup⟩
  · rcases List.mem_cons.mp hmem with heq | hold
    · rcases Prod.mk.inj (Prod.mk.inj heq).2 with ⟨hop, hres⟩
      rcases Op.decryptRequest.inj hop with ⟨rfl, rfl⟩
      rw [Result.accepted.inj (Except.ok.inj hres), hsidq]
      exact ⟨hrq, hsealed⟩
    · exact hq.sealed request' schema' r' hold

end Acceptances

end SecureLlm
