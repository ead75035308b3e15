import SecureLlm.Client.Counters
import SecureLlm.Client.Verdicts
import SecureLlm.Crypto.Binding

/-!
# Answers and Requests

An honest server answers requests, each with an envelope sealed for the request's
session, method and path under the next counter of the session. The network brings
each call any body it likes, and all that is assumed of it is that what opens under
a session's key was sealed by the server.

A value that a request returns is then a payload the server has sealed on the
session of the request for its method and path. Nothing in the envelope names the
request it answers. Two requests to one endpoint can be given each other's answers,
but not both the same one, as long as they meet the same replay check and it has
dropped nothing.

## Main definitions

* `Answer`: What the server has sealed.
* `Exchange`: A transport with its calls, and a server that answers them.
* `Exchange.Honest`: What is assumed of a step.
* `Exchange.Traced`: The invariant.

## Theorems

* `Exchange.Traced.step`: An honest step keeps it.
* `response_sealed_for_endpoint`: Where the values of requests are from.
* `swapped_responses`: Two requests that get each other's answers.
-/

namespace SecureLlm

open Library Transition

namespace Client

/-- What the server has sealed: for which call, on which session object, under what,
    and the payload. -/
structure Answer where
  call : ℕ
  session : ℕ
  direction : DirectionKeys
  sessionId : Bytes
  counter : ℕ
  method : String
  path : String
  payload : Bytes
  body : Bytes

/-- A transport with its calls, the counters of the server's sessions, and what the
    server has sealed, newest first. -/
structure Exchange where
  client : Shared
  counters : ℕ → ℕ
  answers : List Answer

/-- Something happens at the client, or the server answers a request. Requests are
    numbered as they are sent. -/
inductive Action where
  | client (e : Event)
  | answer (k : ℕ) (payload : Bytes)

/-- What the handshake of a session object has derived. -/
def Shared.outcome (t : Shared) (s : ℕ) : Option HandshakeOutcome :=
  t.sessions[s]?.map SessionState.outcome

theorem Shared.Grows.outcome {t u : Shared} (h : t.Grows u) {s : ℕ} {o : HandshakeOutcome}
    (ho : t.outcome s = some o) : u.outcome s = some o := by
  unfold Shared.outcome at ho ⊢
  rw [Option.map_eq_some_iff] at ho ⊢
  rcases ho with ⟨state, hstate, rfl⟩
  rcases h s state hstate with ⟨state', hstate', houtcome, -⟩
  exact ⟨state', hstate', houtcome⟩

namespace Exchange

variable (aead : Aead) (loads : Bytes → Except Exc Json)

def start : Exchange := ⟨.start, fun _ => 0, []⟩

/-- The server answers a request: bump the session's counter and seal under it. -/
def respond (w : Exchange) (x : Sealed) (outcome : HandshakeOutcome) (payload : Bytes) :
    Option Exchange :=
  let counter := w.counters x.session + 1
  match sealEnvelope aead outcome.s2c counter x.sessionId x.method x.path payload with
  | .error _ => none
  | .ok body =>
    some { w with counters := Function.update w.counters x.session counter,
                  answers := ⟨x.call, x.session, outcome.s2c, x.sessionId, counter, x.method,
                    x.path, payload, body⟩ :: w.answers }

/-- One step. -/
def step (w : Exchange) : Action → Option Exchange
  | .client e => (w.client.step aead loads e).map fun t => { w with client := t }
  | .answer k payload =>
    match w.client.sealed.reverse[k]? with
    | none => none
    | some x => (w.client.outcome x.session).bind fun o => w.respond aead x o payload

/-- What encryption has produced for the server's answers. -/
def Produced (w : Exchange) (key nonce aad ciphertext : Bytes) : Prop :=
  ∃ x ∈ w.answers, key = x.direction.key ∧ nonceFor x.direction x.counter = .ok nonce ∧
    buildAad x.method x.path x.sessionId x.counter = .ok aad ∧
    ciphertext = aead.encrypt x.payload aad nonce key

/-- What is assumed of a step: methods and paths are as HTTP has them, no route that
    answers in an envelope answers with the status 204, and a body that opens under
    a session's key has a ciphertext that the server has produced. -/
structure Honest (w : Exchange) (a : Action) : Prop where
  asks : ∀ i ask retry, a = .client (.call i ask retry) → IsMethod ask.method ∧ IsPath ask.path
  statuses : ∀ i c s r k, a = .client (.decode i) → w.client.calls i = some c →
    c.phase = .decoding s r k → r.statusCode ≠ 204
  opens : ∀ i c s r k o env aad plaintext, a = .client (.decode i) →
    w.client.calls i = some c → c.phase = .decoding s r k → w.client.outcome s = some o →
    unpackEnvelope r.content = .ok env →
    buildAad c.ask.method.toUpper c.ask.path env.sessionId env.counter = .ok aad →
    aead.decrypt env.ciphertext aad env.nonce o.s2c.key = some plaintext →
    w.Produced aead o.s2c.key env.nonce aad env.ciphertext

variable {aead loads} {w : Exchange}

/-- A value is the payload of an answer on the session of one of a call's envelopes,
    for the same method and path, which a replay check has let through for the call. -/
def From (loads : Bytes → Except Exc Json) (t : Shared) (answers : List Answer) (i : ℕ)
    (value : Json) : Prop :=
  ∃ z ∈ t.sealed, ∃ o, z.call = i ∧ t.outcome z.session = some o ∧ z.sessionId = o.sessionId ∧
    ∃ x ∈ answers, x.direction.key = o.s2c.key ∧ x.sessionId = z.sessionId ∧
      x.method = z.method ∧ x.path = z.path ∧ parsePayload loads x.payload = .ok value ∧
      ∃ y ∈ t.checked, y.call = i ∧ y.session = z.session ∧ y.counter = x.counter ∧
        y.accepted = true

/-- A call has sent an envelope for a session object, with its method and path. -/
def Sent (t : Shared) (i : ℕ) (c : Call) (s : ℕ) : Prop :=
  ∃ z ∈ t.sealed, z.call = i ∧ z.session = s ∧ z.method = c.ask.method.toUpper ∧
    z.path = c.ask.path

/-- The invariant. What is sealed and answered is so for methods and paths of calls,
    a call past the sending has an envelope, and the values of requests are from
    answers. -/
structure Traced (aead : Aead) (loads : Bytes → Except Exc Json) (w : Exchange) : Prop where
  owned : w.client.Owned aead
  remembered : w.client.Remembered
  asks : ∀ i c, w.client.calls i = some c → IsMethod c.ask.method ∧ IsPath c.ask.path
  envelopes : ∀ z ∈ w.client.sealed, IsMethod z.method ∧ IsPath z.path ∧
    z.method.toUpper = z.method
  sent : ∀ i c s, w.client.calls i = some c → c.phase.sentFor = some s → Sent w.client i c s
  answers : ∀ x ∈ w.answers, IsMethod x.method ∧ IsPath x.path ∧ x.method.toUpper = x.method ∧
    x.sessionId.length = sessionIdBytes
  values : ∀ i c value, w.client.calls i = some c → c.phase = .over (.ok (some value)) →
    From loads w.client w.answers i value

theorem traced_start : start.Traced aead loads where
  owned := Shared.owned_start
  remembered := Shared.remembered_start
  asks _ _ h := absurd h nofun
  envelopes _ h := absurd h List.not_mem_nil
  sent _ _ _ h := absurd h nofun
  answers _ h := absurd h List.not_mem_nil
  values _ _ _ h := absurd h nofun

/-- Where a value is from stays so. -/
theorem From.mono {t u : Shared} {answers answers' : List Answer} {i : ℕ} {value : Json}
    (h : From loads t answers i value) (hsealed : t.sealed ⊆ u.sealed) (hgrows : t.Grows u)
    (hchecked : t.checked ⊆ u.checked) (hanswers : answers ⊆ answers') :
    From loads u answers' i value := by
  rcases h with
    ⟨z, hz, o, hcall, ho, hid, x, hx, hkey, hsid, hmethod, hpath, hvalue, y, hy, hrest⟩
  exact ⟨z, hsealed hz, o, hcall, hgrows.outcome ho, hid, x, hanswers hx, hkey, hsid, hmethod,
    hpath, hvalue, y, hchecked hy, hrest⟩

/-- What opens for a request, and is let through, is what the server has sealed for
    its endpoint. -/
theorem Traced.value_from (h : w.Traced aead loads) {i : ℕ} {c : Call} {s k : ℕ} {r : Response}
    {state : SessionState} {env : Envelope} {plaintext : Bytes} {value : Json} {t : Shared}
    (hhonest : w.Honest aead (.client (.decode i))) (hcall : w.client.calls i = some c)
    (hphase : c.phase = .decoding s r k) (hstate : w.client.sessions[s]? = some state)
    (hopen : SecureLlm.openEnvelope aead state.outcome.s2c state.outcome.sessionId
      c.ask.method.toUpper c.ask.path r.content = .ok (env, plaintext))
    (hvalue : parsePayload loads plaintext = .ok value) (hsealed : t.sealed = w.client.sealed)
    (hsessions : t.sessions = w.client.sessions)
    (hchecked : t.checked = ⟨i, s, k, env.counter, true⟩ :: w.client.checked) :
    From loads t w.answers i value := by
  have ho : w.client.outcome s = some state.outcome := by
    rw [Shared.outcome, hstate, Option.map_some]
  rcases (openEnvelope_eq_ok_iff _ _ _ _ _ _ _ _).mp hopen with
    ⟨hunpack, hsid, aad, haad, hdecrypt⟩
  rw [← hsid] at haad
  rcases hhonest.opens i c s r k state.outcome env aad plaintext rfl hcall hphase ho hunpack haad
    hdecrypt with ⟨x, hx, hkey, hnonce, haadx, hct⟩
  rcases h.sent i c s hcall (by rw [hphase]; rfl) with ⟨z, hz, hzi, hzs, hzmethod, hzpath⟩
  rcases h.owned.keys z hz with ⟨state', hstate', -, hzid, -⟩
  rw [hzs, hstate] at hstate'
  rw [← Option.some.inj hstate'] at hzid
  rcases h.asks i c hcall with ⟨hmethod, hpath⟩
  rcases h.answers x hx with ⟨hxmethod, hxpath, hxupper, hxlen⟩
  -- The additional data names the endpoint and the session.
  rcases opened_of_made hopen hmethod.toUpper hpath hxmethod hxpath hxlen haad hnonce haadx hct with
    ⟨hplain, hids, hcounters, hmethods, hpaths⟩
  rw [hmethod.toUpper_toUpper, hxupper] at hmethods
  have houtcome : t.outcome z.session = some state.outcome := by
    rw [Shared.outcome, hsessions, ← Shared.outcome, hzs, ho]
  refine ⟨z, hsealed ▸ hz, state.outcome, hzi, houtcome, hzid, x, hx, hkey.symm, ?_, ?_, ?_, ?_,
    ⟨i, s, k, env.counter, true⟩, hchecked ▸ List.mem_cons_self, rfl, hzs.symm, ?_, rfl⟩
  · rw [hzid, hids]
  · rw [hzmethod, hmethods]
  · rw [hzpath, hpaths]
  · rw [hplain, hvalue]
  · rw [hcounters]

/-- What one call does keeps the invariant, if what it comes to is right. -/
theorem Traced.keep (h : w.Traced aead loads) {t : Shared} (howned : t.Owned aead)
    (hremembered : t.Remembered) (hgrows : w.client.Grows t)
    (hsealed : w.client.sealed ⊆ t.sealed) (hchecked : w.client.checked ⊆ t.checked)
    (henvelopes : ∀ z ∈ t.sealed, IsMethod z.method ∧ IsPath z.path ∧
      z.method.toUpper = z.method)
    {i : ℕ} {c' : Call} (hcalls : t.calls = Function.update w.client.calls i (some c'))
    (hask : IsMethod c'.ask.method ∧ IsPath c'.ask.path)
    (hsent : ∀ s, c'.phase.sentFor = some s → Sent t i c' s)
    (hvalue : ∀ value, c'.phase = .over (.ok (some value)) → From loads t w.answers i value) :
    ({ w with client := t } : Exchange).Traced aead loads where
  owned := howned
  remembered := hremembered
  asks j c hc := by
    by_cases hj : j = i
    · rw [hcalls, hj, Function.update_self, Option.some.injEq] at hc
      rw [← hc]
      exact hask
    · rw [hcalls, Function.update_of_ne hj] at hc
      exact h.asks j c hc
  envelopes := henvelopes
  sent j c s hc hs := by
    by_cases hj : j = i
    · rw [hcalls, hj, Function.update_self, Option.some.injEq] at hc
      rw [← hc] at hs ⊢
      rw [hj]
      exact hsent s hs
    · rw [hcalls, Function.update_of_ne hj] at hc
      rcases h.sent j c s hc hs with ⟨z, hz, hrest⟩
      exact ⟨z, hsealed hz, hrest⟩
  answers := h.answers
  values j c value hc hover := by
    by_cases hj : j = i
    · rw [hcalls, hj, Function.update_self, Option.some.injEq] at hc
      rw [← hc] at hover
      rw [hj]
      exact hvalue value hover
    · rw [hcalls, Function.update_of_ne hj] at hc
      exact (h.values j c value hc hover).mono hsealed hgrows hchecked (List.Subset.refl _)

/-- What happens at the client keeps the invariant. -/
theorem Traced.client (h : w.Traced aead loads) {e : Event} {t : Shared}
    (hhonest : w.Honest aead (.client e)) (hstep : w.client.Move aead loads e t) :
    ({ w with client := t } : Exchange).Traced aead loads := by
  have howned := h.owned.step hstep
  have hremembered := h.remembered.step hstep
  have hgrows := hstep.grows
  cases hstep with
  | call i ask retry he hfree =>
      exact h.keep howned hremembered hgrows (List.Subset.refl _) (List.Subset.refl _) h.envelopes
        rfl (hhonest.asks i ask retry (by rw [he])) nofun nofun
  | goes i c phase hcall hsent hidle hvalue =>
      refine h.keep howned hremembered hgrows (List.Subset.refl _) (List.Subset.refl _) h.envelopes
        rfl (h.asks i c hcall) (fun s hs => h.sent i c s hcall (hsent s hs)) fun value hover => ?_
      -- A value without an envelope comes from a 204, which the server does not send.
      rcases hvalue value hover with ⟨s, r, k, rfl, hphase, hstatus⟩
      exact absurd hstatus (hhonest.statuses i c s r k rfl hcall hphase)
  | joins i c s hcall hphase hsession =>
      exact h.keep howned hremembered hgrows (List.Subset.refl _) (List.Subset.refl _) h.envelopes
        rfl (h.asks i c hcall) nofun nofun
  | makes i c outcome hcall hphase hsession =>
      exact h.keep howned hremembered hgrows (List.Subset.refl _) (List.Subset.refl _) h.envelopes
        rfl (h.asks i c hcall) nofun nofun
  | takes i c s state hcall hphase hstate =>
      exact h.keep howned hremembered hgrows (List.Subset.refl _) (List.Subset.refl _) h.envelopes
        rfl (h.asks i c hcall) nofun nofun
  | seals i c s state counter body hcall hphase hstate hbody =>
      refine h.keep howned hremembered hgrows (List.subset_cons_self _ _) (List.Subset.refl _)
        (fun z hz => ?_) rfl (h.asks i c hcall) (fun s' hs => ?_) nofun
      · rcases List.mem_cons.mp hz with rfl | hz
        · rcases h.asks i c hcall with ⟨hmethod, hpath⟩
          exact ⟨hmethod.toUpper, hpath, hmethod.toUpper_toUpper⟩
        · exact h.envelopes z hz
      · exact ⟨_, List.mem_cons_self, rfl, Option.some.inj hs, rfl, rfl⟩
  | forgets i c hcall =>
      exact h.keep howned hremembered hgrows (List.Subset.refl _) (List.Subset.refl _) h.envelopes
        rfl (h.asks i c hcall) nofun nofun
  | resets => exact ⟨howned, hremembered, h.asks, h.envelopes, h.sent, h.answers, h.values⟩
  | skips => exact h
  | refuses i c s k replay counter error hcall huses hreplay hcheck =>
      exact h.keep howned hremembered hgrows (List.Subset.refl _) (List.subset_cons_self _ _)
        h.envelopes rfl (h.asks i c hcall) nofun nofun
  | accepts i c c' s k replay replay' counter hcall huses hreplay hcheck hask hphase hvalue =>
      refine h.keep howned hremembered hgrows (List.Subset.refl _) (List.subset_cons_self _ _)
        h.envelopes rfl (hask ▸ h.asks i c hcall) (fun s' hs => ?_) fun value hover => ?_
      -- A stream reads on for the session it was sent on.
      · rcases hphase with ⟨hreading, hwas⟩ | ⟨result, hover⟩
        · have hsent := h.sent i c s' hcall (by rw [hwas, ← hreading, hs])
          unfold Sent at hsent ⊢
          rw [hask]
          exact hsent
        · rw [hover] at hs
          exact absurd hs nofun
      · rcases hvalue value hover with
          ⟨state, r, env, plaintext, rfl, hstate, hdecoding, rfl, hopen, hparse⟩
        exact h.value_from hhonest hcall hdecoding hstate hopen hparse rfl rfl rfl

/-- An answer keeps the invariant. -/
theorem Traced.respond (h : w.Traced aead loads) {x : Sealed} {o : HandshakeOutcome}
    {payload : Bytes} {w' : Exchange} (hx : x ∈ w.client.sealed)
    (hrespond : w.respond aead x o payload = some w') : w'.Traced aead loads := by
  unfold Exchange.respond at hrespond
  dsimp only at hrespond
  split at hrespond
  · exact absurd hrespond nofun
  · rename_i body hbody
    rw [← Option.some.inj hrespond]
    refine ⟨h.owned, h.remembered, h.asks, h.envelopes, h.sent, fun y hy => ?_,
      fun i c value hc hover => ?_⟩
    · rcases List.mem_cons.mp hy with rfl | hy
      · rcases h.envelopes x hx with ⟨hmethod, hpath, hupper⟩
        exact ⟨hmethod, hpath, hupper, length_of_sealEnvelope hbody⟩
      · exact h.answers y hy
    · exact (h.values i c value hc hover).mono (List.Subset.refl _) (.of_eq rfl)
        (List.Subset.refl _) (List.subset_cons_self _ _)

/-- An honest step keeps the invariant. -/
theorem Traced.step (h : w.Traced aead loads) {a : Action} {w' : Exchange}
    (hhonest : w.Honest aead a) (hstep : w.step aead loads a = some w') :
    w'.Traced aead loads := by
  cases a with
  | client e =>
      rw [Exchange.step, Option.map_eq_some_iff] at hstep
      rcases hstep with ⟨t, ht, rfl⟩
      exact h.client hhonest (Shared.move_of_step ht)
  | answer k payload =>
      unfold Exchange.step at hstep
      dsimp only at hstep
      split at hstep
      · exact absurd hstep nofun
      · rename_i x hx
        rw [Option.bind_eq_some_iff] at hstep
        rcases hstep with ⟨o, -, hrespond⟩
        exact h.respond (List.mem_reverse.mp (List.mem_of_getElem? hx)) hrespond

/-- A check for honest steps. It is met where each request is given a body that was
    sealed for its endpoint. -/
def honest (aead : Aead) (w : Exchange) : Action → Bool
  | .client (.call _ ask _) => decide (IsMethod ask.method ∧ IsPath ask.path)
  | .client (.decode i) =>
    match w.client.calls i with
    | some ⟨ask, _, .decoding s r _, _⟩ =>
      decide (r.statusCode ≠ 204) && (w.client.outcome s).all fun o => w.answers.any fun x =>
        decide (x.direction = o.s2c ∧ x.method = ask.method.toUpper ∧ x.path = ask.path ∧
          sealEnvelope aead x.direction x.counter x.sessionId x.method x.path x.payload =
            .ok r.content)
    | _ => true
  | _ => true

theorem honest_sound (a : Action) (h : w.honest aead a = true) : w.Honest aead a where
  asks i ask retry ha := by
    subst ha
    exact of_decide_eq_true h
  statuses i c s r k ha hcall hphase := by
    subst ha
    rcases c with ⟨ask, retry, phase, yielded⟩
    subst hphase
    simp only [honest, hcall, Bool.and_eq_true, decide_eq_true_eq] at h
    exact h.1
  opens i c s r k o env aad plaintext ha hcall hphase ho hunpack haad _ := by
    subst ha
    rcases c with ⟨ask, retry, phase, yielded⟩
    subst hphase
    simp only [honest, hcall, ho, Option.all_some, Bool.and_eq_true, List.any_eq_true,
      decide_eq_true_eq] at h
    rcases h.2 with ⟨x, hx, hdirection, hmethod, hpath, hsealed⟩
    rcases unpackEnvelope_of_sealEnvelope hsealed with ⟨nonce, aad', hnonce, haad', hparsed⟩
    rw [hunpack, Except.ok.injEq] at hparsed
    subst hparsed
    -- The additional data of the endpoint is that of the answer.
    rw [← hmethod, ← hpath, haad', Except.ok.injEq] at haad
    rw [← haad, ← hdirection]
    exact ⟨x, hx, rfl, hnonce, haad', rfl⟩

end Exchange

open Exchange

/-- **Where the values of requests are from.** In every run with an honest server,
    whatever bodies the network delivers, the value that a request returns is the
    payload of an answer that the server has sealed on a session of the request, for
    the request's method and path. A replay check has let it through for the request;
    and if that check has met no more than 4096 envelopes, it has let none other
    through under the answer's counter, for a request or a stream. -/
theorem response_sealed_for_endpoint (aead : Aead) (loads : Bytes → Except Exc Json)
    (w : Exchange) (h : Run (step aead loads) (fun w a _ => w.Honest aead a) start w) (i : ℕ)
    (c : Call) (value : Json) (hcall : w.client.calls i = some c)
    (hover : c.phase = .over (.ok (some value))) :
    ∃ z ∈ w.client.sealed, ∃ o, z.call = i ∧ w.client.outcome z.session = some o ∧
      z.sessionId = o.sessionId ∧
      ∃ x ∈ w.answers, x.direction.key = o.s2c.key ∧ x.sessionId = z.sessionId ∧
        x.method = z.method ∧ x.path = z.path ∧ parsePayload loads x.payload = .ok value ∧
        ∃ y ∈ w.client.checked, y.call = i ∧ y.session = z.session ∧ y.counter = x.counter ∧
          y.accepted = true ∧
          ((Shared.metBy w.client.checked y.replay).length ≤ 4096 →
            (Shared.metBy w.client.checked y.replay).filter
              (fun y' => decide (y'.counter = (x.counter : ℤ)) && y'.accepted) = [y]) := by
  have htraced : w.Traced aead loads := Run.invariant (fun w => w.Traced aead loads) traced_start
    (fun w a w' hw hhonest (hstep : w.step aead loads a = some w') => hw.step hhonest hstep) h
  rcases htraced.values i c value hcall hover with
    ⟨z, hz, o, hzi, ho, hid, x, hx, hkey, hsid, hmethod, hpath, hvalue, y, hy, hyi, hys, hcounter,
      haccepted⟩
  refine ⟨z, hz, o, hzi, ho, hid, x, hx, hkey, hsid, hmethod, hpath, hvalue, y, hy, hyi, hys,
    hcounter, haccepted, fun hfew => ?_⟩
  rw [← hcounter]
  exact htraced.remembered.accepted_once hy haccepted hfew

/-- One request, answered. -/
def askedOnce : List Action :=
  [.client (.call 0 (.sample false) true), .client (.enter 0 (.ok (.sample 1))),
    .client (.count 0), .client (.send 0), .answer 0 (utf8 "1"),
    .client (.reply 0 ⟨200, "application/octet-stream", envelopeSample 1 1 (utf8 "1")⟩),
    .client (.decode 0)]

/-- Two requests to one endpoint, both on the way when the first is answered. The
    network gives each the other's answer. -/
def askedCrosswise : List Action :=
  [.client (.call 0 (.sample false) true), .client (.call 1 (.sample false) true),
    .client (.enter 0 (.ok (.sample 1))), .client (.enter 1 (.ok (.sample 1))),
    .client (.count 0), .client (.count 1), .client (.send 0), .client (.send 1),
    .answer 0 (utf8 "1"), .answer 1 (utf8 "2"),
    .client (.reply 0 ⟨200, "application/octet-stream", envelopeSample 1 2 (utf8 "2")⟩),
    .client (.decode 0),
    .client (.reply 1 ⟨200, "application/octet-stream", envelopeSample 1 1 (utf8 "1")⟩),
    .client (.decode 1)]

/-- Has the call returned the number? -/
def returned (w : Exchange) (i : ℕ) (q : ℚ) : Bool :=
  match w.client.calls i with
  | some ⟨_, _, .over (.ok (some (.number q'))), _⟩ => decide (q' = q)
  | _ => false

theorem eq_of_returned {w : Exchange} {i : ℕ} {q : ℚ} (h : returned w i q = true) :
    ∃ c, w.client.calls i = some c ∧ c.phase = .over (.ok (some (.number q))) := by
  unfold returned at h
  split at h
  · rename_i ask retry q' yielded hcall
    rw [← of_decide_eq_true h]
    exact ⟨_, hcall, rfl⟩
  · exact absurd h nofun

/-- A request that is given its answer returns its payload. -/
theorem response_sealed_for_endpoint_sample :
    ∃ w, Run (step .sample loadsSample) (fun w a _ => w.Honest .sample a) start w ∧
      ∃ x ∈ w.answers, parsePayload loadsSample x.payload = .ok (.number 1) ∧
        ∃ y ∈ w.client.checked, y.call = 0 ∧
          (Shared.metBy w.client.checked y.replay).filter
            (fun y' => decide (y'.counter = (x.counter : ℤ)) && y'.accepted) = [y] := by
  have hplay : ((playIf (honest .sample) (step .sample loadsSample) start askedOnce).any
      (fun w => returned w 0 1 && decide (w.client.checked.length ≤ 4096))) = true := by
    decide +kernel
  rcases (Option.any_eq_true _ _).mp hplay with ⟨w, hw, hend⟩
  have hrun : Run (step .sample loadsSample) (fun w a _ => w.Honest .sample a) start w :=
    run_of_playIf (honest .sample) askedOnce (fun w a _ h => honest_sound a h) hw
  rw [Bool.and_eq_true] at hend
  rcases eq_of_returned hend.1 with ⟨c, hcall, hover⟩
  rcases response_sealed_for_endpoint .sample loadsSample w hrun 0 c (.number 1) hcall hover with
    ⟨z, -, o, -, -, -, x, hx, -, -, -, -, hvalue, y, hy, hyi, -, -, -, honce⟩
  exact ⟨w, hrun, x, hx, hvalue, y, hy, hyi,
    honce ((List.length_filter_le _ _).trans (of_decide_eq_true hend.2))⟩

/-- A request returns what was sealed for another. -/
theorem swapped_responses :
    ∃ w, Run (step .sample loadsSample) (fun w a _ => w.Honest .sample a) start w ∧
      ∃ c, w.client.calls 0 = some c ∧ c.phase = .over (.ok (some (.number 2))) ∧
        ∀ x ∈ w.answers, x.call = 0 → parsePayload loadsSample x.payload ≠ .ok (.number 2) := by
  have hplay : ((playIf (honest .sample) (step .sample loadsSample) start askedCrosswise).any
      (fun w => returned w 0 2 && w.answers.all fun x =>
        decide (x.call = 0 → x.payload = utf8 "1"))) = true := by
    decide +kernel
  rcases (Option.any_eq_true _ _).mp hplay with ⟨w, hw, hend⟩
  have hrun : Run (step .sample loadsSample) (fun w a _ => w.Honest .sample a) start w :=
    run_of_playIf (honest .sample) askedCrosswise (fun w a _ h => honest_sound a h) hw
  rw [Bool.and_eq_true] at hend
  rcases eq_of_returned hend.1 with ⟨c, hcall, hover⟩
  refine ⟨w, hrun, c, hcall, hover, fun x hx hxcall => ?_⟩
  have hpayload := of_decide_eq_true (List.all_eq_true.mp hend.2 x hx) hxcall
  have hone : parsePayload loadsSample (utf8 "1") = .ok (.number 1) := rfl
  rw [hpayload, hone]
  intro heq
  have hnumber := Json.number.inj (Except.ok.inj heq)
  exact absurd hnumber (by decide)

end Client

end SecureLlm
