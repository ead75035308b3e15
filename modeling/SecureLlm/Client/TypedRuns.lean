import SecureLlm.Client.TypedErrors

/-!
# Runs with Only the Client's Errors

The calls of a transport, where every step comes from what a server has sent. A call
that finds no session makes a handshake with the answer given, and no connection fails.
The runs in which each answer is read without an exception of another kind, and each
envelope can be made, are those in which no call ends with such an exception.

A line is read under the replay check of its moment, which is not always that of the
session it is for, so whether it is readable depends on what the other calls have done.

## Main definitions

* `Served`: What happens, by what a server sends.
* `Shared.serve`: A step of the transport.
* `Shared.AllTyped`: No call has ended with an exception of another kind.
* `Shared.Careful`: A step meets the condition.

## Theorems

* `Shared.serve_handshake_raising`: A handshake here is one of the transport.
* `Shared.careful_iff`: One step.
* `Shared.errors_typed_iff`: Which runs raise only errors of the client's own.
-/

namespace SecureLlm

open Library Transition

namespace Client

/-- What happens, by what a server sends. A call that finds no session makes a
    handshake, with the answer given. -/
inductive Served where
  | handshake (i : ℕ) (ephSk : Bytes) (ts : ℤ) (r : Response)
  | event (e : Event)

namespace Shared

section

variable (crypto : Primitives) (aead : Aead) (netloc : String → String)
  (loads : Bytes → Except Exc Json) (validate : Bytes → Option HandshakeResponse)
  (transport : RaisingTransport) (t : Shared)

/-- `_session_state`, where the handshake may raise anything. -/
def enter (i : ℕ) (c : Call) (handshake : Except Raised HandshakeOutcome) : Shared :=
  match t.session, handshake with
  | none, .error e => t.goto i c (.over (.error e))
  | none, .ok outcome => t.sessionState i c (.ok outcome)
  | some s, _ => t.goto i c (.counting s)

/-- One step. A handshake comes from what the server has sent, and the connection does
    not fail. -/
def serve : Served → Option Shared
  | .handshake i ephSk ts r =>
    match t.calls i with
    | some c => match c.phase with
      | .entering => some (t.enter i c (transport.doHandshake crypto netloc validate ephSk ts r))
      | _ => none
    | none => none
  | .event (.enter _ _) => none
  | .event (.lose _ _) => none
  | .event e => t.step aead loads e

/-- With a verifier that raises only its own error this is a step of the transport. -/
theorem serve_handshake_raising (transport : Transport) (i : ℕ) (ephSk : Bytes) (ts : ℤ)
    (r : Response) :
    t.serve crypto aead netloc loads validate transport.raising (.handshake i ephSk ts r) =
      t.step aead loads (.enter i ((transport.doHandshake crypto netloc ephSk ts
        (fun _ => ⟨r.statusCode, validated validate r⟩)).map SessionState.outcome)) := by
  unfold serve step
  dsimp only
  cases t.calls i with
  | none => rfl
  | some c =>
      dsimp only
      cases c.phase with
      | entering =>
          dsimp only
          rw [doHandshake_raising]
          unfold enter sessionState
          cases t.session with
          | some s => rfl
          | none =>
              cases (transport.doHandshake crypto netloc ephSk ts
                (fun _ => ⟨r.statusCode, validated validate r⟩)).map SessionState.outcome with
              | error e => rfl
              | ok outcome => rfl
      | _ => rfl

end

end Shared

/-! ## Calls that end -/

/-- A call has not ended with an exception of another kind. -/
def Call.EndsTyped (c : Call) : Prop := ∀ e, c.phase = .over (.error e) → e.typed = true

namespace Call

variable {c : Call}

/-- One that goes on has not. -/
theorem endsTyped_of_ne (h : ∀ result, c.phase ≠ .over result) : c.EndsTyped := by
  intro e he
  exact absurd he (h _)

theorem endsTyped_over_iff (result : Except Raised (Option Json)) :
    ({ c with phase := .over result } : Call).EndsTyped ↔
      RaisesOnly (fun e => e.typed = true) result := by
  unfold EndsTyped RaisesOnly
  simp only [Phase.over.injEq]

theorem raisesOnly_ends (kind : Raised → Prop) (result : Except Raised Json) :
    RaisesOnly kind (Shared.Call.ends c result) ↔ RaisesOnly kind result := by
  cases result with
  | error e => simp [Shared.Call.ends]
  | ok value => simp [Shared.Call.ends]

end Call

namespace Shared

/-- No call has ended with an exception of another kind. -/
def AllTyped (t : Shared) : Prop := ∀ i c, t.calls i = some c → c.EndsTyped

/-- Where an envelope has been sent the method could be encoded. -/
def Encoded (t : Shared) : Prop :=
  ∀ i c s, t.calls i = some c → c.phase.sentFor = some s →
    ∃ verb, encodeMethod c.ask.method.toUpper = .ok verb

theorem allTyped_start : start.AllTyped := by
  intro i c hc
  cases hc

theorem encoded_start : start.Encoded := by
  intro i c s hc
  cases hc

section

variable {t u : Shared}

/-- Where one call moves on, the others have ended as before. -/
theorem allTyped_update_iff {i : ℕ} {c : Call} (ht : t.AllTyped)
    (hcalls : u.calls = Function.update t.calls i (some c)) : u.AllTyped ↔ c.EndsTyped := by
  unfold AllTyped
  rw [hcalls]
  constructor
  · intro h
    exact h i c (Function.update_self _ _ _)
  · intro hc j d hd
    by_cases hj : j = i
    · subst hj
      rw [Function.update_self] at hd
      rw [← Option.some.inj hd]
      exact hc
    · rw [Function.update_of_ne hj] at hd
      exact ht j d hd

theorem allTyped_goto_iff {i : ℕ} {c : Call} (ht : t.AllTyped) (result) :
    (t.goto i c (.over result)).AllTyped ↔ RaisesOnly (fun e => e.typed = true) result := by
  rw [allTyped_update_iff ht rfl, Call.endsTyped_over_iff]

/-- A step that ends no call keeps the condition. -/
theorem allTyped_goes {i : ℕ} {c : Call} (ht : t.AllTyped)
    (hcalls : u.calls = Function.update t.calls i (some c))
    (hgoes : ∀ result, c.phase ≠ .over result) : u.AllTyped :=
  (allTyped_update_iff ht hcalls).mpr (Call.endsTyped_of_ne hgoes)

/-- Where one call moves on, it is enough to look at it. -/
theorem encoded_update {i : ℕ} {c : Call} (ht : t.Encoded)
    (hcalls : u.calls = Function.update t.calls i (some c))
    (hsent : ∀ s, c.phase.sentFor = some s → ∃ verb, encodeMethod c.ask.method.toUpper = .ok verb) :
    u.Encoded := by
  intro j d s hd
  rw [hcalls] at hd
  by_cases hj : j = i
  · subst hj
    rw [Function.update_self] at hd
    rw [← Option.some.inj hd]
    exact hsent s
  · rw [Function.update_of_ne hj] at hd
    exact ht j d s hd

/-- In particular where it has sent nothing for its session. -/
theorem encoded_unsent {i : ℕ} {c : Call} (ht : t.Encoded)
    (hcalls : u.calls = Function.update t.calls i (some c)) (hnone : c.phase.sentFor = none) :
    u.Encoded := by
  refine encoded_update ht hcalls fun s hs => ?_
  rw [hnone] at hs
  cases hs

variable {aead : Aead} {loads : Bytes → Except Exc Json}

/-- Every step keeps it, for a call only sends what it could seal. -/
theorem encoded_move {e : Event} (ht : t.Encoded) (h : t.Move aead loads e u) : u.Encoded := by
  cases h with
  | call i ask retry he hfree =>
      exact encoded_unsent ht rfl rfl
  | goes i c phase hcall hsent hidle hvalue =>
      exact encoded_update ht rfl fun s hs => ht i c s hcall (hsent s hs)
  | joins i c s hcall hphase hsession =>
      exact encoded_unsent ht rfl rfl
  | makes i c outcome hcall hphase hsession =>
      exact encoded_unsent ht rfl rfl
  | takes i c s state hcall hphase hstate =>
      exact encoded_unsent ht rfl rfl
  -- The only way to have sent an envelope is to have sealed it.
  | seals i c s state counter body hcall hphase hstate hbody =>
      refine encoded_update ht rfl fun s' hs => ?_
      exact ((sealable_iff aead _ _ _ _ _ _).mpr ⟨body, hbody⟩).2.2.2
  | forgets i c hcall =>
      exact encoded_unsent ht rfl rfl
  | resets => exact ht
  | skips => exact ht
  | refuses i c s k replay counter error hcall huses hreplay hcheck =>
      exact encoded_unsent ht rfl rfl
  | accepts i c c' s k replay replay' counter hcall huses hreplay hcheck hask hphase hvalue =>
      refine encoded_update ht rfl fun s' hs => ?_
      rw [hask]
      rcases hphase with ⟨hafter, hbefore⟩ | ⟨result, hover⟩
      · exact ht i c s hcall (by rw [hbefore]; rfl)
      · rw [hover] at hs
        cases hs

/-! ## The steps that can end a call with an exception -/

theorem encoded_enter (ht : t.Encoded) (i : ℕ) (c : Call)
    (handshake : Except Raised HandshakeOutcome) : (t.enter i c handshake).Encoded := by
  unfold enter
  cases hsession : t.session with
  | some s =>
      exact encoded_unsent ht rfl rfl
  | none =>
      cases handshake with
      | error e =>
          exact encoded_unsent ht rfl rfl
      | ok outcome =>
          dsimp only
          rw [sessionState, hsession]
          exact encoded_unsent ht rfl rfl

/-- A call that makes a handshake ends with what that raises. -/
theorem allTyped_enter_iff {i : ℕ} {c : Call} (ht : t.AllTyped)
    (handshake : Except Raised HandshakeOutcome) :
    (t.enter i c handshake).AllTyped ↔
      (t.session = none → RaisesOnly (fun e => e.typed = true) handshake) := by
  unfold enter
  cases hsession : t.session with
  | some s =>
      refine iff_of_true (allTyped_goes ht rfl (by simp)) fun h => ?_
      cases h
  | none =>
      cases handshake with
      | error e =>
          dsimp only
          rw [allTyped_goto_iff ht, raisesOnly_error, raisesOnly_error]
          simp
      | ok outcome =>
          refine iff_of_true ?_ fun _ => raisesOnly_ok outcome
          dsimp only
          rw [sessionState, hsession]
          exact allTyped_goes ht rfl (by simp)

theorem allTyped_sealAndSend_iff {i : ℕ} {c : Call} (ht : t.AllTyped) (s : ℕ)
    (state : SessionState) (counter : ℤ) :
    (t.sealAndSend aead i c s state counter).AllTyped ↔
      Sealable counter state.outcome.sessionId c.ask.method.toUpper := by
  rw [← sealEnvelope_typed_iff aead state.outcome.c2s counter state.outcome.sessionId
    c.ask.method.toUpper c.ask.path c.ask.payload]
  unfold sealAndSend
  split
  · rename_i e hseal
    rw [allTyped_goto_iff ht, hseal, raisesOnly_error, raisesOnly_error]
  · rename_i body hseal
    rw [hseal]
    exact iff_of_true (allTyped_goes ht rfl (by simp)) (raisesOnly_ok body)

/-- What is done with an answer before it is decoded ends no call. -/
theorem allTyped_receive {i : ℕ} {c : Call} (ht : t.AllTyped) (s : ℕ) (r : Response) :
    (t.receive loads i c s r).AllTyped := by
  have hgoes : ∀ phase : Phase, phase.sentFor = some s → (t.goto i c phase).AllTyped := by
    intro phase hs
    refine allTyped_goes ht rfl fun result hr => ?_
    dsimp only at hr
    rw [hr] at hs
    cases hs
  unfold receive
  split
  · split
    · exact hgoes _ rfl
    · exact hgoes _ rfl
  · split
    · exact hgoes _ rfl
    · exact hgoes _ rfl

section

variable (hloads : ∀ content, RaisesOnly (fun e => (Raised.exc e).typed = false) (loads content))

include hloads

theorem allTyped_decode_iff {i : ℕ} {c : Call} {r : Response} {k : ℕ} {replay : ReplayClient}
    (ht : t.AllTyped) (s : ℕ) (outcome : HandshakeOutcome) (hreplay : t.replays[k]? = some replay)
    (hmethod : ∃ verb, encodeMethod c.ask.method.toUpper = .ok verb) :
    (t.decode aead loads i c s outcome r k replay).AllTyped ↔
      AnswerReadable aead loads r outcome c.ask.method c.ask.path replay := by
  rw [allTyped_update_iff ht (decode_eq i c s outcome r hreplay).1, Call.endsTyped_over_iff,
    Call.raisesOnly_ends, decodeResponse_typed_iff hloads r outcome c.ask.method c.ask.path replay
      hmethod]

/-- A line ends its stream with what its envelope raises when it is opened, or with a
    replay, or with what the JSON parser raises. -/
theorem allTyped_readLine_iff {i : ℕ} {c : Call} (ht : t.AllTyped) (s : ℕ)
    (outcome : HandshakeOutcome) (replay : ReplayClient) (line : String)
    (hmethod : ∃ verb, encodeMethod c.ask.method.toUpper = .ok verb) :
    (t.readLine aead loads i c s outcome replay line).AllTyped ↔
      LineReadable aead loads outcome c.ask.method c.ask.path replay line := by
  unfold LineReadable
  cases hcarried : carried line with
  | none =>
      refine iff_of_true ?_ fun raw h => ?_
      · -- It can still end the call, with an error of the client's own if it does not decode.
        unfold readLine
        rcases readLine_of_none aead outcome c.ask.method c.ask.path hcarried with
          hline | hline | ⟨e, hline, htyped⟩
        · rw [hline]
          exact ht
        · rw [hline]
          exact (allTyped_goto_iff ht _).mpr (raisesOnly_ok _)
        · rw [hline]
          exact (allTyped_goto_iff ht _).mpr ((raisesOnly_error e).mpr htyped)
      · cases h
  | some raw =>
      rcases readLine_of_carried aead outcome c.ask.method c.ask.path hcarried with
        ⟨hfails, hopens⟩
      simp only [Option.some.injEq, forall_eq']
      cases hopen : Client.openEnvelope aead outcome.s2c outcome.sessionId c.ask.method.toUpper
          c.ask.path raw with
      | error e =>
          -- Here nothing turns it into an error of the client's own.
          rcases openEnvelope_error hmethod hopen with ⟨message, rfl⟩
          rw [readLine, hfails _ hopen]
          dsimp only
          rw [allTyped_goto_iff ht]
          simp [Raised.typed]
      | ok opened =>
          rcases opened with ⟨env, plaintext⟩
          rw [readLine, hopens env plaintext hopen]
          dsimp only
          unfold check
          rw [ReplayClient.check_eq]
          by_cases hseen : (env.counter : ℤ) ∈ replay.seen
          -- A replay is such an error whatever the envelope holds.
          · rw [if_pos hseen]
            dsimp only
            refine iff_of_true ?_ ⟨env, plaintext, rfl, fun hnew => absurd hseen hnew⟩
            exact (allTyped_update_iff ht rfl).mpr
              ((Call.endsTyped_over_iff _).mpr ((raisesOnly_error _).mpr rfl))
          · rw [if_neg hseen]
            dsimp only
            have hparse := parsePayload_typed_iff hloads plaintext
            cases hdata : parsePayload loads plaintext with
            | error e =>
                dsimp only
                rw [hdata] at hparse
                rw [allTyped_update_iff ht rfl, Call.endsTyped_over_iff]
                simpa [hseen, hdata] using hparse
            | ok data =>
                refine iff_of_true ?_ ⟨env, plaintext, rfl, fun _ => ⟨data, hdata⟩⟩
                exact allTyped_goes ht rfl (by simp)

end

end

/-! ## Runs -/

section

variable (crypto : Primitives) (aead : Aead) (netloc : String → String)
  (loads : Bytes → Except Exc Json) (validate : Bytes → Option HandshakeResponse)
  (transport : RaisingTransport)

/-- What the server has sent is read without an exception of another kind, and where an
    envelope is to be made, it can be. -/
def Careful (t : Shared) : Served → Prop
  | .handshake _ ephSk ts r =>
    t.session = none → HandshakeReadable crypto netloc validate transport ephSk ts r
  | .event (.send i) => ∀ c, t.calls i = some c → ∀ s counter, c.phase = .sealing s counter →
    ∀ state, t.sessions[s]? = some state →
      Sealable counter state.outcome.sessionId c.ask.method.toUpper
  | .event (.decode i) => ∀ c, t.calls i = some c → ∀ s r k, c.phase = .decoding s r k →
    ∀ state replay, t.sessions[s]? = some state → t.replays[k]? = some replay →
      AnswerReadable aead loads r state.outcome c.ask.method c.ask.path replay
  | .event (.line i line) => ∀ c, t.calls i = some c → ∀ s, c.phase = .reading s →
    ∀ state replay, t.sessions[s]? = some state → t.replays[t.replay]? = some replay →
      LineReadable aead loads state.outcome c.ask.method c.ask.path replay line
  | .event _ => True

variable {crypto aead netloc loads validate transport} {t u : Shared}

/-- The events that are left out do not happen, and the others are as in `step`. -/
theorem step_of_serve {e : Event}
    (h : t.serve crypto aead netloc loads validate transport (.event e) = some u) :
    t.step aead loads e = some u := by
  cases e with
  | enter i handshake => cases h
  | lose i e => cases h
  | _ => exact h

theorem handshake_of_serve {i : ℕ} {ephSk : Bytes} {ts : ℤ} {r : Response}
    (h : t.serve crypto aead netloc loads validate transport (.handshake i ephSk ts r) = some u) :
    ∃ c, t.calls i = some c ∧ c.phase = .entering ∧
      u = t.enter i c (transport.doHandshake crypto netloc validate ephSk ts r) := by
  unfold serve at h
  cases hcall : t.calls i with
  | none => simp only [hcall, reduceCtorEq] at h
  | some c =>
      cases hphase : c.phase <;>
        simp only [hcall, hphase, reduceCtorEq, Option.some.injEq] at h
      exact ⟨c, rfl, hphase, h.symm⟩

theorem encoded_serve {e : Served} (ht : t.Encoded)
    (h : t.serve crypto aead netloc loads validate transport e = some u) : u.Encoded := by
  cases e with
  | handshake i ephSk ts r =>
      rcases handshake_of_serve h with ⟨c, -, -, rfl⟩
      exact encoded_enter ht i c _
  | event e => exact encoded_move ht (move_of_step (step_of_serve h))

theorem careful_handshake_iff {i : ℕ} {ephSk : Bytes} {ts : ℤ} {r : Response} (ht : t.AllTyped)
    (h : t.serve crypto aead netloc loads validate transport (.handshake i ephSk ts r) = some u) :
    t.Careful crypto aead netloc loads validate transport (.handshake i ephSk ts r) ↔
      u.AllTyped := by
  rcases handshake_of_serve h with ⟨c, -, -, rfl⟩
  rw [allTyped_enter_iff ht, doHandshake_typed_iff]
  exact Iff.rfl

theorem careful_send_iff {i : ℕ} (ht : t.AllTyped) (h : t.step aead loads (.send i) = some u) :
    t.Careful crypto aead netloc loads validate transport (.event (.send i)) ↔ u.AllTyped := by
  rcases send_of_step h with ⟨c, s, counter, state, hcall, hphase, hstate, rfl⟩
  simp [Careful, allTyped_sealAndSend_iff ht, hcall, hphase, hstate]

theorem careful_decode_iff
    (hloads : ∀ content, RaisesOnly (fun e => (Raised.exc e).typed = false) (loads content))
    {i : ℕ} (hI : t.Encoded) (ht : t.AllTyped) (h : t.step aead loads (.decode i) = some u) :
    t.Careful crypto aead netloc loads validate transport (.event (.decode i)) ↔ u.AllTyped := by
  rcases decode_of_step h with ⟨c, s, r, k, state, replay, hcall, hphase, hstate, hreplay, rfl⟩
  have hmethod := hI i c s hcall (by rw [hphase]; rfl)
  rw [allTyped_decode_iff hloads ht s state.outcome hreplay hmethod]
  simp [Careful, hcall, hphase, hstate, hreplay]

theorem careful_line_iff
    (hloads : ∀ content, RaisesOnly (fun e => (Raised.exc e).typed = false) (loads content))
    {i : ℕ} {line : String} (hI : t.Encoded) (ht : t.AllTyped)
    (h : t.step aead loads (.line i line) = some u) :
    t.Careful crypto aead netloc loads validate transport (.event (.line i line)) ↔
      u.AllTyped := by
  rcases line_of_step h with ⟨c, s, state, replay, hcall, hphase, hstate, hreplay, rfl⟩
  have hmethod := hI i c s hcall (by rw [hphase]; rfl)
  rw [allTyped_readLine_iff hloads ht s state.outcome replay line hmethod]
  simp [Careful, hcall, hphase, hstate, hreplay]

/-- The steps that end no call with an exception, whatever they meet. -/
def quietEvent : Event → Bool
  | .call _ _ _ | .count _ | .reply _ _ | .forget _ | .finish _ | .reset => true
  | _ => false

theorem allTyped_quiet {e : Event} (ht : t.AllTyped) (h : t.step aead loads e = some u)
    (hquiet : quietEvent e = true) : u.AllTyped := by
  cases e with
  | call i ask retry =>
      unfold step at h
      cases hcall : t.calls i with
      | some c => simp only [hcall, reduceCtorEq] at h
      | none =>
          simp only [hcall, Option.some.injEq] at h
          rw [← h]
          exact allTyped_goes ht rfl (by simp)
  | count i =>
      rcases count_of_step h with ⟨c, s, state, -, -, -, rfl⟩
      exact allTyped_goes ht rfl (by simp)
  | reply i r =>
      rcases reply_of_step h with ⟨c, s, -, -, rfl⟩
      exact allTyped_receive ht s r
  | forget i =>
      rcases forget_of_step h with ⟨c, s, -, -, rfl⟩
      exact allTyped_goes ht rfl (by simp)
  | finish i =>
      rcases finish_of_step h with ⟨c, s, -, -, rfl⟩
      exact (allTyped_goto_iff ht _).mpr (raisesOnly_ok none)
  | reset =>
      rw [← Option.some.inj h]
      exact ht
  | _ => cases hquiet

/-- A step keeps the calls from ending with an exception of another kind just when
    what it reads is readable and what it seals can be sealed. -/
theorem careful_iff
    (hloads : ∀ content, RaisesOnly (fun e => (Raised.exc e).typed = false) (loads content))
    {e : Served} (hI : t.Encoded) (ht : t.AllTyped)
    (h : t.serve crypto aead netloc loads validate transport e = some u) :
    t.Careful crypto aead netloc loads validate transport e ↔ u.AllTyped := by
  cases e with
  | handshake i ephSk ts r => exact careful_handshake_iff ht h
  | event e =>
      have hstep := step_of_serve h
      cases e with
      | enter i handshake => cases h
      | lose i e => cases h
      | send i => exact careful_send_iff ht hstep
      | decode i => exact careful_decode_iff hloads hI ht hstep
      | line i line => exact careful_line_iff hloads hI ht hstep
      | _ => exact iff_of_true trivial (allTyped_quiet ht hstep rfl)

/-- **Which runs raise only errors of the client's own.** Those in which what the server
    sends is readable where it is read, and what is to be sealed can be sealed. For a
    report of the mock kind it is said too when the verifier raises only its own error. -/
theorem errors_typed_iff (crypto : Primitives) (aead : Aead) (netloc : String → String)
    (loads : Bytes → Except Exc Json) (validate : Bytes → Option HandshakeResponse)
    (hloads : ∀ content, RaisesOnly (fun e => (Raised.exc e).typed = false) (loads content)) :
    (∀ (transport : RaisingTransport) (t : Shared),
      Run (serve crypto aead netloc loads validate transport)
          (fun s e _ => s.Careful crypto aead netloc loads validate transport e) start t ↔
        Run (serve crypto aead netloc loads validate transport)
          (fun _ _ u => u.AllTyped) start t) ∧
    ∀ (verifier : MockAttestationVerifier) (repr : Json → String) (blob digest : Bytes)
      (measurement : Option String),
      RaisesOnly (fun e => e.raised.typed = true)
          (verifier.verify crypto loads repr blob digest measurement) ↔
        MockAttestationVerifier.BlobReadable loads blob digest measurement := by
  constructor
  · intro transport t
    exact run_iff Encoded AllTyped
      (fun s e => s.Careful crypto aead netloc loads validate transport e) encoded_start
      allTyped_start (fun _ _ _ hI h => encoded_serve hI h)
      (fun _ _ _ hI ht h => careful_iff hloads hI ht h)
  · intro verifier repr blob digest measurement
    exact verifier.verify_typed_iff crypto loads repr blob digest measurement (hloads blob)

end

/-- The runs on a few texts: a transport that asks for no report, and a schema that
    takes nothing. -/
def serveSample : Shared → Served → Option Shared :=
  serve .sample .sample id loadsSample (fun _ => none) ⟨"h", .sample, pad32 [3], none, none, false⟩

/-- The sample parser knows only errors of its own. -/
theorem loadsSample_untyped (content : Bytes) :
    RaisesOnly (fun e => (Raised.exc e).typed = false) (loadsSample content) := by
  unfold loadsSample
  split
  · exact raisesOnly_ok _
  split
  · exact raisesOnly_ok _
  split
  · exact raisesOnly_ok _
  · exact (raisesOnly_error _).mpr rfl

/-- A handshake that is refused ends its call with an error of the client's own. -/
theorem errors_typed_refused :
    let c : Call := ⟨.sample false, true, .entering, []⟩
    Run serveSample (fun _ _ u => u.AllTyped) start ((start.goto 0 c .entering).goto 0 c
      (.over (.error (.exc (.handshakeFailed "handshake failed: 500"))))) := by
  refine ((errors_typed_iff .sample .sample id loadsSample (fun _ => none)
    loadsSample_untyped).1 ⟨"h", .sample, pad32 [3], none, none, false⟩ _).mp ?_
  refine .tail _ _ (.handshake 0 [] 0 ⟨500, "text/plain", []⟩)
    (.tail _ _ (.event (.call 0 (.sample false) true)) .start trivial rfl) ?_ rfl
  intro _ hstatus
  cases hstatus

/-- A handshake that is answered with 200 and no session ends its call with the error
    of the schema. -/
theorem not_typed_after_schema :
    ¬ ∀ t, Run serveSample anyStep start t → t.AllTyped := by
  intro h
  have hbad := h _ (run_of_play [.event (.call 0 (.sample false) true),
    .handshake 0 [] 0 ⟨200, "application/json", utf8 "\x7b\x7d"⟩] rfl) 0 _ rfl _ rfl
  cases hbad

end Shared

end Client

end SecureLlm
