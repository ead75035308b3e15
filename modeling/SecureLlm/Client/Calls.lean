import Mathlib.Logic.Function.Basic
import SecureLlm.Client.Decode
import SecureLlm.Library.Transition

/-!
# Calls of a Transport

One transport, and the threads that call it. A call takes the session, making the
handshake if there is none, takes a counter, seals, sends and reads the answer. The
session is looked up under the lock and so is the counter taken, but between the
two, and after, other calls go on: one may forget the session, another make the
next. The call goes on with the session object it has.

The replay check is not the session's. It hangs off the transport, a handshake
replaces it, and a call uses the one that is there when it comes to its answer; a
stream does so at each line.

Session objects and replay checks are numbered as they are made. What the lock
protects is one step, and so is what touches nothing shared.

## Main definitions

* `Ask`, `Call`: What a thread asks for, and where it is.
* `Shared`: The transport and its calls.
* `Shared.step`: One step of one of them.
* `Sealed`, `Checked`: What was sealed, and what the replay check was asked.

## Theorems

* `Shared.decode_eq`: A call decodes as `_decode_response` does.
* `Shared.send_of_step` and the like: What a step of a kind starts from.
* `Shared.move_of_step`: What a step can do.
-/

namespace SecureLlm

open Library

/-- A session object that a handshake has made. -/
def SessionState.new (outcome : HandshakeOutcome) : SessionState := ⟨outcome, 0, 0⟩

/-- What a handshake leaves the client, to run the model on. -/
def HandshakeOutcome.sample (n : UInt8) : HandshakeOutcome where
  sessionId := List.replicate 16 n
  c2s := ⟨List.replicate 32 n, [0, 0, 0, 1], List.length_replicate, rfl⟩
  s2c := ⟨List.replicate 32 (n + 128), [0, 0, 0, 2], List.length_replicate, rfl⟩
  ttlSeconds := 3600
  serverStaticPk := []

namespace Client

/-- The parser on a few texts, to run the model on. -/
def loadsSample (content : Bytes) : Except Exc Json :=
  if content = utf8 "1" then .ok (.number 1)
  else if content = utf8 "2" then .ok (.number 2)
  else if content = utf8 "\x7b\"code\":\"unknown_session\"\x7d" then
    .ok (.object [("code", .string "unknown_session")])
  else .error (.valueError "Expecting value")

/-- The answer of a server that does not know the session. -/
def Response.unknownSession : Response :=
  ⟨401, "application/json", utf8 "\x7b\"code\":\"unknown_session\"\x7d"⟩

/-- What a server seals for the chat endpoint, to run the model on. -/
def envelopeSample (n : UInt8) (counter : ℕ) (payload : Bytes) : Bytes :=
  match SecureLlm.sealEnvelope .sample (HandshakeOutcome.sample n).s2c counter
    (HandshakeOutcome.sample n).sessionId "POST" "/v1/chat/completions" payload with
  | .ok body => body
  | .error _ => []

/-- What a thread asks for: an answer or a stream. The payload is dumped, and empty
    if there is none. -/
structure Ask where
  streaming : Bool
  method : String
  path : String
  payload : Bytes

/-- Where a call is. Once it has a session it holds on to the object. -/
inductive Phase where
  /-- At `_session_state`. -/
  | entering
  /-- It has the session and no counter yet. -/
  | counting (session : ℕ)
  | sealing (session : ℕ) (counter : ℤ)
  /-- Its envelope is on the way. -/
  | waiting (session : ℕ)
  /-- The server does not know the session. The call is about to forget it. -/
  | refused (session : ℕ)
  /-- It has an answer, and the replay check it will use. -/
  | decoding (session : ℕ) (r : Response) (replay : ℕ)
  /-- It reads the lines of a stream. -/
  | reading (session : ℕ)
  | over (result : Except Raised (Option Json))

/-- The session object that a call has sent an envelope for. -/
def Phase.sentFor : Phase → Option ℕ
  | .waiting s | .refused s | .decoding s _ _ | .reading s => some s
  | _ => none

/-- What is asked of the chat endpoint, to run the model on. -/
def Ask.sample (streaming : Bool) : Ask := ⟨streaming, "POST", "/v1/chat/completions", utf8 "1"⟩

/-- A call: what is asked, `retry_on_session_expired`, where it is, and what a
    stream has yielded. -/
structure Call where
  ask : Ask
  retry : Bool
  phase : Phase
  yielded : List Json

/-- A sealed envelope: the call and the session object it was sealed for, what it
    was sealed with, and the body. -/
structure Sealed where
  call : ℕ
  session : ℕ
  direction : DirectionKeys
  sessionId : Bytes
  counter : ℤ
  method : String
  path : String
  body : Bytes

/-- An envelope that opened for a call under the keys of a session object, which of
    the replay checks it met, and whether that let it through. -/
structure Checked where
  call : ℕ
  session : ℕ
  replay : ℕ
  counter : ℤ
  accepted : Bool
  deriving DecidableEq

/-- The transport and its calls: the session objects and the current one, the replay
    checks and the current one, the calls, and, newest first, what was sealed and
    what was checked. -/
structure Shared where
  sessions : List SessionState
  session : Option ℕ
  replays : List ReplayClient
  replay : ℕ
  calls : ℕ → Option Call
  sealed : List Sealed
  checked : List Checked

/-- What happens. -/
inductive Event where
  /-- A thread calls `request` or begins to iterate `stream_request`. -/
  | call (i : ℕ) (ask : Ask) (retry : Bool)
  /-- A call takes the session. If there is none, a handshake is made and ends as
      given. -/
  | enter (i : ℕ) (handshake : Except Exc HandshakeOutcome)
  /-- It takes a counter. -/
  | count (i : ℕ)
  /-- It seals and sends. -/
  | send (i : ℕ)
  /-- The connection fails. -/
  | lose (i : ℕ) (e : Exc)
  /-- An answer arrives. -/
  | reply (i : ℕ) (r : Response)
  /-- The call forgets the session and begins again. -/
  | forget (i : ℕ)
  /-- It decodes its answer. -/
  | decode (i : ℕ)
  /-- A line of a stream arrives. -/
  | line (i : ℕ) (line : String)
  /-- The body of a stream ends. -/
  | finish (i : ℕ)
  /-- A thread calls `reset_session`. -/
  | reset

namespace Shared

variable (aead : Aead) (loads : Bytes → Except Exc Json)

/-- The constructor of the transport. -/
def start : Shared := ⟨[], none, [.fresh], 0, fun _ => none, [], []⟩

variable (t : Shared)

/-- A call moves on. -/
def goto (i : ℕ) (c : Call) (phase : Phase) : Shared :=
  { t with calls := Function.update t.calls i (some { c with phase }) }

/-- `_session_state`. -/
def sessionState (i : ℕ) (c : Call) (handshake : Except Exc HandshakeOutcome) : Shared :=
  match t.session with
  | some s => t.goto i c (.counting s)
  | none =>
    match handshake with
    | .error e => t.goto i c (.over (.error (.exc e)))
    | .ok outcome =>
      -- The replay check is replaced before the session is there.
      let t := { t with replays := t.replays ++ [ReplayClient.fresh], replay := t.replays.length }
      let t := { t with session := some t.sessions.length,
                        sessions := t.sessions ++ [SessionState.new outcome] }
      t.goto i c (.counting (t.sessions.length - 1))

/-- `state.c2s_counter += 1`. -/
def takeCounter (i : ℕ) (c : Call) (s : ℕ) (state : SessionState) : Shared :=
  let counter := state.c2sCounter + 1
  let t := { t with sessions := t.sessions.set s { state with c2sCounter := counter } }
  t.goto i c (.sealing s counter)

/-- Seal under the keys of the session object. -/
def sealAndSend (i : ℕ) (c : Call) (s : ℕ) (state : SessionState) (counter : ℤ) : Shared :=
  match Client.sealEnvelope aead state.outcome.c2s counter state.outcome.sessionId
    c.ask.method.toUpper c.ask.path c.ask.payload with
  | .error e => t.goto i c (.over (.error (.exc e)))
  | .ok body =>
    let t := { t with sealed := ⟨i, s, state.outcome.c2s, state.outcome.sessionId, counter,
      c.ask.method.toUpper, c.ask.path, body⟩ :: t.sealed }
    t.goto i c (.waiting s)

/-- What a call does with an answer before it decodes it. -/
def receive (i : ℕ) (c : Call) (s : ℕ) (r : Response) : Shared :=
  if c.ask.streaming then
    -- A stream has no retry, and what is not 200 is no stream.
    -- What is not a stream is decoded under the check of this moment.
    if r.statusCode ≠ 200 then t.goto i c (.decoding s r t.replay)
    else t.goto i c (.reading s)
  else if (r.statusCode = 401 ∨ r.statusCode = 400) ∧
      (tryExtractErrorCode loads r = some .unknownSession ∨
        tryExtractErrorCode loads r = some .sessionExpired) ∧ c.retry then
    t.goto i c (.refused s)
  else t.goto i c (.decoding s r t.replay)

/-- The replay check of an envelope of a session object, by one of the checks: what
    it raises, if it does. -/
def check (i s k : ℕ) (replay : ReplayClient) (counter : ℕ) : Option Raised × Shared :=
  match replay.check counter with
  | .error e => (some e, { t with checked := ⟨i, s, k, counter, false⟩ :: t.checked })
  | .ok replay => (none, { t with replays := t.replays.set k replay,
                                  checked := ⟨i, s, k, counter, true⟩ :: t.checked })

/-- A request gives the value; a stream that is answered otherwise ends. -/
def Call.ends (c : Call) : Except Raised Json → Except Raised (Option Json)
  | .error e => .error e
  | .ok value => .ok (if c.ask.streaming then none else some value)

/-- `_decode_response`. -/
def decode (i : ℕ) (c : Call) (s : ℕ) (outcome : HandshakeOutcome) (r : Response) (k : ℕ)
    (replay : ReplayClient) : Shared :=
  match openResponse aead loads r outcome c.ask.method c.ask.path with
  | .finished result => t.goto i c (.over (Call.ends c result))
  | .sealed counter plaintext =>
    match t.check i s k replay counter with
    | (some e, t) => t.goto i c (.over (.error e))
    | (none, t) => t.goto i c (.over (Call.ends c (interpret loads r.statusCode plaintext)))

/-- One round of the loop over the lines. -/
def readLine (i : ℕ) (c : Call) (s : ℕ) (outcome : HandshakeOutcome) (replay : ReplayClient)
    (line : String) : Shared :=
  match Client.readLine aead outcome c.ask.method c.ask.path line with
  | .skipped => t
  | .done => t.goto i c (.over (.ok none))
  | .failed e => t.goto i c (.over (.error e))
  | .sealed counter plaintext =>
    -- The check is the transport's at this line, whatever session the call has.
    match t.check i s t.replay replay counter with
    | (some e, t) => t.goto i c (.over (.error e))
    | (none, t) =>
      match parsePayload loads plaintext with
      | .error e => t.goto i c (.over (.error e))
      | .ok value => t.goto i { c with yielded := c.yielded ++ [value] } (.reading s)

/-- One step. -/
def step : Event → Option Shared
  | .call i ask retry =>
    match t.calls i with
    | some _ => none
    | none =>
      some { t with calls := Function.update t.calls i (some ⟨ask, retry, .entering, []⟩) }
  | .enter i handshake =>
    match t.calls i with
    | some c => match c.phase with
      | .entering => some (t.sessionState i c handshake)
      | _ => none
    | none => none
  | .count i =>
    match t.calls i with
    | some c => match c.phase with
      | .counting s => t.sessions[s]?.map (t.takeCounter i c s)
      | _ => none
    | none => none
  | .send i =>
    match t.calls i with
    | some c => match c.phase with
      | .sealing s counter =>
        t.sessions[s]?.map fun state => t.sealAndSend aead i c s state counter
      | _ => none
    | none => none
  | .lose i e =>
    match t.calls i with
    | some c => match c.phase with
      | .waiting _ => some (t.goto i c (.over (.error (.exc e))))
      | .reading _ => some (t.goto i c (.over (.error (.exc e))))
      | _ => none
    | none => none
  | .reply i r =>
    match t.calls i with
    | some c => match c.phase with
      | .waiting s => some (t.receive loads i c s r)
      | _ => none
    | none => none
  | .forget i =>
    match t.calls i with
    | some c => match c.phase with
      | .refused _ =>
        some ({ t with session := none }.goto i { c with retry := false } .entering)
      | _ => none
    | none => none
  | .decode i =>
    match t.calls i with
    | some c => match c.phase with
      | .decoding s r k => match t.sessions[s]?, t.replays[k]? with
        | some state, some replay => some (t.decode aead loads i c s state.outcome r k replay)
        | _, _ => none
      | _ => none
    | none => none
  | .line i line =>
    match t.calls i with
    | some c => match c.phase with
      | .reading s => match t.sessions[s]?, t.replays[t.replay]? with
        | some state, some replay => some (t.readLine aead loads i c s state.outcome replay line)
        | _, _ => none
      | _ => none
    | none => none
  | .finish i =>
    match t.calls i with
    | some c => match c.phase with
      | .reading _ => some (t.goto i c (.over (.ok none)))
      | _ => none
    | none => none
  | .reset => some { t with session := none }

/-- The session object an envelope is opened for, and the replay check it meets, if a
    step has an envelope that opens. -/
def uses : Event → Option (ℕ × ℕ)
  | .decode i =>
    match t.calls i with
    | some c => match c.phase with
      | .decoding s r k => (t.sessions[s]?).bind fun state =>
        match openResponse aead loads r state.outcome c.ask.method c.ask.path with
        | .sealed _ _ => some (s, k)
        | .finished _ => none
      | _ => none
    | none => none
  | .line i line =>
    match t.calls i with
    | some c => match c.phase with
      | .reading s => (t.sessions[s]?).bind fun state =>
        match Client.readLine aead state.outcome c.ask.method c.ask.path line with
        | .sealed _ _ => some (s, t.replay)
        | _ => none
      | _ => none
    | none => none
  | _ => none

/-- What a step can do. -/
inductive Move (e : Event) : Shared → Prop where
  | call (i : ℕ) (ask : Ask) (retry : Bool) (he : e = .call i ask retry)
      (hfree : t.calls i = none) :
      Move e { t with calls := Function.update t.calls i (some ⟨ask, retry, .entering, []⟩) }
  | goes (i : ℕ) (c : Call) (phase : Phase) (hcall : t.calls i = some c)
      (hsent : ∀ s, phase.sentFor = some s → c.phase.sentFor = some s)
      (hidle : ∀ s n, phase ≠ .sealing s n)
      (hvalue : ∀ value, phase = .over (.ok (some value)) →
        ∃ s r k, e = .decode i ∧ c.phase = .decoding s r k ∧ r.statusCode = 204) :
      Move e (t.goto i c phase)
  | joins (i : ℕ) (c : Call) (s : ℕ) (hcall : t.calls i = some c) (hphase : c.phase = .entering)
      (hsession : t.session = some s) : Move e (t.goto i c (.counting s))
  | makes (i : ℕ) (c : Call) (outcome : HandshakeOutcome) (hcall : t.calls i = some c)
      (hphase : c.phase = .entering) (hsession : t.session = none) :
      Move e
        { t with sessions := t.sessions ++ [.new outcome], session := some t.sessions.length,
                 replays := t.replays ++ [.fresh], replay := t.replays.length,
                 calls := Function.update t.calls i
                   (some { c with phase := .counting t.sessions.length }) }
  | takes (i : ℕ) (c : Call) (s : ℕ) (state : SessionState) (hcall : t.calls i = some c)
      (hphase : c.phase = .counting s) (hstate : t.sessions[s]? = some state) :
      Move e (t.takeCounter i c s state)
  | seals (i : ℕ) (c : Call) (s : ℕ) (state : SessionState) (counter : ℤ) (body : Bytes)
      (hcall : t.calls i = some c) (hphase : c.phase = .sealing s counter)
      (hstate : t.sessions[s]? = some state)
      (hbody : Client.sealEnvelope aead state.outcome.c2s counter state.outcome.sessionId
        c.ask.method.toUpper c.ask.path c.ask.payload = .ok body) :
      Move e
        { t with sealed := ⟨i, s, state.outcome.c2s, state.outcome.sessionId, counter,
                   c.ask.method.toUpper, c.ask.path, body⟩ :: t.sealed,
                 calls := Function.update t.calls i (some { c with phase := .waiting s }) }
  | forgets (i : ℕ) (c : Call) (hcall : t.calls i = some c) :
      Move e
        { t with session := none,
                 calls := Function.update t.calls i
                   (some { c with retry := false, phase := .entering }) }
  | resets : Move e { t with session := none }
  | skips : Move e t
  | refuses (i : ℕ) (c : Call) (s k : ℕ) (replay : ReplayClient) (counter : ℕ) (error : Raised)
      (hcall : t.calls i = some c) (huses : t.uses aead loads e = some (s, k))
      (hreplay : t.replays[k]? = some replay) (hcheck : replay.check counter = .error error) :
      Move e
        { t with
            checked := ⟨i, s, k, counter, false⟩ :: t.checked,
            calls := Function.update t.calls i (some { c with phase := .over (.error error) }) }
  | accepts (i : ℕ) (c c' : Call) (s k : ℕ) (replay replay' : ReplayClient) (counter : ℕ)
      (hcall : t.calls i = some c) (huses : t.uses aead loads e = some (s, k))
      (hreplay : t.replays[k]? = some replay) (hcheck : replay.check counter = .ok replay')
      (hask : c'.ask = c.ask)
      (hphase : c'.phase = .reading s ∧ c.phase = .reading s ∨ ∃ result, c'.phase = .over result)
      (hvalue : ∀ value, c'.phase = .over (.ok (some value)) →
        ∃ state r env plaintext, e = .decode i ∧ t.sessions[s]? = some state ∧
          c.phase = .decoding s r k ∧ env.counter = counter ∧
          SecureLlm.openEnvelope aead state.outcome.s2c state.outcome.sessionId
            c.ask.method.toUpper c.ask.path r.content = .ok (env, plaintext) ∧
          parsePayload loads plaintext = .ok value) :
      Move e
        { t with replays := t.replays.set k replay',
                 checked := ⟨i, s, k, counter, true⟩ :: t.checked,
                 calls := Function.update t.calls i (some c') }

variable {aead loads t}

/-- A call that ends without a value. -/
theorem Move.ends {e : Event} {i : ℕ} {c : Call} (hcall : t.calls i = some c)
    (result : Except Raised (Option Json)) (hnone : ∀ value, result ≠ .ok (some value)) :
    t.Move aead loads e (t.goto i c (.over result)) :=
  .goes i c _ hcall (fun _ h => absurd h nofun) (fun _ _ => nofun)
    fun value h => absurd (Phase.over.inj h) (hnone value)

theorem move_of_sessionState {e : Event} {i : ℕ} {c : Call} (hcall : t.calls i = some c)
    (hphase : c.phase = .entering) (handshake : Except Exc HandshakeOutcome) :
    t.Move aead loads e (t.sessionState i c handshake) := by
  unfold sessionState
  cases hsession : t.session with
  | some s => exact .joins i c s hcall hphase hsession
  | none =>
      cases handshake with
      | error error => exact .ends hcall _ fun _ => nofun
      | ok outcome =>
          have hlast : (t.sessions ++ [SessionState.new outcome]).length - 1 =
              t.sessions.length := by
            rw [List.length_append, List.length_singleton, Nat.add_sub_cancel]
          dsimp only [goto]
          rw [hlast]
          exact .makes i c outcome hcall hphase hsession

theorem move_of_receive {e : Event} {i : ℕ} {c : Call} {s : ℕ} (hcall : t.calls i = some c)
    (hphase : c.phase = .waiting s) (r : Response) :
    t.Move aead loads e (t.receive loads i c s r) := by
  have hgoes : ∀ phase : Phase, phase.sentFor = some s →
      t.Move aead loads e (t.goto i c phase) := by
    intro phase hs
    refine .goes i c phase hcall (fun s' hs' => ?_) (fun s' n hn => ?_) (fun value hv => ?_)
    · rw [hphase, ← hs', hs]
      rfl
    · rw [hn] at hs
      exact absurd hs nofun
    · rw [hv] at hs
      exact absurd hs nofun
  unfold receive
  split
  · split
    · exact hgoes _ rfl
    · exact hgoes _ rfl
  · split
    · exact hgoes _ rfl
    · exact hgoes _ rfl

/-- What `interpret` gives is what the envelope holds. -/
theorem parsePayload_of_interpret {statusCode : ℕ} {plaintext : Bytes} {value : Json}
    (h : interpret loads statusCode plaintext = .ok value) :
    parsePayload loads plaintext = .ok value := by
  unfold interpret at h
  cases hparse : parsePayload loads plaintext with
  | error e =>
      rw [hparse] at h
      exact absurd h nofun
  | ok data =>
      rw [hparse] at h
      simp only [bind, Except.bind] at h
      split at h
      · split at h
        · split at h
          · exact h
          · split at h
            · exact absurd h nofun
            · exact absurd h nofun
            · exact absurd h nofun
        · exact absurd h nofun
      · exact h

/-- A value is what a request ends with, not a stream. -/
theorem eq_ok_of_ends {c : Call} {result : Except Raised Json} {value : Json}
    (h : Call.ends c result = .ok (some value)) : result = .ok value := by
  unfold Call.ends at h
  split at h
  · exact absurd h nofun
  · split at h
    · exact absurd h nofun
    · rw [Except.ok.injEq, Option.some.injEq] at h
      rw [h]

/-- A call that decodes its answer ends as `_decode_response` does, and leaves the
    replay check that it leaves. -/
theorem decode_eq (i : ℕ) (c : Call) (s : ℕ) (outcome : HandshakeOutcome) (r : Response) {k : ℕ}
    {replay : ReplayClient} (hreplay : t.replays[k]? = some replay) :
    (t.decode aead loads i c s outcome r k replay).calls =
        Function.update t.calls i (some { c with phase := .over (Call.ends c
          (decodeResponse aead loads r outcome c.ask.method c.ask.path replay).1) }) ∧
      (t.decode aead loads i c s outcome r k replay).replays =
        t.replays.set k (decodeResponse aead loads r outcome c.ask.method c.ask.path replay).2 := by
  have hkept : t.replays.set k replay = t.replays := by
    rcases List.getElem?_eq_some_iff.mp hreplay with ⟨hk, hget⟩
    rw [← hget, List.set_getElem_self]
  unfold decode decodeResponse
  cases openResponse aead loads r outcome c.ask.method c.ask.path with
  | finished result => exact ⟨rfl, hkept.symm⟩
  | sealed counter plaintext =>
      dsimp only
      unfold check
      cases replay.check counter with
      | error e => exact ⟨rfl, hkept.symm⟩
      | ok replay' => exact ⟨rfl, rfl⟩

theorem move_of_decode {i : ℕ} {c : Call} {s : ℕ} {r : Response} {k : ℕ} {state : SessionState}
    {replay : ReplayClient} (hcall : t.calls i = some c) (hphase : c.phase = .decoding s r k)
    (hstate : t.sessions[s]? = some state) (hreplay : t.replays[k]? = some replay) :
    t.Move aead loads (.decode i) (t.decode aead loads i c s state.outcome r k replay) := by
  unfold decode
  cases hopen : openResponse aead loads r state.outcome c.ask.method c.ask.path with
  | finished result =>
      refine .goes i c _ hcall (fun _ h => absurd h nofun) (fun _ _ => nofun) fun value h => ?_
      rw [eq_ok_of_ends (Phase.over.inj h)] at hopen
      exact ⟨s, r, k, rfl, hphase, statusCode_of_finished hopen⟩
  | sealed counter plaintext =>
      have huses : t.uses aead loads (.decode i) = some (s, k) := by
        simp only [uses, hcall, hphase, hstate, Option.bind_some, hopen]
      dsimp only
      unfold check
      cases hcheck : replay.check counter with
      | error error => exact .refuses i c s k replay counter error hcall huses hreplay hcheck
      | ok replay' =>
          refine .accepts i c _ s k replay replay' counter hcall huses hreplay hcheck rfl
            (Or.inr ⟨_, rfl⟩) fun value h => ?_
          rcases (openResponse_eq_sealed_iff _ _ _ _ _ _ _ _).mp hopen with
            ⟨-, -, -, env, hcounter, henv⟩
          exact ⟨state, r, env, plaintext, rfl, hstate, hphase, hcounter, henv,
            parsePayload_of_interpret (eq_ok_of_ends (Phase.over.inj h))⟩

theorem move_of_readLine {i : ℕ} {c : Call} {s : ℕ} {state : SessionState}
    {replay : ReplayClient} (hcall : t.calls i = some c) (hphase : c.phase = .reading s)
    (hstate : t.sessions[s]? = some state) (hreplay : t.replays[t.replay]? = some replay)
    (line : String) :
    t.Move aead loads (.line i line) (t.readLine aead loads i c s state.outcome replay line) := by
  unfold readLine
  cases hline : Client.readLine aead state.outcome c.ask.method c.ask.path line with
  | skipped => exact .skips
  | done => exact .ends hcall _ fun _ => nofun
  | failed error => exact .ends hcall _ fun _ => nofun
  | sealed counter plaintext =>
      have huses : t.uses aead loads (.line i line) = some (s, t.replay) := by
        simp only [uses, hcall, hphase, hstate, Option.bind_some, hline]
      dsimp only
      unfold check
      cases hcheck : replay.check counter with
      | error error =>
          exact .refuses i c s t.replay replay counter error hcall huses hreplay hcheck
      | ok replay' =>
          dsimp only
          cases parsePayload loads plaintext with
          | error error =>
              exact .accepts i c _ s t.replay replay replay' counter hcall huses hreplay hcheck
                rfl (Or.inr ⟨_, rfl⟩) fun _ => nofun
          | ok value =>
              exact .accepts i c _ s t.replay replay replay' counter hcall huses hreplay hcheck
                rfl (Or.inl ⟨rfl, hphase⟩) fun _ => nofun

/-! ## What a step starts from -/

section

variable {i : ℕ} {u : Shared}

theorem enter_of_step {handshake : Except Exc HandshakeOutcome}
    (h : t.step aead loads (.enter i handshake) = some u) :
    ∃ c, t.calls i = some c ∧ c.phase = .entering ∧ u = t.sessionState i c handshake := by
  unfold step at h
  cases hcall : t.calls i with
  | none => simp only [hcall, reduceCtorEq] at h
  | some c =>
      cases hphase : c.phase <;>
        simp only [hcall, hphase, reduceCtorEq, Option.some.injEq] at h
      exact ⟨c, rfl, hphase, h.symm⟩

theorem count_of_step (h : t.step aead loads (.count i) = some u) :
    ∃ c s state, t.calls i = some c ∧ c.phase = .counting s ∧ t.sessions[s]? = some state ∧
      u = t.takeCounter i c s state := by
  unfold step at h
  cases hcall : t.calls i with
  | none => simp only [hcall, reduceCtorEq] at h
  | some c =>
      cases hphase : c.phase <;>
        simp only [hcall, hphase, reduceCtorEq, Option.map_eq_some_iff] at h
      rcases h with ⟨state, hstate, rfl⟩
      exact ⟨c, _, state, rfl, hphase, hstate, rfl⟩

theorem send_of_step (h : t.step aead loads (.send i) = some u) :
    ∃ c s counter state, t.calls i = some c ∧ c.phase = .sealing s counter ∧
      t.sessions[s]? = some state ∧ u = t.sealAndSend aead i c s state counter := by
  unfold step at h
  cases hcall : t.calls i with
  | none => simp only [hcall, reduceCtorEq] at h
  | some c =>
      cases hphase : c.phase <;>
        simp only [hcall, hphase, reduceCtorEq, Option.map_eq_some_iff] at h
      rcases h with ⟨state, hstate, rfl⟩
      exact ⟨c, _, _, state, rfl, hphase, hstate, rfl⟩

/-- A connection that fails is one that a call waits on or reads from. -/
theorem lose_of_step {e : Exc} (h : t.step aead loads (.lose i e) = some u) :
    ∃ c s, t.calls i = some c ∧ (c.phase = .waiting s ∨ c.phase = .reading s) ∧
      u = t.goto i c (.over (.error (.exc e))) := by
  unfold step at h
  cases hcall : t.calls i with
  | none => simp only [hcall, reduceCtorEq] at h
  | some c =>
      cases hphase : c.phase <;>
        simp only [hcall, hphase, reduceCtorEq, Option.some.injEq] at h
      · exact ⟨c, _, rfl, .inl hphase, h.symm⟩
      · exact ⟨c, _, rfl, .inr hphase, h.symm⟩

theorem reply_of_step {r : Response} (h : t.step aead loads (.reply i r) = some u) :
    ∃ c s, t.calls i = some c ∧ c.phase = .waiting s ∧ u = t.receive loads i c s r := by
  unfold step at h
  cases hcall : t.calls i with
  | none => simp only [hcall, reduceCtorEq] at h
  | some c =>
      cases hphase : c.phase <;>
        simp only [hcall, hphase, reduceCtorEq, Option.some.injEq] at h
      exact ⟨c, _, rfl, hphase, h.symm⟩

theorem forget_of_step (h : t.step aead loads (.forget i) = some u) :
    ∃ c s, t.calls i = some c ∧ c.phase = .refused s ∧
      u = { t with session := none }.goto i { c with retry := false } .entering := by
  unfold step at h
  cases hcall : t.calls i with
  | none => simp only [hcall, reduceCtorEq] at h
  | some c =>
      cases hphase : c.phase <;>
        simp only [hcall, hphase, reduceCtorEq, Option.some.injEq] at h
      exact ⟨c, _, rfl, hphase, h.symm⟩

theorem decode_of_step (h : t.step aead loads (.decode i) = some u) :
    ∃ c s r k state replay, t.calls i = some c ∧ c.phase = .decoding s r k ∧
      t.sessions[s]? = some state ∧ t.replays[k]? = some replay ∧
      u = t.decode aead loads i c s state.outcome r k replay := by
  unfold step at h
  cases hcall : t.calls i with
  | none => simp only [hcall, reduceCtorEq] at h
  | some c =>
      cases hphase : c.phase <;> simp only [hcall, hphase, reduceCtorEq] at h
      split at h
      · rename_i state replay hstate hreplay
        exact ⟨c, _, _, _, state, replay, rfl, hphase, hstate, hreplay, (Option.some.inj h).symm⟩
      · cases h

theorem line_of_step {line : String} (h : t.step aead loads (.line i line) = some u) :
    ∃ c s state replay, t.calls i = some c ∧ c.phase = .reading s ∧
      t.sessions[s]? = some state ∧ t.replays[t.replay]? = some replay ∧
      u = t.readLine aead loads i c s state.outcome replay line := by
  unfold step at h
  cases hcall : t.calls i with
  | none => simp only [hcall, reduceCtorEq] at h
  | some c =>
      cases hphase : c.phase <;> simp only [hcall, hphase, reduceCtorEq] at h
      split at h
      · rename_i state replay hstate hreplay
        exact ⟨c, _, state, replay, rfl, hphase, hstate, hreplay, (Option.some.inj h).symm⟩
      · cases h

theorem finish_of_step (h : t.step aead loads (.finish i) = some u) :
    ∃ c s, t.calls i = some c ∧ c.phase = .reading s ∧ u = t.goto i c (.over (.ok none)) := by
  unfold step at h
  cases hcall : t.calls i with
  | none => simp only [hcall, reduceCtorEq] at h
  | some c =>
      cases hphase : c.phase <;>
        simp only [hcall, hphase, reduceCtorEq, Option.some.injEq] at h
      exact ⟨c, _, rfl, hphase, h.symm⟩

end

/-- What a step can do. -/
theorem move_of_step {e : Event} {u : Shared} (h : t.step aead loads e = some u) :
    t.Move aead loads e u := by
  cases e with
  | call i ask retry =>
      unfold step at h
      cases hcall : t.calls i with
      | some c => simp only [hcall, reduceCtorEq] at h
      | none =>
          simp only [hcall, Option.some.injEq] at h
          rw [← h]
          exact .call i ask retry rfl hcall
  | enter i handshake =>
      rcases enter_of_step h with ⟨c, hcall, hphase, rfl⟩
      exact move_of_sessionState hcall hphase handshake
  | count i =>
      rcases count_of_step h with ⟨c, s, state, hcall, hphase, hstate, rfl⟩
      exact .takes i c s state hcall hphase hstate
  | send i =>
      rcases send_of_step h with ⟨c, s, counter, state, hcall, hphase, hstate, rfl⟩
      -- A counter out of range ends the call with nothing sealed.
      unfold sealAndSend
      split
      · exact .ends hcall _ fun _ => nofun
      · rename_i body hbody
        exact .seals i c s state counter body hcall hphase hstate hbody
  | lose i error =>
      rcases lose_of_step h with ⟨c, s, hcall, -, rfl⟩
      exact .ends hcall _ fun _ => nofun
  | reply i r =>
      rcases reply_of_step h with ⟨c, s, hcall, hphase, rfl⟩
      exact move_of_receive hcall hphase r
  | forget i =>
      rcases forget_of_step h with ⟨c, s, hcall, -, rfl⟩
      exact .forgets i c hcall
  | decode i =>
      rcases decode_of_step h with ⟨c, s, r, k, state, replay, hcall, hphase, hstate, hreplay, rfl⟩
      exact move_of_decode hcall hphase hstate hreplay
  | line i line =>
      rcases line_of_step h with ⟨c, s, state, replay, hcall, hphase, hstate, hreplay, rfl⟩
      exact move_of_readLine hcall hphase hstate hreplay line
  | finish i =>
      rcases finish_of_step h with ⟨c, s, hcall, -, rfl⟩
      exact .ends hcall _ fun _ => nofun
  | reset =>
      rw [← Option.some.inj h]
      exact .resets

end Shared

end Client

end SecureLlm
