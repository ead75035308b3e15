import SecureLlm.Client.Calls
import SecureLlm.Server.Channel
import SecureLlm.Server.Clock

/-!
# Calls Survive the Loss of a Session

A client that makes one call after the other, and a server that may lose its
session at any time: an admin ends it, it expires, the reaper drops it, the whole
server starts over. The client learns of it from the answer to its next call. It
then makes the handshake again and repeats the call, once.

So no call fails for the loss of a session, whatever happens between the calls, and
a call makes one handshake at most. What is asked of a run is that nobody else sends
envelopes under the client's session or makes a session of that id, and that a
session made for a call lives until the server has looked it up.

## Main definitions

* `Meeting`: What a handshake leaves the two with.
* `Errand`: A call, and what it meets.
* `Linked`, `Linked.request`: The two parties, and a call from start to end.
* `Linked.Fair`: What is asked of a step.
* `Linked.Healthy`: The invariant.

## Theorems

* `Op.leaves`: What the server does for others changes a session in no other way
  than to end it.
* `Linked.exchange_gone`, `Linked.exchange_live`: A call whose session the server has
  lost, and one whose session it finds.
* `Linked.Healthy.request`: A call comes to what it should.
* `calls_survive`: So does every call of a run.
-/

namespace SecureLlm

open Library Transition

/-- What a handshake leaves the two with: they hold the same session. -/
structure Meeting where
  material : SessionMaterial
  outcome : HandshakeOutcome
  sessionId : outcome.sessionId = material.sessionId
  c2s : outcome.c2s = material.c2s
  s2c : outcome.s2c = material.s2c
  length : outcome.sessionId.length = sessionIdBytes

/-- What one try of a call meets: the handshake it makes if it has no session, the
    server's clock as that and the request itself are served, and the id of an
    internal error, if there is one. -/
structure Try where
  meeting : Meeting
  made : ℕ → ℚ
  clock : ℕ → ℚ
  errorId : String

/-- A call, what the route does with it, and what its two tries meet. -/
structure Errand (V : Type) where
  method : String
  path : String
  payload : Bytes
  handle : V → Bytes
  first : Try
  second : Try

/-- The server's memory, the session and the replay check of the client, how many
    envelopes and handshakes it has sent, and its calls with what they came to. -/
structure Linked (V : Type) where
  proc : Process
  session : Option SessionState
  replay : Client.ReplayClient
  posts : ℕ
  handshakes : ℕ
  results : List (Errand V × Option (Except Client.Raised Json))

/-- The client calls, the server does something for somebody else, or it starts over. -/
inductive LinkedEvent (V : Type) where
  | call (x : Errand V)
  | other (op : Op) (clock : ℕ → ℚ)
  | restart

/-- `ErrorEnvelope(code, message).model_dump()` under `detail`. -/
def errorDetail (code : ErrorCode) (message : String) : Json :=
  .object [("detail", .object [("code", .string code.value), ("message", .string message),
    ("error_id", .null), ("retry_after_seconds", .null)])]

namespace Linked

variable {V : Type} (aead : Aead) (loads : Bytes → Except Exc Json) (dumps : Json → Bytes)
  (schema : String → Bytes → Except String V) (ttl maxLife : ℤ)

/-- A client without a session, and a server that has just started. -/
def start : Linked V := ⟨.start, none, .fresh, 0, 0, []⟩

/-- How an exception is answered: an HTTP exception with its detail, any other by the
    handler of the application. -/
def refusal (errorId : String) : Exc → Client.Response
  | .httpException status code message =>
    ⟨status, "application/json", dumps (errorDetail code message)⟩
  | _ => ⟨500, "application/json", dumps (.object [("code", .string ErrorCode.internalError.value),
      ("message", .string "internal error"), ("error_id", .string errorId)])⟩

/-- The server serves a request: it opens it, the route handles it, and the answer is
    sealed. -/
def serve (p : Process) (x : Errand V) (t : Try) (body : Bytes) :
    Process × Option Client.Response :=
  let r := (decryptRequest aead ⟨x.method.toUpper, x.path, body⟩ ⟨ttl, maxLife, InMemory.store⟩
    (schema x.path)).advance t.clock p
  match Task.ended r.2.2 with
  | none => (r.1, none)
  | some (.error e) => (r.1, some (refusal dumps t.errorId e))
  | some (.ok (sess, value)) =>
    let a := (encryptResponse aead sess (x.handle value) x.method.toUpper x.path none).advance
      (fun _ => 0) r.1
    match Task.ended a.2.2 with
    | none => (a.1, none)
    | some (.error e) => (a.1, some (refusal dumps t.errorId e))
    | some (.ok answer) => (a.1, some ⟨200, "application/octet-stream", answer⟩)

variable (w : Linked V)

/-- The handshake. The server makes the session, and the client starts its counter
    and its replay check anew. -/
def handshake (t : Try) : Linked V :=
  { w with
    proc := (((Op.create t.meeting.material).task aead ⟨ttl, maxLife, InMemory.store⟩).advance
      t.made w.proc).1
    session := some (.new t.meeting.outcome)
    replay := .fresh
    handshakes := w.handshakes + 1 }

/-- `_session_state`. -/
def sessionState (t : Try) : Linked V × SessionState :=
  match w.session with
  | some state => (w, state)
  | none => (w.handshake aead ttl maxLife t, .new t.meeting.outcome)

/-- Seal the call under the next counter and send it. The server may not answer. -/
def exchange (x : Errand V) (t : Try) (state : SessionState) :
    Linked V × Option (Except Client.Raised Client.Response) :=
  let counter := state.c2sCounter + 1
  let w := { w with session := some { state with c2sCounter := counter } }
  match Client.sealEnvelope aead state.outcome.c2s counter state.outcome.sessionId
    x.method.toUpper x.path x.payload with
  | .error e => (w, some (.error (.exc e)))
  | .ok body =>
    let r := serve aead dumps schema ttl maxLife w.proc x t body
    ({ w with proc := r.1, posts := w.posts + 1 }, r.2.map .ok)

/-- The server does not know the session any more. -/
def lost : Option (Except Client.Raised Client.Response) → Bool
  | some (.ok r) => decide (r.statusCode = 401 ∨ r.statusCode = 400) &&
      decide (Client.tryExtractErrorCode loads r = some .unknownSession ∨
        Client.tryExtractErrorCode loads r = some .sessionExpired)
  | _ => false

/-- What the call makes of its answer. -/
def finish (x : Errand V) (outcome : HandshakeOutcome) :
    Option (Except Client.Raised Client.Response) →
      Linked V × Option (Except Client.Raised Json)
  | none => (w, none)
  | some (.error e) => (w, some (.error e))
  | some (.ok r) =>
    let d := Client.decodeResponse aead loads r outcome x.method x.path w.replay
    ({ w with replay := d.2 }, some d.1)

/-- A try of the call: its session, and what the server answers. -/
def attempt (x : Errand V) (t : Try) :
    Linked V × SessionState × Option (Except Client.Raised Client.Response) :=
  let s := w.sessionState aead ttl maxLife t
  let r := s.1.exchange aead dumps schema ttl maxLife x t s.2
  (r.1, s.2, r.2)

/-- `request`. A session that is lost is forgotten, and the call is made once more. -/
def request (x : Errand V) : Linked V × Option (Except Client.Raised Json) :=
  let a := w.attempt aead dumps schema ttl maxLife x x.first
  if lost loads a.2.2 then
    let b := { a.1 with session := none }.attempt aead dumps schema ttl maxLife x x.second
    b.1.finish aead loads x b.2.1.outcome b.2.2
  else a.1.finish aead loads x a.2.1.outcome a.2.2

/-- One step. -/
def step : LinkedEvent V → Option (Linked V)
  | .call x =>
    let r := w.request aead loads dumps schema ttl maxLife x
    some { r.1 with results := r.1.results ++ [(x, r.2)] }
  | .other op clock =>
    some { w with proc := ((op.task aead ⟨ttl, maxLife, InMemory.store⟩).advance clock w.proc).1 }
  | .restart => some { w with proc := .start }

end Linked

/-- A session that is made for this try lives until it is looked up. -/
structure Try.InTime (ttl maxLife : ℤ) (t : Try) : Prop where
  clock : Monotone t.clock
  idle : t.clock 1 - t.made 0 ≤
    (if t.meeting.material.ttlSeconds ≠ 0 then t.meeting.material.ttlSeconds else ttl : ℤ)
  old : t.clock 1 - t.made 0 ≤ maxLife

/-- The operations that use a session or make one. -/
def Op.uses : Op → Option Bytes
  | .create material => some material.sessionId
  | .decryptRequest request _ => requestTarget request
  | _ => none

namespace Linked

variable {V : Type} (loads : Bytes → Except Exc Json) (schema : String → Bytes → Except String V)
  (ttl maxLife : ℤ)

/-- What is asked of a step. -/
def Fair (w : Linked V) (e : LinkedEvent V) (_ : Linked V) : Prop :=
  match e with
  | .call x => IsMethod x.method ∧ x.first.InTime ttl maxLife ∧ x.second.InTime ttl maxLife ∧
      ∀ state, w.session = some state → state.c2sCounter + 1 < 2 ^ 64
  | .other op clock => Monotone clock ∧
      ∀ state, w.session = some state → op.uses ≠ some state.outcome.sessionId
  | .restart => True

/-- What a call comes to: what the client makes of what the route answers, or the
    error for a payload that the route does not take. -/
def expected (x : Errand V) : Except Client.Raised Json :=
  match schema x.path x.payload with
  | .ok value => Client.interpret loads 200 (x.handle value)
  | .error message =>
    .error (.error (Client.fromErrorEnvelope .badRequest (.string message) .null .null))

/-- Every call has come to what it should, with no more handshakes than calls, and no
    more envelopes than calls and handshakes. -/
structure Recovered (w : Linked V) : Prop where
  results : ∀ e ∈ w.results, e.2 = some (expected loads schema e.1)
  handshakes : w.handshakes ≤ w.results.length
  posts : w.posts ≤ w.results.length + w.handshakes

/-- Client and server after a number of requests of the session, and answers to them. If
    the server has the session at all, it has it as the client does. -/
structure Common (w : Linked V) (state : SessionState) (n k : ℕ) : Prop where
  length : state.outcome.sessionId.length = sessionIdBytes
  counter : state.c2sCounter = n
  answered : k ≤ n
  replay : w.replay = (Client.ReplayClient.checks
    ((List.range k).map fun i => ((i + 1 : ℕ) : ℤ))).1
  entry : ∀ r, w.proc.table.get? state.outcome.sessionId = some r →
    Channel.Current state.outcome (List.range n) k (w.proc.heap r)

/-- The invariant. -/
structure Healthy (w : Linked V) : Prop where
  free : w.proc.Locked false
  sound : w.proc.Sound
  session : ∀ state, w.session = some state → ∃ n k, w.Common state n k

end Linked

/-! ## What the server does for others -/

namespace Process

variable {sid : Bytes} {P : Session → Prop} {p q : Process}

/-- If the table has an entry for the id, it is such a session. -/
def At (sid : Bytes) (P : Session → Prop) (p : Process) : Prop :=
  ∀ r, p.table.get? sid = some r → P (p.heap r)

theorem At.congr (h : p.At sid P) (hheap : q.heap = p.heap)
    (htable : ∀ r, q.table.get? sid = some r → p.table.get? sid = some r) : q.At sid P := by
  intro r hr
  rw [hheap]
  exact h r (htable r hr)

/-- Another object is changed. -/
theorem At.change (h : p.At sid P) (hsound : p.Sound) {x : Ref} {other : Bytes}
    (hx : p.table.get? other = some x) (hother : other ≠ sid) (f : Session → Session) :
    (p.change x f).At sid P := by
  intro r hr
  have hne : r ≠ x := by
    intro heq
    rw [heq] at hr
    exact hother ((hsound other x hx).2.symm.trans (hsound sid x hr).2)
  rw [heap_change_of_ne p x r f hne]
  exact h r hr

/-- A session is ended. -/
theorem At.zeroize (h : p.At sid P) (hsound : p.Sound) {x : Ref} {other : Bytes}
    (hx : p.table.get? other = some x) : ((p.change x Session.zeroize).drop other).At sid P := by
  intro r hr
  rw [table_drop, Dict.get?_erase] at hr
  by_cases hsame : sid = other
  · rw [if_pos hsame] at hr
    exact absurd hr (by simp)
  · rw [if_neg hsame] at hr
    exact h.change hsound hx (Ne.symm hsame) Session.zeroize r hr

/-- A lookup leaves the session, or ends it. -/
theorem Looked.at {other : Bytes} {clock clock' : ℕ → ℚ} {o : Option Ref}
    (hlooked : p.Looked other clock q clock' o) (hsound : p.Sound) (h : p.At sid P) :
    q.At sid P := by
  cases hlooked with
  | absent htable => exact h
  | late r htable hlate => exact h
  | dropped r htable hlate => exact h.zeroize hsound htable
  | live r htable hlive => exact h

end Process

/-- **What the server does for others.** An operation that does not use the session of
    an id leaves it as it is, or ends it. -/
theorem Op.leaves (aead : Aead) (ttl maxLife : ℤ) (op : Op) {clock : ℕ → ℚ}
    (hclock : Monotone clock) {p : Process} (hfree : p.Locked false) (hsound : p.Sound)
    {sid : Bytes} (huses : op.uses ≠ some sid) {P : Session → Prop} (h : p.At sid P) :
    ((op.task aead ⟨ttl, maxLife, InMemory.store⟩).advance clock p).1.At sid P := by
  cases op with
  | create m =>
      rcases create_advance aead ttl maxLife m clock p hfree with ⟨clock', hcreate⟩
      rw [hcreate]
      intro r hr
      have hid : ((p.alloc (.ofMaterial m ttl maxLife (clock 0)) .created).heap p.next).sessionId =
          m.sessionId := by
        rw [Process.heap_alloc_self]
        rfl
      have hne : sid ≠ m.sessionId := fun heq => huses (by rw [heq]; rfl)
      have hr' : (p.table.set ((p.alloc (.ofMaterial m ttl maxLife (clock 0)) .created).heap
          p.next).sessionId p.next).get? sid = some r := hr
      rw [hid, Dict.get?_set, if_neg hne] at hr'
      show P ((p.alloc (.ofMaterial m ttl maxLife (clock 0)) .created).heap r)
      rw [Process.heap_alloc_of_lt p _ _ r (hsound sid r hr').1]
      exact h r hr'
  | lookupAsync other =>
      rcases lookupAsync_clock ttl maxLife other p hclock with ⟨q, clock', o, hrun, hlooked⟩
      rw [show (Op.task aead ⟨ttl, maxLife, InMemory.store⟩ (.lookupAsync other)).advance clock p =
        (q, clock', .done (.found o)) from Coop.advance_bind _ _ _ _ _ _ _ hrun]
      exact hlooked.at hsound h
  | terminate other =>
      rcases terminate_clock ttl maxLife other p hclock hfree with ⟨q, clock', removed, hrun, hend⟩
      rw [show (Op.task aead ⟨ttl, maxLife, InMemory.store⟩ (.terminate other)).advance clock p =
        (q, clock', .done (.terminated removed)) from Coop.advance_bind _ _ _ _ _ _ _ hrun]
      cases hend with
      | missing => exact h
      | closed r htable => exact h.zeroize hsound htable
  | reapExpired =>
      have hends : (Op.task aead ⟨ttl, maxLife, InMemory.store⟩ .reapExpired).Ends
          (fun u => p.Shrinks u) p := Coop.Ends.bind _ _ _ p (reapExpired_clock ttl maxLife p hfree)
        (fun _ _ hq => hq)
      have hshrinks := (hends.advance _ _ clock p).1
      exact h.congr hshrinks.heap fun r hr => hshrinks.table sid r hr
  | decryptRequest request checks =>
      rcases decryptRequest_clock ttl maxLife p hclock aead request checks with
        ⟨q, clock', rest, hrun, hdecrypted⟩
      have hother : ∀ env, unpackEnvelope request.body = .ok env → env.sessionId ≠ sid := by
        intro env hunpack heq
        refine huses ?_
        show requestTarget request = some sid
        rw [requestTarget, hunpack]
        exact congrArg some heq
      -- However the request ends, the operation ends with it.
      have hfail : ∀ e, rest = .fail e → ((Op.task aead ⟨ttl, maxLife, InMemory.store⟩
          (.decryptRequest request checks)).advance clock p).1 = q := by
        intro e he
        rw [he] at hrun
        have hall : (Op.task aead ⟨ttl, maxLife, InMemory.store⟩
          (.decryptRequest request checks)).advance clock p = (q, clock', .fail e) :=
            Coop.advance_bind_fail _ _ _ _ _ _ _ hrun
        rw [hall]
      have hsame : ((Op.task aead ⟨ttl, maxLife, InMemory.store⟩
          (.decryptRequest request checks)).advance clock p).1 = q := by
        cases hdecrypted with
        | malformed e e' hunpack => exact hfail _ rfl
        | unknown env u c hunpack hlooked => exact hfail _ rfl
        | refused env r u e hunpack htable hlive hq he => exact hfail _ rfl
        | accepted env r window value hunpack htable hlive =>
            have hall : (Op.task aead ⟨ttl, maxLife, InMemory.store⟩
              (.decryptRequest request checks)).advance clock p = (_, _, .done (.accepted r)) :=
                Coop.advance_bind _ _ _ _ _ _ _ hrun
            rw [hall]
      rw [hsame]
      cases hdecrypted with
      | malformed e e' hunpack => exact h
      | unknown env u c hunpack hlooked => exact hlooked.at hsound h
      | refused env r u e hunpack htable hlive hq he =>
          rcases hq with rfl | ⟨window, rfl⟩
          · exact h
          · exact h.change hsound htable (hother env hunpack) _
      | accepted env r window value hunpack htable hlive =>
          have hne := hother env hunpack
          intro x hx
          rw [Process.table_assign, Dict.get?_set, (hsound _ r htable).2,
            if_neg (Ne.symm hne)] at hx
          have hxr : x ≠ r := by
            intro heq
            have hx' : p.table.get? sid = some x := hx
            rw [heq] at hx'
            exact hne ((hsound _ r htable).2.symm.trans (hsound sid r hx').2)
          show P (((p.change r fun s => s.advance window).change r
            fun s => s.touch (clock 2)).heap x)
          rw [Process.heap_change_of_ne _ _ _ _ hxr, Process.heap_change_of_ne _ _ _ _ hxr]
          exact h x hx

/-! ## Calls -/

/-- Decrypting a request whose session is not found. -/
theorem decryptRequest_of_none {T : Type} (aead : Aead) (ttl maxLife : ℤ) (request : Request)
    (schema : Bytes → Except String T) (p : Process) {env : Envelope}
    (h : unpackEnvelope request.body = .ok env) {clock clock' : ℕ → ℚ} {q : Process}
    (hlookup : (SessionManager.lookupAsync ⟨ttl, maxLife, InMemory.store⟩ env.sessionId).advance
      clock p = (q, clock', .done none)) :
    (decryptRequest aead request ⟨ttl, maxLife, InMemory.store⟩ schema).advance clock p =
      (q, clock', .fail (httpError .unknownSession 401 "")) := by
  rw [decryptRequest]
  simp only [if_neg (length_of_unpackEnvelope _ env h), h]
  exact Coop.advance_bind _ _ _ _ _ _ _ hlookup

/-- The fields of an error under `detail`. -/
def errorFields (code : ErrorCode) (message : String) : List (String × Json) :=
  [("code", .string code.value), ("message", .string message), ("error_id", .null),
    ("retry_after_seconds", .null)]

section Errors

variable (code : ErrorCode) (message : String)

theorem errorDetail_eq : errorDetail code message =
    .object [("detail", .object (errorFields code message))] := rfl

theorem field_detail (value : Json) : Json.field [("detail", value)] "detail" = some value := rfl

theorem field_code : Json.field (errorFields code message) "code" = some (.string code.value) := rfl

theorem field_message : Json.field (errorFields code message) "message" = some (.string message) :=
  rfl

theorem field_errorId : Json.field (errorFields code message) "error_id" = some .null := rfl

theorem field_retryAfter :
    Json.field (errorFields code message) "retry_after_seconds" = some .null := rfl

theorem truthy_value : Json.truthy (.string code.value) = true := by cases code <;> rfl

end Errors

/-- The client finds the code in the detail of an error. -/
theorem tryExtractErrorCode_detail {loads : Bytes → Except Exc Json} {code : ErrorCode}
    {message : String} {r : Client.Response}
    (h : loads r.content = .ok (errorDetail code message)) :
    Client.tryExtractErrorCode loads r = some code := by
  have hnone : Json.field [("detail", .object (errorFields code message))] "code" = none := rfl
  simp only [Client.tryExtractErrorCode, h, errorDetail_eq, field_detail, field_code, hnone,
    Option.filter_none, Option.none_or, Option.filter_some, truthy_value, if_true,
    Option.bind_some, ErrorCode.ofJson_value]

/-- And raises it, if it does not take it for a lost session. -/
theorem decodeResponse_detail (aead : Aead) {loads : Bytes → Except Exc Json} {code : ErrorCode}
    {message : String} (status : ℕ) {content : Bytes} (hstatus : status ≠ 204)
    (h : loads content = .ok (errorDetail code message)) (outcome : HandshakeOutcome)
    (method path : String) (replay : Client.ReplayClient) :
    Client.decodeResponse aead loads ⟨status, "application/json", content⟩ outcome method path
      replay = (.error (.error (Client.fromErrorEnvelope code (.string message) .null .null)), replay) := by
  have hjson : Client.startsWith "application/json" "application/json" = true := by decide
  have hplain : Client.plainError loads content =
      .error (Client.fromErrorEnvelope code (.string message) .null .null) := by
    simp only [Client.plainError, h, errorDetail_eq, field_detail, Option.getD_some, field_code,
      ErrorCode.ofJson_value, field_message, field_errorId, field_retryAfter]
  have hopening : Client.openResponse aead loads ⟨status, "application/json", content⟩ outcome
      method path = .finished (.error (.error
        (Client.fromErrorEnvelope code (.string message) .null .null))) := by
    unfold Client.openResponse
    rw [if_neg hstatus, if_pos hjson, hplain]
  simp only [Client.decodeResponse, hopening]

namespace Linked

section Calls

variable {V : Type} {aead : Aead} {loads : Bytes → Except Exc Json} {dumps : Json → Bytes}
  {schema : String → Bytes → Except String V} {ttl maxLife : ℤ} {w : Linked V}
  {state : SessionState} {n k : ℕ} {x : Errand V} {t : Try}

variable (aead dumps schema ttl maxLife t) in
/-- What the client seals under its next counter. -/
theorem Common.seals (hc : w.Common state n k) (hmethod : IsMethod x.method)
    (hbound : n + 1 < 2 ^ 64) :
    ∃ body, sealEnvelope aead state.outcome.c2s ((n + 1 : ℕ) : ℤ) state.outcome.sessionId
        x.method.toUpper x.path x.payload = .ok body ∧
      (w.exchange aead dumps schema ttl maxLife x t state) =
        ({ w with
            session := some { state with c2sCounter := ((n + 1 : ℕ) : ℤ) }
            proc := (serve aead dumps schema ttl maxLife w.proc x t body).1
            posts := w.posts + 1 },
          (serve aead dumps schema ttl maxLife w.proc x t body).2.map .ok) := by
  rcases sealEnvelope_natCast aead state.outcome.c2s state.outcome.sessionId hc.length _ hbound
    x.method.toUpper x.path hmethod.toUpper x.payload with ⟨nonce, aad, -, -, -, hsealed⟩
  refine ⟨_, hsealed, ?_⟩
  have hcounter : state.c2sCounter + 1 = ((n + 1 : ℕ) : ℤ) := by
    rw [hc.counter]
    rfl
  unfold exchange
  dsimp only
  rw [hcounter, Client.sealEnvelope_eq, hsealed]

variable (aead dumps schema) in
/-- **The server has lost the session.** It says so. -/
theorem exchange_gone (hc : w.Common state n k) (hmethod : IsMethod x.method)
    (hbound : n + 1 < 2 ^ 64) {q : Process} {clock' : ℕ → ℚ}
    (hlookup : (SessionManager.lookupAsync ⟨ttl, maxLife, InMemory.store⟩
      state.outcome.sessionId).advance t.clock w.proc = (q, clock', .done none)) :
    w.exchange aead dumps schema ttl maxLife x t state =
      ({ w with
          session := some { state with c2sCounter := ((n + 1 : ℕ) : ℤ) }
          proc := q
          posts := w.posts + 1 },
        some (.ok (refusal dumps t.errorId (httpError .unknownSession 401 "")))) := by
  rcases hc.seals aead dumps schema ttl maxLife t hmethod hbound with ⟨body, hseal, hrun⟩
  rcases unpackEnvelope_of_sealEnvelope hseal with ⟨nonce, aad, -, -, hunpack⟩
  have hopened := decryptRequest_of_none aead ttl maxLife ⟨x.method.toUpper, x.path, body⟩
    (schema x.path) w.proc hunpack hlookup
  have hserve : serve aead dumps schema ttl maxLife w.proc x t body =
      (q, some (refusal dumps t.errorId (httpError .unknownSession 401 ""))) := by
    unfold serve
    rw [hopened]
    rfl
  rw [hrun, hserve]
  rfl

variable (aead w x t) in
/-- An error that is no sign of a lost session ends the call with an error. -/
theorem finish_refused {message : String} (hread : loads (dumps (errorDetail .badRequest message)) =
      .ok (errorDetail .badRequest message)) (outcome : HandshakeOutcome) :
    lost loads (some (.ok (refusal dumps t.errorId (httpError .badRequest 400 message)))) = false ∧
      w.finish aead loads x outcome
          (some (.ok (refusal dumps t.errorId (httpError .badRequest 400 message)))) =
        (w, some (.error (.error
          (Client.fromErrorEnvelope .badRequest (.string message) .null .null)))) := by
  have hcode : Client.tryExtractErrorCode loads
      (refusal dumps t.errorId (httpError .badRequest 400 message)) = some .badRequest :=
    tryExtractErrorCode_detail hread
  constructor
  · have hother : decide (some ErrorCode.badRequest = some ErrorCode.unknownSession ∨
        some ErrorCode.badRequest = some ErrorCode.sessionExpired) = false := by decide
    simp only [lost, hcode, hother, Bool.and_false]
  · have hdecode := decodeResponse_detail aead 400 (by decide) hread outcome x.method
      x.path w.replay
    simp only [finish]
    rw [show refusal dumps t.errorId (httpError .badRequest 400 message) =
      ⟨400, "application/json", dumps (errorDetail .badRequest message)⟩ from rfl, hdecode]

/-- **The server has the session.** The call comes to what it should, and both have
    counted it. -/
theorem exchange_live (hw : w.Healthy) (hc : w.Common state n k) (hmethod : IsMethod x.method)
    (hbound : n + 1 < 2 ^ 64)
    (hread : ∀ message, schema x.path x.payload = .error message →
      loads (dumps (errorDetail .badRequest message)) = .ok (errorDetail .badRequest message))
    {r : Ref} (hget : w.proc.table.get? state.outcome.sessionId = some r) {clock' : ℕ → ℚ}
    (hlookup : (SessionManager.lookupAsync ⟨ttl, maxLife, InMemory.store⟩
      state.outcome.sessionId).advance t.clock w.proc = (w.proc, clock', .done (some r))) :
    ∃ u answer, w.exchange aead dumps schema ttl maxLife x t state = (u, answer) ∧
      lost loads answer = false ∧
      (u.finish aead loads x state.outcome answer).2 = some (expected loads schema x) ∧
      (u.finish aead loads x state.outcome answer).1.Healthy ∧
      (u.finish aead loads x state.outcome answer).1.posts = w.posts + 1 ∧
      (u.finish aead loads x state.outcome answer).1.handshakes = w.handshakes ∧
      (u.finish aead loads x state.outcome answer).1.results = w.results := by
  rcases hc.seals aead dumps schema ttl maxLife t hmethod hbound with ⟨body, hseal, hrun⟩
  have hle : k ≤ n := hc.answered
  have hs := hc.entry r hget
  have hkeeps : w.proc.Retains (Process.one r (w.proc.heap r)) := by
    refine ⟨hw.sound, fun y s hy => ?_⟩
    rcases hy with ⟨rfl, rfl⟩
    exact ⟨by rw [hs.sessionId]; exact hget, rfl⟩
  rcases hs.opens hw.free hkeeps hmethod hseal (by simp)
    (fun j hj => by have hlt := List.mem_range.mp hj; omega) hlookup (schema x.path) with
    ⟨q, clock'', s', rest, hopened, hended, hfree, hkept, hcurrent⟩
  -- What is left of the session, once it has answered or not.
  have hcommon : ∀ (u : Linked V) (s : Session) (m : ℕ), u.proc.Retains (Process.one r s) →
      Channel.Current state.outcome (List.range n ++ [n]) m s → m ≤ n + 1 →
      u.replay = (Client.ReplayClient.checks ((List.range m).map fun i => ((i + 1 : ℕ) : ℤ))).1 →
      u.Common { state with c2sCounter := ((n + 1 : ℕ) : ℤ) } (n + 1) m := by
    intro u s m hu hs' hm hreplay
    refine ⟨hc.length, rfl, hm, hreplay, fun y hy => ?_⟩
    have hsame : y = r := by
      have hr := hu.get
      rw [hs'.sessionId, show u.proc.table.get? state.outcome.sessionId = some y from hy] at hr
      exact Option.some.inj hr
    rw [hsame, hu.heap, List.range_succ]
    exact hs'
  cases hschema : schema x.path x.payload with
  | error message =>
      rw [hschema] at hended
      have hserve : serve aead dumps schema ttl maxLife w.proc x t body =
          (q, some (refusal dumps t.errorId (httpError .badRequest 400 message))) := by
        unfold serve
        rw [hopened]
        dsimp only
        rw [hended]
        rfl
      rw [hserve] at hrun
      rw [Option.map_some] at hrun
      refine ⟨_, _, hrun, (finish_refused aead w x t (hread message hschema) state.outcome).1, ?_⟩
      rw [(finish_refused aead _ x t (hread message hschema) state.outcome).2]
      refine ⟨by rw [expected, hschema], ⟨hfree, hkept.sound, fun state' hstate => ?_⟩, rfl, rfl,
        rfl⟩
      rw [← Option.some.inj hstate]
      exact ⟨n + 1, k, hcommon _ s' k hkept hcurrent (by omega) hc.replay⟩
  | ok value =>
      rw [hschema] at hended
      rcases hcurrent.seals hkept hc.length x.path hmethod (by omega)
        (x.handle value) with ⟨answer, q', hsealed, hfree', hkept', hbumped, hanswer⟩
      have hserve : serve aead dumps schema ttl maxLife w.proc x t body =
          (q', some ⟨200, "application/octet-stream", answer⟩) := by
        unfold serve
        rw [hopened]
        dsimp only
        rw [hended]
        show _ = _
        simp only [Except.map, validated]
        rw [hsealed]
        rfl
      rw [hserve] at hrun
      have hopening := Channel.openResponse_of_seal loads hmethod hanswer
      -- The counter of the answer is new to the client.
      have hfresh : ((k + 1 : ℕ) : ℤ) ∉ (List.range k).map fun i => ((i + 1 : ℕ) : ℤ) := by
        intro hmem
        rcases List.mem_map.mp hmem with ⟨i, hi, heq⟩
        have hlt := List.mem_range.mp hi
        omega
      rcases Client.ReplayClient.exists_check_of_notMem _ hfresh with ⟨replay, hcheck⟩
      rw [← hc.replay] at hcheck
      refine ⟨_, _, hrun, rfl, ?_⟩
      simp only [Option.map_some, finish, Client.decodeResponse, hopening, hcheck]
      refine ⟨by rw [expected, hschema], ⟨hfree' hfree, hkept'.sound, fun state' hstate => ?_⟩,
        trivial, trivial, trivial⟩
      rw [← Option.some.inj hstate]
      refine ⟨n + 1, k + 1, hcommon _ s'.bump (k + 1) hkept' hbumped
        (by omega) ?_⟩
      rw [List.range_succ, List.map_append, List.map_singleton,
        Client.ReplayClient.checks_append, ← hc.replay, hcheck]

/-- A call that makes the handshake first: the server has the session, and it comes to
    what it should. -/
theorem attempt_fresh (hw : w.Healthy) (hsession : w.session = none) (ht : t.InTime ttl maxLife)
    (hmethod : IsMethod x.method)
    (hread : ∀ message, schema x.path x.payload = .error message →
      loads (dumps (errorDetail .badRequest message)) = .ok (errorDetail .badRequest message)) :
    ∃ u s answer, w.attempt aead dumps schema ttl maxLife x t = (u, s, answer) ∧
      lost loads answer = false ∧
      (u.finish aead loads x s.outcome answer).2 = some (expected loads schema x) ∧
      (u.finish aead loads x s.outcome answer).1.Healthy ∧
      (u.finish aead loads x s.outcome answer).1.posts = w.posts + 1 ∧
      (u.finish aead loads x s.outcome answer).1.handshakes = w.handshakes + 1 ∧
      (u.finish aead loads x s.outcome answer).1.results = w.results := by
  rcases create_retains aead ttl maxLife t.meeting.material t.made hw.free hw.sound with
    ⟨hfree, hkept⟩
  have hid : t.meeting.outcome.sessionId = t.meeting.material.sessionId := t.meeting.sessionId
  have hget : (w.handshake aead ttl maxLife t).proc.table.get? t.meeting.outcome.sessionId =
      some w.proc.next := by
    rw [hid]
    exact hkept.get
  have hcommon : (w.handshake aead ttl maxLife t).Common (.new t.meeting.outcome) 0 0 := by
    refine ⟨t.meeting.length, rfl, le_refl 0, rfl, fun r hr => ?_⟩
    have hr' : (w.handshake aead ttl maxLife t).proc.table.get? t.meeting.outcome.sessionId =
      some r := hr
    rw [hget, Option.some.injEq] at hr'
    rw [← hr', show (w.handshake aead ttl maxLife t).proc.heap w.proc.next = _ from hkept.heap]
    exact ⟨hid.symm, t.meeting.c2s.symm, t.meeting.s2c.symm, rfl, rfl, Channel.tracks_fresh⟩
  have hhealthy : (w.handshake aead ttl maxLife t).Healthy := by
    refine ⟨hfree, hkept.sound, fun state hstate => ?_⟩
    rw [← Option.some.inj hstate]
    exact ⟨0, 0, hcommon⟩
  -- The session was made for this call, and is still alive.
  have hlive : ∀ i, t.clock i ≤ t.clock 1 →
      ((w.handshake aead ttl maxLife t).proc.heap w.proc.next).isExpired (t.clock i) = false := by
    intro i hi
    rw [show (w.handshake aead ttl maxLife t).proc.heap w.proc.next = _ from hkept.heap]
    have hidle : t.clock i - (Session.ofMaterial t.meeting.material ttl maxLife
        (t.made 0)).lastUsedAt ≤ _ := (sub_le_sub_right hi _).trans ht.idle
    have hold : t.clock i - (Session.ofMaterial t.meeting.material ttl maxLife
        (t.made 0)).createdAt ≤ _ := (sub_le_sub_right hi _).trans ht.old
    rw [Session.isExpired, if_neg (by simp [Session.ofMaterial])]
    exact (if_neg (not_lt.mpr hidle)).trans (decide_eq_false (not_lt.mpr hold))
  have hlookup := Channel.lookupAsync_live ttl maxLife t.meeting.outcome.sessionId t.clock _ _ hget
    (hlive 0 (ht.clock (Nat.zero_le 1))) (hlive 1 (le_refl _))
  rcases exchange_live hhealthy hcommon hmethod (by decide) hread hget hlookup with
    ⟨u, answer, hrun, hlost, hresult, hafter, hposts, hhandshakes, hresults⟩
  refine ⟨u, .new t.meeting.outcome, answer, ?_, hlost, hresult, hafter, hposts, hhandshakes,
    hresults⟩
  unfold attempt sessionState
  rw [hsession]
  dsimp only
  rw [hrun]

/-- **A call comes to what it should**, whatever has become of its session, and makes
    one handshake at most. -/
theorem Healthy.request (hw : w.Healthy) (hmethod : IsMethod x.method)
    (hfirst : x.first.InTime ttl maxLife) (hsecond : x.second.InTime ttl maxLife)
    (hbound : ∀ state, w.session = some state → state.c2sCounter + 1 < 2 ^ 64)
    (hunknown : loads (dumps (errorDetail .unknownSession "")) =
      .ok (errorDetail .unknownSession ""))
    (hread : ∀ message, schema x.path x.payload = .error message →
      loads (dumps (errorDetail .badRequest message)) = .ok (errorDetail .badRequest message)) :
    (w.request aead loads dumps schema ttl maxLife x).2 = some (expected loads schema x) ∧
      (w.request aead loads dumps schema ttl maxLife x).1.Healthy ∧
      (w.request aead loads dumps schema ttl maxLife x).1.results = w.results ∧
      ∃ made ≤ 1, (w.request aead loads dumps schema ttl maxLife x).1.handshakes =
          w.handshakes + made ∧
        (w.request aead loads dumps schema ttl maxLife x).1.posts ≤ w.posts + 1 + made := by
  cases hsession : w.session with
  | none =>
      rcases attempt_fresh hw hsession hfirst hmethod hread with
        ⟨u, s, answer, hrun, hlost, hresult, hafter, hposts, hhandshakes, hresults⟩
      unfold Linked.request
      dsimp only
      rw [hrun]
      dsimp only
      rw [hlost, if_neg Bool.false_ne_true]
      exact ⟨hresult, hafter, hresults, 1, le_refl 1, hhandshakes, by omega⟩
  | some state =>
      rcases hw.session state hsession with ⟨n, k, hc⟩
      have hbound' : n + 1 < 2 ^ 64 := by
        have hlt := hbound state hsession
        rw [hc.counter] at hlt
        omega
      have hattempt : w.attempt aead dumps schema ttl maxLife x x.first =
          ((w.exchange aead dumps schema ttl maxLife x x.first state).1, state,
            (w.exchange aead dumps schema ttl maxLife x x.first state).2) := by
        unfold attempt sessionState
        rw [hsession]
      rcases lookupAsync_clock ttl maxLife state.outcome.sessionId w.proc hfirst.clock with
        ⟨q, clock', o, hlookup, hlooked⟩
      cases o with
      | some r =>
          cases hlooked with
          | live _ htable hlive =>
          rcases exchange_live hw hc hmethod hbound' hread htable hlookup with
            ⟨u, answer, hrun, hlost, hresult, hafter, hposts, hhandshakes, hresults⟩
          unfold Linked.request
          dsimp only
          rw [hattempt, hrun]
          dsimp only
          rw [hlost, if_neg Bool.false_ne_true]
          exact ⟨hresult, hafter, hresults, 0, Nat.zero_le 1, hhandshakes, by omega⟩
      | none =>
          have hlost : lost loads (some (.ok (refusal dumps x.first.errorId
              (httpError .unknownSession 401 "")))) = true := by
            have hcode : Client.tryExtractErrorCode loads
                (refusal dumps x.first.errorId (httpError .unknownSession 401 "")) =
                  some .unknownSession := tryExtractErrorCode_detail hunknown
            simp only [lost, hcode]
            rfl
          have hserver := Op.keeps_sound aead ttl maxLife (.lookupAsync state.outcome.sessionId)
            x.first.clock hw.free hw.sound
          have htask : (Op.task aead ⟨ttl, maxLife, InMemory.store⟩
              (.lookupAsync state.outcome.sessionId)).advance x.first.clock w.proc =
                (q, clock', .done (.found none)) := Coop.advance_bind _ _ _ _ _ _ _ hlookup
          rw [htask] at hserver
          -- The second try begins without a session, on what the lookup has left.
          have hforgot :
              Linked.Healthy { w with proc := q, session := none, posts := w.posts + 1 } :=
            ⟨hserver.1, hserver.2, fun state' hstate => absurd hstate (by simp)⟩
          rcases attempt_fresh hforgot rfl hsecond hmethod hread with
            ⟨u, s, answer, hrun, hlost', hresult, hafter, hposts, hhandshakes, hresults⟩
          unfold Linked.request
          dsimp only
          rw [hattempt, exchange_gone aead dumps schema hc hmethod hbound' hlookup]
          dsimp only
          rw [hlost, if_pos rfl]
          rw [hrun]
          exact ⟨hresult, hafter, hresults, 1, le_refl 1, hhandshakes, by
            rw [hposts]⟩

/-- **The step lemma.** -/
theorem Healthy.step (hw : w.Healthy) {e : LinkedEvent V} {u : Linked V}
    (hfair : Fair ttl maxLife w e u) (hunknown : loads (dumps (errorDetail .unknownSession "")) =
      .ok (errorDetail .unknownSession ""))
    (hread : ∀ path payload message, schema path payload = .error message →
      loads (dumps (errorDetail .badRequest message)) = .ok (errorDetail .badRequest message))
    (hstep : w.step aead loads dumps schema ttl maxLife e = some u)
    (hr : w.Recovered loads schema) : u.Healthy ∧ u.Recovered loads schema := by
  cases e with
  | call x =>
      rcases hfair with ⟨hmethod, hfirst, hsecond, hbound⟩
      rcases hw.request hmethod hfirst hsecond hbound hunknown (hread x.path x.payload) with
        ⟨hresult, hafter, hsame, made, hmade, hshaken, hposted⟩
      rw [← Option.some.inj hstep]
      have hlength : ((w.request aead loads dumps schema ttl maxLife x).1.results ++
          [(x, (w.request aead loads dumps schema ttl maxLife x).2)]).length =
            w.results.length + 1 := by
        rw [List.length_append, hsame, List.length_singleton]
      have hhandshakes := hr.handshakes
      have hposts := hr.posts
      refine ⟨⟨hafter.free, hafter.sound, fun state hstate => ?_⟩, fun e he => ?_, ?_, ?_⟩
      · rcases hafter.session state hstate with ⟨n, k, hc⟩
        exact ⟨n, k, hc.length, hc.counter, hc.answered, hc.replay, hc.entry⟩
      · rcases List.mem_append.mp he with hold | hnew
        · rw [hsame] at hold
          exact hr.results e hold
        · rw [List.mem_singleton.mp hnew]
          exact hresult
      · dsimp only
        rw [hlength]
        omega
      · dsimp only
        rw [hlength]
        omega
  | other op clock =>
      rw [← Option.some.inj hstep]
      have hserver := Op.keeps_sound aead ttl maxLife op clock hw.free hw.sound
      refine ⟨⟨hserver.1, hserver.2, fun state hstate => ?_⟩, hr.results, hr.handshakes, hr.posts⟩
      rcases hw.session state hstate with ⟨n, k, hc⟩
      exact ⟨n, k, hc.length, hc.counter, hc.answered, hc.replay,
        Op.leaves aead ttl maxLife op hfair.1 hw.free hw.sound (hfair.2 state hstate) hc.entry⟩
  | restart =>
      rw [← Option.some.inj hstep]
      refine ⟨⟨rfl, Process.sound_start, fun state hstate => ?_⟩, hr.results, hr.handshakes,
        hr.posts⟩
      rcases hw.session state hstate with ⟨n, k, hc⟩
      refine ⟨n, k, hc.length, hc.counter, hc.answered, hc.replay, fun r hget => ?_⟩
      exact absurd hget (by simp [Process.start, Dict.get?_empty])

end Calls

end Linked

/-- **Calls survive the loss of a session.** Whatever becomes of the session between the
    calls, each call comes to what the route makes of its payload. A call makes one
    handshake at most, and sends a second envelope only with one. -/
theorem calls_survive {V : Type} (aead : Aead) (loads : Bytes → Except Exc Json)
    (dumps : Json → Bytes) (schema : String → Bytes → Except String V) (ttl maxLife : ℤ)
    (w : Linked V) (hunknown : loads (dumps (errorDetail .unknownSession "")) =
      .ok (errorDetail .unknownSession ""))
    (hread : ∀ path payload message, schema path payload = .error message →
      loads (dumps (errorDetail .badRequest message)) = .ok (errorDetail .badRequest message))
    (hrun : Run (Linked.step aead loads dumps schema ttl maxLife) (Linked.Fair ttl maxLife) .start
      w) :
    w.Recovered loads schema := by
  have hinvariant : w.Healthy ∧ w.Recovered loads schema := by
    refine hrun.invariant (fun w => w.Healthy ∧ w.Recovered loads schema) ⟨⟨rfl,
      Process.sound_start, fun state hstate => absurd hstate (by simp [Linked.start])⟩,
        fun e he => absurd he List.not_mem_nil, le_refl 0, le_refl 0⟩ ?_
    intro w e u hw hfair hstep
    exact hw.1.step hfair hunknown hread hstep hw.2
  exact hinvariant.2

/-- A try with the sample session, to run the model on. The clock stands still. -/
def Try.sample : Try where
  meeting := ⟨.sample, ⟨SessionMaterial.sample.sessionId, SessionMaterial.sample.c2s,
    SessionMaterial.sample.s2c, 900, []⟩, rfl, rfl, rfl, rfl⟩
  made := fun _ => 0
  clock := fun _ => 0
  errorId := ""

/-- A call of the chat endpoint, to run the model on. -/
def Errand.sample : Errand Unit :=
  ⟨"POST", "/v1/chat", utf8 "1", fun _ => utf8 "2", .sample, .sample⟩

/-- The text of the answer to a session that is not known. -/
def unknownText : Bytes :=
  utf8 ("\x7b\"detail\":\x7b\"code\":\"unknown_session\",\"message\":\"\","
    ++ "\"error_id\":null,\"retry_after_seconds\":null\x7d\x7d")

/-- A check for fair steps, of calls and other operations that are fair otherwise. -/
def Linked.fair (w : Linked Unit) : LinkedEvent Unit → Bool
  | .call _ => w.session.all fun state => decide (state.c2sCounter + 1 < 2 ^ 64)
  | .other op _ => w.session.all fun state => decide (op.uses ≠ some state.outcome.sessionId)
  | .restart => true

/-- The same on a run: an admin ends the session after the first call, and the server
    starts over after the second. -/
theorem calls_survive_sample :
    ∃ w : Linked Unit, w.results.length = 3 ∧ w.handshakes = 3 ∧ w.posts = 5 ∧
      w.Recovered (fun content => if content = unknownText then
        .ok (errorDetail .unknownSession "") else .ok (.number 2)) (fun _ _ => .ok ()) := by
  have hplay : ((playIf Linked.fair (Linked.step .sample (fun content => if content = unknownText
      then .ok (errorDetail .unknownSession "") else .ok (.number 2)) (fun _ => unknownText)
        (fun _ _ => .ok ()) 900 3600) .start
      [.call .sample, .other (.terminate SessionMaterial.sample.sessionId) (fun _ => 0),
        .call .sample, .restart, .call .sample]).any fun w => decide (w.results.length = 3 ∧
          w.handshakes = 3 ∧ w.posts = 5)) = true := by
    decide +kernel
  rcases (Option.any_eq_true _ _).mp hplay with ⟨w, hw, hend⟩
  rcases of_decide_eq_true hend with ⟨hresults, hhandshakes, hposts⟩
  refine ⟨w, hresults, hhandshakes, hposts, ?_⟩
  refine calls_survive .sample _ (fun _ => unknownText) _ 900 3600 w (if_pos rfl)
    (fun _ _ _ h => absurd h (by simp)) (run_of_playIf_of _ _ ?_ hw)
  intro e he t u hfair
  have htry : Try.sample.InTime 900 3600 := ⟨monotone_const, by decide +kernel, by decide +kernel⟩
  have hcall : Linked.fair t (.call .sample) = true →
      Linked.Fair 900 3600 t (.call .sample) u := by
    refine fun h => ⟨by decide, htry, htry, fun state hstate => ?_⟩
    rw [Linked.fair, hstate, Option.all_some] at h
    exact of_decide_eq_true h
  simp only [List.mem_cons, List.not_mem_nil, or_false] at he
  rcases he with rfl | rfl | rfl | rfl | rfl
  · exact hcall hfair
  · refine ⟨monotone_const, fun state hstate => ?_⟩
    rw [Linked.fair, hstate, Option.all_some] at hfair
    exact of_decide_eq_true hfair
  · exact hcall hfair
  · trivial
  · exact hcall hfair

end SecureLlm
