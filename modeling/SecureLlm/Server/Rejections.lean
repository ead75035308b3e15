import SecureLlm.Server.Delivery

/-!
# What a Rejection Shows

The answer to a rejected request goes out in the clear, outside any envelope.
Here two requests are compared that differ in their plaintext only: what comes
back to a client, or to a relay on the way, is the same for both up to the point
where the plaintext is validated. A plaintext that does not validate is answered
with the text of the validation error, and that text goes out in the clear.

The task may be suspended on the way, so the comparison is for all surroundings
it may run in, the same for both requests.

## Main definitions

* `HttpResponse`: An answer in the clear.
* `rejection`: What the outcome of a task shows in the clear.
* `SessionManager.Finds`: A lookup finds a session.

## Theorems

* `decryptRequest_invalid`: The rejection of a plaintext that is not valid.
* `rejections_agree_iff`: When two rejections show the same.
-/

namespace SecureLlm

open Library

/-- `ErrorEnvelope`. -/
structure ErrorEnvelope where
  code : ErrorCode
  message : String := ""
  errorId : Option String := none
  retryAfterSeconds : Option ℚ := none
  deriving DecidableEq

/-- An answer in the clear: the status, and the detail that is the body. The
    headers are fixed, or follow from the body. -/
structure HttpResponse where
  statusCode : ℕ
  detail : ErrorEnvelope
  deriving DecidableEq

/-- What is answered in the clear: an HTTP exception is shown with its detail. -/
def rejection {α : Type} : Except Exc α → Option HttpResponse
  | .error (.httpException status code message) =>
    some { statusCode := status, detail := { code, message } }
  | _ => none

/-- The surroundings of a task of the server. -/
abbrev ServerSurroundings : Type := Coop.Surroundings Process RedisCall RedisReply ℚ

/-- The lookup of an id ends in a state with a session. -/
def SessionManager.Finds (manager : SessionManager) (w : ServerSurroundings) (n : ℕ) (p : Process)
    (sid : Bytes) (q : Process) (r : Ref) : Prop :=
  ∃ n', (manager.lookupAsync sid).play w n p = (n', q, .ok (some r))

variable {T : Type} (aead : Aead) (manager : SessionManager) (schema : Bytes → Except String T)
  (w : ServerSurroundings) (n : ℕ) (p : Process)

/-- Running a task that reads a session. -/
theorem play_read {α : Type} (r : Ref) (f : Session → Task α) :
    (Task.read r >>= f).play w n p = (f (p.heap r)).play w n p := rfl

theorem play_change {α : Type} (r : Ref) (g : Session → Session) (f : Unit → Task α) :
    (Task.change r g >>= f).play w n p = (f ()).play w n (p.change r g) := rfl

/-- What is answered to a request that opens, with a plaintext that is not
    valid: whatever the lookup ends with, the plaintext matters only where a
    session is found and its window takes the counter. -/
theorem decryptRequest_invalid (request : Request) (env : Envelope) (plaintext : Bytes)
    (text : String) (h : unpackEnvelope request.body = .ok env)
    (hopen : ∀ q r, manager.Finds w n p env.sessionId q r →
      openEnvelope aead (q.heap r).c2s (q.heap r).sessionId request.method request.path request.body
        = .ok (env, plaintext))
    (hschema : schema plaintext = .error text) :
    rejection ((decryptRequest aead request manager schema).play w n p).2.2 =
      match ((manager.lookupAsync env.sessionId).play w n p) with
      | (_, _, .error e) => rejection (.error e : Except Exc T)
      | (_, _, .ok none) => some ⟨401, { code := .unknownSession }⟩
      | (_, q, .ok (some r)) =>
        match (q.heap r).replay.checkAndAdvance env.counter with
        | .error _ => some ⟨400, { code := .replayDetected }⟩
        | .ok _ => some ⟨400, { code := .badRequest, message := text }⟩ := by
  rw [decryptRequest]
  simp only [if_neg (length_of_unpackEnvelope _ env h), h]
  refine (congrArg (fun x => rejection x.2.2) (Coop.play_bind w _ _ n p)).trans ?_
  rcases hplay : (manager.lookupAsync env.sessionId).play w n p with ⟨n', q, e | o⟩
  · cases e <;> rfl
  · cases o with
    | none => rfl
    | some r =>
        have hopened := hopen q r ⟨n', hplay⟩
        refine (congrArg (fun x => rejection x.2.2) (play_read w n' q r _)).trans ?_
        dsimp only
        cases (q.heap r).replay.checkAndAdvance env.counter with
        | error e => rfl
        | ok window =>
            refine (congrArg (fun x => rejection x.2.2) (play_change w n' q r _ _)).trans ?_
            rw [hopened]
            dsimp only
            rw [hschema]
            rfl

/-- **What a rejection shows of a plaintext.** Take two requests with the same
    session, counter, method and path that both open under the session's key,
    with plaintexts that are both not valid. What is answered to them in the
    clear is the same if and only if the two validation errors have the same
    text, unless no session is found or its window refuses the counter. -/
theorem rejections_agree_iff (first second : Request) (env env' : Envelope)
    (plaintext plaintext' : Bytes) (text text' : String)
    (hfirst : unpackEnvelope first.body = .ok env) (hsecond : unpackEnvelope second.body = .ok env')
    (hsid : env'.sessionId = env.sessionId) (hcounter : env'.counter = env.counter)
    (hmethod : second.method = first.method) (hpath : second.path = first.path)
    (hopen : ∀ q r, manager.Finds w n p env.sessionId q r →
      openEnvelope aead (q.heap r).c2s (q.heap r).sessionId first.method first.path first.body
        = .ok (env, plaintext) ∧
      openEnvelope aead (q.heap r).c2s (q.heap r).sessionId first.method first.path second.body
        = .ok (env', plaintext'))
    (hschema : schema plaintext = .error text) (hschema' : schema plaintext' = .error text') :
    rejection ((decryptRequest aead first manager schema).play w n p).2.2 =
        rejection ((decryptRequest aead second manager schema).play w n p).2.2 ↔
      text = text' ∨ ¬ ∃ q r window, manager.Finds w n p env.sessionId q r ∧
        (q.heap r).replay.checkAndAdvance env.counter = .ok window := by
  rw [decryptRequest_invalid aead manager schema w n p first env plaintext text hfirst
      (fun q r h => (hopen q r h).1) hschema,
    decryptRequest_invalid aead manager schema w n p second env' plaintext' text' hsecond
      (fun q r h => by
        rw [hsid] at h
        rw [hmethod, hpath]
        exact (hopen q r h).2) hschema', hsid, hcounter]
  rcases hplay : (manager.lookupAsync env.sessionId).play w n p with ⟨n', q, e | o⟩
  -- Without a session, or with a counter the window refuses, both answers are the same.
  · refine iff_of_true rfl (Or.inr ?_)
    rintro ⟨q', r, window, ⟨n'', h⟩, -⟩
    rw [hplay] at h
    exact absurd h nofun
  · cases o with
    | none =>
        refine iff_of_true rfl (Or.inr ?_)
        rintro ⟨q', r, window, ⟨n'', h⟩, -⟩
        rw [hplay] at h
        exact absurd h nofun
    | some r =>
        dsimp only
        cases hwindow : (q.heap r).replay.checkAndAdvance env.counter with
        | error e =>
            refine iff_of_true rfl (Or.inr ?_)
            rintro ⟨q', r', window, ⟨n'', h⟩, hok⟩
            simp only [hplay, Prod.mk.injEq, Except.ok.injEq, Option.some.injEq] at h
            rw [← h.2.1, ← h.2.2, hwindow] at hok
            exact absurd hok nofun
        | ok window =>
            -- Past the window the answers carry the texts of the schema.
            simp only [Option.some.injEq, HttpResponse.mk.injEq, ErrorEnvelope.mk.injEq,
              true_and, and_true]
            refine ⟨Or.inl, fun h => h.resolve_right (not_not.mpr ?_)⟩
            exact ⟨q, r, window, ⟨n', hplay⟩, hwindow⟩

-- Over the in-memory store and at one time, what is found is what is live.
theorem finds_inMemory (ttl maxLife : ℤ) (time : ℚ) (hclock : w.clock = fun _ => time) (sid : Bytes)
    (q : Process) (r : Ref)
    (h : SessionManager.Finds ⟨ttl, maxLife, InMemory.store⟩ w n p sid q r) :
    q = p ∧ p.live sid time = some r := by
  have hadvance := lookupAsync_advance ttl maxLife sid time p
  rcases Coop.play_of_advance w _ n p _ _ _ (by rw [hclock]; exact hadvance) with ⟨n', hplay⟩
  rcases h with ⟨n'', h⟩
  rw [hplay] at h
  simp only [Prod.mk.injEq, Except.ok.injEq] at h
  exact ⟨h.2.1.symm, h.2.2⟩

/-- A request under the first counter with a plaintext. -/
def Request.sealing (plaintext : Bytes) : Request :=
  match sealEnvelope .sample SessionMaterial.sample.c2s 1 SessionMaterial.sample.sessionId
    "POST" "/v1/chat" plaintext with
  | .ok body => ⟨"POST", "/v1/chat", body⟩
  | .error _ => ⟨"POST", "/v1/chat", []⟩

-- The sample session opens it.
theorem open_sealing (plaintext : Bytes)
    (h : sealEnvelope .sample SessionMaterial.sample.c2s 1 SessionMaterial.sample.sessionId
      "POST" "/v1/chat" plaintext = .ok (Request.sealing plaintext).body) :
    ∃ env, unpackEnvelope (Request.sealing plaintext).body = .ok env ∧
      env.sessionId = SessionMaterial.sample.sessionId ∧ env.counter = 1 ∧
      openEnvelope .sample (Process.withSample.heap 0).c2s (Process.withSample.heap 0).sessionId
        "POST" "/v1/chat" (Request.sealing plaintext).body = .ok (env, plaintext) := by
  rcases openEnvelope_sealEnvelope _ _ _ _ _ _ _ _ rfl h with ⟨env, hcounter, hopen⟩
  rcases (openEnvelope_eq_ok_iff _ _ _ _ _ _ _ _).mp hopen with ⟨hunpack, hsid, -⟩
  exact ⟨env, hunpack, hsid, hcounter, hopen⟩

/-- A model that no number validates against: the error shows the number. -/
def sampleSchema (plaintext : Bytes) : Except String Unit :=
  .error ("1 validation error for ChatRequest: Input should be an object [type=model_type, "
    ++ "input_value="
    ++ String.ofList ((plaintext.map fun b => Char.ofNat b.toNat).filter (· ≠ ' '))
    ++ ", input_type=int]")

/-- Surroundings in which no time passes. -/
def ServerSurroundings.still : ServerSurroundings :=
  ⟨fun _ => 0, fun _ p => p, fun _ c p => (p, (c.exec fun _ => none).2)⟩

/-- Two numbers of one digit, in requests with the same session and counter, are
    told apart by the answers in the clear. -/
theorem rejection_shows_plaintext :
    rejection ((decryptRequest .sample (.sealing (utf8 "4")) ⟨900, 3600, InMemory.store⟩
        sampleSchema).play ServerSurroundings.still 0 .withSample).2.2 ≠
      rejection ((decryptRequest .sample (.sealing (utf8 "7")) ⟨900, 3600, InMemory.store⟩
        sampleSchema).play ServerSurroundings.still 0 .withSample).2.2 := by
  decide +kernel

/-- Numbers that only differ in the blanks around them are not. -/
theorem rejections_agree_sample :
    rejection ((decryptRequest .sample (.sealing (utf8 " 4")) ⟨900, 3600, InMemory.store⟩
        sampleSchema).play ServerSurroundings.still 0 .withSample).2.2 =
      rejection ((decryptRequest .sample (.sealing (utf8 "4 ")) ⟨900, 3600, InMemory.store⟩
        sampleSchema).play ServerSurroundings.still 0 .withSample).2.2 := by
  rcases open_sealing (utf8 " 4") (by decide +kernel) with ⟨env, henv, hsid, hcounter, hopen⟩
  rcases open_sealing (utf8 "4 ") (by decide +kernel) with ⟨env', henv', hsid', hcounter', hopen'⟩
  refine (rejections_agree_iff .sample ⟨900, 3600, InMemory.store⟩ sampleSchema
    ServerSurroundings.still 0 .withSample _ _ env env' (utf8 " 4") (utf8 "4 ") _ _ henv henv'
    (hsid'.trans hsid.symm) (hcounter'.trans hcounter.symm) (by decide +kernel) (by decide +kernel)
    (fun q r h => ?_) rfl rfl).mpr (Or.inl (by decide +kernel))
  rcases finds_inMemory _ 0 .withSample 900 3600 0 rfl _ q r h with ⟨rfl, hlive⟩
  have htable := ((Process.live_eq_some_iff _ _ _ _).mp hlive).1
  rw [hsid] at htable
  have hr : r = 0 := Option.some.inj htable.symm
  have hrequest : (Request.sealing (utf8 " 4")).method = "POST" ∧
      (Request.sealing (utf8 " 4")).path = "/v1/chat" := by decide +kernel
  rw [hr, hrequest.1, hrequest.2]
  exact ⟨hopen, hopen'⟩

end SecureLlm
