import SecureLlm.Client.Envelope
import SecureLlm.Client.Replay
import SecureLlm.Client.Transport

/-!
# Reading Answers

What the client makes of an answer, and of a line of a stream. Up to the replay
check neither depends on any state: an answer is an error, or nothing, or an
envelope that opens. What an envelope holds is parsed after the check, and a
parsed answer may still be an error of the application.

A plaintext error is believed. It is how a server answers that has no key for the
session, so it cannot be sealed.

`loads` is the JSON parser of the standard library.

## Main definitions

* `Response`: An answer as HTTP has it.
* `tryExtractErrorCode`: The code in an answer that may be an error.
* `openResponse`, `interpret`, `decodeResponse`: Before the replay check, after it,
  and both.
* `readLine`: A line of a stream, before the check.
-/

namespace SecureLlm

open Library

/-- The codes. -/
def ErrorCode.all : List ErrorCode :=
  [.unknownClient, .clientRevoked, .clientNotYetValid, .clientExpired, .badSignature, .clockSkew,
    .serverKeyMismatch, .handshakeVersionMismatch, .unknownSession, .sessionExpired, .badEnvelope,
    .decryptFailed, .replayDetected, .bodyTooLarge, .adminRequired, .scopeDenied, .modelNotFound,
    .modelBusy, .queueFull, .loadFailed, .downloadFailed, .sha256Mismatch, .repoNotAllowed,
    .diskQuotaExceeded, .rateLimited, .badRequest, .internalError, .notReady, .cancelled]

/-- `ErrorCode(value)`. -/
def ErrorCode.ofJson : Json → Option ErrorCode
  | .string text => ErrorCode.all.find? fun code => code.value = text
  | _ => none

/-- The text of a code is read back. -/
theorem ErrorCode.ofJson_value (code : ErrorCode) :
    ErrorCode.ofJson (.string code.value) = some code := by
  cases code <;> decide

namespace Client

/-- An HTTP response: the status, the content type and the content. -/
structure Response where
  statusCode : ℕ
  contentType : String
  content : Bytes

/-- `text.startswith(start)`. -/
def startsWith (text start : String) : Bool := start.toList.isPrefixOf text.toList

variable (aead : Aead) (loads : Bytes → Except Exc Json)

/-- The code in an answer that may be an error, at the top or under `detail`. -/
def tryExtractErrorCode (r : Response) : Option ErrorCode :=
  match loads r.content with
  | .ok (.object data) =>
    let detail := match Json.field data "detail" with
      | some (.object detail) => (Json.field detail "code").filter Json.truthy
      | _ => none
    (((Json.field data "code").filter Json.truthy).or detail).bind ErrorCode.ofJson
  | _ => none

/-- What an error in plain JSON raises. -/
def plainError (content : Bytes) : Raised :=
  match loads content with
  | .error e => .exc e
  | .ok (.object data) =>
    match (Json.field data "detail").getD (.object data) with
    -- The error itself, or what is under `detail`.
    | .object err =>
      let value := (Json.field err "code").getD (.string ErrorCode.internalError.value)
      match ErrorCode.ofJson value with
      | none => .exc (.valueError "not a valid ErrorCode")
      | some code => .error (fromErrorEnvelope code
          ((Json.field err "message").getD (.string "")) ((Json.field err "error_id").getD .null)
          ((Json.field err "retry_after_seconds").getD .null))
    | _ => .attributeError
  | .ok _ => .attributeError

/-- What an answer is before the replay check: done with, or an envelope that
    opens. -/
inductive Opening where
  | finished (result : Except Raised Json)
  | sealed (counter : ℕ) (plaintext : Bytes)

/-- `_decode_response` up to the check. -/
def openResponse (r : Response) (outcome : HandshakeOutcome) (method path : String) : Opening :=
  if r.statusCode = 204 then .finished (.ok (.object []))
  else if startsWith r.contentType "application/json" then
    .finished (.error (plainError loads r.content))
  else if ¬ startsWith r.contentType "application/octet-stream" then
    .finished (.error (.error (SecureLLMError.new .secureLLMError
      (.string ("unexpected content-type: " ++ r.contentType)) none .null)))
  else
    match Client.openEnvelope aead outcome.s2c outcome.sessionId method.toUpper path r.content with
    | .error (.envelopeAuthError e) =>
      .finished (.error (raiseError ("response decrypt failed: " ++ e) .decryptFailed))
    | .error e => .finished (.error (.exc e))
    | .ok (env, plaintext) => .sealed env.counter plaintext

/-- `json.loads(plaintext) if plaintext else {}`. -/
def parsePayload (plaintext : Bytes) : Except Raised Json :=
  if plaintext.isEmpty then .ok (.object [])
  else match loads plaintext with
    -- What is no JSON raises as `json.loads` does.
    | .error e => .error (.exc e)
    | .ok value => .ok value

/-- An object with a code and a message and little else. -/
def looksLikeError : Json → Bool
  | .object fields => (Json.field fields "code").isSome && (Json.field fields "message").isSome &&
      decide (fields.length ≤ 4)
  | _ => false

/-- `_decode_response` after the check. -/
def interpret (statusCode : ℕ) (plaintext : Bytes) : Except Raised Json := do
  let data ← parsePayload loads plaintext
  if 400 ≤ statusCode ∨ looksLikeError data = true then
    match data with
    | .object fields =>
      match (Json.field fields "code").filter Json.truthy with
      | none => .ok data
      | some value =>
        let message := (Json.field fields "message").getD (.string "")
        match ErrorCode.ofJson value with
        | none => .error (.exc (.valueError "not a valid ErrorCode"))
        | some .sessionExpired =>
          .error (.error (SecureLLMError.new .sessionExpired message none .null))
        | some code => .error (.error (fromErrorEnvelope code message
            ((Json.field fields "error_id").getD .null)
            ((Json.field fields "retry_after_seconds").getD .null)))
    | _ => .error .attributeError
  else .ok data

/-- `_decode_response`, with the state of the replay check it leaves. -/
def decodeResponse (r : Response) (outcome : HandshakeOutcome) (method path : String)
    (replay : ReplayClient) : Except Raised Json × ReplayClient :=
  match openResponse aead loads r outcome method path with
  | .finished result => (result, replay)
  | .sealed counter plaintext =>
    match replay.check counter with
    | .error e => (.error e, replay)
    | .ok replay => (interpret loads r.statusCode plaintext, replay)

/-- What a line of a stream is before the replay check. -/
inductive Line where
  | skipped
  | done
  | failed (e : Raised)
  | sealed (counter : ℕ) (plaintext : Bytes)

/-- A line of a stream. -/
def readLine (outcome : HandshakeOutcome) (method path : String) (line : String) : Line :=
  if line = "" then .skipped
  else if startsWith line ":" then .skipped
  else if ¬ startsWith line "data:" then .skipped
  else
    let data := strip (String.ofList (line.toList.drop 5))
    if data = "[DONE]" then .done
    else
      match b64decode true data with
      | none => .failed (raiseError ("bad SSE base64: " ++ Exc.binasciiError.message) .badEnvelope)
      | some raw =>
        match Client.openEnvelope aead outcome.s2c outcome.sessionId method.toUpper path raw with
        | .error e => .failed (.exc e)
        | .ok (env, plaintext) => .sealed env.counter plaintext

/-- What opens is an answer that is neither empty nor an error in plaintext. -/
theorem openResponse_eq_sealed_iff (r : Response) (outcome : HandshakeOutcome)
    (method path : String) (counter : ℕ) (plaintext : Bytes) :
    openResponse aead loads r outcome method path = .sealed counter plaintext ↔
      r.statusCode ≠ 204 ∧ ¬ startsWith r.contentType "application/json" ∧
        startsWith r.contentType "application/octet-stream" ∧
        ∃ env, env.counter = counter ∧ SecureLlm.openEnvelope aead outcome.s2c outcome.sessionId
          method.toUpper path r.content = .ok (env, plaintext) := by
  unfold openResponse
  rw [Client.openEnvelope_eq]
  by_cases hstatus : r.statusCode = 204
  · rw [if_pos hstatus]
    exact iff_of_false nofun fun h => h.1 hstatus
  rw [if_neg hstatus]
  by_cases hjson : startsWith r.contentType "application/json" = true
  · rw [if_pos hjson]
    exact iff_of_false nofun fun h => h.2.1 hjson
  rw [if_neg hjson]
  by_cases hoctets : startsWith r.contentType "application/octet-stream" = true
  · rw [if_neg (not_not.mpr hoctets)]
    cases hopen : SecureLlm.openEnvelope aead outcome.s2c outcome.sessionId method.toUpper path
        r.content with
    | error e =>
        refine iff_of_false (fun h => ?_) fun h => ?_
        · cases e <;> exact absurd h nofun
        · rcases h.2.2.2 with ⟨env, -, henv⟩
          exact absurd henv nofun
    | ok opened =>
        rcases opened with ⟨env, text⟩
        constructor
        · intro h
          rcases Opening.sealed.inj h with ⟨hcounter, htext⟩
          exact ⟨hstatus, hjson, hoctets, env, hcounter, by rw [htext]⟩
        · rintro ⟨-, -, -, env', hcounter, henv⟩
          rcases Prod.mk.inj (Except.ok.inj henv) with ⟨rfl, rfl⟩
          rw [← hcounter]
  · rw [if_pos hoctets]
    exact iff_of_false nofun fun h => hoctets h.2.2.1

/-- An answer that is done with before it is opened holds no value but an empty
    one. -/
theorem statusCode_of_finished {aead : Aead} {loads : Bytes → Except Exc Json} {r : Response}
    {outcome : HandshakeOutcome} {method path : String} {value : Json}
    (h : openResponse aead loads r outcome method path = .finished (.ok value)) :
    r.statusCode = 204 := by
  unfold openResponse at h
  split at h
  · assumption
  · split at h
    · exact absurd (Opening.finished.inj h) nofun
    · split at h
      · exact absurd (Opening.finished.inj h) nofun
      · split at h
        · exact absurd (Opening.finished.inj h) nofun
        · exact absurd (Opening.finished.inj h) nofun
        · exact absurd h nofun

end Client

end SecureLlm
