import SecureLlm.Session.Manager

/-!
# Decrypting Requests and Sealing Responses

What every encrypted router does with a body: parse it, find its session, check
its counter, open it, validate it, and write the session back. And what every
handler does with an answer: bump the session's counter and seal under it.

The check of the counter comes before the body is authenticated. The counter
that the window records is the one in the header of whatever body was
delivered.

The latency floor, the metrics and the log are left out: none of them touches
a session.

## Main definitions

* `Request`: What of a request the code reads.
* `decryptRequest`: From a body to a session and a value.
* `sealFor`: Bump and seal, as both sealing sites do.
* `encryptResponse`, `sealChunk`: The two sealing sites.
-/

namespace SecureLlm

open Library

/-- The parts of an HTTP request the decryption reads. -/
structure Request where
  method : String
  path : String
  body : Bytes
  deriving DecidableEq

/-- A request its client sealed under a counter, to run the model on. -/
def Request.sample (counter : ℕ) : Request :=
  match sealEnvelope .sample SessionMaterial.sample.c2s counter SessionMaterial.sample.sessionId
    "POST" "/v1/chat" [] with
  | .ok body => ⟨"POST", "/v1/chat", body⟩
  | .error _ => ⟨"POST", "/v1/chat", []⟩

/-- `_err(code, http=status)`. -/
def httpError (code : ErrorCode) (status : ℕ) (message : String) : Exc :=
  .httpException status code message

/-- The session of a request and its validated payload. -/
def decryptRequest {T : Type} (aead : Aead) (request : Request) (manager : SessionManager)
    (schema : Bytes → Except String T) : Task (Ref × T) := do
  let raw := request.body
  -- The least length of an envelope.
  if raw.length < 41 then .fail (httpError .badEnvelope 400 "")
  else
    match unpackEnvelope raw with
    | .error _ => .fail (httpError .badEnvelope 400 "")
    | .ok env =>
      match ← manager.lookupAsync env.sessionId with
      | none => .fail (httpError .unknownSession 401 "")
      | some sess =>
        let session ← Task.read sess
        match session.replay.checkAndAdvance env.counter with
        | .error _ => .fail (httpError .replayDetected 400 "")
        | .ok window =>
          -- The window has moved on before anything is decrypted.
          Task.change sess (fun s => s.advance window)
          match openEnvelope aead session.c2s session.sessionId request.method request.path raw with
          | .error (.envelopeAuthError _) => .fail (httpError .decryptFailed 400 "")
          | .error e => .fail e
          | .ok (_, plaintext) =>
            match schema plaintext with
            | .error message => .fail (httpError .badRequest 400 message)
            | .ok parsed =>
              -- `touch`, and the object is written back as it is by then.
              let now ← Coop.time
              Task.change sess (fun s => s.touch now)
              manager.persist sess
              return (sess, parsed)

/-- Bump the session's counter and seal under it, and note what was sealed. -/
def sealFor (aead : Aead) (sess : Ref) (body : Bytes) (method path : String)
    (direction : Option DirectionKeys) : Task Bytes := do
  Task.change sess Session.bump
  let session ← Task.read sess
  let keys := direction.getD session.s2c
  let envelope ← Task.ofExcept (sealEnvelope aead keys session.s2cCounter session.sessionId method
    path body)
  Coop.modify (Process.note sess (.sealed keys))
  return envelope

/-- Seal a payload for the session's server-to-client direction, or for the
    direction given instead of it. -/
def encryptResponse (aead : Aead) (sess : Ref) (body : Bytes) (method path : String)
    (direction : Option DirectionKeys) : Task Bytes :=
  sealFor aead sess body method path direction

/-- Seal one chunk of a stream and frame it as a server-sent event. -/
def sealChunk (aead : Aead) (sess : Ref) (body : Bytes) (method path : String) : Task Bytes := do
  let envelope ← sealFor aead sess body method path none
  return utf8 "data: " ++ utf8 (b64encode envelope) ++ utf8 "\n\n"

end SecureLlm
