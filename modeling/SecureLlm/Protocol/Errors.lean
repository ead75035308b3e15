/-!
# Error Codes and Exceptions

The stable error codes of the protocol and the exceptions the modelled code
raises. A client matches on a code's text, and an exception raised without a
message of its own carries its code's text instead, so the texts are part of
the behaviour.

Each exception class is one constructor with the arguments it is raised with.
A caller that catches `Exception` catches all of them, and one that catches a
class catches that constructor only.

## Main definitions

* `ErrorCode`: The canonical error codes.
* `ErrorCode.value`: The text a code stands for on the wire.
* `Exc`: The exceptions.
* `Exc.message`: What `str(e)` gives.
-/

namespace SecureLlm

/-- Canonical error codes. -/
inductive ErrorCode where
  | unknownClient | clientRevoked | clientNotYetValid | clientExpired | badSignature
  | clockSkew | serverKeyMismatch | handshakeVersionMismatch
  | unknownSession | sessionExpired | badEnvelope | decryptFailed | replayDetected
  | bodyTooLarge
  | adminRequired | scopeDenied
  | modelNotFound | modelBusy | queueFull | loadFailed | downloadFailed | sha256Mismatch
  | repoNotAllowed | diskQuotaExceeded
  | rateLimited | badRequest | internalError | notReady | cancelled
  deriving DecidableEq, Repr

/-- The text of a code. -/
def ErrorCode.value : ErrorCode → String
  | .unknownClient => "unknown_client"
  | .clientRevoked => "client_revoked"
  | .clientNotYetValid => "client_not_yet_valid"
  | .clientExpired => "client_expired"
  | .badSignature => "bad_signature"
  | .clockSkew => "clock_skew"
  | .serverKeyMismatch => "server_key_mismatch"
  | .handshakeVersionMismatch => "handshake_version_mismatch"
  | .unknownSession => "unknown_session"
  | .sessionExpired => "session_expired"
  | .badEnvelope => "bad_envelope"
  | .decryptFailed => "decrypt_failed"
  | .replayDetected => "replay_detected"
  | .bodyTooLarge => "body_too_large"
  | .adminRequired => "admin_required"
  | .scopeDenied => "scope_denied"
  | .modelNotFound => "model_not_found"
  | .modelBusy => "model_busy"
  | .queueFull => "queue_full"
  | .loadFailed => "load_failed"
  | .downloadFailed => "download_failed"
  | .sha256Mismatch => "sha256_mismatch"
  | .repoNotAllowed => "repo_not_allowed"
  | .diskQuotaExceeded => "disk_quota_exceeded"
  | .rateLimited => "rate_limited"
  | .badRequest => "bad_request"
  | .internalError => "internal_error"
  | .notReady => "not_ready"
  | .cancelled => "cancelled"

/-- Clients match on the text of a code, so no two codes may share one. -/
theorem ErrorCode.value_inj (a b : ErrorCode) (h : a.value = b.value) : a = b := by
  revert h
  cases a <;> cases b <;> decide

/-- The exceptions, by class. -/
inductive Exc where
  | envelopeError (message : String)
  | envelopeAuthError (message : String)
  | replayDetected (message : String)
  | valueError (message : String)
  | overflowError (message : String)
  | unicodeEncodeError (codec : String)
  | binasciiError
  | cryptoError (message : String)
  | attestationError (message : String)
  | keyError
  | handshakeError (code : ErrorCode) (message : String)
  | handshakeFailed (message : String)
  | serverKeyMismatch (message : String)
  | httpException (status : Nat) (code : ErrorCode) (message : String)
  deriving DecidableEq, Repr

/-- The text of an exception. A handshake error without a message shows its
    code. -/
def Exc.message : Exc → String
  | .envelopeError m => m
  | .envelopeAuthError m => m
  | .replayDetected m => m
  | .valueError m => m
  | .overflowError m => m
  | .unicodeEncodeError codec => "'" ++ codec ++ "' codec can't encode character"
  | .binasciiError => "Invalid base64-encoded string"
  | .cryptoError m => m
  | .attestationError m => m
  | .keyError => ""
  | .handshakeError code m => if m = "" then code.value else m
  | .handshakeFailed m => m
  | .serverKeyMismatch m => m
  | .httpException _ _ m => m

end SecureLlm
