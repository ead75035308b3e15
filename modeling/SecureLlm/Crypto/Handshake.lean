import Mathlib.Algebra.Order.Group.Int
import Mathlib.Algebra.Order.Ring.Unbundled.Rat
import SecureLlm.Crypto.Envelope
import SecureLlm.Crypto.Kdf
import SecureLlm.Library.Dict
import SecureLlm.Protocol.Schemas

/-!
# The Server's Half of the Handshake

The validation of a client's handshake and the derivation of session material.
The checks run in a fixed order and each has its own code, so which code a
request is refused with is settled by the first check it fails. The host is a text as it comes
from the body, which need not have an encoding; it is encoded for the transcript
between the last of the checks and the signature.

Randomness, the clock and the attestation backend are arguments: the secret of
the server's ephemeral key pair, the session id, the time used where the caller
gives none, and the backend's answer.

## Main definitions

* `AuthorizedClient`, `ServerIdentity`: What the keystore holds.
* `SessionMaterial`: What a handshake derives.
* `transcript`, `serverTranscript`: The signed byte strings.
* `HandshakeRequest.host`: The host of a request.
* `deriveDirections`: Slicing the keystream.
* `validateRequest`: The checks, in the order they run.
* `establishSession`: The derivation and the answer.
* `performHandshake`: The server's half.
-/

namespace SecureLlm

open Library

/-- An entry of the allowlist. -/
structure AuthorizedClient where
  name : String
  x25519Pk : Bytes
  ed25519Pk : Bytes
  scopes : List String := []
  revoked : Bool := false
  notBefore : Option ℤ := none
  notAfter : Option ℤ := none
  tenant : String := "default"
  deriving DecidableEq, Repr

structure ServerIdentity where
  x25519Sk : Bytes
  x25519Pk : Bytes
  ed25519Sk : Bytes
  ed25519Pk : Bytes
  deriving DecidableEq, Repr

/-- What a handshake derives, and what a session is created from. -/
structure SessionMaterial where
  sessionId : Bytes
  c2s : DirectionKeys
  s2c : DirectionKeys
  ttlSeconds : ℤ
  clientFingerprint : String
  scopes : List String
  tenant : String := "default"
  deriving DecidableEq

/-- The keys of an allowlist entry's fingerprint. -/
def AuthorizedClient.fingerprint (crypto : Primitives) (entry : AuthorizedClient) : String :=
  SecureLlm.fingerprint crypto entry.x25519Pk

/-- The byte string the client signs. -/
def transcript (label clientStaticPk clientEphPk serverHost : Bytes) (timestamp : ℤ) : Bytes :=
  joinBytes 0 [label, utf8 "client_static", clientStaticPk, utf8 "client_eph", clientEphPk,
    utf8 "host", serverHost, utf8 "ts", utf8 (toString timestamp)]

/-- The byte string the server signs and derives the keys from. -/
def serverTranscript (base serverEphPk serverStaticPk sessionId : Bytes) : Bytes :=
  joinBytes 0 [base, utf8 "server_eph", serverEphPk, utf8 "server_static", serverStaticPk,
    utf8 "session", sessionId]

/-- `keystream[start:stop]`. -/
def cut (keystream : Bytes) (start stop : ℕ) : Bytes := slice keystream start (stop - start)

/-- The two directions of a keystream: both keys, then both nonce prefixes. -/
def deriveDirections (keystream : Bytes) : Except Exc (DirectionKeys × DirectionKeys) := do
  let c2s ← DirectionKeys.ofBytes (cut keystream 0 32) (cut keystream 64 68)
  let s2c ← DirectionKeys.ofBytes (cut keystream 32 64) (cut keystream 68 72)
  return (c2s, s2c)

def sessionKeysInfo : Bytes := utf8 "secure-llm session keys v1"

/-- `int(x)`: truncation towards zero. -/
def truncate (x : ℚ) : ℤ := if 0 ≤ x then x.floor else x.ceil

/-- A handshake request that has passed every check: its decoded keys, the
    allowlist entry, and the transcript its signature was verified over. -/
structure Validated where
  clientStaticPk : Bytes
  clientEphPk : Bytes
  entry : AuthorizedClient
  transcript : Bytes

/-- `(req.server_host or expected_host or "").strip()`. An empty text counts as absent. -/
def HandshakeRequest.host (req : HandshakeRequest) (expectedHost : Option Text) : Text :=
  let host := match req.serverHost with
    | some t => if t.points.isEmpty then expectedHost else some t
    | none => expectedHost
  (host.getD "").strip isSpace

/-- The decoded fields of a request. Any of the three decodings may fail. -/
def decodeFields (req : HandshakeRequest) : Except Exc (Bytes × Bytes × Bytes) := do
  let clientStaticPk ← b64dText req.clientStaticPk
  let clientEphPk ← b64dText req.clientEphemeralPk
  let sig ← b64dText req.transcriptSig
  return (clientStaticPk, clientEphPk, sig)

variable (crypto : Primitives)

/-- The checks of a request, in the order they run. -/
def validateRequest (req : HandshakeRequest) (allowlist : Dict Bytes AuthorizedClient)
    (skewSeconds : ℤ) (expectedHost : Option Text) (now : ℤ) : Except Exc Validated :=
  if req.protocol ≠ lastSegment protocolLabel ∧ req.protocol ≠ protocolLabel then
    .error (.handshakeError .handshakeVersionMismatch "")
  -- Refused before anything is decoded.
  else if skewSeconds < |now - req.timestamp| then .error (.handshakeError .clockSkew "")
  else
    match decodeFields req with
    | .error _ => .error (.handshakeError .badRequest "invalid base64")
    | .ok (clientStaticPk, clientEphPk, sig) =>
      if clientStaticPk.length ≠ 32 ∨ clientEphPk.length ≠ 32 then
        .error (.handshakeError .badRequest "bad pk length")
      else
        match allowlist.get? clientStaticPk with
        | none => .error (.handshakeError .unknownClient "")
        | some entry =>
          if entry.revoked then .error (.handshakeError .clientRevoked "")
          else if ∃ t ∈ entry.notBefore, now < t then
            .error (.handshakeError .clientNotYetValid "")
          else if ∃ t ∈ entry.notAfter, t < now then
            .error (.handshakeError .clientExpired "")
          else
            match (req.host expectedHost).encode with
            -- Outside of any `try`, and before the signature is looked at.
            | none => .error (.unicodeEncodeError "utf-8")
            | some host =>
              let transcript := transcript (utf8 protocolLabel) clientStaticPk clientEphPk host
                req.timestamp
              if crypto.verify entry.ed25519Pk transcript sig then
                .ok { clientStaticPk, clientEphPk, entry, transcript }
              else .error (.handshakeError .badSignature "")

/-- `crypto_scalarmult`, which raises where the primitive gives nothing. -/
def scalarmult (sk pk : Bytes) : Except Exc Bytes :=
  match crypto.scalarmult sk pk with
  | some shared => .ok shared
  | none => .error (.cryptoError "scalarmult")

/-- What an attestation backend makes of a digest. Its own exceptions are told
    apart by their text only; no backend is the one that reports nothing. -/
def generateReport (attestation : Option (Bytes → Except String (Option Bytes)))
    (digest : Bytes) : Except Exc (Option Bytes) :=
  match attestation with
  | none => .ok none
  | some generate =>
    match generate digest with
    | .ok blob => .ok blob
    | .error message => .error (.attestationError message)

/-- The rest of the handshake once the checks have passed: two shared secrets,
    the keys derived from them and the whole transcript, and the signature. -/
def establishSession (valid : Validated) (serverIdentity : ServerIdentity) (ttlSeconds : ℤ)
    (attestation : Option (Bytes → Except String (Option Bytes)))
    (serverEphSk sessionId : Bytes) : Except Exc (HandshakeResponse × SessionMaterial) := do
  let serverEphPk := crypto.publicKey serverEphSk
  -- The ephemeral share first, then the static one.
  let dh1 ← scalarmult crypto serverEphSk valid.clientEphPk
  let dh2 ← scalarmult crypto serverIdentity.x25519Sk valid.clientStaticPk
  let ikm := dh1 ++ dh2
  let fullTranscript :=
    serverTranscript valid.transcript serverEphPk serverIdentity.x25519Pk sessionId
  let keystream ← hkdf crypto ikm fullTranscript sessionKeysInfo (32 + 32 + 4 + 4)
  let (c2s, s2c) ← deriveDirections keystream
  -- The report is no part of what is signed.
  let sigOut := crypto.sign serverIdentity.ed25519Sk fullTranscript
  let blob ← generateReport attestation (crypto.sha256 fullTranscript)
  let response : HandshakeResponse := {
    sessionId := b64e sessionId
    serverStaticPk := b64e serverIdentity.x25519Pk
    serverEd25519Pk := b64e serverIdentity.ed25519Pk
    serverEphemeralPk := b64e serverEphPk
    ttlSeconds := ttlSeconds
    serverSig := b64e sigOut
    noncePrefixC2s := hex c2s.noncePrefix
    noncePrefixS2c := hex s2c.noncePrefix
    attestationReport := blob.map b64e }
  let material : SessionMaterial := {
    sessionId := sessionId
    c2s := c2s
    s2c := s2c
    ttlSeconds := ttlSeconds
    clientFingerprint := valid.entry.fingerprint crypto
    scopes := valid.entry.scopes
    tenant := valid.entry.tenant }
  return (response, material)

/-- The server's half of the handshake: check the request, then derive the keys
    and sign the whole transcript. -/
def performHandshake (req : HandshakeRequest) (serverIdentity : ServerIdentity)
    (allowlist : Dict Bytes AuthorizedClient) (skewSeconds ttlSeconds : ℤ)
    (expectedHost : Option Text) (now : Option ℤ)
    (attestation : Option (Bytes → Except String (Option Bytes)))
    (time : ℚ) (serverEphSk sessionId : Bytes) :
    Except Exc (HandshakeResponse × SessionMaterial) := do
  let now := now.getD (truncate time)
  let valid ← validateRequest crypto req allowlist skewSeconds expectedHost now
  establishSession crypto valid serverIdentity ttlSeconds attestation serverEphSk sessionId

end SecureLlm
