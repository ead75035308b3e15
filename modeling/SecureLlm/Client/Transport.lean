import SecureLlm.Client.Handshake

/-!
# The Client's Transport

The transport holds what the client was configured with, and hands it to the
handshake. The request goes out in the clear; an answer with the status 200 is
parsed and checked, and any other is an error.

The HTTP client, its timeouts and the lock are left out.

## Main definitions

* `Transport`: What the transport is built with.
* `Transport.new`: Its constructor.
* `Transport.doHandshake`: One handshake.
-/

namespace SecureLlm

open Library

/-- The settings of a transport. -/
structure Transport where
  base : String
  identity : ClientIdentity
  pinned : Bytes
  attestationVerifier : Option AttestationVerifier
  pinnedMeasurement : Option String
  attestationRequired : Bool

/-- What the server answers a handshake with: a status and a body, which parses
    or does not. -/
structure Reply where
  statusCode : ℕ
  response : Except Exc HandshakeResponse

/-- A session as the client keeps it. -/
structure SessionState where
  outcome : HandshakeOutcome
  c2sCounter : ℤ
  lastReplayHigh : ℤ

/-- `text.rstrip("/")`. -/
def stripSlashes (text : String) : String :=
  String.ofList (text.toList.reverse.dropWhile (· = '/')).reverse

namespace Transport

/-- The constructor, with its defaults. -/
def new (baseUrl : String) (identity : ClientIdentity) (pinnedServerPk : Bytes)
    (attestationVerifier : Option AttestationVerifier := none)
    (pinnedMeasurement : Option String := none) (attestationRequired : Bool := false) :
    Transport where
  base := stripSlashes baseUrl
  identity := identity
  pinned := pinnedServerPk
  attestationVerifier := attestationVerifier
  pinnedMeasurement := pinnedMeasurement
  attestationRequired := attestationRequired

/-- One handshake: a fresh ephemeral key and a timestamp, the request, and the
    check of the answer. `netloc` is the host part of a URL. -/
def doHandshake (crypto : Primitives) (netloc : String → String) (transport : Transport)
    (ephSk : Bytes) (ts : ℤ) (post : HandshakeRequest → Reply) : Except Exc SessionState := do
  let serverHost := netloc transport.base
  let req := buildHandshakeRequest crypto transport.identity serverHost (crypto.publicKey ephSk)
    (some ts) 0
  let r := post req
  if r.statusCode ≠ 200 then
    .error (.handshakeFailed ("handshake failed: " ++ toString r.statusCode))
  else do
    let response ← r.response
    let outcome ← deriveSession crypto transport.identity ephSk serverHost ts response
      transport.pinned transport.attestationVerifier transport.pinnedMeasurement
      transport.attestationRequired
    return { outcome, c2sCounter := 0, lastReplayHigh := 0 }

end Transport

end SecureLlm
