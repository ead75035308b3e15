import SecureLlm.Crypto.Handshake

/-!
# The Client's Half of the Handshake

The client builds the signed request and, from the server's answer, derives
the session keys again. It has its own copies of the transcripts, of the key
derivation and of the cuts into the keystream, each of which is shown to be the
server's. The key derivation differs from the server's in one place: it has
no guard on the length, so a length past the maximum runs out of block counters
instead (`Client.hkdf_eq` covers the lengths where the two agree).

## Main definitions

* `ClientIdentity`, `HandshakeOutcome`: What the client holds.
* `Client.hkdf`: The client's key derivation.
* `Client.transcript`: The byte string the client signs.
* `Client.deriveDirections`: Slicing the keystream.
* `buildHandshakeRequest`: The request.
* `deriveSession`: Checking the answer and deriving the keys.

## Theorems

* `Client.hkdf_eq`: Where the two key derivations agree.
* `Client.transcript_eq`, `Client.deriveDirections_eq`: The other copies.
-/

namespace SecureLlm

open Library

structure ClientIdentity where
  x25519Sk : Bytes
  x25519Pk : Bytes
  ed25519Sk : Bytes
  ed25519Pk : Bytes
  deriving DecidableEq, Repr

/-- A client, to run the model on. -/
def ClientIdentity.sample : ClientIdentity := ⟨[1], pad32 [1], [2], [2]⟩

/-- What the client keeps of a handshake. -/
structure HandshakeOutcome where
  sessionId : Bytes
  c2s : DirectionKeys
  s2c : DirectionKeys
  ttlSeconds : ℤ
  serverStaticPk : Bytes
  deriving DecidableEq

/-- A verifier of attestation reports: the report, the digest it must commit to
    and the pinned measurement. -/
abbrev AttestationVerifier : Type :=
  (blob expectedUserdata : Bytes) → (expectedMeasurement : Option String) → Except String Unit

variable (crypto : Primitives)

namespace Client

/-- `_HLEN`. -/
def hLen : ℕ := 32

/-- The loop of the client's derivation, counting down the values
    `bytes([counter])` has room for: the counter is `255 - left`. -/
def hkdfLoop (prk info : Bytes) (length : ℕ) : ℕ → List Bytes → Bytes → Except Exc (List Bytes)
  | 0, blocks, _ =>
    if (blocks.map List.length).sum < length then
      .error (.valueError "bytes must be in range(0, 256)")
    else .ok blocks
  | left + 1, blocks, prev =>
    if (blocks.map List.length).sum < length then
      let prev := crypto.hmacSha256 prk (prev ++ info ++ [UInt8.ofNat (255 - left)])
      hkdfLoop prk info length left (blocks ++ [prev]) prev
    else .ok blocks

/-- HKDF as the client has it, extraction and expansion in one. -/
def hkdf (ikm salt info : Bytes) (length : ℕ) : Except Exc Bytes := do
  let salt := if salt.isEmpty then List.replicate hLen 0 else salt
  let prk := crypto.hmacSha256 salt ikm
  let blocks ← Client.hkdfLoop crypto prk info length 255 [] []
  return blocks.flatten.take length

/-- The two loops make the same blocks. -/
theorem hkdfLoop_eq (prk info : Bytes) (length left : ℕ) (blocks : List Bytes) (prev : Bytes) :
    Client.hkdfLoop crypto prk info length left blocks prev =
      SecureLlm.hkdfLoop crypto prk info length left blocks prev := by
  induction left generalizing blocks prev with
  | zero => rfl
  | succ left ih =>
      rw [Client.hkdfLoop, SecureLlm.hkdfLoop]
      dsimp only
      rw [ih]

/-- Up to the length the server's guard allows, the two derivations agree. -/
theorem hkdf_eq (ikm salt info : Bytes) (length : ℕ) (h : length ≤ 255 * hkdfHashLen) :
    Client.hkdf crypto ikm salt info length = SecureLlm.hkdf crypto ikm salt info length := by
  rw [SecureLlm.hkdf, hkdfExpand, if_neg (not_lt.mpr h), Client.hkdf, hkdfLoop_eq]
  rfl

/-- The byte string the client signs. -/
def transcript (clientStaticPk clientEphPk serverHost : Bytes) (timestamp : ℤ) : Bytes :=
  joinBytes 0 [utf8 protocolLabel, utf8 "client_static", clientStaticPk, utf8 "client_eph",
    clientEphPk, utf8 "host", serverHost, utf8 "ts", utf8 (toString timestamp)]

/-- It is the server's, under the protocol's label. -/
theorem transcript_eq (clientStaticPk clientEphPk serverHost : Bytes) (timestamp : ℤ) :
    Client.transcript clientStaticPk clientEphPk serverHost timestamp =
      SecureLlm.transcript (utf8 protocolLabel) clientStaticPk clientEphPk serverHost
        timestamp := by
  rw [Client.transcript, SecureLlm.transcript]

/-- The two directions of a keystream, as the client cuts them. -/
def deriveDirections (keystream : Bytes) : Except Exc (DirectionKeys × DirectionKeys) := do
  let c2s ← DirectionKeys.ofBytes (cut keystream 0 32) (cut keystream 64 68)
  let s2c ← DirectionKeys.ofBytes (cut keystream 32 64) (cut keystream 68 72)
  return (c2s, s2c)

/-- They are the server's. -/
theorem deriveDirections_eq (keystream : Bytes) :
    Client.deriveDirections keystream = SecureLlm.deriveDirections keystream := by
  rw [Client.deriveDirections, SecureLlm.deriveDirections]

end Client

/-- The client's request, signed over the transcript of its own fields. -/
def buildHandshakeRequest (identity : ClientIdentity) (serverHost : String) (clientEphPk : Bytes)
    (now : Option ℤ) (time : ℚ) : HandshakeRequest :=
  let ts := now.getD (truncate time)
  let transcript := Client.transcript identity.x25519Pk clientEphPk (utf8 serverHost) ts
  let sig := crypto.sign identity.ed25519Sk transcript
  { protocol := lastSegment protocolLabel
    clientStaticPk := b64e identity.x25519Pk
    clientEphemeralPk := b64e clientEphPk
    timestamp := ts
    transcriptSig := b64e sig
    serverHost := some serverHost }

/-- The client's check of an attestation report, or of its absence. -/
def checkAttestation (attestationReport : Option String) (verifier : Option AttestationVerifier)
    (pinnedMeasurement : Option String) (attestationRequired : Bool) (digest : Bytes) :
    Except Exc Unit :=
  match attestationReport with
  | some report =>
    match verifier with
    | none => .error (.serverKeyMismatch
        "server attached an attestation report but no verifier is configured client-side")
    | some verify => do
      let blob ← b64d report
      match verify blob digest pinnedMeasurement with
      | .ok () => return ()
      | .error message => .error (.serverKeyMismatch ("attestation failed: " ++ message))
  | none =>
    if attestationRequired then .error (.serverKeyMismatch
      "attestation_required=True but server returned no attestation report")
    else .ok ()

/-- The first characters of a key's hexadecimal text, as the mismatch error
    shows them. -/
def shortHex (b : Bytes) : String := String.ofList ((hex b).toList.take 16)

/-- Check the server's answer and derive the session keys from it. -/
def deriveSession (identity : ClientIdentity) (clientEphSk : Bytes) (serverHost : String)
    (handshakeRequestTs : ℤ) (response : HandshakeResponse) (pinnedServerStaticPk : Bytes)
    (attestationVerifier : Option AttestationVerifier) (pinnedMeasurement : Option String)
    (attestationRequired : Bool) : Except Exc HandshakeOutcome := do
  let serverStatic ← b64d response.serverStaticPk
  let serverEd25519 ← b64d response.serverEd25519Pk
  let serverEph ← b64d response.serverEphemeralPk
  let sessionId ← b64d response.sessionId
  let sig ← b64d response.serverSig
  -- The signing key is the one in the answer: only the static key is pinned.
  if serverStatic ≠ pinnedServerStaticPk then
    .error (.serverKeyMismatch ("server key mismatch: expected " ++ shortHex pinnedServerStaticPk
      ++ " got " ++ shortHex serverStatic))
  else
    let baseTranscript := Client.transcript identity.x25519Pk (crypto.publicKey clientEphSk)
      (utf8 serverHost) handshakeRequestTs
    let fullTranscript := joinBytes 0 [baseTranscript, utf8 "server_eph", serverEph,
      utf8 "server_static", serverStatic, utf8 "session", sessionId]
    if ¬ crypto.verify serverEd25519 fullTranscript sig then
      .error (.handshakeFailed "server signature invalid")
    else do
      -- Before any key is derived, the report is checked against the transcript.
      checkAttestation response.attestationReport attestationVerifier pinnedMeasurement
        attestationRequired (crypto.sha256 fullTranscript)
      let dh1 ← scalarmult crypto clientEphSk serverEph
      let dh2 ← scalarmult crypto identity.x25519Sk serverStatic
      let ikm := dh1 ++ dh2
      let keystream ← Client.hkdf crypto ikm fullTranscript (utf8 "secure-llm session keys v1")
        (32 + 32 + 4 + 4)
      let (c2s, s2c) ← Client.deriveDirections keystream
      -- The prefixes in the answer are compared, not used.
      if hex c2s.noncePrefix ≠ response.noncePrefixC2s then
        .error (.handshakeFailed "nonce_prefix_c2s mismatch")
      else if hex s2c.noncePrefix ≠ response.noncePrefixS2c then
        .error (.handshakeFailed "nonce_prefix_s2c mismatch")
      else
        return {
          sessionId := sessionId
          c2s := c2s
          s2c := s2c
          ttlSeconds := response.ttlSeconds
          serverStaticPk := serverStatic }

end SecureLlm
