import SecureLlm.Client.Handshake
import SecureLlm.Crypto.HandshakeAuth

/-!
# The Two Halves of the Handshake Agree

The client and the server keep separate copies of the transcript, of the order
of the shared secrets and of the key derivation. Put together on one request
and its answer, the copies compute the same session: the server accepts what
the client builds, the client accepts the answer, and both hold the same keys.

The one place where the two sides treat a field differently is the host, which
the server strips and the client does not; so the host is asked to carry no
surrounding whitespace.

## Main definitions

* `ClientIdentity.Matches`, `ServerIdentity.Matches`: Public keys that belong
  to their secrets.
* `EntryFor`: An allowlist entry that lets the client in at a time.
* `Client.fullTranscript`: What the server signs, as the client rebuilds it.
* `Client.Sound`: What the client asks of an answer, whatever is attested.

## Theorems

* `deriveSession_ok_iff`: The answers the client accepts.
* `buildHandshakeRequest_authentic`: The server's checks pass on the client's
  request.
* `handshake_agreement`: The two halves agree on the session.
-/

namespace SecureLlm

open Library

variable (crypto : Primitives)

/-- The client's public keys belong to its secrets. -/
structure ClientIdentity.Matches (identity : ClientIdentity) : Prop where
  x25519 : identity.x25519Pk = crypto.publicKey identity.x25519Sk
  ed25519 : identity.ed25519Pk = crypto.verifyKey identity.ed25519Sk

/-- The server's public keys belong to its secrets. -/
structure ServerIdentity.Matches (identity : ServerIdentity) : Prop where
  x25519 : identity.x25519Pk = crypto.publicKey identity.x25519Sk
  ed25519 : identity.ed25519Pk = crypto.verifyKey identity.ed25519Sk

/-- An entry of the client that is not revoked and valid at a time. -/
structure EntryFor (identity : ClientIdentity) (allowlist : Dict Bytes AuthorizedClient)
    (now : ℤ) (entry : AuthorizedClient) : Prop where
  listed : allowlist.get? identity.x25519Pk = some entry
  ed25519 : entry.ed25519Pk = identity.ed25519Pk
  notRevoked : entry.revoked = false
  notBefore : ∀ t ∈ entry.notBefore, t ≤ now
  notAfter : ∀ t ∈ entry.notAfter, now ≤ t

/-- The host the server reads in the client's request is the one the client signed. -/
theorem host_buildHandshakeRequest (identity : ClientIdentity) (serverHost : String)
    (clientEphPk : Bytes) (clientNow : Option ℤ) (clientTime : ℚ) (expectedHost : Option Text)
    (hhost : serverHost ≠ "") (hstrip : strip serverHost = serverHost) :
    (buildHandshakeRequest crypto identity serverHost clientEphPk clientNow clientTime).host
      expectedHost = Text.ofString serverHost := by
  have hpoints : ¬ (Text.ofString serverHost).points.isEmpty = true := by
    rw [List.isEmpty_iff, Text.ofString, List.map_eq_nil_iff, String.toList_eq_nil_iff]
    exact hhost
  rw [HandshakeRequest.host, buildHandshakeRequest]
  dsimp only
  rw [if_neg hpoints, Option.getD_some, strip_text, hstrip]

/-- The request the client builds passes the server's checks. -/
theorem buildHandshakeRequest_authentic (identity : ClientIdentity) (serverHost : String)
    (clientEphSk : Bytes) (clientNow : Option ℤ) (clientTime : ℚ)
    (allowlist : Dict Bytes AuthorizedClient) (skewSeconds : ℤ) (expectedHost : Option Text)
    (now : ℤ) (entry : AuthorizedClient) (hid : identity.Matches crypto)
    (hentry : EntryFor identity allowlist now entry)
    (hhost : serverHost ≠ "") (hstrip : strip serverHost = serverHost)
    (hskew : |now - clientNow.getD (truncate clientTime)| ≤ skewSeconds)
    (hverify : ∀ sk message, crypto.verify (crypto.verifyKey sk) message (crypto.sign sk message)
      = true) :
    Authentic crypto (buildHandshakeRequest crypto identity serverHost
      (crypto.publicKey clientEphSk) clientNow clientTime) allowlist skewSeconds expectedHost now
      { clientStaticPk := identity.x25519Pk
        clientEphPk := crypto.publicKey clientEphSk
        entry := entry
        transcript := Client.transcript identity.x25519Pk (crypto.publicKey clientEphSk)
          (utf8 serverHost) (clientNow.getD (truncate clientTime)) } where
  protocol := Or.inl (congrArg Text.ofString lastSegment_protocolLabel)
  skew := hskew
  staticPk := b64dText_b64e _
  ephPk := b64dText_b64e _
  sig := ⟨_, b64dText_b64e _⟩
  staticPk_length := by rw [hid.x25519, crypto.publicKey_length]
  ephPk_length := crypto.publicKey_length _
  listed := hentry.listed
  notRevoked := hentry.notRevoked
  notBefore := hentry.notBefore
  notAfter := hentry.notAfter
  transcript := ⟨utf8 serverHost, by
    rw [host_buildHandshakeRequest crypto identity _ _ clientNow clientTime expectedHost hhost
      hstrip, Text.encode_ofString], Client.transcript_eq _ _ _ _⟩
  signed := ⟨_, b64dText_b64e _, by
    dsimp only
    rw [hentry.ed25519, hid.ed25519]
    exact hverify _ _⟩

namespace Client

/-- The transcript the server signs and the keys are derived from. -/
def fullTranscript (identity : ClientIdentity) (clientEphSk : Bytes) (serverHost : String) (ts : ℤ)
    (serverEph serverStatic sessionId : Bytes) : Bytes :=
  serverTranscript (Client.transcript identity.x25519Pk (crypto.publicKey clientEphSk)
    (utf8 serverHost) ts) serverEph serverStatic sessionId

/-- What the client asks of an answer, but for its attestation: the fields decode, the
    static key is the pinned one, the signature is good under the key in the answer, and
    the directions that the two shared secrets give have the prefixes it announces. -/
structure Sound (identity : ClientIdentity) (clientEphSk : Bytes) (serverHost : String) (ts : ℤ)
    (response : HandshakeResponse) (pinned ed25519 eph sid sig : Bytes) (c2s s2c : DirectionKeys) :
    Prop where
  serverStaticPk : b64d response.serverStaticPk = .ok pinned
  serverEd25519Pk : b64d response.serverEd25519Pk = .ok ed25519
  serverEphemeralPk : b64d response.serverEphemeralPk = .ok eph
  sessionId : b64d response.sessionId = .ok sid
  serverSig : b64d response.serverSig = .ok sig
  signed : crypto.verify ed25519 (fullTranscript crypto identity clientEphSk serverHost ts eph
    pinned sid) sig = true
  derived : ∃ dh1 dh2 keystream, crypto.scalarmult clientEphSk eph = some dh1 ∧
    crypto.scalarmult identity.x25519Sk pinned = some dh2 ∧
    Client.hkdf crypto (dh1 ++ dh2) (fullTranscript crypto identity clientEphSk serverHost ts eph
      pinned sid) (utf8 "secure-llm session keys v1") 72 = .ok keystream ∧
    Client.deriveDirections keystream = .ok (c2s, s2c)
  noncePrefixC2s : hex c2s.noncePrefix = response.noncePrefixC2s
  noncePrefixS2c : hex s2c.noncePrefix = response.noncePrefixS2c

end Client

theorem scalarmult_ok_iff (sk pk shared : Bytes) :
    scalarmult crypto sk pk = .ok shared ↔ crypto.scalarmult sk pk = some shared := by
  rw [scalarmult]
  cases crypto.scalarmult sk pk with
  | none =>
      constructor
      · intro h
        cases h
      · intro h
        cases h
  | some shared' => rw [Except.ok.injEq, Option.some.injEq]

/-- The client accepts exactly the sound answers whose attestation passes. -/
theorem deriveSession_ok_iff (identity : ClientIdentity) (clientEphSk : Bytes)
    (serverHost : String) (ts : ℤ) (response : HandshakeResponse) (pinned : Bytes)
    (verifier : Option AttestationVerifier) (measurement : Option String) (required : Bool)
    (outcome : HandshakeOutcome) :
    deriveSession crypto identity clientEphSk serverHost ts response pinned verifier measurement
        required = .ok outcome ↔
      ∃ ed25519 eph sid sig c2s s2c,
        Client.Sound crypto identity clientEphSk serverHost ts response pinned ed25519 eph sid sig
          c2s s2c ∧
        checkAttestation response.attestationReport verifier measurement required (crypto.sha256
          (Client.fullTranscript crypto identity clientEphSk serverHost ts eph pinned sid))
            = .ok () ∧
        outcome = {
          sessionId := sid
          c2s := c2s
          s2c := s2c
          ttlSeconds := response.ttlSeconds
          serverStaticPk := pinned } := by
  constructor
  · intro h
    rw [deriveSession] at h
    simp only [bind_ok_iff] at h
    rcases h with ⟨static, hstatic, ed25519, hed, eph, heph, sid, hsid, sig, hsig, h⟩
    split at h
    · cases h
    rename_i hpinned
    rw [not_not] at hpinned
    subst hpinned
    split at h
    · cases h
    rename_i hverify
    rw [not_not] at hverify
    simp only [bind_ok_iff, scalarmult_ok_iff] at h
    rcases h with ⟨u, hattested, dh1, hdh1, dh2, hdh2, keystream, hks, ⟨c2s, s2c⟩, hdirs, h⟩
    dsimp only at h
    split at h
    · cases h
    rename_i hc2s
    split at h
    · cases h
    rename_i hs2c
    exact ⟨ed25519, eph, sid, sig, c2s, s2c,
      { serverStaticPk := hstatic
        serverEd25519Pk := hed
        serverEphemeralPk := heph
        sessionId := hsid
        serverSig := hsig
        signed := hverify
        derived := ⟨dh1, dh2, keystream, hdh1, hdh2, hks, hdirs⟩
        noncePrefixC2s := not_not.mp hc2s
        noncePrefixS2c := not_not.mp hs2c }, hattested, (Except.ok.inj h).symm⟩
  · rintro ⟨ed25519, eph, sid, sig, c2s, s2c, hsound, hattested, rfl⟩
    rcases hsound.derived with ⟨dh1, dh2, keystream, hdh1, hdh2, hks, hdirs⟩
    have hsigned := hsound.signed
    rw [Client.fullTranscript, serverTranscript] at hsigned hattested hks
    simp only [deriveSession, hsound.serverStaticPk, hsound.serverEd25519Pk,
      hsound.serverEphemeralPk, hsound.sessionId, hsound.serverSig, bind, Except.bind, ne_eq,
      not_true_eq_false, if_false, hsigned, hattested, scalarmult, hdh1, hdh2, Nat.reduceAdd, hks,
      hdirs, hsound.noncePrefixC2s, hsound.noncePrefixS2c, pure, Except.pure]

/-- The client accepts an answer signed over its own transcript whose
    attestation passes, and derives the directions of the same keystream. -/
theorem deriveSession_ok (identity : ClientIdentity) (clientEphSk : Bytes) (serverHost : String)
    (ts ttlSeconds : ℤ) (report : Option String) (verifier : Option AttestationVerifier)
    (pinnedMeasurement : Option String) (required : Bool)
    (serverStatic serverEd25519 serverEph sessionId sig dh1 dh2 full keystream : Bytes)
    (c2s s2c : DirectionKeys)
    (hfull : serverTranscript (Client.transcript identity.x25519Pk (crypto.publicKey clientEphSk)
      (utf8 serverHost) ts) serverEph serverStatic sessionId = full)
    (hsig : crypto.verify serverEd25519 full sig = true)
    (hattested : checkAttestation report verifier pinnedMeasurement required (crypto.sha256 full)
      = .ok ())
    (hdh1 : crypto.scalarmult clientEphSk serverEph = some dh1)
    (hdh2 : crypto.scalarmult identity.x25519Sk serverStatic = some dh2)
    (hks : hkdf crypto (dh1 ++ dh2) full sessionKeysInfo 72 = .ok keystream)
    (hdirs : deriveDirections keystream = .ok (c2s, s2c)) :
    deriveSession crypto identity clientEphSk serverHost ts
      { sessionId := b64e sessionId
        serverStaticPk := b64e serverStatic
        serverEd25519Pk := b64e serverEd25519
        serverEphemeralPk := b64e serverEph
        ttlSeconds := ttlSeconds
        serverSig := b64e sig
        noncePrefixC2s := hex c2s.noncePrefix
        noncePrefixS2c := hex s2c.noncePrefix
        attestationReport := report } serverStatic verifier pinnedMeasurement required
      = .ok { sessionId, c2s, s2c, ttlSeconds, serverStaticPk := serverStatic } := by
  subst hfull
  -- The server's copy of the derivation gave the keystream; the client has its own.
  rw [sessionKeysInfo, ← Client.hkdf_eq crypto _ _ _ 72 (by decide)] at hks
  rw [← Client.deriveDirections_eq] at hdirs
  exact (deriveSession_ok_iff crypto _ _ _ _ _ _ _ _ _ _).mpr
    ⟨serverEd25519, serverEph, sessionId, sig, c2s, s2c,
      { serverStaticPk := b64d_b64e _
        serverEd25519Pk := b64d_b64e _
        serverEphemeralPk := b64d_b64e _
        sessionId := b64d_b64e _
        serverSig := b64d_b64e _
        signed := hsig
        derived := ⟨dh1, dh2, keystream, hdh1, hdh2, hks, hdirs⟩
        noncePrefixC2s := rfl
        noncePrefixS2c := rfl }, hattested, rfl⟩

/-- Agreement of the two halves. The server answers the client's request, the
    client accepts the answer, and both hold the same session: its id, its
    lifetime, and for each direction the key and the nonce prefix. -/
theorem handshake_agreement (identity : ClientIdentity) (server : ServerIdentity)
    (allowlist : Dict Bytes AuthorizedClient) (entry : AuthorizedClient) (serverHost : String)
    (clientEphSk serverEphSk sessionId : Bytes) (clientNow serverNow : Option ℤ)
    (clientTime serverTime : ℚ) (skewSeconds ttlSeconds : ℤ) (expectedHost : Option Text)
    (pinnedMeasurement : Option String)
    (hclient : identity.Matches crypto) (hserver : server.Matches crypto)
    (hentry : EntryFor identity allowlist (serverNow.getD (truncate serverTime)) entry)
    (hhost : serverHost ≠ "") (hstrip : strip serverHost = serverHost)
    (hskew : |serverNow.getD (truncate serverTime) - clientNow.getD (truncate clientTime)|
      ≤ skewSeconds)
    (hcomm : ∀ a b, crypto.scalarmult a (crypto.publicKey b)
      = crypto.scalarmult b (crypto.publicKey a))
    (heph : (crypto.scalarmult serverEphSk (crypto.publicKey clientEphSk)).isSome)
    (hstatic : (crypto.scalarmult server.x25519Sk (crypto.publicKey identity.x25519Sk)).isSome)
    (hverify : ∀ sk message, crypto.verify (crypto.verifyKey sk) message (crypto.sign sk message)
      = true) :
    ∃ response material outcome,
      performHandshake crypto (buildHandshakeRequest crypto identity serverHost
        (crypto.publicKey clientEphSk) clientNow clientTime) server allowlist skewSeconds
        ttlSeconds expectedHost serverNow none serverTime serverEphSk sessionId
          = .ok (response, material) ∧
      deriveSession crypto identity clientEphSk serverHost
        (clientNow.getD (truncate clientTime)) response server.x25519Pk none pinnedMeasurement
        false = .ok outcome ∧
      outcome.sessionId = material.sessionId ∧ outcome.ttlSeconds = material.ttlSeconds ∧
      outcome.c2s = material.c2s ∧ outcome.s2c = material.s2c := by
  obtain ⟨dh1, hdh1⟩ := Option.isSome_iff_exists.mp heph
  obtain ⟨dh2, hdh2⟩ := Option.isSome_iff_exists.mp hstatic
  have hauth := buildHandshakeRequest_authentic crypto identity serverHost clientEphSk clientNow
    clientTime allowlist skewSeconds expectedHost _ entry hclient hentry hhost hstrip hskew hverify
  -- The transcript both sides sign and salt the derivation with.
  generalize hfull : serverTranscript (Client.transcript identity.x25519Pk
    (crypto.publicKey clientEphSk) (utf8 serverHost) (clientNow.getD (truncate clientTime)))
    (crypto.publicKey serverEphSk) server.x25519Pk sessionId = full
  obtain ⟨keystream, hks, hlen⟩ := hkdf_length crypto (dh1 ++ dh2) full sessionKeysInfo 72
    (by decide)
  obtain ⟨c2s, s2c, hdirs⟩ := deriveDirections_ok keystream hlen
  have hsig : crypto.verify server.ed25519Pk full (crypto.sign server.ed25519Sk full) = true := by
    rw [hserver.ed25519]
    exact hverify _ _
  -- The client computes each shared secret from the other end.
  have hdh1' : crypto.scalarmult clientEphSk (crypto.publicKey serverEphSk) = some dh1 := by
    rw [hcomm, hdh1]
  have hdh2' : crypto.scalarmult identity.x25519Sk server.x25519Pk = some dh2 := by
    rw [hserver.x25519, hcomm, hdh2]
  have hserverRun := establishSession_ok crypto ⟨identity.x25519Pk, crypto.publicKey clientEphSk,
    entry, Client.transcript identity.x25519Pk (crypto.publicKey clientEphSk) (utf8 serverHost)
      (clientNow.getD (truncate clientTime))⟩ server ttlSeconds serverEphSk sessionId dh1 dh2 full
    keystream c2s s2c hdh1 (by rw [hclient.x25519, hdh2]) hfull hks hdirs
  have hclientRun := deriveSession_ok crypto identity clientEphSk serverHost _ ttlSeconds
    none none pinnedMeasurement false _ _ _ sessionId _ dh1 dh2 full keystream c2s s2c hfull hsig
    rfl hdh1' hdh2' hks hdirs
  exact ⟨_, _, _, (performHandshake_of_authentic crypto _ _ _ _ _ _ _ _ _ _ _ _ hauth).trans
    hserverRun, hclientRun, rfl, rfl, rfl, rfl⟩

-- Both ends of the sample primitives' exchange come to the same secret.
theorem Primitives.sample_comm (a b : Bytes) :
    Primitives.sample.scalarmult a (Primitives.sample.publicKey b) =
      Primitives.sample.scalarmult b (Primitives.sample.publicKey a) :=
  congrArg some (List.zipWith_comm_of_comm (fun x y => UInt8.xor_comm x y))

/-- The agreement on a run, with the server's clock ten seconds ahead. -/
theorem handshake_agreement_sample :
    let identity : ClientIdentity := ⟨[1], pad32 [1], [2], [2]⟩
    let entry : AuthorizedClient := { name := "t", x25519Pk := pad32 [1], ed25519Pk := [2] }
    ∃ response material outcome,
      performHandshake Primitives.sample (buildHandshakeRequest Primitives.sample identity "h"
        (pad32 [5]) (some 100) 0) ⟨[3], pad32 [3], [4], [4]⟩
        (Dict.empty.set (pad32 [1]) entry) 30 3600 (some "h") (some 110) none 0 [6]
        (List.replicate 16 7) = .ok (response, material) ∧
      deriveSession Primitives.sample identity [5] "h" 100 response (pad32 [3]) none none false
        = .ok outcome ∧
      outcome.sessionId = material.sessionId ∧ outcome.ttlSeconds = material.ttlSeconds ∧
      outcome.c2s = material.c2s ∧ outcome.s2c = material.s2c := by
  intro identity entry
  exact handshake_agreement Primitives.sample identity ⟨[3], pad32 [3], [4], [4]⟩
    (Dict.empty.set (pad32 [1]) entry) entry "h" [5] [6] (List.replicate 16 7) (some 100)
    (some 110) 0 0 30 3600 (some "h") none ⟨rfl, rfl⟩ ⟨rfl, rfl⟩
    ⟨by rw [Dict.get?_set, if_pos rfl], rfl, rfl, nofun, nofun⟩ (by decide) (by decide)
    (by decide) Primitives.sample_comm rfl rfl (fun _ _ => beq_self_eq_true _)

end SecureLlm
