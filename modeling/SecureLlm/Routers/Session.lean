import SecureLlm.Crypto.Attestation
import SecureLlm.Crypto.Keystore

/-!
# Opening a Session

The handler of a handshake, and which failures it can have. The checks raise
handshake errors, which the handler answers with one status and the code. Two
things are done outside of them. Before the signature is verified, the host is
encoded, and a host with half a surrogate pair in it has no encoding. And after it
there is arithmetic on the peer's two public keys, which a key of low order makes
fail. Both raise an exception of another class, past the handler: the first for
whoever knows a listed public key, the second for a client that signs as it should.

A timestamp is an integer of any length here. The conversion to text that the
language limits to some thousand digits is left out: the parser of the body has
the same limit.

## Main definitions

* `createSession`: The answer to a handshake.
* `SharedSecrets`: Both of a request's public keys give a shared secret.
* `Unexceptional`: A request that is in the way of neither.
* `Declared`, `Answered`: What the handshake and its handler say they give.

## Theorems

* `establishSession_ok_iff`: What it takes once the checks have passed.
* `handshake_failures`: When the failures of a handshake are handshake errors.
* `handshake_raises_others`: Two requests that raise another exception.
-/

namespace SecureLlm

open Library

variable (crypto : Primitives)

/-- The answer to a handshake, and the material a session is created from. A
    handshake error has its own status; any other exception is left alone. -/
def createSession (keystore : Keystore) (skewSeconds ttlSeconds : ℤ)
    (attestation : Option (Bytes → Except String (Option Bytes))) (req : HandshakeRequest)
    (time : ℚ) (serverEphSk sessionId : Bytes) :
    Except Exc (HandshakeResponse × SessionMaterial) :=
  -- The host the client names is also the one that is expected.
  match performHandshake crypto req keystore.server keystore.allowlist skewSeconds ttlSeconds
    req.serverHost none attestation time serverEphSk sessionId with
  | .ok answer => .ok answer
  | .error (.handshakeError code message) =>
    .error (.httpException 401 code (Exc.handshakeError code message).message)
  | .error e => .error e

/-- Both public keys of a checked request give a shared secret. -/
def SharedSecrets (serverEphSk serverStaticSk : Bytes) (valid : Validated) : Prop :=
  (crypto.scalarmult serverEphSk valid.clientEphPk).isSome ∧
    (crypto.scalarmult serverStaticSk valid.clientStaticPk).isSome

/-- Once the checks have passed, a handshake without a report succeeds exactly
    where both shared secrets exist. -/
theorem establishSession_ok_iff (valid : Validated) (server : ServerIdentity) (ttlSeconds : ℤ)
    (serverEphSk sessionId : Bytes) :
    (∃ answer, establishSession crypto valid server ttlSeconds none serverEphSk sessionId
      = .ok answer) ↔ SharedSecrets crypto serverEphSk server.x25519Sk valid := by
  constructor
  · rintro ⟨answer, h⟩
    simp only [establishSession, bind_ok_iff] at h
    rcases h with ⟨dh1, hdh1, dh2, hdh2, -⟩
    refine ⟨?_, ?_⟩
    · rw [scalarmult] at hdh1
      cases hmult : crypto.scalarmult serverEphSk valid.clientEphPk with
      | none => simp only [hmult, reduceCtorEq] at hdh1
      | some shared => rfl
    · rw [scalarmult] at hdh2
      cases hmult : crypto.scalarmult server.x25519Sk valid.clientStaticPk with
      | none => simp only [hmult, reduceCtorEq] at hdh2
      | some shared => rfl
  -- Nothing after the two multiplications fails: the keystream has the length it is cut to.
  · rintro ⟨h1, h2⟩
    rcases Option.isSome_iff_exists.mp h1 with ⟨dh1, hdh1⟩
    rcases Option.isSome_iff_exists.mp h2 with ⟨dh2, hdh2⟩
    obtain ⟨keystream, hks, hlen⟩ := hkdf_length crypto (dh1 ++ dh2) (serverTranscript
      valid.transcript (crypto.publicKey serverEphSk) server.x25519Pk sessionId) sessionKeysInfo 72
      (by decide)
    rcases deriveDirections_ok keystream hlen with ⟨c2s, s2c, hdirs⟩
    exact ⟨_, establishSession_ok crypto valid server ttlSeconds serverEphSk sessionId dh1 dh2 _
      keystream c2s s2c hdh1 hdh2 rfl hks hdirs⟩

/-- A request that comes to its host names one that can be encoded, and if it passes the
    checks, its public keys give shared secrets. -/
structure Unexceptional (req : HandshakeRequest) (server : ServerIdentity)
    (allowlist : Dict Bytes AuthorizedClient) (skewSeconds : ℤ) (expectedHost : Option Text)
    (now : ℤ) (serverEphSk : Bytes) : Prop where
  host : ∀ pk eph entry, Admissible req allowlist skewSeconds now pk eph entry →
    ∀ n, .surrogate n ∉ (req.host expectedHost).points
  secrets : ∀ valid, Authentic crypto req allowlist skewSeconds expectedHost now valid →
    SharedSecrets crypto serverEphSk server.x25519Sk valid

/-- What a handshake's outcome is declared to be: an answer, or a handshake
    error. -/
def Declared (outcome : Except Exc (HandshakeResponse × SessionMaterial)) : Prop :=
  (∃ answer, outcome = .ok answer) ∨
    ∃ code message, outcome = .error (.handshakeError code message)

/-- The handler gives an answer or its own status. -/
def Answered (outcome : Except Exc (HandshakeResponse × SessionMaterial)) : Prop :=
  (∃ answer, outcome = .ok answer) ∨
    ∃ code message, outcome = .error (.httpException 401 code message)

theorem performHandshake_declared_iff (req : HandshakeRequest) (server : ServerIdentity)
    (allowlist : Dict Bytes AuthorizedClient) (skewSeconds ttlSeconds : ℤ)
    (expectedHost : Option Text) (now : Option ℤ)
    (attestation : Option (Bytes → Except String (Option Bytes)))
    (hnone : attestation = none ∨ attestation = some noneBackend) (time : ℚ)
    (serverEphSk sessionId : Bytes) :
    Declared (performHandshake crypto req server allowlist skewSeconds ttlSeconds expectedHost now
        attestation time serverEphSk sessionId) ↔
      Unexceptional crypto req server allowlist skewSeconds expectedHost
        (now.getD (truncate time)) serverEphSk := by
  -- Without a report a backend makes no difference.
  have hplain (valid : Validated) :
      establishSession crypto valid server ttlSeconds attestation serverEphSk sessionId
        = establishSession crypto valid server ttlSeconds none serverEphSk sessionId := by
    rcases hnone with rfl | rfl
    · rfl
    · exact establishSession_noneBackend crypto valid server ttlSeconds serverEphSk sessionId
  constructor
  · intro hdeclared
    refine ⟨?_, ?_⟩
    · intro pk eph entry hadmissible n hn
      have hnone := (Text.encode_eq_none_iff _).mpr ⟨n, hn⟩
      rw [performHandshake, validateRequest_unencodable crypto hadmissible hnone] at hdeclared
      rcases hdeclared with ⟨answer, hok⟩ | ⟨code, message, herror⟩
      · cases hok
      · cases herror
    · intro valid hauth
      rw [performHandshake_of_authentic crypto _ _ _ _ _ _ _ _ _ _ _ valid hauth, hplain]
        at hdeclared
      rcases hdeclared with hok | ⟨code, message, herror⟩
      · exact (establishSession_ok_iff crypto valid server ttlSeconds serverEphSk sessionId).mp hok
      · exact absurd herror (establishSession_error crypto _ _ _ _ _ _ _ _)
  -- A request fails a check, or else all that may fail are the multiplications.
  · intro hreq
    cases hvalid : validateRequest crypto req allowlist skewSeconds expectedHost
        (now.getD (truncate time)) with
    | error e =>
        rcases validateRequest_error crypto hvalid with
          ⟨code, message, rfl⟩ | ⟨-, hhost, pk, eph, entry, hadmissible⟩
        · refine Or.inr ⟨code, message, ?_⟩
          rw [performHandshake, hvalid]
          rfl
        · rcases (Text.encode_eq_none_iff _).mp hhost with ⟨n, hn⟩
          exact absurd hn (hreq.host pk eph entry hadmissible n)
    | ok valid =>
        have hauth := (validateRequest_ok_iff crypto _ _ _ _ _ _).mp hvalid
        refine Or.inl ?_
        rw [performHandshake_of_authentic crypto _ _ _ _ _ _ _ _ _ _ _ valid hauth, hplain]
        exact (establishSession_ok_iff crypto valid server ttlSeconds serverEphSk sessionId).mpr
          (hreq.secrets valid hauth)

/-- A handshake raises no error of the handler's kind. -/
theorem performHandshake_ne_http (req : HandshakeRequest) (server : ServerIdentity)
    (allowlist : Dict Bytes AuthorizedClient) (skewSeconds ttlSeconds : ℤ)
    (expectedHost : Option Text) (now : Option ℤ)
    (attestation : Option (Bytes → Except String (Option Bytes))) (time : ℚ)
    (serverEphSk sessionId : Bytes) (status : ℕ) (code : ErrorCode) (message : String) :
    performHandshake crypto req server allowlist skewSeconds ttlSeconds expectedHost now
      attestation time serverEphSk sessionId ≠ .error (.httpException status code message) := by
  intro h
  rw [performHandshake] at h
  rcases (bind_error_iff _ _ _).mp h with hcheck | ⟨valid, -, hrest⟩
  · rcases validateRequest_error crypto hcheck with ⟨_, _, he⟩ | ⟨he, -⟩
    · exact absurd he (by simp only [reduceCtorEq, not_false_eq_true])
    · exact absurd he (by simp only [reduceCtorEq, not_false_eq_true])
  · rcases establishSession_raises crypto _ _ _ _ _ _ _ hrest with he | ⟨_, he⟩
    · exact absurd he (by simp only [reduceCtorEq, not_false_eq_true])
    · exact absurd he (by simp only [reduceCtorEq, not_false_eq_true])

/-- The handler gives an answer or its own status exactly where the outcome of
    the handshake is a declared one. -/
theorem createSession_answered_iff (keystore : Keystore) (skewSeconds ttlSeconds : ℤ)
    (attestation : Option (Bytes → Except String (Option Bytes))) (req : HandshakeRequest)
    (time : ℚ) (serverEphSk sessionId : Bytes) :
    Answered (createSession crypto keystore skewSeconds ttlSeconds attestation req time serverEphSk
        sessionId) ↔
      Declared (performHandshake crypto req keystore.server keystore.allowlist skewSeconds
        ttlSeconds req.serverHost none attestation time serverEphSk sessionId) := by
  have hhttp := performHandshake_ne_http crypto req keystore.server keystore.allowlist skewSeconds
    ttlSeconds req.serverHost none attestation time serverEphSk sessionId
  unfold createSession
  generalize performHandshake crypto req keystore.server keystore.allowlist skewSeconds ttlSeconds
    req.serverHost none attestation time serverEphSk sessionId = outcome at hhttp ⊢
  cases outcome with
  | ok answer => exact ⟨fun _ => Or.inl ⟨answer, rfl⟩, fun _ => Or.inl ⟨answer, rfl⟩⟩
  | error e =>
      cases e with
      | handshakeError code message =>
          exact ⟨fun _ => Or.inr ⟨code, message, rfl⟩, fun _ => Or.inr ⟨code, _, rfl⟩⟩
      | httpException status code message => exact absurd rfl (hhttp status code message)
      | _ =>
          constructor
          · rintro (⟨_, h⟩ | ⟨_, _, h⟩)
            · cases h
            · cases h
          · rintro (⟨_, h⟩ | ⟨_, _, h⟩)
            · cases h
            · cases h

/-- With attestation disabled, the outcome of a handshake is an answer or a
    handshake error, and its handler answers or gives its own status, exactly
    where the request does not come to a host that has no encoding, and does not
    pass every check with a public key that gives no shared secret. -/
theorem handshake_failures (req : HandshakeRequest) (skewSeconds ttlSeconds : ℤ)
    (attestation : Option (Bytes → Except String (Option Bytes)))
    (hnone : attestation = none ∨ attestation = some noneBackend) (time : ℚ)
    (serverEphSk sessionId : Bytes) :
    (∀ (server : ServerIdentity) (allowlist : Dict Bytes AuthorizedClient)
      (expectedHost : Option Text) (now : Option ℤ),
      Declared (performHandshake crypto req server allowlist skewSeconds ttlSeconds expectedHost
          now attestation time serverEphSk sessionId) ↔
        Unexceptional crypto req server allowlist skewSeconds expectedHost
          (now.getD (truncate time)) serverEphSk) ∧
    ∀ keystore : Keystore,
      Answered (createSession crypto keystore skewSeconds ttlSeconds attestation req time
          serverEphSk sessionId) ↔
        Unexceptional crypto req keystore.server keystore.allowlist skewSeconds req.serverHost
          (truncate time) serverEphSk := by
  refine ⟨?_, ?_⟩
  · intro server allowlist expectedHost now
    exact performHandshake_declared_iff crypto req server allowlist skewSeconds ttlSeconds
      expectedHost now attestation hnone time serverEphSk sessionId
  · intro keystore
    rw [createSession_answered_iff]
    exact performHandshake_declared_iff crypto req keystore.server keystore.allowlist skewSeconds
      ttlSeconds req.serverHost none attestation hnone time serverEphSk sessionId

/-- The sample primitives, with the refusal of the public key of order one. -/
def Primitives.refusing : Primitives :=
  { Primitives.sample with
    scalarmult := fun sk pk =>
      if pk = List.replicate 32 0 then none else Primitives.sample.scalarmult sk pk }

theorem refusing_scalarmult (sk pk : Bytes) : Primitives.refusing.scalarmult sk pk =
    if pk = List.replicate 32 0 then none else Primitives.sample.scalarmult sk pk := rfl

/-- A keystore with one client, to run the model on. -/
def Keystore.single : Keystore where
  server := ⟨[3], pad32 [3], [4], [4]⟩
  allowlist := Dict.empty.set (pad32 [1])
    { name := "t", x25519Pk := pad32 [1], ed25519Pk := [2], scopes := ["chat"] }

/-- That client's request with an ephemeral key of its choice, signed over it. -/
def HandshakeRequest.signed (ephPk : Bytes) : HandshakeRequest :=
  { clientStaticPk := b64e (pad32 [1])
    clientEphemeralPk := b64e ephPk
    timestamp := 100
    transcriptSig := b64e ([2] ++
      transcript (utf8 protocolLabel) (pad32 [1]) ephPk (utf8 "h") 100)
    serverHost := some "h" }

/-- What its checks establish. -/
def Validated.signed (ephPk : Bytes) : Validated where
  clientStaticPk := pad32 [1]
  clientEphPk := ephPk
  entry := { name := "t", x25519Pk := pad32 [1], ed25519Pk := [2], scopes := ["chat"] }
  transcript := SecureLlm.transcript (utf8 protocolLabel) (pad32 [1]) ephPk (utf8 "h") 100

/-- The request passes every check, whatever the key. -/
theorem authentic_signed (ephPk : Bytes) (hlen : ephPk.length = 32) :
    Authentic Primitives.refusing (.signed ephPk) Keystore.single.allowlist 30 (some "h") 110
      (.signed ephPk) where
  protocol := Or.inl rfl
  skew := by
    have hskew : |(110 : ℤ) - 100| ≤ 30 := by decide
    exact hskew
  staticPk := b64dText_b64e _
  ephPk := b64dText_b64e _
  sig := ⟨_, b64dText_b64e _⟩
  staticPk_length := length_pad32 _
  ephPk_length := hlen
  listed := by
    rw [Keystore.single, Dict.get?_set, Validated.signed, if_pos rfl]
  notRevoked := rfl
  notBefore := by
    intro t ht
    cases ht
  notAfter := by
    intro t ht
    cases ht
  transcript := ⟨utf8 "h", by
    have hhost : (HandshakeRequest.signed ephPk).host (some "h") = Text.ofString "h" := rfl
    rw [hhost, Text.encode_ofString], rfl⟩
  signed := ⟨_, b64dText_b64e _, beq_self_eq_true _⟩

/-- The multiplication of the ephemeral key is the first thing to fail. -/
theorem performHandshake_low_order :
    performHandshake Primitives.refusing (.signed (List.replicate 32 0)) Keystore.single.server
        Keystore.single.allowlist 30 3600 (some "h") none none 110 [6] (List.replicate 16 7)
      = .error (.cryptoError "scalarmult") := by
  have hnow : truncate 110 = 110 := by decide +kernel
  have hauth : Authentic Primitives.refusing (.signed (List.replicate 32 0))
      Keystore.single.allowlist 30 (some "h") (Option.getD none (truncate 110))
      (.signed (List.replicate 32 0)) := by
    rw [Option.getD_none, hnow]
    exact authentic_signed (List.replicate 32 0) List.length_replicate
  have hrefused : scalarmult Primitives.refusing [6] (List.replicate 32 0)
      = .error (.cryptoError "scalarmult") := by
    rw [scalarmult, refusing_scalarmult, if_pos rfl]
  rw [performHandshake_of_authentic Primitives.refusing _ _ _ _ _ _ _ _ _ _ _ _ hauth,
    establishSession, Validated.signed]
  dsimp only
  rw [hrefused]
  rfl

/-- A request under the client's name that nobody has signed, for a host that is half of a
    surrogate pair. -/
def HandshakeRequest.halved : HandshakeRequest :=
  { clientStaticPk := b64e (pad32 [1])
    clientEphemeralPk := b64e (pad32 [5])
    timestamp := 100
    transcriptSig := b64e []
    serverHost := some ⟨[.surrogate 0]⟩ }

/-- The checks before the host let it through. -/
theorem admissible_halved :
    Admissible .halved Keystore.single.allowlist 30 110 (pad32 [1]) (pad32 [5])
      { name := "t", x25519Pk := pad32 [1], ed25519Pk := [2], scopes := ["chat"] } where
  protocol := Or.inl rfl
  skew := by
    have hskew : |(110 : ℤ) - 100| ≤ 30 := by decide
    exact hskew
  staticPk := b64dText_b64e _
  ephPk := b64dText_b64e _
  sig := ⟨_, b64dText_b64e _⟩
  staticPk_length := length_pad32 _
  ephPk_length := length_pad32 _
  listed := by
    rw [Keystore.single, Dict.get?_set, if_pos rfl]
  notRevoked := rfl
  notBefore := by
    intro t ht
    cases ht
  notAfter := by
    intro t ht
    cases ht

/-- The encoding of the host is what fails, before the signature is looked at. -/
theorem performHandshake_halved :
    performHandshake Primitives.refusing .halved Keystore.single.server Keystore.single.allowlist
        30 3600 HandshakeRequest.halved.serverHost none none 110 [6] (List.replicate 16 7)
      = .error (.unicodeEncodeError "utf-8") := by
  have hnow : truncate 110 = 110 := by decide +kernel
  have hhost : (HandshakeRequest.halved.host HandshakeRequest.halved.serverHost).encode = none :=
    (Text.encode_eq_none_iff _).mpr ⟨0, List.mem_cons_self⟩
  rw [performHandshake, Option.getD_none, hnow,
    validateRequest_unencodable Primitives.refusing admissible_halved hhost]
  rfl

/-- A client's request for a session, signed as it should be over an ephemeral
    key of order one, raises the exception of the multiplication, and a request that
    nobody has signed raises the one of the encoding. -/
theorem handshake_raises_others :
    (let outcome := performHandshake Primitives.refusing (.signed (List.replicate 32 0))
        Keystore.single.server Keystore.single.allowlist 30 3600 (some "h") none none 110 [6]
        (List.replicate 16 7)
      let answer := createSession Primitives.refusing Keystore.single 30 3600 none
        (.signed (List.replicate 32 0)) 110 [6] (List.replicate 16 7)
      outcome = .error (.cryptoError "scalarmult") ∧ ¬ Declared outcome ∧ ¬ Answered answer) ∧
    (let outcome := performHandshake Primitives.refusing .halved Keystore.single.server
        Keystore.single.allowlist 30 3600 (some ⟨[.surrogate 0]⟩) none none 110 [6]
        (List.replicate 16 7)
      let answer := createSession Primitives.refusing Keystore.single 30 3600 none .halved 110 [6]
        (List.replicate 16 7)
      outcome = .error (.unicodeEncodeError "utf-8") ∧ ¬ Declared outcome ∧
        ¬ Answered answer) := by
  have hundeclared (e : Exc) (he : ∀ code message, e ≠ .handshakeError code message) :
      ¬ Declared (.error e) := by
    rintro (⟨_, h⟩ | ⟨code, message, h⟩)
    · cases h
    · exact he code message (Except.error.inj h)
  refine ⟨⟨performHandshake_low_order, ?_, ?_⟩, performHandshake_halved, ?_, ?_⟩
  · rw [performHandshake_low_order]
    exact hundeclared _ nofun
  · rw [createSession_answered_iff]
    exact fun h => hundeclared (.cryptoError "scalarmult") nofun (performHandshake_low_order ▸ h)
  · rw [show some ⟨[.surrogate 0]⟩ = HandshakeRequest.halved.serverHost from rfl,
      performHandshake_halved]
    exact hundeclared _ nofun
  · rw [createSession_answered_iff, performHandshake_halved]
    exact hundeclared _ nofun

/-- The theorem on a run: the same client with another ephemeral key. -/
theorem handshake_failures_sample :
    Declared (performHandshake Primitives.refusing (.signed (pad32 [5])) Keystore.single.server
        Keystore.single.allowlist 30 3600 (some "h") (some 110) none 0 [6] (List.replicate 16 7)) ∧
      Answered (createSession Primitives.refusing Keystore.single 30 3600 none
        (.signed (pad32 [5])) 110 [6] (List.replicate 16 7)) := by
  have hthm := handshake_failures Primitives.refusing (.signed (pad32 [5])) 30 3600 none
    (Or.inl rfl)
  have hreq (now : ℤ) : Unexceptional Primitives.refusing (.signed (pad32 [5]))
      Keystore.single.server Keystore.single.allowlist 30 (some "h") now [6] := by
    refine ⟨?_, ?_⟩
    · intro pk eph entry _ n hn
      have hhost : (HandshakeRequest.signed (pad32 [5])).host (some "h") = Text.ofString "h" := rfl
      rw [hhost, Text.ofString, List.mem_map] at hn
      rcases hn with ⟨_, _, h⟩
      cases h
    · intro valid hauth
      have hstatic : valid.clientStaticPk = pad32 [1] :=
        Except.ok.inj (hauth.staticPk.symm.trans (b64dText_b64e _))
      have heph : valid.clientEphPk = pad32 [5] :=
        Except.ok.inj (hauth.ephPk.symm.trans (b64dText_b64e _))
      have hother (b : UInt8) (hb : b ≠ 0) : pad32 [b] ≠ List.replicate 32 0 := by
        intro h
        exact hb (Option.some.inj (congrArg List.head? h))
      rw [SharedSecrets, hstatic, heph, refusing_scalarmult, refusing_scalarmult,
        if_neg (hother 5 (by decide)), if_neg (hother 1 (by decide))]
      exact ⟨rfl, rfl⟩
  exact ⟨((hthm 0 [6] (List.replicate 16 7)).1 _ _ _ _).mpr (hreq _),
    ((hthm 110 [6] (List.replicate 16 7)).2 _).mpr (hreq _)⟩

end SecureLlm
