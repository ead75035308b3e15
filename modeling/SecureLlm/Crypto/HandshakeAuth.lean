import SecureLlm.Crypto.Handshake
import SecureLlm.Library.Exceptions

/-!
# What the Server's Handshake Checks

The acceptance condition of the server's half of the handshake. `Authentic`
lists what the checks establish about a request, and `validateRequest_ok_iff`
says that the checks pass for exactly those requests: nothing is checked twice
and nothing is left to the order.

The checks but for the signature are `Admissible`. Between those and the signature
the host is encoded, and a host with a surrogate in it is where the checks raise
something other than a `HandshakeError`.

After the checks only the primitives can fail, and none of their failures is a
`HandshakeError`. So the condition is exact for that exception as well, which
is what the audit log and the HTTP status go by.

## Main definitions

* `Admissible`: What a request satisfies whose signature is to be verified.
* `Authentic`: What an accepted request and its allowlist entry satisfy.

## Theorems

* `validateRequest_of_admissible`: What is left of the checks for an admissible request.
* `admissible_or_refused`: Any other is refused with a handshake error.
* `validateRequest_ok_iff`: The checks pass for exactly the authentic requests.
* `validateRequest_error`: What the checks raise.
* `deriveDirections_ok`: A keystream of the right length gives two directions.
* `establishSession_ok`: The answer to a validated request.
* `establishSession_material`: Where a session's tenant and scopes come from.
* `establishSession_raises`: What can fail after the checks.
* `performHandshake_authentic`: Authentication at the server.
-/

namespace SecureLlm

open Library

variable (crypto : Primitives)

/-- What the server has established about a request when it comes to its host and its
    signature: its keys, and the entry they are listed with. -/
structure Admissible (req : HandshakeRequest) (allowlist : Dict Bytes AuthorizedClient)
    (skewSeconds now : ℤ) (clientStaticPk clientEphPk : Bytes) (entry : AuthorizedClient) :
    Prop where
  protocol : req.protocol = protocolVersion ∨ req.protocol = protocolLabel
  skew : |now - req.timestamp| ≤ skewSeconds
  staticPk : b64dText req.clientStaticPk = .ok clientStaticPk
  ephPk : b64dText req.clientEphemeralPk = .ok clientEphPk
  sig : ∃ sig, b64dText req.transcriptSig = .ok sig
  staticPk_length : clientStaticPk.length = 32
  ephPk_length : clientEphPk.length = 32
  listed : allowlist.get? clientStaticPk = some entry
  notRevoked : entry.revoked = false
  notBefore : ∀ t ∈ entry.notBefore, t ≤ now
  notAfter : ∀ t ∈ entry.notAfter, now ≤ t

/-- What the server has established about a request it accepts at a time. -/
structure Authentic (req : HandshakeRequest) (allowlist : Dict Bytes AuthorizedClient)
    (skewSeconds : ℤ) (expectedHost : Option Text) (now : ℤ) (valid : Validated) : Prop
    extends Admissible req allowlist skewSeconds now valid.clientStaticPk valid.clientEphPk
      valid.entry where
  transcript : ∃ host, (req.host expectedHost).encode = some host ∧
    valid.transcript = transcript (utf8 protocolLabel) valid.clientStaticPk valid.clientEphPk host
      req.timestamp
  signed : ∃ sig, b64dText req.transcriptSig = .ok sig ∧
    crypto.verify valid.entry.ed25519Pk valid.transcript sig = true

theorem decodeFields_ok_iff (req : HandshakeRequest) (pk eph sig : Bytes) :
    decodeFields req = .ok (pk, eph, sig) ↔
      b64dText req.clientStaticPk = .ok pk ∧ b64dText req.clientEphemeralPk = .ok eph ∧
        b64dText req.transcriptSig = .ok sig := by
  simp only [decodeFields, bind, Except.bind, pure, Except.pure]
  cases b64dText req.clientStaticPk with
  | error e => exact ⟨nofun, fun h => absurd h.1 nofun⟩
  | ok pk' =>
      cases b64dText req.clientEphemeralPk with
      | error e => exact ⟨nofun, fun h => absurd h.2.1 nofun⟩
      | ok eph' =>
          cases b64dText req.transcriptSig with
          | error e => exact ⟨nofun, fun h => absurd h.2.2 nofun⟩
          | ok sig' => simp only [Except.ok.injEq, Prod.mk.injEq]

section Validate

variable {req : HandshakeRequest} {allowlist : Dict Bytes AuthorizedClient} {skewSeconds : ℤ}
  {expectedHost : Option Text} {now : ℤ}

/-- An admissible request comes to its host and its signature. -/
theorem validateRequest_of_admissible {pk eph sig : Bytes} {entry : AuthorizedClient}
    (h : Admissible req allowlist skewSeconds now pk eph entry)
    (hsig : b64dText req.transcriptSig = .ok sig) :
    validateRequest crypto req allowlist skewSeconds expectedHost now =
      match (req.host expectedHost).encode with
      | none => .error (.unicodeEncodeError "utf-8")
      | some host =>
        let signed := transcript (utf8 protocolLabel) pk eph host req.timestamp
        if crypto.verify entry.ed25519Pk signed sig then .ok ⟨pk, eph, entry, signed⟩
        else .error (.handshakeError .badSignature "") := by
  have hfields := (decodeFields_ok_iff req _ _ sig).mpr ⟨h.staticPk, h.ephPk, hsig⟩
  have hprotocol : ¬ (req.protocol ≠ protocolVersion ∧ req.protocol ≠ protocolLabel) := by
    have := h.protocol
    tauto
  have hlen : ¬ (pk.length ≠ 32 ∨ eph.length ≠ 32) := by
    rw [h.staticPk_length, h.ephPk_length]
    tauto
  have hbefore : ¬ ∃ t ∈ entry.notBefore, now < t :=
    fun ⟨t, ht, hc⟩ => absurd (h.notBefore t ht) (not_le.mpr hc)
  have hafter : ¬ ∃ t ∈ entry.notAfter, t < now :=
    fun ⟨t, ht, hc⟩ => absurd (h.notAfter t ht) (not_le.mpr hc)
  have hrevoked : ¬ entry.revoked = true := by
    rw [h.notRevoked]
    exact Bool.false_ne_true
  rw [validateRequest, lastSegment_protocolLabel, if_neg hprotocol, if_neg (not_lt.mpr h.skew),
    hfields]
  dsimp only
  rw [if_neg hlen, h.listed]
  dsimp only
  rw [if_neg hrevoked, if_neg hbefore]
  exact if_neg hafter

/-- A request is admissible, or one of the checks refuses it. -/
theorem admissible_or_refused (req : HandshakeRequest) (allowlist : Dict Bytes AuthorizedClient)
    (skewSeconds : ℤ) (expectedHost : Option Text) (now : ℤ) :
    (∃ pk eph entry, Admissible req allowlist skewSeconds now pk eph entry) ∨
      ∃ code message, validateRequest crypto req allowlist skewSeconds expectedHost now =
        .error (.handshakeError code message) := by
  by_cases hprotocol : req.protocol ≠ protocolVersion ∧ req.protocol ≠ protocolLabel
  · right
    exact ⟨_, _, by rw [validateRequest, lastSegment_protocolLabel, if_pos hprotocol]⟩
  by_cases hskew : skewSeconds < |now - req.timestamp|
  · right
    exact ⟨_, _, by rw [validateRequest, lastSegment_protocolLabel, if_neg hprotocol, if_pos hskew]⟩
  rw [validateRequest, lastSegment_protocolLabel, if_neg hprotocol, if_neg hskew]
  cases hdecode : decodeFields req with
  | error e => exact Or.inr ⟨_, _, rfl⟩
  | ok fields =>
      rcases fields with ⟨pk, eph, sig⟩
      obtain ⟨hpk, heph, hsig⟩ := (decodeFields_ok_iff req pk eph sig).mp hdecode
      dsimp only
      by_cases hlen : pk.length ≠ 32 ∨ eph.length ≠ 32
      · exact Or.inr ⟨_, _, if_pos hlen⟩
      rw [if_neg hlen]
      cases hentry : allowlist.get? pk with
      | none => exact Or.inr ⟨_, _, rfl⟩
      | some entry =>
          dsimp only
          by_cases hrevoked : entry.revoked = true
          · exact Or.inr ⟨_, _, if_pos hrevoked⟩
          by_cases hbefore : ∃ t ∈ entry.notBefore, now < t
          · exact Or.inr ⟨_, _, by rw [if_neg hrevoked, if_pos hbefore]⟩
          by_cases hafter : ∃ t ∈ entry.notAfter, t < now
          · exact Or.inr ⟨_, _, by rw [if_neg hrevoked, if_neg hbefore, if_pos hafter]⟩
          -- Each check that passed gives one field.
          exact Or.inl ⟨pk, eph, entry, {
            protocol := by tauto
            skew := not_lt.mp hskew
            staticPk := hpk
            ephPk := heph
            sig := ⟨sig, hsig⟩
            staticPk_length := by tauto
            ephPk_length := by tauto
            listed := hentry
            notRevoked := by simpa only [Bool.not_eq_true] using hrevoked
            notBefore := fun t ht => not_lt.mp (fun hc => hbefore ⟨t, ht, hc⟩)
            notAfter := fun t ht => not_lt.mp (fun hc => hafter ⟨t, ht, hc⟩) }⟩

/-- The checks pass for exactly the authentic requests. -/
theorem validateRequest_ok_iff (req : HandshakeRequest) (allowlist : Dict Bytes AuthorizedClient)
    (skewSeconds : ℤ) (expectedHost : Option Text) (now : ℤ) (valid : Validated) :
    validateRequest crypto req allowlist skewSeconds expectedHost now = .ok valid ↔
      Authentic crypto req allowlist skewSeconds expectedHost now valid := by
  constructor
  · intro h
    rcases admissible_or_refused crypto req allowlist skewSeconds expectedHost now with
      ⟨pk, eph, entry, hadmissible⟩ | ⟨code, message, hrefused⟩
    · obtain ⟨sig, hsig⟩ := hadmissible.sig
      rw [validateRequest_of_admissible crypto hadmissible hsig] at h
      cases hhost : (req.host expectedHost).encode with
      | none =>
          rw [hhost] at h
          exact absurd h nofun
      | some host =>
          rw [hhost] at h
          dsimp only at h
          split at h
          · rename_i hverify
            rw [Except.ok.injEq] at h
            subst h
            exact { hadmissible with
              transcript := ⟨host, hhost, rfl⟩
              signed := ⟨sig, hsig, hverify⟩ }
          · exact absurd h nofun
    · rw [hrefused] at h
      exact absurd h nofun
  · intro h
    obtain ⟨sig, hsig, hverify⟩ := h.signed
    obtain ⟨host, hhost, htranscript⟩ := h.transcript
    rw [validateRequest_of_admissible crypto h.toAdmissible hsig, hhost]
    dsimp only
    rw [← htranscript, if_pos hverify]

/-- The checks raise handshake errors, but for a host that has no encoding. -/
theorem validateRequest_error {e : Exc}
    (h : validateRequest crypto req allowlist skewSeconds expectedHost now = .error e) :
    (∃ code message, e = .handshakeError code message) ∨
      e = .unicodeEncodeError "utf-8" ∧ (req.host expectedHost).encode = none ∧
        ∃ pk eph entry, Admissible req allowlist skewSeconds now pk eph entry := by
  rcases admissible_or_refused crypto req allowlist skewSeconds expectedHost now with
    ⟨pk, eph, entry, hadmissible⟩ | ⟨code, message, hrefused⟩
  · obtain ⟨sig, hsig⟩ := hadmissible.sig
    rw [validateRequest_of_admissible crypto hadmissible hsig] at h
    cases hhost : (req.host expectedHost).encode with
    | none =>
        rw [hhost] at h
        exact Or.inr ⟨(Except.error.inj h).symm, rfl, pk, eph, entry, hadmissible⟩
    | some host =>
        rw [hhost] at h
        dsimp only at h
        split at h
        · exact absurd h nofun
        · exact Or.inl ⟨_, _, (Except.error.inj h).symm⟩
  · rw [hrefused] at h
    exact Or.inl ⟨code, message, (Except.error.inj h).symm⟩

/-- And a host that has none, it raises for. -/
theorem validateRequest_unencodable {pk eph : Bytes} {entry : AuthorizedClient}
    (h : Admissible req allowlist skewSeconds now pk eph entry)
    (hhost : (req.host expectedHost).encode = none) :
    validateRequest crypto req allowlist skewSeconds expectedHost now =
      .error (.unicodeEncodeError "utf-8") := by
  obtain ⟨sig, hsig⟩ := h.sig
  rw [validateRequest_of_admissible crypto h hsig, hhost]

end Validate

theorem length_cut (keystream : Bytes) (start stop : ℕ) (hle : start ≤ stop)
    (h : stop ≤ keystream.length) : (cut keystream start stop).length = stop - start :=
  length_slice _ _ _ (by omega)

/-- A keystream of the right length gives two directions. -/
theorem deriveDirections_ok (keystream : Bytes) (h : keystream.length = 72) :
    ∃ c2s s2c, deriveDirections keystream = .ok (c2s, s2c) := by
  have hlen : ∀ a b, a ≤ b → b ≤ 72 → (cut keystream a b).length = b - a :=
    fun a b hab hb => length_cut keystream a b hab (by omega)
  have h1 := hlen 0 32 (by decide) (by decide)
  have h2 := hlen 64 68 (by decide) (by decide)
  have h3 := hlen 32 64 (by decide) (by decide)
  have h4 := hlen 68 72 (by decide) (by decide)
  exact ⟨⟨_, _, h1, h2⟩, ⟨_, _, h3, h4⟩, by
    simp only [deriveDirections, DirectionKeys.ofBytes, dif_pos h1, dif_pos h2, dif_pos h3,
      dif_pos h4, bind, Except.bind, pure, Except.pure]⟩

/-- The server's answer, for a keystream that gives two directions. -/
theorem establishSession_ok (valid : Validated) (server : ServerIdentity) (ttlSeconds : ℤ)
    (serverEphSk sessionId dh1 dh2 full keystream : Bytes) (c2s s2c : DirectionKeys)
    (hdh1 : crypto.scalarmult serverEphSk valid.clientEphPk = some dh1)
    (hdh2 : crypto.scalarmult server.x25519Sk valid.clientStaticPk = some dh2)
    (hfull : serverTranscript valid.transcript (crypto.publicKey serverEphSk) server.x25519Pk
      sessionId = full)
    (hks : hkdf crypto (dh1 ++ dh2) full sessionKeysInfo 72 = .ok keystream)
    (hdirs : deriveDirections keystream = .ok (c2s, s2c)) :
    establishSession crypto valid server ttlSeconds none serverEphSk sessionId = .ok
      ({ sessionId := b64e sessionId
         serverStaticPk := b64e server.x25519Pk
         serverEd25519Pk := b64e server.ed25519Pk
         serverEphemeralPk := b64e (crypto.publicKey serverEphSk)
         ttlSeconds := ttlSeconds
         serverSig := b64e (crypto.sign server.ed25519Sk full)
         noncePrefixC2s := hex c2s.noncePrefix
         noncePrefixS2c := hex s2c.noncePrefix },
       { sessionId := sessionId
         c2s := c2s
         s2c := s2c
         ttlSeconds := ttlSeconds
         clientFingerprint := valid.entry.fingerprint crypto
         scopes := valid.entry.scopes
         tenant := valid.entry.tenant }) := by
  simp only [establishSession, scalarmult, hdh1, hdh2, bind, Except.bind, hfull, Nat.reduceAdd, hks,
    hdirs, generateReport, pure, Except.pure, Option.map_none]

/-- The material of a session carries the entry's tenant, scopes and
    fingerprint. -/
theorem establishSession_material (valid : Validated) (serverIdentity : ServerIdentity)
    (ttlSeconds : ℤ) (attestation : Option (Bytes → Except String (Option Bytes)))
    (serverEphSk sessionId : Bytes) (response : HandshakeResponse) (material : SessionMaterial)
    (h : establishSession crypto valid serverIdentity ttlSeconds attestation serverEphSk sessionId
      = .ok (response, material)) :
    material.tenant = valid.entry.tenant ∧ material.scopes = valid.entry.scopes ∧
      material.clientFingerprint = valid.entry.fingerprint crypto := by
  simp only [establishSession, bind_ok_iff] at h
  obtain ⟨_, _, _, _, _, _, ⟨c2s, s2c⟩, _, _, _, h⟩ := h
  simp only [pure, Except.pure, Except.ok.injEq, Prod.mk.injEq] at h
  rw [← h.2]
  exact ⟨rfl, rfl, rfl⟩

theorem scalarmult_error (sk pk : Bytes) (e : Exc) (h : scalarmult crypto sk pk = .error e) :
    e = .cryptoError "scalarmult" := by
  rw [scalarmult] at h
  split at h
  · exact absurd h nofun
  · exact (Except.error.inj h).symm

theorem generateReport_error (attestation : Option (Bytes → Except String (Option Bytes)))
    (digest : Bytes) (e : Exc) (h : generateReport attestation digest = .error e) :
    ∃ message, e = .attestationError message := by
  cases attestation with
  | none => exact absurd h nofun
  | some generate =>
      rw [generateReport] at h
      split at h
      · exact absurd h nofun
      · exact ⟨_, (Except.error.inj h).symm⟩

/-- After the checks only the multiplication and the backend fail. -/
theorem establishSession_raises (valid : Validated) (serverIdentity : ServerIdentity)
    (ttlSeconds : ℤ) (attestation : Option (Bytes → Except String (Option Bytes)))
    (serverEphSk sessionId : Bytes) (e : Exc)
    (h : establishSession crypto valid serverIdentity ttlSeconds attestation serverEphSk sessionId
      = .error e) : e = .cryptoError "scalarmult" ∨ ∃ message, e = .attestationError message := by
  simp only [establishSession, bind_error_iff] at h
  rcases h with h | ⟨dh1, -, h | ⟨dh2, -, h | ⟨keystream, hks, h | ⟨⟨c2s, s2c⟩, -, h | ⟨_, -, h⟩⟩⟩⟩⟩
  · exact Or.inl (scalarmult_error crypto _ _ _ h)
  · exact Or.inl (scalarmult_error crypto _ _ _ h)
  · obtain ⟨out, hout, -⟩ := hkdf_length crypto (dh1 ++ dh2) (serverTranscript valid.transcript
      (crypto.publicKey serverEphSk) serverIdentity.x25519Pk sessionId) sessionKeysInfo 72
      (by decide)
    exact absurd (hout.symm.trans h) nofun
  · obtain ⟨out, hout, hlen⟩ := hkdf_length crypto (dh1 ++ dh2) (serverTranscript valid.transcript
      (crypto.publicKey serverEphSk) serverIdentity.x25519Pk sessionId) sessionKeysInfo 72
      (by decide)
    have hsame : out = keystream := Except.ok.inj (hout.symm.trans hks)
    obtain ⟨c2s, s2c, hdirs⟩ := deriveDirections_ok keystream (hsame ▸ hlen)
    exact absurd (hdirs.symm.trans h) nofun
  · exact Or.inr (generateReport_error attestation _ _ h)
  · exact absurd h nofun

/-- After the checks nothing fails with a handshake error. -/
theorem establishSession_error (valid : Validated) (serverIdentity : ServerIdentity)
    (ttlSeconds : ℤ) (attestation : Option (Bytes → Except String (Option Bytes)))
    (serverEphSk sessionId : Bytes) (code : ErrorCode) (message : String) :
    establishSession crypto valid serverIdentity ttlSeconds attestation serverEphSk sessionId
      ≠ .error (.handshakeError code message) := by
  intro h
  rcases establishSession_raises crypto _ _ _ _ _ _ _ h with he | ⟨m, he⟩
  · exact absurd he nofun
  · exact absurd he nofun

/-- An authentic request is answered with what is derived for it. -/
theorem performHandshake_of_authentic (req : HandshakeRequest) (serverIdentity : ServerIdentity)
    (allowlist : Dict Bytes AuthorizedClient) (skewSeconds ttlSeconds : ℤ)
    (expectedHost : Option Text) (now : Option ℤ)
    (attestation : Option (Bytes → Except String (Option Bytes))) (time : ℚ)
    (serverEphSk sessionId : Bytes) (valid : Validated)
    (hauth : Authentic crypto req allowlist skewSeconds expectedHost (now.getD (truncate time))
      valid) :
    performHandshake crypto req serverIdentity allowlist skewSeconds ttlSeconds expectedHost now
        attestation time serverEphSk sessionId
      = establishSession crypto valid serverIdentity ttlSeconds attestation serverEphSk
        sessionId := by
  rw [performHandshake, (validateRequest_ok_iff crypto _ _ _ _ _ _).mpr hauth]
  rfl

theorem performHandshake_ok (req : HandshakeRequest) (serverIdentity : ServerIdentity)
    (allowlist : Dict Bytes AuthorizedClient) (skewSeconds ttlSeconds : ℤ)
    (expectedHost : Option Text) (now : Option ℤ)
    (attestation : Option (Bytes → Except String (Option Bytes))) (time : ℚ)
    (serverEphSk sessionId : Bytes) (response : HandshakeResponse) (material : SessionMaterial)
    (h : performHandshake crypto req serverIdentity allowlist skewSeconds ttlSeconds expectedHost
      now attestation time serverEphSk sessionId = .ok (response, material)) :
    ∃ valid, Authentic crypto req allowlist skewSeconds expectedHost (now.getD (truncate time))
        valid ∧
      material.tenant = valid.entry.tenant ∧ material.scopes = valid.entry.scopes ∧
      material.clientFingerprint = valid.entry.fingerprint crypto := by
  rw [performHandshake, bind_ok_iff] at h
  obtain ⟨valid, hvalid, hrest⟩ := h
  exact ⟨valid, (validateRequest_ok_iff crypto _ _ _ _ _ _).mp hvalid,
    establishSession_material crypto _ _ _ _ _ _ _ _ hrest⟩

/-- Authentication at the server. Session material comes from an authentic
    request only, and carries the allowlist entry's tenant, scopes and
    fingerprint: any other handshake under the same allowlist whose static key
    decodes to the same bytes carries the same three, whatever else differs.
    Conversely an authentic request is never refused with a handshake error. -/
theorem performHandshake_authentic (req : HandshakeRequest) (serverIdentity : ServerIdentity)
    (allowlist : Dict Bytes AuthorizedClient) (skewSeconds ttlSeconds : ℤ)
    (expectedHost : Option Text) (now : Option ℤ)
    (attestation : Option (Bytes → Except String (Option Bytes))) (time : ℚ)
    (serverEphSk sessionId : Bytes) :
    (∀ response material,
      performHandshake crypto req serverIdentity allowlist skewSeconds ttlSeconds expectedHost now
          attestation time serverEphSk sessionId = .ok (response, material) →
        (∃ valid, Authentic crypto req allowlist skewSeconds expectedHost
            (now.getD (truncate time)) valid ∧
          material.tenant = valid.entry.tenant ∧ material.scopes = valid.entry.scopes ∧
          material.clientFingerprint = valid.entry.fingerprint crypto) ∧
        ∀ req' serverIdentity' skew' ttl' host' now' attestation' time' ephSk' sid' response'
            material', b64dText req'.clientStaticPk = b64dText req.clientStaticPk →
          performHandshake crypto req' serverIdentity' allowlist skew' ttl' host' now'
              attestation' time' ephSk' sid' = .ok (response', material') →
            material'.tenant = material.tenant ∧ material'.scopes = material.scopes ∧
              material'.clientFingerprint = material.clientFingerprint) ∧
    (∀ valid, Authentic crypto req allowlist skewSeconds expectedHost
        (now.getD (truncate time)) valid →
      ∀ code message, performHandshake crypto req serverIdentity allowlist skewSeconds ttlSeconds
        expectedHost now attestation time serverEphSk sessionId
          ≠ .error (.handshakeError code message)) := by
  refine ⟨fun response material h => ?_, fun valid hauth code message h => ?_⟩
  · obtain ⟨valid, hauth, hten, hsc, hfp⟩ := performHandshake_ok crypto _ _ _ _ _ _ _ _ _ _ _ _ _ h
    refine ⟨⟨valid, hauth, hten, hsc, hfp⟩, ?_⟩
    intro req' _ _ _ _ _ _ _ _ _ response' material' hkey h'
    obtain ⟨valid', hauth', hten', hsc', hfp'⟩ :=
      performHandshake_ok crypto _ _ _ _ _ _ _ _ _ _ _ _ _ h'
    -- The static key alone picks the entry.
    have hpk : valid'.clientStaticPk = valid.clientStaticPk :=
      Except.ok.inj (hauth'.staticPk.symm.trans (hkey.trans hauth.staticPk))
    have hentry : valid'.entry = valid.entry :=
      Option.some.inj (hauth'.listed.symm.trans ((congrArg _ hpk).trans hauth.listed))
    rw [hten', hsc', hfp', hentry]
    exact ⟨hten.symm, hsc.symm, hfp.symm⟩
  · rw [performHandshake_of_authentic crypto _ _ _ _ _ _ _ _ _ _ _ valid hauth] at h
    exact establishSession_error crypto _ _ _ _ _ _ _ _ h

/-- The theorem on a run: one listed client, its signed request ten seconds old,
    and the material it is given. -/
theorem performHandshake_authentic_sample :
    let entry : AuthorizedClient :=
      { name := "t", x25519Pk := pad32 [1], ed25519Pk := [2], scopes := ["chat"] }
    let allowlist : Dict Bytes AuthorizedClient := Dict.empty.set (pad32 [1]) entry
    let server : ServerIdentity := ⟨[3], pad32 [3], [4], [4]⟩
    let signed := transcript (utf8 protocolLabel) (pad32 [1]) (pad32 [5]) (utf8 "h") 100
    let req : HandshakeRequest :=
      { clientStaticPk := b64e (pad32 [1]), clientEphemeralPk := b64e (pad32 [5])
        timestamp := 100, transcriptSig := b64e ([2] ++ signed), serverHost := some " h" }
    ∃ response material,
      performHandshake Primitives.sample req server allowlist 30 3600 none (some 110) none 0 [6]
        (List.replicate 16 7) = .ok (response, material) ∧
      (∃ valid, Authentic Primitives.sample req allowlist 30 none 110 valid ∧
        material.tenant = valid.entry.tenant ∧ material.scopes = valid.entry.scopes) ∧
      ∀ code message, performHandshake Primitives.sample req server allowlist 30 3600 none
        (some 110) none 0 [6] (List.replicate 16 7) ≠ .error (.handshakeError code message) := by
  intro entry allowlist server signed req
  have hauth : Authentic Primitives.sample req allowlist 30 none 110
      ⟨pad32 [1], pad32 [5], entry, signed⟩ :=
    { protocol := Or.inl rfl
      skew := by decide
      staticPk := b64dText_b64e _
      ephPk := b64dText_b64e _
      sig := ⟨_, b64dText_b64e _⟩
      staticPk_length := length_pad32 _
      ephPk_length := length_pad32 _
      listed := by rw [Dict.get?_set, if_pos rfl]
      notRevoked := rfl
      notBefore := nofun
      notAfter := nofun
      transcript := ⟨utf8 "h", by
        have hhost : HandshakeRequest.host req none = Text.ofString "h" := by decide
        rw [hhost, Text.encode_ofString], rfl⟩
      signed := ⟨_, b64dText_b64e _, beq_self_eq_true _⟩ }
  obtain ⟨keystream, hks, hlen⟩ := hkdf_length Primitives.sample _ _ sessionKeysInfo 72 (by decide)
  obtain ⟨c2s, s2c, hdirs⟩ := deriveDirections_ok keystream hlen
  have hrun := establishSession_ok Primitives.sample ⟨pad32 [1], pad32 [5], entry, signed⟩ server
    3600 [6] (List.replicate 16 7) _ _ _ keystream c2s s2c rfl rfl rfl hks hdirs
  have hok := (performHandshake_of_authentic Primitives.sample req server allowlist 30 3600 none
    (some 110) none 0 [6] (List.replicate 16 7) _ hauth).trans hrun
  have hthm := performHandshake_authentic Primitives.sample req server allowlist 30 3600 none
    (some 110) none 0 [6] (List.replicate 16 7)
  obtain ⟨valid, hv, hten, hsc, -⟩ := (hthm.1 _ _ hok).1
  exact ⟨_, _, hok, ⟨valid, hv, hten, hsc⟩, hthm.2 _ hauth⟩

end SecureLlm
