import SecureLlm.Client.Agreement

/-!
# What the Client Learns from an Answer

The inversion of `deriveSession`: what an accepted answer has shown. The answer
decodes, names the pinned key, and is signed over the transcript, though by the
key it brings along itself.

Whether an attestation report is asked for is decided by a flag. A pinned
measurement has its say only about a report that is there: an answer without
one is accepted unless the flag is set. The report is in no signed part of the
answer, so anyone on the way can take it out, and with it what would have been
refused.

## Main definitions

* `noneVerifier`: The verifier that accepts anything but a pinned measurement.
* `Client.Attested`: An answer has brought a report that the verifier accepts.
* `Client.Acceptable`: An answer is sound, whatever is attested.

## Theorems

* `checkAttestation_ok_iff`: When the attestation check passes.
* `deriveSession_accepted`: What an accepted answer has shown.
* `attested_or_unasked`: An accepted answer is attested, or was not asked to be.
* `pinned_measurement_checked`: When a pinned measurement is enforced.
* `exists_accepted`: Where both shared secrets exist, an answer is accepted.
* `omitted_report_accepted`: A report that does not verify can be left out.
-/

namespace SecureLlm

open Library

variable (crypto : Primitives)

/-- `NoneVerifier`: it accepts anything, but not where a measurement is pinned. -/
def noneVerifier : AttestationVerifier := fun _ _ expectedMeasurement =>
  match expectedMeasurement with
  | none => .ok ()
  | some _ => .error
      "NoneVerifier cannot verify pinned measurement; configure a real attestation verifier"

/-- The check passes on a report that the verifier accepts, and without one
    where none is required. -/
theorem checkAttestation_ok_iff (report : Option String) (verifier : Option AttestationVerifier)
    (measurement : Option String) (required : Bool) (digest : Bytes) :
    checkAttestation report verifier measurement required digest = .ok () ↔
      (report = none ∧ required = false) ∨
        ∃ text blob verify, report = some text ∧ b64d text = .ok blob ∧ verifier = some verify ∧
          verify blob digest measurement = .ok () := by
  cases report with
  | none =>
      cases required with
      | true =>
          constructor
          · exact fun h => absurd h nofun
          · rintro (⟨-, h⟩ | ⟨_, _, _, h, -⟩)
            · exact absurd h nofun
            · exact absurd h nofun
      | false => exact ⟨fun _ => Or.inl ⟨rfl, rfl⟩, fun _ => rfl⟩
  | some text =>
      constructor
      · intro h
        cases verifier with
        | none => exact absurd h nofun
        | some verify =>
            simp only [checkAttestation, bind, Except.bind] at h
            cases hblob : b64d text with
            | error e =>
                rw [hblob] at h
                exact absurd h nofun
            | ok blob =>
                rw [hblob] at h
                cases hverify : verify blob digest measurement with
                | error message =>
                    simp only [hverify, reduceCtorEq] at h
                | ok u => exact Or.inr ⟨text, blob, verify, rfl, hblob, rfl, hverify⟩
      · rintro (⟨h, -⟩ | ⟨text', blob, verify, htext, hblob, rfl, hverify⟩)
        · exact absurd h nofun
        · rw [← Option.some.inj htext] at hblob
          simp only [checkAttestation, bind, Except.bind, hblob, hverify]
          rfl

/-- What an accepted answer has shown: the fields decode, the static key is the
    pinned one, the signature is good under the key of the answer, and the
    attestation check has passed. -/
theorem deriveSession_accepted (identity : ClientIdentity) (clientEphSk : Bytes)
    (serverHost : String) (ts : ℤ) (response : HandshakeResponse) (pinned : Bytes)
    (verifier : Option AttestationVerifier) (measurement : Option String) (required : Bool)
    (outcome : HandshakeOutcome)
    (h : deriveSession crypto identity clientEphSk serverHost ts response pinned verifier
      measurement required = .ok outcome) :
    ∃ ed25519 eph sid sig, b64d response.serverStaticPk = .ok pinned ∧
      b64d response.serverEd25519Pk = .ok ed25519 ∧ b64d response.serverEphemeralPk = .ok eph ∧
      b64d response.sessionId = .ok sid ∧ b64d response.serverSig = .ok sig ∧
      crypto.verify ed25519 (Client.fullTranscript crypto identity clientEphSk serverHost ts eph
        pinned sid) sig = true ∧
      checkAttestation response.attestationReport verifier measurement required (crypto.sha256
        (Client.fullTranscript crypto identity clientEphSk serverHost ts eph pinned sid)) = .ok () ∧
      (crypto.scalarmult identity.x25519Sk pinned).isSome := by
  rcases (deriveSession_ok_iff crypto _ _ _ _ _ _ _ _ _ _).mp h with
    ⟨ed25519, eph, sid, sig, _, _, hsound, hattested, -⟩
  rcases hsound.derived with ⟨_, _, _, -, hdh2, -⟩
  exact ⟨ed25519, eph, sid, sig, hsound.serverStaticPk, hsound.serverEd25519Pk,
    hsound.serverEphemeralPk, hsound.sessionId, hsound.serverSig, hsound.signed, hattested,
    Option.isSome_of_eq_some hdh2⟩

/-- The answer has brought a report that the verifier accepts for the transcript and a
    measurement. -/
def Client.Attested (identity : ClientIdentity) (clientEphSk : Bytes) (serverHost : String) (ts : ℤ)
    (response : HandshakeResponse) (pinned : Bytes) (verifier : Option AttestationVerifier)
    (measurement : String) : Prop :=
  ∃ eph sid text blob verify, b64d response.serverEphemeralPk = .ok eph ∧
    b64d response.sessionId = .ok sid ∧ response.attestationReport = some text ∧
    b64d text = .ok blob ∧ verifier = some verify ∧
    verify blob (crypto.sha256 (Client.fullTranscript crypto identity clientEphSk serverHost ts
      eph pinned sid)) (some measurement) = .ok ()

/-- With a pinned measurement, an accepted answer is attested, or it has brought no
    report and none was required. -/
theorem attested_or_unasked (identity : ClientIdentity) (clientEphSk : Bytes)
    (serverHost : String) (ts : ℤ) (response : HandshakeResponse) (pinned : Bytes)
    (verifier : Option AttestationVerifier) (measurement : String) (required : Bool)
    (outcome : HandshakeOutcome)
    (h : deriveSession crypto identity clientEphSk serverHost ts response pinned verifier
      (some measurement) required = .ok outcome) :
    Client.Attested crypto identity clientEphSk serverHost ts response pinned verifier
        measurement ∨
      (response.attestationReport = none ∧ required = false) := by
  rcases deriveSession_accepted crypto identity clientEphSk serverHost ts response pinned verifier
    (some measurement) required outcome h with
    ⟨ed25519, eph, sid, sig, -, -, heph, hsid, -, -, hattested, -⟩
  rcases (checkAttestation_ok_iff _ _ _ _ _).mp hattested with
    hnone | ⟨text, blob, verify, htext, hblob, hverifier, hverify⟩
  · exact Or.inr hnone
  · exact Or.inl ⟨eph, sid, text, blob, verify, heph, hsid, htext, hblob, hverifier, hverify⟩

/-- The answer is one the client accepts, but for its attestation. -/
def Client.Acceptable (identity : ClientIdentity) (clientEphSk : Bytes) (serverHost : String)
    (ts : ℤ) (response : HandshakeResponse) (pinned : Bytes) : Prop :=
  ∃ ed25519 eph sid sig c2s s2c, Client.Sound crypto identity clientEphSk serverHost ts response
    pinned ed25519 eph sid sig c2s s2c

/-- An answer without a report is accepted if it is sound and none is required. -/
theorem unattested_accepted_iff (identity : ClientIdentity) (clientEphSk : Bytes)
    (serverHost : String) (ts : ℤ) (response : HandshakeResponse) (pinned : Bytes)
    (verifier : Option AttestationVerifier) (measurement : Option String) (required : Bool)
    (hnone : response.attestationReport = none) :
    (∃ outcome, deriveSession crypto identity clientEphSk serverHost ts response pinned verifier
        measurement required = .ok outcome) ↔
      required = false ∧
        Client.Acceptable crypto identity clientEphSk serverHost ts response pinned := by
  constructor
  · rintro ⟨outcome, h⟩
    rcases (deriveSession_ok_iff crypto _ _ _ _ _ _ _ _ _ _).mp h with
      ⟨ed25519, eph, sid, sig, c2s, s2c, hsound, hattested, -⟩
    refine ⟨?_, ed25519, eph, sid, sig, c2s, s2c, hsound⟩
    rcases (checkAttestation_ok_iff _ _ _ _ _).mp hattested with ⟨-, h⟩ | ⟨_, _, _, h, -⟩
    · exact h
    · rw [hnone] at h
      exact absurd h nofun
  · rintro ⟨hrequired, ed25519, eph, sid, sig, c2s, s2c, hsound⟩
    exact ⟨_, (deriveSession_ok_iff crypto _ _ _ _ _ _ _ _ _ _).mpr ⟨ed25519, eph, sid, sig, c2s,
      s2c, hsound, (checkAttestation_ok_iff _ _ _ _ _).mpr (Or.inl ⟨hnone, hrequired⟩), rfl⟩⟩

/-- What is attested is no part of it. -/
theorem acceptable_report_iff (identity : ClientIdentity) (clientEphSk : Bytes)
    (serverHost : String) (ts : ℤ) (response : HandshakeResponse) (pinned : Bytes)
    (report : Option String) :
    Client.Acceptable crypto identity clientEphSk serverHost ts
        { response with attestationReport := report } pinned ↔
      Client.Acceptable crypto identity clientEphSk serverHost ts response pinned := by
  constructor
  · rintro ⟨ed25519, eph, sid, sig, c2s, s2c, h⟩
    exact ⟨ed25519, eph, sid, sig, c2s, s2c, { h with }⟩
  · rintro ⟨ed25519, eph, sid, sig, c2s, s2c, h⟩
    exact ⟨ed25519, eph, sid, sig, c2s, s2c, { h with }⟩

/-- A report that is no base64 is refused. -/
theorem undecodable_report_refused (identity : ClientIdentity) (clientEphSk : Bytes)
    (serverHost : String) (ts : ℤ) (response : HandshakeResponse) (pinned : Bytes)
    (verifier : Option AttestationVerifier) (measurement : Option String) (required : Bool)
    (outcome : HandshakeOutcome) :
    deriveSession crypto identity clientEphSk serverHost ts
      { response with attestationReport := some "!" } pinned verifier measurement required
        ≠ .ok outcome := by
  intro h
  rcases (deriveSession_ok_iff crypto _ _ _ _ _ _ _ _ _ _).mp h with
    ⟨_, _, _, _, _, _, -, hattested, -⟩
  rcases (checkAttestation_ok_iff _ _ _ _ _).mp hattested with
    ⟨hnone, -⟩ | ⟨text, blob, _, htext, hblob, -⟩
  · cases hnone
  · have hbad : b64decode true "!" = none := by decide
    rw [← Option.some.inj htext, b64d, hbad] at hblob
    cases hblob

/-- **A pinned measurement and the flag.** That an answer is accepted only if it is attested
    for the pinned measurement holds exactly if it brings a report, if one is required, or if
    it is refused whatever it attests. And that no refusal of it with a report becomes an
    acceptance when the report is taken out holds exactly in the latter two cases. -/
theorem pinned_measurement_checked (identity : ClientIdentity) (clientEphSk : Bytes)
    (serverHost : String) (ts : ℤ) (response : HandshakeResponse) (pinned : Bytes)
    (verifier : Option AttestationVerifier) (measurement : String) (required : Bool) :
    ((∀ outcome, deriveSession crypto identity clientEphSk serverHost ts response pinned verifier
          (some measurement) required = .ok outcome →
        Client.Attested crypto identity clientEphSk serverHost ts response pinned verifier
          measurement) ↔
      (∃ text, response.attestationReport = some text) ∨ required = true ∨
        ¬ Client.Acceptable crypto identity clientEphSk serverHost ts response pinned) ∧
    ((∀ text, (∀ outcome, deriveSession crypto identity clientEphSk serverHost ts
            { response with attestationReport := some text } pinned verifier (some measurement)
            required ≠ .ok outcome) →
        ∀ outcome, deriveSession crypto identity clientEphSk serverHost ts
          { response with attestationReport := none } pinned verifier (some measurement) required
            ≠ .ok outcome) ↔
      required = true ∨
        ¬ Client.Acceptable crypto identity clientEphSk serverHost ts response pinned) := by
  refine ⟨⟨?_, ?_⟩, ?_, ?_⟩
  · intro h
    cases hreport : response.attestationReport with
    | some text => exact Or.inl ⟨text, rfl⟩
    | none =>
        right
        by_contra hcontra
        rw [not_or, not_not, Bool.not_eq_true] at hcontra
        rcases (unattested_accepted_iff crypto identity clientEphSk serverHost ts response pinned
          verifier (some measurement) required hreport).mpr hcontra with ⟨outcome, haccepted⟩
        rcases h outcome haccepted with ⟨_, _, _, _, _, -, -, htext, -⟩
        rw [hreport] at htext
        exact absurd htext nofun
  · intro h outcome haccepted
    rcases attested_or_unasked crypto identity clientEphSk serverHost ts response pinned verifier
      measurement required outcome haccepted with hattested | ⟨hnone, hrequired⟩
    · exact hattested
    -- It was not asked to be attested, and each of the cases says that it was.
    · exfalso
      rcases h with ⟨text, htext⟩ | hrequired' | hunacceptable
      · rw [hnone] at htext
        exact absurd htext nofun
      · exact absurd (hrequired.symm.trans hrequired') Bool.false_ne_true
      · exact hunacceptable ((unattested_accepted_iff crypto identity clientEphSk serverHost ts
          response pinned verifier (some measurement) required hnone).mp ⟨outcome, haccepted⟩).2
  · intro h
    by_contra hcontra
    rw [not_or, not_not, Bool.not_eq_true] at hcontra
    rcases (unattested_accepted_iff crypto identity clientEphSk serverHost ts
      { response with attestationReport := none } pinned verifier (some measurement) required
      rfl).mpr ⟨hcontra.1, (acceptable_report_iff crypto _ _ _ _ _ _ _).mpr hcontra.2⟩ with
      ⟨outcome, haccepted⟩
    exact h "!" (undecodable_report_refused crypto identity clientEphSk serverHost ts response
      pinned verifier (some measurement) required) outcome haccepted
  · intro h text _ outcome haccepted
    rcases (unattested_accepted_iff crypto identity clientEphSk serverHost ts
      { response with attestationReport := none } pinned verifier (some measurement) required
      rfl).mp ⟨outcome, haccepted⟩ with ⟨hrequired, hacceptable⟩
    rcases h with hrequired' | hunacceptable
    · exact absurd (hrequired.symm.trans hrequired') Bool.false_ne_true
    · exact hunacceptable ((acceptable_report_iff crypto _ _ _ _ _ _ _).mp hacceptable)

/-- Where both shared secrets exist, some answer with a report that passes the
    check is accepted, signed under any key. -/
theorem exists_accepted (identity : ClientIdentity) (clientEphSk : Bytes) (serverHost : String)
    (ts ttlSeconds : ℤ) (pinned ephSk ed25519Sk sid : Bytes) (report : Option String)
    (verifier : Option AttestationVerifier) (measurement : Option String) (required : Bool)
    (hverify : ∀ sk message, crypto.verify (crypto.verifyKey sk) message (crypto.sign sk message)
      = true)
    (hdh1 : (crypto.scalarmult clientEphSk (crypto.publicKey ephSk)).isSome)
    (hdh2 : (crypto.scalarmult identity.x25519Sk pinned).isSome)
    (hattested : checkAttestation report verifier measurement required (crypto.sha256
      (Client.fullTranscript crypto identity clientEphSk serverHost ts (crypto.publicKey ephSk)
        pinned sid)) = .ok ()) :
    ∃ response outcome, response.attestationReport = report ∧
      deriveSession crypto identity clientEphSk serverHost ts response pinned verifier measurement
        required = .ok outcome := by
  rcases Option.isSome_iff_exists.mp hdh1 with ⟨dh1, hdh1⟩
  rcases Option.isSome_iff_exists.mp hdh2 with ⟨dh2, hdh2⟩
  rcases hkdf_length crypto (dh1 ++ dh2) (Client.fullTranscript crypto identity clientEphSk
    serverHost ts (crypto.publicKey ephSk) pinned sid) sessionKeysInfo 72 (by decide) with
    ⟨keystream, hks, hlen⟩
  rcases deriveDirections_ok keystream hlen with ⟨c2s, s2c, hdirs⟩
  exact ⟨_, _, rfl, deriveSession_ok crypto identity clientEphSk serverHost ts ttlSeconds report
    verifier measurement required pinned (crypto.verifyKey ed25519Sk) (crypto.publicKey ephSk) sid
    (crypto.sign ed25519Sk _) dh1 dh2 _ keystream c2s s2c rfl (hverify _ _) hattested hdh1 hdh2 hks
    hdirs⟩

/-- With a measurement pinned, an answer is accepted without a report, and the
    same answer is refused with one that does not verify. -/
theorem omitted_report_accepted :
    ∃ response outcome, response.attestationReport = none ∧
      deriveSession .sample .sample [5] "h" 100 response (pad32 [3]) (some noneVerifier) (some "m")
        false = .ok outcome ∧
      ∀ outcome', deriveSession .sample .sample [5] "h" 100
        { response with attestationReport := some "" } (pad32 [3]) (some noneVerifier) (some "m")
        false ≠ .ok outcome' := by
  rcases exists_accepted .sample .sample [5] "h" 100 3600 (pad32 [3]) [6] [4] (List.replicate 16 7)
    none (some noneVerifier) (some "m") false (fun _ _ => beq_self_eq_true _) rfl rfl rfl with
    ⟨response, outcome, hreport, haccepted⟩
  refine ⟨response, outcome, hreport, haccepted, fun outcome' h => ?_⟩
  rcases deriveSession_accepted _ _ _ _ _ _ _ _ _ _ _ h with
    ⟨_, _, _, _, -, -, -, -, -, -, hcheck, -⟩
  rcases (checkAttestation_ok_iff _ _ _ _ _).mp hcheck with
    ⟨hnone, -⟩ | ⟨_, _, verify, -, -, hverifier, hverify⟩
  · exact absurd hnone nofun
  · rw [← Option.some.inj hverifier] at hverify
    exact absurd hverify nofun

end SecureLlm
