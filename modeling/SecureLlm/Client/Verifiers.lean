import SecureLlm.Client.Calls
import SecureLlm.Client.MockAttestation

/-!
# Handshakes Whose Verifier May Raise Anything

`derive_session` catches the verifier's own error and no other, so whatever else a
verifier raises leaves the handshake as it is. Here the verifier says which it is,
where in `SecureLlm.Client.Handshake` its error is all it raises; for such a verifier
the two are the same.

The handshake fails with an error of the client's own on the paths that the source
provides for: a status that is not 200, another key, a bad signature, a report that is
refused, wrong prefixes. What is neither is said by `Derivable`.

## Main definitions

* `ReportVerifier`: A verifier.
* `VerifyError.raised`: What the handshake makes of what it raises.
* `deriveSessionRaising`: `derive_session` with such a verifier.
* `Derivable`: The answer does not lead to an exception of another kind.

## Theorems

* `deriveSessionRaising_eq`: The same for a verifier that raises only its own error.
* `deriveSessionRaising_typed_iff`: When it raises only errors of the client's own.
* `MockAttestationVerifier.verify_typed_iff`: When the mock verifier does.
-/

namespace SecureLlm

open Library Client

/-- A verifier, which raises what it likes. -/
abbrev ReportVerifier : Type :=
  (blob expectedUserdata : Bytes) → (expectedMeasurement : Option String) → Except VerifyError Unit

/-- A verifier that raises only its own error. -/
def AttestationVerifier.raising (verify : AttestationVerifier) : ReportVerifier :=
  fun blob expectedUserdata expectedMeasurement =>
    (verify blob expectedUserdata expectedMeasurement).mapError .attestationError

/-- What leaves the handshake. Its own error is turned into one of the client's, and
    nothing else is caught. -/
def VerifyError.raised : VerifyError → Raised
  | .attestationError message => .exc (.serverKeyMismatch ("attestation failed: " ++ message))
  | .attributeError => .attributeError
  | .keyError => .exc .keyError
  | .typeError => .typeError
  | .exc e => .exc e

/-- The check of an attestation report, or of its absence. -/
def checkReport (attestationReport : Option String) (verifier : Option ReportVerifier)
    (pinnedMeasurement : Option String) (attestationRequired : Bool) (digest : Bytes) :
    Except Raised Unit :=
  match attestationReport with
  | some report =>
    match verifier with
    | none => .error (.exc (.serverKeyMismatch
        "server attached an attestation report but no verifier is configured client-side"))
    | some verify => do
      let blob ← (b64d report).mapError .exc
      (verify blob digest pinnedMeasurement).mapError VerifyError.raised
  | none =>
    if attestationRequired then .error (.exc (.serverKeyMismatch
      "attestation_required=True but server returned no attestation report"))
    else .ok ()

variable (crypto : Primitives)

/-- The end of `derive_session`, which does not come to the verifier: the keys, and the
    prefixes that the answer has announced. -/
def sessionKeys (ikm fullTranscript sessionId serverStatic : Bytes)
    (response : HandshakeResponse) : Except Exc HandshakeOutcome := do
  let keystream ← Client.hkdf crypto ikm fullTranscript (utf8 "secure-llm session keys v1")
    (32 + 32 + 4 + 4)
  let (c2s, s2c) ← Client.deriveDirections keystream
  if hex c2s.noncePrefix ≠ response.noncePrefixC2s then
    .error (.handshakeFailed "nonce_prefix_c2s mismatch")
  else if hex s2c.noncePrefix ≠ response.noncePrefixS2c then
    .error (.handshakeFailed "nonce_prefix_s2c mismatch")
  else
    return {
      sessionId := sessionId
      c2s := c2s
      s2c := s2c
      ttlSeconds := response.ttlSeconds
      serverStaticPk := serverStatic }

/-- `derive_session` from where the fields of the answer are decoded. -/
def deriveDecoded (identity : ClientIdentity) (clientEphSk : Bytes) (serverHost : String)
    (handshakeRequestTs : ℤ) (response : HandshakeResponse) (pinnedServerStaticPk : Bytes)
    (attestationVerifier : Option ReportVerifier) (pinnedMeasurement : Option String)
    (attestationRequired : Bool) (serverStatic serverEd25519 serverEph sessionId sig : Bytes) :
    Except Raised HandshakeOutcome :=
  if serverStatic ≠ pinnedServerStaticPk then
    .error (.exc (.serverKeyMismatch ("server key mismatch: expected "
      ++ shortHex pinnedServerStaticPk ++ " got " ++ shortHex serverStatic)))
  else
    let fullTranscript := Client.fullTranscript crypto identity clientEphSk serverHost
      handshakeRequestTs serverEph serverStatic sessionId
    if ¬ crypto.verify serverEd25519 fullTranscript sig then
      .error (.exc (.handshakeFailed "server signature invalid"))
    else do
      checkReport response.attestationReport attestationVerifier pinnedMeasurement
        attestationRequired (crypto.sha256 fullTranscript)
      let dh1 ← (scalarmult crypto clientEphSk serverEph).mapError .exc
      let dh2 ← (scalarmult crypto identity.x25519Sk serverStatic).mapError .exc
      (sessionKeys crypto (dh1 ++ dh2) fullTranscript sessionId serverStatic response).mapError .exc

/-- `derive_session`. -/
def deriveSessionRaising (identity : ClientIdentity) (clientEphSk : Bytes) (serverHost : String)
    (handshakeRequestTs : ℤ) (response : HandshakeResponse) (pinnedServerStaticPk : Bytes)
    (attestationVerifier : Option ReportVerifier) (pinnedMeasurement : Option String)
    (attestationRequired : Bool) : Except Raised HandshakeOutcome := do
  let serverStatic ← (b64d response.serverStaticPk).mapError .exc
  let serverEd25519 ← (b64d response.serverEd25519Pk).mapError .exc
  let serverEph ← (b64d response.serverEphemeralPk).mapError .exc
  let sessionId ← (b64d response.sessionId).mapError .exc
  let sig ← (b64d response.serverSig).mapError .exc
  deriveDecoded crypto identity clientEphSk serverHost handshakeRequestTs response
    pinnedServerStaticPk attestationVerifier pinnedMeasurement attestationRequired serverStatic
    serverEd25519 serverEph sessionId sig

/-- A verifier that raises only its own error makes no difference. -/
theorem checkReport_raising (report : Option String) (verifier : Option AttestationVerifier)
    (measurement : Option String) (required : Bool) (digest : Bytes) :
    checkReport report (verifier.map AttestationVerifier.raising) measurement required digest
      = (checkAttestation report verifier measurement required digest).mapError .exc := by
  cases report with
  | none =>
      cases required with
      | true => rfl
      | false => rfl
  | some text =>
      cases verifier with
      | none => rfl
      | some verify =>
          rw [Option.map_some]
          unfold checkReport checkAttestation
          dsimp only
          rw [mapError_bind]
          congr 1
          funext blob
          rw [AttestationVerifier.raising]
          cases verify blob digest measurement with
          | ok u => rfl
          | error message => rfl

/-- And neither does it to the handshake. -/
theorem deriveSessionRaising_eq (identity : ClientIdentity) (clientEphSk : Bytes)
    (serverHost : String) (ts : ℤ) (response : HandshakeResponse) (pinned : Bytes)
    (verifier : Option AttestationVerifier) (measurement : Option String) (required : Bool) :
    deriveSessionRaising crypto identity clientEphSk serverHost ts response pinned
        (verifier.map AttestationVerifier.raising) measurement required
      = (deriveSession crypto identity clientEphSk serverHost ts response pinned verifier
          measurement required).mapError .exc := by
  have hfull : ∀ static eph sid, joinBytes 0 [Client.transcript identity.x25519Pk
      (crypto.publicKey clientEphSk) (utf8 serverHost) ts, utf8 "server_eph", eph,
      utf8 "server_static", static, utf8 "session", sid]
        = Client.fullTranscript crypto identity clientEphSk serverHost ts eph static sid :=
    fun _ _ _ => rfl
  unfold deriveSessionRaising deriveDecoded sessionKeys deriveSession
  simp only [mapError_bind, checkReport_raising, hfull, apply_ite (Except.mapError Raised.exc),
    mapError_error, mapError_pure]

/-! ## Which errors leave the handshake -/

/-- The text of a report decodes, and the verifier raises nothing but its own error, or
    one of the client's. -/
def ReportReadable (report : Option String) (verifier : Option ReportVerifier)
    (measurement : Option String) (digest : Bytes) : Prop :=
  ∀ text verify, report = some text → verifier = some verify → ∃ blob, b64d text = .ok blob ∧
    RaisesOnly (fun e => e.raised.typed = true) (verify blob digest measurement)

/-- There is no report and none is required, or it is accepted. -/
def ReportAccepted (report : Option String) (verifier : Option ReportVerifier)
    (measurement : Option String) (required : Bool) (digest : Bytes) : Prop :=
  (report = none ∧ required = false) ∨ ∃ text blob verify, report = some text ∧
    b64d text = .ok blob ∧ verifier = some verify ∧ verify blob digest measurement = .ok ()

/-- The fields of the answer decode. If it is signed for the pinned key its report is
    readable, and if that is good the server's keys have a shared secret with the
    client's. -/
def Derivable (identity : ClientIdentity) (clientEphSk : Bytes) (serverHost : String) (ts : ℤ)
    (response : HandshakeResponse) (pinned : Bytes) (verifier : Option ReportVerifier)
    (measurement : Option String) (required : Bool) : Prop :=
  ∃ static ed25519 eph sid sig, b64d response.serverStaticPk = .ok static ∧
    b64d response.serverEd25519Pk = .ok ed25519 ∧ b64d response.serverEphemeralPk = .ok eph ∧
    b64d response.sessionId = .ok sid ∧ b64d response.serverSig = .ok sig ∧
    ∀ full, full = Client.fullTranscript crypto identity clientEphSk serverHost ts eph static sid →
      static = pinned → crypto.verify ed25519 full sig = true →
        ReportReadable response.attestationReport verifier measurement (crypto.sha256 full) ∧
        (ReportAccepted response.attestationReport verifier measurement required
            (crypto.sha256 full) →
          (crypto.scalarmult clientEphSk eph).isSome ∧
            (crypto.scalarmult identity.x25519Sk static).isSome)

/-- A field that does not decode raises as it does. -/
theorem raisesOnly_b64d_bind {α : Type} (s : String) (f : Bytes → Except Raised α) :
    RaisesOnly (fun e => e.typed = true) ((b64d s).mapError .exc >>= f) ↔
      ∃ b, b64d s = .ok b ∧ RaisesOnly (fun e => e.typed = true) (f b) := by
  rw [raisesOnly_bind, raisesOnly_mapError]
  unfold b64d
  cases b64decode true s with
  | none => simp [Raised.typed]
  | some b => simp

/-- So does a key without a shared secret. -/
theorem raisesOnly_scalarmult_bind {α : Type} (sk pk : Bytes) (f : Bytes → Except Raised α) :
    RaisesOnly (fun e => e.typed = true) ((scalarmult crypto sk pk).mapError .exc >>= f) ↔
      ∃ shared, crypto.scalarmult sk pk = some shared ∧
        RaisesOnly (fun e => e.typed = true) (f shared) := by
  rw [raisesOnly_bind, raisesOnly_mapError]
  unfold scalarmult
  cases crypto.scalarmult sk pk with
  | none => simp [Raised.typed]
  | some shared => simp

theorem raisesOnly_checkReport (report : Option String) (verifier : Option ReportVerifier)
    (measurement : Option String) (required : Bool) (digest : Bytes) :
    RaisesOnly (fun e => e.typed = true)
        (checkReport report verifier measurement required digest) ↔
      ReportReadable report verifier measurement digest := by
  unfold checkReport ReportReadable
  cases report with
  | none =>
      cases required with
      | true => simp [Raised.typed]
      | false => simp
  | some text =>
      cases verifier with
      | none => simp [Raised.typed]
      | some verify =>
          dsimp only
          rw [raisesOnly_b64d_bind]
          simp [raisesOnly_mapError]

theorem checkReport_ok_iff (report : Option String) (verifier : Option ReportVerifier)
    (measurement : Option String) (required : Bool) (digest : Bytes) :
    checkReport report verifier measurement required digest = .ok () ↔
      ReportAccepted report verifier measurement required digest := by
  unfold checkReport ReportAccepted
  cases report with
  | none =>
      cases required with
      | true => simp
      | false => simp
  | some text =>
      cases verifier with
      | none => simp
      | some verify =>
          dsimp only
          rw [bind_ok_iff]
          simp [mapError_eq_ok_iff]

/-- Where there are two shared secrets, only the prefixes can be wrong. -/
theorem raisesOnly_sessionKeys (ikm full sid static : Bytes) (response : HandshakeResponse) :
    RaisesOnly (fun e => (Raised.exc e).typed = true)
      (sessionKeys crypto ikm full sid static response) := by
  rcases hkdf_length crypto ikm full sessionKeysInfo 72 (by decide) with ⟨keystream, hks, hlen⟩
  rcases deriveDirections_ok keystream hlen with ⟨c2s, s2c, hdirs⟩
  unfold sessionKeys
  rw [sessionKeysInfo] at hks
  rw [Client.hkdf_eq crypto ikm full _ _ (by decide), hks, raisesOnly_bind]
  refine ⟨raisesOnly_ok _, fun keystream' hsame => ?_⟩
  rw [← Except.ok.inj hsame, Client.deriveDirections_eq, hdirs, raisesOnly_bind]
  refine ⟨raisesOnly_ok _, fun directions _ => ?_⟩
  dsimp only
  split
  · exact (raisesOnly_error _).mpr rfl
  · split
    · exact (raisesOnly_error _).mpr rfl
    · exact raisesOnly_ok _

/-- Past the fields, the question is which of the branches is come to. -/
theorem raisesOnly_deriveDecoded (identity : ClientIdentity) (clientEphSk : Bytes)
    (serverHost : String) (ts : ℤ) (response : HandshakeResponse) (pinned : Bytes)
    (verifier : Option ReportVerifier) (measurement : Option String) (required : Bool)
    (static ed25519 eph sid sig : Bytes) :
    RaisesOnly (fun e => e.typed = true) (deriveDecoded crypto identity clientEphSk serverHost ts
        response pinned verifier measurement required static ed25519 eph sid sig) ↔
      ∀ full, full = Client.fullTranscript crypto identity clientEphSk serverHost ts eph static
          sid →
        static = pinned → crypto.verify ed25519 full sig = true →
          ReportReadable response.attestationReport verifier measurement (crypto.sha256 full) ∧
          (ReportAccepted response.attestationReport verifier measurement required
              (crypto.sha256 full) →
            (crypto.scalarmult clientEphSk eph).isSome ∧
              (crypto.scalarmult identity.x25519Sk static).isSome) := by
  rw [forall_eq]
  unfold deriveDecoded
  dsimp only
  by_cases hpinned : static = pinned
  · subst hpinned
    rw [if_neg (not_not_intro rfl)]
    by_cases hverify : crypto.verify ed25519 (Client.fullTranscript crypto identity clientEphSk
        serverHost ts eph static sid) sig = true
    · rw [if_neg (not_not_intro hverify), raisesOnly_bind, raisesOnly_checkReport]
      simp only [raisesOnly_scalarmult_bind, raisesOnly_mapError, raisesOnly_sessionKeys,
        and_true, hverify, true_imp_iff]
      refine and_congr_right fun _ => ?_
      rw [← checkReport_ok_iff]
      constructor
      · intro h hok
        rcases h () hok with ⟨dh1, hdh1, dh2, hdh2⟩
        exact ⟨Option.isSome_of_eq_some hdh1, Option.isSome_of_eq_some hdh2⟩
      · intro h u hok
        rcases h hok with ⟨hdh1, hdh2⟩
        rcases Option.isSome_iff_exists.mp hdh1 with ⟨dh1, hdh1⟩
        rcases Option.isSome_iff_exists.mp hdh2 with ⟨dh2, hdh2⟩
        exact ⟨dh1, hdh1, dh2, hdh2⟩
    · rw [if_pos hverify, raisesOnly_error]
      exact iff_of_true rfl fun _ h => absurd h hverify
  · rw [if_pos hpinned, raisesOnly_error]
    exact iff_of_true rfl fun h => absurd h hpinned

/-- **When the handshake raises only errors of the client's own.** -/
theorem deriveSessionRaising_typed_iff (identity : ClientIdentity) (clientEphSk : Bytes)
    (serverHost : String) (ts : ℤ) (response : HandshakeResponse) (pinned : Bytes)
    (verifier : Option ReportVerifier) (measurement : Option String) (required : Bool) :
    RaisesOnly (fun e => e.typed = true) (deriveSessionRaising crypto identity clientEphSk
        serverHost ts response pinned verifier measurement required) ↔
      Derivable crypto identity clientEphSk serverHost ts response pinned verifier measurement
        required := by
  unfold deriveSessionRaising Derivable
  simp only [raisesOnly_b64d_bind, raisesOnly_deriveDecoded]
  constructor
  · rintro ⟨static, hstatic, ed25519, hed, eph, heph, sid, hsid, sig, hsig, h⟩
    exact ⟨static, ed25519, eph, sid, sig, hstatic, hed, heph, hsid, hsig, h⟩
  · rintro ⟨static, ed25519, eph, sid, sig, hstatic, hed, heph, hsid, hsig, h⟩
    exact ⟨static, hstatic, ed25519, hed, eph, heph, sid, hsid, sig, hsig, h⟩

/-! ## The mock verifier -/

namespace MockAttestationVerifier

variable (loads : Bytes → Except Exc Json) (repr : Json → String)

/-- The MAC of a report is checked without an exception of the language: it is over a
    measurement that is a text, and compared with one, and both are ASCII. -/
def MacReadable (userdata : String) (data : List (String × Json)) : Prop :=
  ∃ measurement mac, Json.field data "measurement" = some (.string measurement) ∧
    isAscii (userdata ++ "|" ++ measurement) = true ∧
    (Json.field data "mac").getD (.string "") = .string mac ∧ isAscii mac = true

theorem compareDigest_typed_iff (expected : String) (mac : Json) :
    RaisesOnly (fun e => e.raised.typed = true) (compareDigest expected mac) ↔
      ∃ text, mac = .string text ∧ isAscii text = true := by
  unfold compareDigest
  cases mac with
  | string text =>
      by_cases hascii : isAscii text = true
      · simp [hascii]
      · simp [hascii, VerifyError.raised, Raised.typed]
  | _ => simp [VerifyError.raised, Raised.typed]

theorem checkMac_typed_iff (verifier : MockAttestationVerifier) (userdata : String)
    (data : List (String × Json)) :
    RaisesOnly (fun e => e.raised.typed = true) (verifier.checkMac crypto userdata data) ↔
      MacReadable userdata data := by
  unfold checkMac MacReadable
  rw [raisesOnly_bind]
  cases hmeasured : Json.field data "measurement" with
  | none => simp [concatText, VerifyError.raised, Raised.typed]
  | some json =>
      cases json with
      | string measurement =>
          simp only [concatText, raisesOnly_ok, true_and, Except.ok.injEq, forall_eq']
          unfold encodeAscii
          by_cases hascii : isAscii (userdata ++ "|" ++ measurement) = true
          · rw [if_pos hascii]
            dsimp only
            -- Whether the MAC is right makes no difference here.
            have hverdict : ∀ same : Bool, RaisesOnly (fun e => e.raised.typed = true)
                (if same = true then .ok ()
                else .error (VerifyError.attestationError "MAC verification failed")) := by
              intro same
              cases same with
              | true => exact raisesOnly_ok ()
              | false => exact (raisesOnly_error _).mpr rfl
            rw [raisesOnly_bind, compareDigest_typed_iff, and_iff_left fun same _ => hverdict same]
            constructor
            · rintro ⟨text, htext, htextAscii⟩
              exact ⟨measurement, text, rfl, hascii, htext, htextAscii⟩
            · rintro ⟨_, text, -, -, htext, htextAscii⟩
              exact ⟨text, htext, htextAscii⟩
          · rw [if_neg hascii]
            simp [VerifyError.raised, Raised.typed, hascii]
      | _ => simp [concatText, VerifyError.raised, Raised.typed]

/-- A report of the mock kind is read without an exception of the language: it is no
    JSON, or an object, and where it comes to the MAC, that is readable. -/
def BlobReadable (blob digest : Bytes) (measurement : Option String) : Prop :=
  digest.length ≠ userdataLen ∨ (∃ message, loads blob = .error (.valueError message)) ∨
    ∃ data, loads blob = .ok (.object data) ∧
      (Json.isText (Json.field data "type") "mock" = true →
        Json.isText (Json.field data "userdata") (hex digest) = true →
        (∀ pinned ∈ measurement, Json.isText (Json.field data "measurement") pinned = true) →
        MacReadable (hex digest) data)

/-- **When the mock verifier raises only its own error.** -/
theorem verify_typed_iff (verifier : MockAttestationVerifier) (blob digest : Bytes)
    (measurement : Option String)
    (hloads : RaisesOnly (fun e => (Raised.exc e).typed = false) (loads blob)) :
    RaisesOnly (fun e => e.raised.typed = true)
        (verifier.verify crypto loads repr blob digest measurement) ↔
      BlobReadable loads blob digest measurement := by
  unfold BlobReadable
  unfold verify
  by_cases hlength : digest.length = userdataLen
  · rw [if_neg (not_not_intro hlength)]
    cases hload : loads blob with
    | error e =>
        cases e with
        | valueError message =>
            dsimp only
            rw [raisesOnly_error]
            exact iff_of_true rfl (.inr (.inl ⟨message, rfl⟩))
        | _ =>
            have huntyped := hloads _ hload
            simp_all [VerifyError.raised]
    | ok json =>
        cases json with
        | object data =>
            simp only [hlength, ne_eq, not_true_eq_false, false_or, reduceCtorEq, exists_false,
              Except.ok.injEq, Json.object.injEq, exists_eq_left']
            by_cases htype : Json.isText (Json.field data "type") "mock" = true
            · by_cases huserdata :
                  Json.isText (Json.field data "userdata") (hex digest) = true
              · by_cases hmeasured : ∃ pinned ∈ measurement,
                    ¬ Json.isText (Json.field data "measurement") pinned = true
                · rw [if_neg (not_not_intro htype), if_neg (not_not_intro huserdata),
                    if_pos hmeasured, raisesOnly_error]
                  refine iff_of_true rfl fun _ _ hall => ?_
                  rcases hmeasured with ⟨pinned, hpinned, hno⟩
                  exact absurd (hall pinned hpinned) hno
                · rw [if_neg (not_not_intro htype), if_neg (not_not_intro huserdata),
                    if_neg hmeasured, checkMac_typed_iff]
                  refine ⟨fun h _ _ _ => h, fun h => h htype huserdata fun pinned hpinned => ?_⟩
                  by_contra hno
                  exact hmeasured ⟨pinned, hpinned, hno⟩
              · rw [if_neg (not_not_intro htype), if_pos huserdata, raisesOnly_error]
                exact iff_of_true rfl fun _ h => absurd h huserdata
            · rw [if_pos htype, raisesOnly_error]
              exact iff_of_true rfl fun h => absurd h htype
        | _ => simp [VerifyError.raised, Raised.typed, hlength]
  · rw [if_pos hlength, raisesOnly_error]
    exact iff_of_true rfl (.inl hlength)

end MockAttestationVerifier

end SecureLlm
