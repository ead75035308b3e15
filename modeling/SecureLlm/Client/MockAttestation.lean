import SecureLlm.Client.Attestation
import SecureLlm.Crypto.Attestation

/-!
# Reports Under a Shared Secret

The client's half of the mock attestation. A report is whatever its text parses
to, so every field may be missing or of another type, and some of the checks
raise an exception of the language then. None of these paths accepts.

What an accepted report has shown is said of arbitrary texts. That two handshakes
have different reports rests on what is assumed of the hash, of the keyed hash
and of the JSON library, for the texts at hand only.

`loads` is the JSON parser of the standard library and `repr` shows a value in a
message. A text with half a surrogate pair, which JSON can write, stands for any
other text that is not ASCII: nothing here tells the two apart.

## Main definitions

* `VerifyError`: What a verifier raises.
* `MockAttestationVerifier.verify`: The checks of a report.
* `MockAttestationVerifier.asVerifier`: The verifier as the handshake calls it.

## Theorems

* `MockAttestationVerifier.verify_ok`: What an accepted report has shown.
* `MockAttestationVerifier.verify_report`: When a backend's report is accepted.
* `mock_reports_bound`: Reports are bound to their handshake.
-/

namespace SecureLlm

open Library

/-- What a verifier raises: its own error, or an exception of the language. -/
inductive VerifyError where
  | attestationError (message : String)
  | attributeError | keyError | typeError
  | exc (e : Exc)

/-- The counterpart of the mock backend. -/
structure MockAttestationVerifier where
  sharedSecret : Bytes

/-- The value is that text. -/
def Json.isText (value : Option Json) (text : String) : Bool :=
  match value with
  | some (.string s) => s = text
  | _ => false

theorem Json.isText_iff (value : Option Json) (text : String) :
    Json.isText value text = true ↔ value = some (.string text) := by
  cases value with
  | none => simp only [Json.isText, Bool.false_eq_true, reduceCtorEq]
  | some json =>
      cases json with
      | string s => simp only [Json.isText, decide_eq_true_eq, Option.some.injEq, Json.string.injEq]
      | _ => simp only [Json.isText, Bool.false_eq_true, Option.some.injEq, reduceCtorEq]

/-- `left + right` for a text on the left. -/
def concatText (left : String) : Option Json → Except VerifyError String
  | none => .error .keyError
  | some (.string right) => .ok (left ++ right)
  | some _ => .error .typeError

/-- `hmac.compare_digest(expected, mac)` for an ASCII text on the left. -/
def compareDigest (expected : String) : Json → Except VerifyError Bool
  | .string mac =>
    if isAscii mac then .ok (expected = mac) else .error .typeError
  | _ => .error .typeError

variable (crypto : Primitives) (loads : Bytes → Except Exc Json) (repr : Json → String)

/-- The check of the MAC, over the digest and the report's own measurement. -/
def MockAttestationVerifier.checkMac (verifier : MockAttestationVerifier) (userdata : String)
    (data : List (String × Json)) : Except VerifyError Unit := do
  let message ← concatText (userdata ++ "|") (Json.field data "measurement")
  match encodeAscii message with
  | .error e => .error (.exc e)
  | .ok message =>
    let expectedMac := reportMac crypto verifier.sharedSecret message
    if ← compareDigest expectedMac ((Json.field data "mac").getD (.string "")) then .ok ()
    else .error (.attestationError "MAC verification failed")

/-- The checks of a report, in the order they run. -/
def MockAttestationVerifier.verify (verifier : MockAttestationVerifier)
    (blob expectedUserdata : Bytes) (expectedMeasurement : Option String) :
    Except VerifyError Unit :=
  if expectedUserdata.length ≠ userdataLen then
    .error (.attestationError "expected_userdata must be 32 bytes")
  else
    match loads blob with
    | .error (.valueError _) => .error (.attestationError "blob is not valid JSON")
    | .error e => .error (.exc e)
    | .ok (.object data) =>
      if ¬ Json.isText (Json.field data "type") "mock" then
        .error (.attestationError ("unexpected attestation type: "
          ++ repr ((Json.field data "type").getD .null)))
      else if ¬ Json.isText (Json.field data "userdata") (hex expectedUserdata) then
        .error (.attestationError "userdata does not match transcript digest")
      else if ∃ pinned ∈ expectedMeasurement,
          ¬ Json.isText (Json.field data "measurement") pinned then
        .error (.attestationError ("measurement mismatch: got "
          ++ repr ((Json.field data "measurement").getD .null) ++ ", expected "
          ++ repr ((expectedMeasurement.map Json.string).getD .null)))
      -- The digest in the report is the expected one by now.
      else verifier.checkMac crypto (hex expectedUserdata) data
    -- Only an object has the lookup.
    | .ok _ => .error .attributeError

/-- The verifier as the handshake calls it. Exceptions of the language leave the
    handshake as they are; here they are told apart by their text only. -/
def MockAttestationVerifier.asVerifier (verifier : MockAttestationVerifier) :
    AttestationVerifier := fun blob expectedUserdata expectedMeasurement =>
  match verifier.verify crypto loads repr blob expectedUserdata expectedMeasurement with
  | .ok () => .ok ()
  | .error (.attestationError message) => .error message
  | .error .attributeError => .error "AttributeError"
  | .error .keyError => .error "KeyError"
  | .error .typeError => .error "TypeError"
  | .error (.exc e) => .error e.message

/-- The data is that of a report under a secret: about a digest, with some
    measurement of its own, and a MAC over both. -/
structure Reports (secret digest : Bytes) (data : List (String × Json)) (measurement : String) :
    Prop where
  isMock : Json.field data "type" = some (.string "mock")
  bound : Json.field data "userdata" = some (.string (hex digest))
  measured : Json.field data "measurement" = some (.string measurement)
  ascii : ∀ c ∈ measurement.toList, c.toNat < 128
  signed : Json.field data "mac" = some (.string (reportMac crypto secret
    (macMessage digest measurement)))

theorem length_hexChars (b : Bytes) : (hexChars b).length = 2 * b.length := by
  induction b with
  | nil => rfl
  | cons x b ih =>
      rw [hexChars, List.length_cons, List.length_cons, List.length_cons, ih]
      omega

/-- A MAC is not the empty text that a missing one is taken for. -/
theorem reportMac_ne_empty (secret message : Bytes) : reportMac crypto secret message ≠ "" := by
  intro h
  have hlen := congrArg (fun s : String => s.toList.length) h
  simp only [reportMac, hex, String.toList_ofList, length_hexChars, crypto.hmacSha256_length,
    String.toList_empty, List.length_nil] at hlen
  omega

theorem reportMac_ascii (secret message : Bytes) :
    ∀ c ∈ (reportMac crypto secret message).toList, c.toNat < 128 := by
  intro c hc
  rw [reportMac, hex, String.toList_ofList] at hc
  exact toNat_mem_hexChars _ c hc

/-- Comparing digests gives whether they are equal, where both are ASCII texts. -/
theorem compareDigest_true_iff (expected : String) (mac : Json)
    (hascii : ∀ c ∈ expected.toList, c.toNat < 128) :
    compareDigest expected mac = .ok true ↔ mac = .string expected := by
  cases mac with
  | string text =>
      rw [compareDigest, Json.string.injEq]
      split
      · rw [Except.ok.injEq, decide_eq_true_eq]
        exact eq_comm
      · rename_i hother
        constructor
        · intro h
          cases h
        · rintro rfl
          exact absurd ((isAscii_iff _).mpr hascii) hother
  | _ => simp only [compareDigest, reduceCtorEq]

theorem concatText_ok_iff (left : String) (value : Option Json) (text : String) :
    concatText left value = .ok text ↔
      ∃ right, value = some (.string right) ∧ text = left ++ right := by
  cases value with
  | none => simp only [concatText, reduceCtorEq, false_and, exists_false]
  | some json =>
      cases json with
      | string right =>
          constructor
          · intro h
            exact ⟨right, rfl, (Except.ok.inj h).symm⟩
          · rintro ⟨right', hright, rfl⟩
            rw [Json.string.inj (Option.some.inj hright)]
            rfl
      | _ =>
          simp only [concatText, Option.some.injEq, reduceCtorEq, false_and, exists_false]

/-- The check of the MAC passes where the measurement is an ASCII text and the MAC
    is the one over the digest and it. -/
theorem MockAttestationVerifier.checkMac_ok_iff (verifier : MockAttestationVerifier)
    (digest : Bytes) (data : List (String × Json)) :
    verifier.checkMac crypto (hex digest) data = .ok () ↔
      ∃ measurement, Json.field data "measurement" = some (.string measurement) ∧
        (∀ c ∈ measurement.toList, c.toNat < 128) ∧
        Json.field data "mac" = some (.string (reportMac crypto verifier.sharedSecret
          (macMessage digest measurement))) := by
  rw [MockAttestationVerifier.checkMac, bind_ok_iff]
  constructor
  · rintro ⟨message, hmessage, h⟩
    rcases (concatText_ok_iff _ _ _).mp hmessage with ⟨measurement, hmeasured, rfl⟩
    by_cases hall : isAscii (hex digest ++ "|" ++ measurement) = true
    · have hascii : ∀ c ∈ measurement.toList, c.toNat < 128 := by
        intro c hc
        exact (isAscii_iff _).mp hall c (by
          rw [String.toList_append, List.mem_append]
          exact Or.inr hc)
      rw [encodeAscii_message digest measurement hascii] at h
      dsimp only at h
      rw [bind_ok_iff] at h
      rcases h with ⟨same, hsame, h⟩
      cases same with
      | false =>
          rw [if_neg Bool.false_ne_true] at h
          cases h
      | true =>
          have hmac := (compareDigest_true_iff _ _ (reportMac_ascii crypto _ _)).mp hsame
          refine ⟨measurement, hmeasured, hascii, ?_⟩
          cases hfield : Json.field data "mac" with
          | none =>
              -- A missing MAC is the empty text, which no MAC is.
              rw [hfield, Option.getD_none] at hmac
              exact absurd (Json.string.inj hmac).symm (reportMac_ne_empty crypto _ _)
          | some mac =>
              rw [hfield, Option.getD_some] at hmac
              rw [hmac]
    -- A measurement that is not ASCII raises before anything is compared.
    · rw [encodeAscii, if_neg hall] at h
      cases h
  · rintro ⟨measurement, hmeasured, hascii, hmac⟩
    refine ⟨hex digest ++ "|" ++ measurement, ?_, ?_⟩
    · rw [hmeasured]
      rfl
    · rw [encodeAscii_message digest measurement hascii]
      dsimp only
      rw [hmac, Option.getD_some,
        (compareDigest_true_iff _ _ (reportMac_ascii crypto _ _)).mpr rfl]
      rfl

/-- A report is accepted for a digest exactly where it parses to the data of a
    report about that digest, with the pinned measurement if there is one. -/
theorem MockAttestationVerifier.verify_ok_iff (verifier : MockAttestationVerifier)
    (blob digest : Bytes) (pin : Option String) :
    verifier.verify crypto loads repr blob digest pin = .ok () ↔
      digest.length = userdataLen ∧ ∃ data measurement, loads blob = .ok (.object data) ∧
        Reports crypto verifier.sharedSecret digest data measurement ∧
        ∀ pinned ∈ pin, pinned = measurement := by
  constructor
  · intro h
    rw [MockAttestationVerifier.verify] at h
    split at h
    · cases h
    rename_i hlen
    split at h
    · cases h
    · cases h
    · rename_i data hdata
      split at h
      · cases h
      rename_i htype
      split at h
      · cases h
      rename_i huserdata
      split at h
      · cases h
      rename_i hpin
      rw [not_not, Json.isText_iff] at htype huserdata
      rcases (MockAttestationVerifier.checkMac_ok_iff crypto verifier digest data).mp h with
        ⟨measurement, hmeasured, hascii, hmac⟩
      refine ⟨not_not.mp hlen, data, measurement, hdata,
        ⟨htype, huserdata, hmeasured, hascii, hmac⟩, ?_⟩
      intro pinned hpinned
      by_contra hne
      refine hpin ⟨pinned, hpinned, ?_⟩
      rw [Json.isText_iff, hmeasured, Option.some.injEq, Json.string.injEq]
      exact fun heq => hne heq.symm
    · cases h
  · rintro ⟨hlen, data, measurement, hdata, hreports, hpin⟩
    have hnopin : ¬ ∃ pinned ∈ pin, ¬ Json.isText (Json.field data "measurement") pinned := by
      rintro ⟨pinned, hpinned, hne⟩
      rw [Json.isText_iff, hreports.measured, hpin pinned hpinned] at hne
      exact hne rfl
    rw [MockAttestationVerifier.verify, if_neg (not_not.mpr hlen), hdata]
    dsimp only
    rw [if_neg (not_not.mpr ((Json.isText_iff _ _).mpr hreports.isMock)),
      if_neg (not_not.mpr ((Json.isText_iff _ _).mpr hreports.bound)), if_neg hnopin]
    exact (MockAttestationVerifier.checkMac_ok_iff crypto verifier digest data).mpr
      ⟨measurement, hreports.measured, hreports.ascii, hreports.signed⟩

/-- When the data of a generated report is that of a report about a digest. -/
theorem reports_report_iff (backend : MockAttestationBackend) (secret digest digest' : Bytes)
    (measurement : String) (data : List (String × Json))
    (hdata : backend.report crypto digest = .object data) :
    Reports crypto secret digest' data measurement ↔
      digest = digest' ∧ measurement = backend.measurement ∧
        (∀ c ∈ measurement.toList, c.toNat < 128) ∧
        reportMac crypto backend.sharedSecret (macMessage digest backend.measurement)
          = reportMac crypto secret (macMessage digest' measurement) := by
  rw [MockAttestationBackend.report, mockReport, Json.object.injEq] at hdata
  have hfields : Json.field data "type" = some (.string "mock") ∧
      Json.field data "userdata" = some (.string (hex digest)) ∧
      Json.field data "measurement" = some (.string backend.measurement) ∧
      Json.field data "mac" = some (.string (reportMac crypto backend.sharedSecret
        (macMessage digest backend.measurement))) := by
    rw [← hdata]
    exact ⟨rfl, rfl, rfl, rfl⟩
  rcases hfields with ⟨htype, huserdata, hmeasured, hmac⟩
  constructor
  · rintro ⟨-, hbound, hmeas, hascii, hsigned⟩
    rw [huserdata, Option.some.injEq, Json.string.injEq] at hbound
    rw [hmeasured, Option.some.injEq, Json.string.injEq] at hmeas
    rw [hmac, Option.some.injEq, Json.string.injEq] at hsigned
    exact ⟨hex_inj _ _ hbound, hmeas.symm, hascii, hsigned⟩
  · rintro ⟨rfl, rfl, hascii, hsigned⟩
    exact ⟨htype, huserdata, hmeasured, hascii, hsigned ▸ hmac⟩

/-- A generated report is accepted for its own digest, under the same secret, with
    no measurement pinned but its own. -/
theorem MockAttestationVerifier.verify_report (dumps : Json → Bytes)
    (backend : MockAttestationBackend) (verifier : MockAttestationVerifier)
    (digest digest' : Bytes) (pin : Option String)
    (hascii : ∀ c ∈ backend.measurement.toList, c.toNat < 128)
    (hlen : digest'.length = userdataLen)
    (hjson : loads (dumps (backend.report crypto digest)) = .ok (backend.report crypto digest))
    (hmac : crypto.hmacSha256 backend.sharedSecret (macMessage digest backend.measurement)
        = crypto.hmacSha256 verifier.sharedSecret (macMessage digest' backend.measurement) →
      backend.sharedSecret = verifier.sharedSecret ∧
        macMessage digest backend.measurement = macMessage digest' backend.measurement) :
    verifier.verify crypto loads repr (dumps (backend.report crypto digest)) digest' pin = .ok () ↔
      digest = digest' ∧ backend.sharedSecret = verifier.sharedSecret ∧
        (pin = none ∨ pin = some backend.measurement) := by
  rw [MockAttestationVerifier.verify_ok_iff]
  constructor
  · rintro ⟨-, data, measurement, hdata, hreports, hpin⟩
    rw [hjson, Except.ok.injEq] at hdata
    obtain ⟨hdigest, rfl, -, hsame⟩ :=
      (reports_report_iff crypto backend _ digest digest' measurement data hdata).mp hreports
    refine ⟨hdigest, (hmac (hex_inj _ _ hsame)).1, ?_⟩
    cases pin with
    | none => exact Or.inl rfl
    | some pinned => exact Or.inr (congrArg some (hpin pinned rfl))
  · rintro ⟨rfl, hsecret, hpin⟩
    refine ⟨hlen, _, backend.measurement, hjson, (reports_report_iff crypto backend _ digest digest
      backend.measurement _ rfl).mpr ⟨rfl, rfl, hascii, by rw [hsecret]⟩, ?_⟩
    intro pinned hpinned
    rcases hpin with hnone | hsome
    · rw [hnone] at hpinned
      cases hpinned
    · rw [hsome] at hpinned
      exact (Option.some.inj hpinned).symm

/-- A report that a session is derived with commits to the session's transcript:
    one generated for another transcript is refused. -/
theorem deriveSession_report (dumps : Json → Bytes) (backend : MockAttestationBackend)
    (verifier : MockAttestationVerifier) (identity : ClientIdentity) (clientEphSk : Bytes)
    (serverHost : String) (ts : ℤ) (response : HandshakeResponse) (pinned : Bytes)
    (pin : Option String) (required : Bool) (text : String) (blob transcript eph sid : Bytes)
    (htext : response.attestationReport = some text) (hblob : b64d text = .ok blob)
    (hgenerate : backend.generate crypto dumps (crypto.sha256 transcript) = .ok blob)
    (hjson : loads (dumps (backend.report crypto (crypto.sha256 transcript)))
      = .ok (backend.report crypto (crypto.sha256 transcript)))
    (hascii : ∀ c ∈ backend.measurement.toList, c.toNat < 128)
    (heph : b64d response.serverEphemeralPk = .ok eph) (hsid : b64d response.sessionId = .ok sid)
    (outcome : HandshakeOutcome)
    (h : deriveSession crypto identity clientEphSk serverHost ts response pinned
      (some (verifier.asVerifier crypto loads repr)) pin required = .ok outcome) :
    crypto.sha256 transcript = crypto.sha256
      (Client.fullTranscript crypto identity clientEphSk serverHost ts eph pinned sid) := by
  obtain ⟨_, eph', sid', _, -, -, heph', hsid', -, -, hcheck, -⟩ := deriveSession_accepted crypto
    identity clientEphSk serverHost ts response pinned _ pin required outcome h
  rw [Except.ok.inj (heph'.symm.trans heph), Except.ok.inj (hsid'.symm.trans hsid)] at hcheck
  -- With a report in the answer the verifier has accepted it.
  rcases (checkAttestation_ok_iff _ _ _ _ _).mp hcheck with ⟨hnone, -⟩ | hsome
  · rw [htext] at hnone
    cases hnone
  rcases hsome with ⟨text', blob', verify, htext', hblob', hverifier, haccept⟩
  rw [htext, Option.some.injEq] at htext'
  rw [← htext', hblob, Except.ok.injEq] at hblob'
  rw [← Option.some.inj hverifier, ← hblob', MockAttestationVerifier.asVerifier] at haccept
  have hverify : verifier.verify crypto loads repr blob (crypto.sha256 (Client.fullTranscript crypto
      identity clientEphSk serverHost ts eph pinned sid)) pin = .ok () := by
    cases hrun : verifier.verify crypto loads repr blob (crypto.sha256 (Client.fullTranscript crypto
        identity clientEphSk serverHost ts eph pinned sid)) pin with
    | ok u => rfl
    | error e => cases e <;> simp only [hrun, reduceCtorEq] at haccept
  rcases (MockAttestationVerifier.verify_ok_iff crypto loads repr verifier _ _ pin).mp hverify with
    ⟨-, data, measurement, hdata, hreports, -⟩
  rw [MockAttestationBackend.generate_ok crypto dumps backend _ (crypto.sha256_length _) hascii,
    Except.ok.injEq] at hgenerate
  rw [← hgenerate, hjson, Except.ok.injEq] at hdata
  exact ((reports_report_iff crypto backend _ _ _ measurement data hdata).mp hreports).1

/-- **Reports are bound to their handshake.** A generated report is accepted for a
    digest exactly where it is about that digest, under the verifier's secret and
    with no other measurement pinned. Whatever is accepted is the data of a report
    about the digest, with a MAC under that secret over the digest and its own
    measurement. And a session is derived with no report that was generated for
    another transcript. -/
theorem mock_reports_bound (dumps : Json → Bytes) (backend : MockAttestationBackend)
    (verifier : MockAttestationVerifier)
    (hascii : ∀ c ∈ backend.measurement.toList, c.toNat < 128) :
    (∀ (digest digest' : Bytes) (pin : Option String), digest.length = 32 → digest'.length = 32 →
      loads (dumps (backend.report crypto digest)) = .ok (backend.report crypto digest) →
      (crypto.hmacSha256 backend.sharedSecret (macMessage digest backend.measurement)
          = crypto.hmacSha256 verifier.sharedSecret (macMessage digest' backend.measurement) →
        backend.sharedSecret = verifier.sharedSecret ∧
          macMessage digest backend.measurement = macMessage digest' backend.measurement) →
      ∃ blob, backend.generate crypto dumps digest = .ok blob ∧
        (verifier.verify crypto loads repr blob digest' pin = .ok () ↔
          digest = digest' ∧ backend.sharedSecret = verifier.sharedSecret ∧
            (pin = none ∨ pin = some backend.measurement))) ∧
    (∀ (blob digest' : Bytes) (pin : Option String),
      verifier.verify crypto loads repr blob digest' pin = .ok () →
      ∃ data measurement, loads blob = .ok (.object data) ∧
        Reports crypto verifier.sharedSecret digest' data measurement) ∧
    ∀ (identity : ClientIdentity) (clientEphSk : Bytes) (serverHost : String) (ts : ℤ)
      (response : HandshakeResponse) (pinned : Bytes) (pin : Option String) (required : Bool)
      (text : String) (blob transcript eph sid : Bytes),
      response.attestationReport = some text → b64d text = .ok blob →
      backend.generate crypto dumps (crypto.sha256 transcript) = .ok blob →
      loads (dumps (backend.report crypto (crypto.sha256 transcript)))
        = .ok (backend.report crypto (crypto.sha256 transcript)) →
      b64d response.serverEphemeralPk = .ok eph → b64d response.sessionId = .ok sid →
      let full := Client.fullTranscript crypto identity clientEphSk serverHost ts eph pinned sid
      (crypto.sha256 transcript = crypto.sha256 full → transcript = full) →
      transcript ≠ full →
      ∀ outcome, deriveSession crypto identity clientEphSk serverHost ts response pinned
        (some (verifier.asVerifier crypto loads repr)) pin required ≠ .ok outcome := by
  refine ⟨?_, ?_, ?_⟩
  · intro digest digest' pin hlen hlen' hjson hmac
    exact ⟨_, MockAttestationBackend.generate_ok crypto dumps backend digest hlen hascii,
      MockAttestationVerifier.verify_report crypto loads repr dumps backend verifier digest digest'
        pin hascii hlen' hjson hmac⟩
  · intro blob digest' pin h
    obtain ⟨-, data, measurement, hdata, hreports, -⟩ :=
      (MockAttestationVerifier.verify_ok_iff crypto loads repr verifier blob digest' pin).mp h
    exact ⟨data, measurement, hdata, hreports⟩
  · intro identity clientEphSk serverHost ts response pinned pin required text blob transcript eph
      sid htext hblob hgenerate hjson heph hsid full hhash hother outcome h
    exact hother (hhash (deriveSession_report crypto loads repr dumps backend verifier identity
      clientEphSk serverHost ts response pinned pin required text blob transcript eph sid htext
      hblob hgenerate hjson hascii heph hsid outcome h))

/-- An object of plain texts as JSON, without blanks. -/
def dumpsTexts : Json → Bytes
  | .object fields =>
    utf8 ("\x7b" ++ ",".intercalate (fields.map fun field =>
      match field.2 with
      | .string text => "\"" ++ field.1 ++ "\":\"" ++ text ++ "\""
      | _ => "\"" ++ field.1 ++ "\":null") ++ "\x7d")
  | _ => utf8 "null"

/-- A parser that knows some texts. -/
def loadsTexts (known : List Json) (blob : Bytes) : Except Exc Json :=
  match known.find? fun value => dumpsTexts value = blob with
  | some value => .ok value
  | none => .error (.valueError "Expecting value")

theorem loadsTexts_dumpsTexts (value : Json) :
    loadsTexts [value] (dumpsTexts value) = .ok value := by
  rw [loadsTexts, List.find?_cons_of_pos (by rw [decide_eq_true_eq])]

/-- The theorem on a run: a report whose measurement has the separator in it is
    accepted, and the sample client refuses an answer with a report of another
    transcript. -/
theorem mock_reports_bound_sample :
    let backend : MockAttestationBackend := ⟨"m|n", [9]⟩
    let verifier : MockAttestationVerifier := ⟨[9]⟩
    let loads := loadsTexts [backend.report .sample (pad32 [1])]
    let blob := dumpsTexts (backend.report .sample (pad32 [1]))
    let response : HandshakeResponse :=
      { sessionId := b64e (List.replicate 16 7), serverStaticPk := b64e (pad32 [3])
        serverEd25519Pk := b64e [4], serverEphemeralPk := b64e (pad32 [6]), ttlSeconds := 3600
        serverSig := b64e [4], noncePrefixC2s := "", noncePrefixS2c := ""
        attestationReport := some (b64e blob) }
    backend.generate .sample dumpsTexts (pad32 [1]) = .ok blob ∧
      verifier.verify .sample loads (fun _ => "") blob (pad32 [1]) (some "m|n") = .ok () ∧
      ∀ outcome, deriveSession .sample .sample [5] "h" 100 response (pad32 [3])
        (some (verifier.asVerifier .sample loads fun _ => "")) (some "m|n") true
          ≠ .ok outcome := by
  intro backend verifier loads blob response
  have hascii : ∀ c ∈ backend.measurement.toList, c.toNat < 128 := (isAscii_iff _).mp (by decide)
  have hthm := mock_reports_bound .sample loads (fun _ => "") dumpsTexts backend verifier hascii
  have hjson := loadsTexts_dumpsTexts (backend.report .sample (pad32 [1]))
  obtain ⟨blob', hgenerate, haccept⟩ := hthm.1 (pad32 [1]) (pad32 [1]) (some "m|n")
    (length_pad32 _) (length_pad32 _) hjson fun _ => ⟨rfl, rfl⟩
  have hblob : blob = blob' := Except.ok.inj ((MockAttestationBackend.generate_ok .sample
    dumpsTexts backend (pad32 [1]) (length_pad32 _) hascii).symm.trans hgenerate)
  rw [← hblob] at hgenerate haccept
  refine ⟨hgenerate, haccept.mpr ⟨rfl, rfl, Or.inr rfl⟩, ?_⟩
  refine hthm.2.2 .sample [5] "h" 100 response (pad32 [3]) (some "m|n") true (b64e blob) blob [1]
    (pad32 [6]) (List.replicate 16 7) rfl (b64d_b64e _) hgenerate hjson (b64d_b64e _) (b64d_b64e _)
    ?_ ?_
  · intro hhash
    have hfirst : (Primitives.sample.sha256 [1]).head? ≠ (Primitives.sample.sha256
        (Client.fullTranscript .sample .sample [5] "h" 100 (pad32 [6]) (pad32 [3])
          (List.replicate 16 7))).head? := by decide
    exact absurd (congrArg List.head? hhash) hfirst
  · intro hsame
    have hfirst : ([1] : Bytes).head? ≠ (Client.fullTranscript .sample .sample [5] "h" 100
        (pad32 [6]) (pad32 [3]) (List.replicate 16 7)).head? := by decide
    exact absurd (congrArg List.head? hsame) hfirst

end SecureLlm
