import SecureLlm.Client.Verifiers

/-!
# Which Errors Leave the Client

The errors of the client are a hierarchy that its callers match on, so what a server
does should show as one of them. It does on the paths that were thought of. An answer
that is malformed further in raises whatever parses it: the schema of the handshake,
the decoder of its fields, the verifier, the key exchange, the JSON parser, the lookup
of a code, and in a stream an envelope that does not open.

Each of these is a condition on what the server has sent, given the session and the
replay check of the moment.

`validate` is the schema of the handshake's answer and `loads` the JSON parser. Neither
raises an error of the client's own. That the connection fails is left out.

## Main definitions

* `RaisingTransport`: A transport whose verifier may raise anything.
* `HandshakeReadable`, `AnswerReadable`, `LineReadable`: What a server has sent is read
  without an exception of another kind.
* `Sealable`: An envelope can be made.

## Theorems

* `doHandshake_raising`: The handshake of the transport, where the verifier raises only
  its own error.
* `doHandshake_typed_iff`, `decodeResponse_typed_iff`: One handshake, and one answer.
* `sealEnvelope_typed_iff`: One envelope of the client's own.
-/

namespace SecureLlm

open Library Transition

namespace Client

/-- The settings of a transport whose verifier may raise anything. -/
structure RaisingTransport where
  base : String
  identity : ClientIdentity
  pinned : Bytes
  attestationVerifier : Option ReportVerifier
  pinnedMeasurement : Option String
  attestationRequired : Bool

end Client

open Client

/-- A verifier that raises only its own error is one that may raise anything. -/
def Transport.raising (transport : Transport) : RaisingTransport where
  base := transport.base
  identity := transport.identity
  pinned := transport.pinned
  attestationVerifier := transport.attestationVerifier.map AttestationVerifier.raising
  pinnedMeasurement := transport.pinnedMeasurement
  attestationRequired := transport.attestationRequired

namespace Client

section

variable (crypto : Primitives) (netloc : String → String)
  (validate : Bytes → Option HandshakeResponse)

/-- `HandshakeResponse.model_validate_json(r.content)`. -/
def validated (r : Response) : Except Exc HandshakeResponse :=
  match validate r.content with
  | none => .error (.valueError "validation error for HandshakeResponse")
  | some response => .ok response

/-- `_do_handshake`, from where the answer is there. -/
def RaisingTransport.doHandshake (transport : RaisingTransport) (ephSk : Bytes) (ts : ℤ)
    (r : Response) : Except Raised HandshakeOutcome :=
  if r.statusCode ≠ 200 then
    .error (.exc (.handshakeFailed ("handshake failed: " ++ toString r.statusCode)))
  else do
    let response ← (validated validate r).mapError .exc
    deriveSessionRaising crypto transport.identity ephSk (netloc transport.base) ts response
      transport.pinned transport.attestationVerifier transport.pinnedMeasurement
      transport.attestationRequired

/-- The answer of a handshake is an error, or it passes the schema and can be derived
    from. -/
def HandshakeReadable (transport : RaisingTransport) (ephSk : Bytes) (ts : ℤ) (r : Response) :
    Prop :=
  r.statusCode = 200 → ∃ response, validate r.content = some response ∧
    Derivable crypto transport.identity ephSk (netloc transport.base) ts response transport.pinned
      transport.attestationVerifier transport.pinnedMeasurement transport.attestationRequired

/-- It is the handshake of the transport if the verifier raises only its own error. -/
theorem doHandshake_raising (transport : Transport) (ephSk : Bytes) (ts : ℤ) (r : Response) :
    transport.raising.doHandshake crypto netloc validate ephSk ts r =
      ((transport.doHandshake crypto netloc ephSk ts
        (fun _ => ⟨r.statusCode, validated validate r⟩)).map SessionState.outcome).mapError
          .exc := by
  unfold RaisingTransport.doHandshake Transport.doHandshake
  dsimp only
  by_cases hstatus : r.statusCode = 200
  · rw [if_neg (not_not_intro hstatus), if_neg (not_not_intro hstatus)]
    cases validated validate r with
    | error e => rfl
    | ok response =>
        refine (deriveSessionRaising_eq crypto transport.identity ephSk (netloc transport.base) ts
          response transport.pinned transport.attestationVerifier transport.pinnedMeasurement
          transport.attestationRequired).trans ?_
        simp only [bind, Except.bind]
        cases deriveSession crypto transport.identity ephSk (netloc transport.base) ts response
          transport.pinned transport.attestationVerifier transport.pinnedMeasurement
          transport.attestationRequired with
        | error e => rfl
        | ok outcome => rfl
  · rw [if_pos hstatus, if_pos hstatus]
    rfl

theorem doHandshake_typed_iff (transport : RaisingTransport) (ephSk : Bytes) (ts : ℤ)
    (r : Response) :
    RaisesOnly (fun e => e.typed = true) (transport.doHandshake crypto netloc validate ephSk ts r) ↔
      HandshakeReadable crypto netloc validate transport ephSk ts r := by
  unfold RaisingTransport.doHandshake HandshakeReadable validated
  by_cases hstatus : r.statusCode = 200
  · rw [if_neg (not_not_intro hstatus), raisesOnly_bind, raisesOnly_mapError]
    cases validate r.content with
    | none => simp [Raised.typed, hstatus]
    | some response =>
        simp only [mapError_eq_ok_iff, raisesOnly_ok, true_and, Except.ok.injEq, forall_eq',
          deriveSessionRaising_typed_iff, hstatus, Option.some.injEq, exists_eq_left', true_imp_iff]
  · rw [if_pos hstatus, raisesOnly_error]
    exact iff_of_true rfl fun h => absurd h hstatus

end

/-! ## Answers -/

section

variable (aead : Aead) (loads : Bytes → Except Exc Json)

/-- An error in plain JSON has a code that there is, at the top or under `detail`. -/
def PlainReadable (content : Bytes) : Prop :=
  ∃ data err code, loads content = .ok (.object data) ∧
    (Json.field data "detail").getD (.object data) = .object err ∧
    ErrorCode.ofJson ((Json.field err "code").getD (.string ErrorCode.internalError.value))
      = some code

/-- What an envelope holds is JSON. If it is an error it is an object, and its code, if
    it has one, is one that there is. -/
def PayloadReadable (statusCode : ℕ) (plaintext : Bytes) : Prop :=
  ∃ data, parsePayload loads plaintext = .ok data ∧
    (400 ≤ statusCode ∨ looksLikeError data = true → ∃ fields, data = .object fields ∧
      ∀ value, (Json.field fields "code").filter Json.truthy = some value →
        (ErrorCode.ofJson value).isSome)

/-- An answer is an error in plain JSON that is readable, or what it holds is, if it
    opens and is not a replay. -/
def AnswerReadable (r : Response) (outcome : HandshakeOutcome) (method path : String)
    (replay : ReplayClient) : Prop :=
  r.statusCode ≠ 204 →
    (startsWith r.contentType "application/json" = true → PlainReadable loads r.content) ∧
    (¬ startsWith r.contentType "application/json" = true →
      startsWith r.contentType "application/octet-stream" = true →
      ∀ env plaintext, Client.openEnvelope aead outcome.s2c outcome.sessionId method.toUpper path
        r.content = .ok (env, plaintext) → (env.counter : ℤ) ∉ replay.seen →
        PayloadReadable loads r.statusCode plaintext)

variable {aead loads} (hloads : ∀ content, RaisesOnly (fun e => (Raised.exc e).typed = false)
  (loads content))

include hloads

theorem plainError_typed_iff (content : Bytes) :
    (plainError loads content).typed = true ↔ PlainReadable loads content := by
  unfold plainError PlainReadable
  cases hload : loads content with
  | error e => simp [hloads content e hload]
  | ok json =>
      cases json with
      | object data =>
          simp only [Except.ok.injEq, Json.object.injEq]
          cases herr : (Json.field data "detail").getD (.object data) with
          | object err =>
              dsimp only
              cases hcode : ErrorCode.ofJson ((Json.field err "code").getD
                (.string ErrorCode.internalError.value)) with
              | none => simp [Raised.typed, herr, hcode]
              | some code => simp [Raised.typed, herr, hcode]
          | _ => simp [Raised.typed, herr]
      | _ => simp [Raised.typed]

theorem parsePayload_typed_iff (plaintext : Bytes) :
    RaisesOnly (fun e => e.typed = true) (parsePayload loads plaintext) ↔
      ∃ data, parsePayload loads plaintext = .ok data := by
  unfold parsePayload
  by_cases hempty : plaintext.isEmpty = true
  · simp [hempty]
  · rw [if_neg hempty]
    cases hload : loads plaintext with
    | error e => simp [hloads plaintext e hload]
    | ok data => simp

theorem interpret_typed_iff (statusCode : ℕ) (plaintext : Bytes) :
    RaisesOnly (fun e => e.typed = true) (interpret loads statusCode plaintext) ↔
      PayloadReadable loads statusCode plaintext := by
  unfold interpret PayloadReadable
  rw [raisesOnly_bind, parsePayload_typed_iff hloads]
  cases hparse : parsePayload loads plaintext with
  | error e => simp
  | ok data =>
      simp only [Except.ok.injEq, exists_eq', true_and, forall_eq', exists_eq_left']
      by_cases herror : 400 ≤ statusCode ∨ looksLikeError data = true
      · rw [if_pos herror]
        simp only [herror, true_imp_iff]
        cases data with
        | object fields =>
            dsimp only
            simp only [Json.object.injEq, exists_eq_left']
            generalize (Json.field fields "code").filter Json.truthy = code
            cases code with
            | none => simp
            | some value =>
                simp only [Option.some.injEq, forall_eq']
                -- Both ways a code is known lead to an error of the client's own.
                split
                · rename_i hcode
                  simp [Raised.typed, hcode]
                · rename_i hcode
                  simp [Raised.typed, hcode]
                · rename_i hcode
                  simp [Raised.typed, hcode]
        | _ => simp [Raised.typed]
      · rw [if_neg herror]
        exact iff_of_true (raisesOnly_ok _) fun h => absurd h herror

omit hloads

/-- A counter of eight bytes and a method that can be encoded have additional data. -/
theorem buildAad_ok {method : String} (hmethod : ∃ verb, encodeMethod method = .ok verb)
    (path : String) (sid : Bytes) {counter : ℕ} (hcounter : counter < 2 ^ 64) :
    ∃ aad, buildAad method path sid counter = .ok aad := by
  rcases hmethod with ⟨verb, hverb⟩
  have hpow : 256 ^ counterBytes = 2 ^ 64 := rfl
  rw [buildAad, hverb, intToBytes_natCast counterBytes counter (by omega)]
  exact ⟨_, rfl⟩

/-- Where the method can be encoded, an envelope that does not open is one error. -/
theorem openEnvelope_error {direction : DirectionKeys} {sid content : Bytes}
    {method path : String} {e : Exc} (hmethod : ∃ verb, encodeMethod method = .ok verb)
    (h : Client.openEnvelope aead direction sid method path content = .error e) :
    ∃ message, e = .envelopeAuthError message := by
  unfold Client.openEnvelope at h
  cases hunpack : unpackEnvelope content with
  | error e' =>
      rw [hunpack] at h
      exact ⟨_, (Except.error.inj h).symm⟩
  | ok env =>
      rw [hunpack] at h
      dsimp only at h
      split at h
      · exact ⟨_, (Except.error.inj h).symm⟩
      -- The counter was read from eight bytes, so there is additional data.
      · have hwf := (unpackEnvelope_eq_ok content env hunpack).1
        rcases buildAad_ok hmethod path env.sessionId hwf.counter with ⟨aad, haad⟩
        rw [haad] at h
        dsimp only at h
        split at h
        · exact ⟨_, (Except.error.inj h).symm⟩
        · cases h

include hloads in
theorem decodeResponse_typed_iff (r : Response) (outcome : HandshakeOutcome)
    (method path : String) (replay : ReplayClient)
    (hmethod : ∃ verb, encodeMethod method.toUpper = .ok verb) :
    RaisesOnly (fun e => e.typed = true)
        (decodeResponse aead loads r outcome method path replay).1 ↔
      AnswerReadable aead loads r outcome method path replay := by
  unfold decodeResponse openResponse AnswerReadable
  by_cases hstatus : r.statusCode = 204
  · simp [hstatus]
  rw [if_neg hstatus]
  by_cases hjson : startsWith r.contentType "application/json" = true
  -- What is plain JSON is always an error, and it is read to see which.
  · rw [if_pos hjson]
    dsimp only
    rw [raisesOnly_error, plainError_typed_iff hloads]
    simp [hstatus, hjson]
  rw [if_neg hjson]
  by_cases hoctets : startsWith r.contentType "application/octet-stream" = true
  · rw [if_neg (not_not_intro hoctets)]
    simp only [hstatus, ne_eq, not_false_eq_true, true_imp_iff, hjson, hoctets, Bool.false_eq_true,
      false_imp_iff, true_and]
    cases hopen : Client.openEnvelope aead outcome.s2c outcome.sessionId method.toUpper path
        r.content with
    | error e =>
        -- Here the error of the envelope is turned into one of the client's.
        rcases openEnvelope_error hmethod hopen with ⟨message, rfl⟩
        simp [Raised.typed, raiseError]
    | ok opened =>
        rcases opened with ⟨env, plaintext⟩
        dsimp only
        rw [ReplayClient.check_eq]
        by_cases hseen : (env.counter : ℤ) ∈ replay.seen
        · simp [hseen, Raised.typed, raiseError]
        · rw [if_neg hseen]
          simp [interpret_typed_iff hloads, hseen]
  · rw [if_pos hoctets]
    dsimp only
    rw [raisesOnly_error]
    simp [Raised.typed, hjson, hoctets]

/-! ## Lines, and envelopes of the client's own -/

/-- What an event of a stream carries, if it is not the end and decodes. -/
def carried (line : String) : Option Bytes :=
  if line = "" then none
  else if startsWith line ":" then none
  else if ¬ startsWith line "data:" then none
  else
    let data := strip (String.ofList (line.toList.drop 5))
    if data = "[DONE]" then none else b64decode true data

variable (aead loads) in
/-- What an event carries opens, and if it is not a replay it holds JSON. -/
def LineReadable (outcome : HandshakeOutcome) (method path : String) (replay : ReplayClient)
    (line : String) : Prop :=
  ∀ raw, carried line = some raw → ∃ env plaintext,
    Client.openEnvelope aead outcome.s2c outcome.sessionId method.toUpper path raw
      = .ok (env, plaintext) ∧
    ((env.counter : ℤ) ∉ replay.seen → ∃ data, parsePayload loads plaintext = .ok data)

/-- A line that carries something is an event. -/
theorem carried_eq_some {line : String} {raw : Bytes} (h : carried line = some raw) :
    line ≠ "" ∧ ¬ startsWith line ":" = true ∧ startsWith line "data:" = true ∧
      strip (String.ofList (line.toList.drop 5)) ≠ "[DONE]" ∧
      b64decode true (strip (String.ofList (line.toList.drop 5))) = some raw := by
  unfold carried at h
  split at h
  · cases h
  rename_i hempty
  split at h
  · cases h
  rename_i hcomment
  split at h
  · cases h
  rename_i hdata
  dsimp only at h
  split at h
  · cases h
  rename_i hdone
  exact ⟨hempty, hcomment, not_not.mp hdata, hdone, h⟩

variable (aead) in
/-- It is read as its envelope is. -/
theorem readLine_of_carried (outcome : HandshakeOutcome) (method path : String) {line : String}
    {raw : Bytes} (h : carried line = some raw) :
    (∀ e, Client.openEnvelope aead outcome.s2c outcome.sessionId method.toUpper path raw
        = .error e → Client.readLine aead outcome method path line = .failed (.exc e)) ∧
    ∀ env plaintext, Client.openEnvelope aead outcome.s2c outcome.sessionId method.toUpper path raw
        = .ok (env, plaintext) →
      Client.readLine aead outcome method path line = .sealed env.counter plaintext := by
  rcases carried_eq_some h with ⟨hempty, hcomment, hdata, hdone, hraw⟩
  unfold Client.readLine
  rw [if_neg hempty, if_neg hcomment, if_neg (not_not_intro hdata)]
  dsimp only
  rw [if_neg hdone, hraw]
  dsimp only
  constructor
  · intro e hopen
    rw [hopen]
  · intro env plaintext hopen
    rw [hopen]

variable (aead) in
/-- One that carries nothing is passed over, or ends the stream, or does not decode. -/
theorem readLine_of_none (outcome : HandshakeOutcome) (method path : String) {line : String}
    (h : carried line = none) :
    Client.readLine aead outcome method path line = .skipped ∨
      Client.readLine aead outcome method path line = .done ∨
      ∃ e, Client.readLine aead outcome method path line = .failed e ∧ e.typed = true := by
  unfold carried at h
  unfold Client.readLine
  split
  · exact .inl rfl
  split
  · exact .inl rfl
  split
  · exact .inl rfl
  rename_i hempty hcomment hdata
  rw [if_neg hempty, if_neg hcomment, if_neg hdata] at h
  dsimp only at h ⊢
  split
  · exact .inr (.inl rfl)
  · rename_i hdone
    rw [if_neg hdone] at h
    rw [h]
    exact .inr (.inr ⟨_, rfl, rfl⟩)

/-- The counter fits eight bytes, the session's identifier has its length, and the
    method can be encoded. -/
def Sealable (counter : ℤ) (sid : Bytes) (method : String) : Prop :=
  0 ≤ counter ∧ counter < 2 ^ 64 ∧ sid.length = sessionIdBytes ∧
    ∃ verb, encodeMethod method = .ok verb

variable (aead) in
/-- What can be sealed is sealed, and nothing else is. -/
theorem sealable_iff (direction : DirectionKeys) (counter : ℤ) (sid : Bytes)
    (method path : String) (plaintext : Bytes) :
    Sealable counter sid method ↔
      ∃ body, Client.sealEnvelope aead direction counter sid method path plaintext = .ok body := by
  rw [Client.sealEnvelope_eq]
  simp only [sealEnvelope_eq_ok_iff]
  constructor
  · rintro ⟨hnonneg, hlt, hsid, hmethod⟩
    have hnonce := (nonceFor_eq_ok_iff direction counter _).mpr ⟨hnonneg, hlt, rfl⟩
    have hlen := length_nonceFor direction counter _ hnonce
    rcases Int.eq_ofNat_of_zero_le hnonneg with ⟨n, rfl⟩
    have hn : n < 2 ^ 64 := by omega
    rcases buildAad_ok hmethod path sid hn with ⟨aad, haad⟩
    exact ⟨_, _, aad, hnonce, haad, packEnvelope_natCast sid n _ _ hsid hlen hn⟩
  · rintro ⟨body, nonce, aad, hnonce, haad, hbody⟩
    rcases (nonceFor_eq_ok_iff direction counter nonce).mp hnonce with ⟨hnonneg, hlt, -⟩
    rcases buildAad_eq_ok method path sid counter aad haad with ⟨-, -, verb, hverb, -⟩
    refine ⟨hnonneg, hlt, ?_, verb, hverb⟩
    -- Nothing before the framing looks at the length of the identifier.
    by_contra hsid
    rcases packEnvelope_of_not sid counter nonce (aead.encrypt plaintext aad nonce direction.key)
      (fun h => hsid h.1) with ⟨message, herror⟩
    rw [herror] at hbody
    cases hbody

/-- None of the ways in which sealing fails is an error of the client's own. -/
theorem sealEnvelope_untyped (direction : DirectionKeys) (counter : ℤ) (sid : Bytes)
    (method path : String) (plaintext : Bytes) :
    RaisesOnly (fun e => (Raised.exc e).typed = false)
      (Client.sealEnvelope aead direction counter sid method path plaintext) := by
  have hcount : ∀ n, RaisesOnly (fun e => (Raised.exc e).typed = false) (intToBytes n counter) := by
    intro n
    unfold intToBytes
    split
    · exact (raisesOnly_error _).mpr rfl
    · split
      · exact raisesOnly_ok _
      · exact (raisesOnly_error _).mpr rfl
  have hmethod : RaisesOnly (fun e => (Raised.exc e).typed = false) (encodeMethod method) := by
    unfold encodeMethod
    split
    · exact raisesOnly_ok _
    · exact (raisesOnly_error _).mpr rfl
  unfold Client.sealEnvelope
  rw [raisesOnly_bind]
  constructor
  · unfold Client.nonceFor
    split
    · exact (raisesOnly_error _).mpr rfl
    · exact (raisesOnly_bind _ _).mpr ⟨hcount 8, fun _ _ => raisesOnly_ok _⟩
  · intro nonce _
    rw [raisesOnly_bind]
    constructor
    · unfold buildAad
      refine (raisesOnly_bind _ _).mpr ⟨hcount _, fun _ _ => ?_⟩
      exact (raisesOnly_bind _ _).mpr ⟨hmethod, fun _ _ => raisesOnly_ok _⟩
    · intro aad _
      unfold packEnvelope
      split
      · exact (raisesOnly_error _).mpr rfl
      split
      · exact (raisesOnly_error _).mpr rfl
      split
      · exact (raisesOnly_error _).mpr rfl
      · exact (raisesOnly_bind _ _).mpr ⟨hcount _, fun _ _ => raisesOnly_ok _⟩

variable (aead) in
theorem sealEnvelope_typed_iff (direction : DirectionKeys) (counter : ℤ) (sid : Bytes)
    (method path : String) (plaintext : Bytes) :
    RaisesOnly (fun e => (Raised.exc e).typed = true)
        (Client.sealEnvelope aead direction counter sid method path plaintext) ↔
      Sealable counter sid method := by
  rw [sealable_iff aead direction counter sid method path plaintext]
  constructor
  · intro htyped
    cases hseal : Client.sealEnvelope aead direction counter sid method path plaintext with
    | ok body => exact ⟨body, rfl⟩
    | error e =>
        have huntyped : (Raised.exc e).typed = false :=
          sealEnvelope_untyped direction counter sid method path plaintext e hseal
        exact absurd (htyped e hseal) (Bool.eq_false_iff.mp huntyped)
  · rintro ⟨body, hbody⟩
    rw [hbody]
    exact raisesOnly_ok body

end

end Client

end SecureLlm
