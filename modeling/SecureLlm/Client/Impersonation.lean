import SecureLlm.Client.Attestation

/-!
# Impersonating a Server to a Client

What the client checks of the server's identity is that its static X25519 key is
the pinned one, which is public, and that the answer is signed under the key the
answer itself brings. The rest is the key derivation, and of its two shared
secrets one belongs to the client's ephemeral key and the attacker's, and the
other, of the two static keys, can be computed from the client's secret as well
as from the server's. So whoever has stolen a client's static secret can answer
that client as any server, with no secret of the server's.

Only attestation stands in the way, where it is required.

## Main definitions

* `OwnSecrets`: What an attacker chooses.
* `Attacker`: What an attacker is: a function of what it knows.
* `impersonate`: The attack.
* `Obtainable`: The answers an attacker can give.

## Theorems

* `impersonate_accepted`: The attack goes through.
* `no_kci_resistance`: When a client withstands the theft of its secret.
-/

namespace SecureLlm

open Library

/-- What an attacker chooses: key pairs of its own, a session id and a lifetime,
    and a report to show. -/
structure OwnSecrets where
  ephSk : Bytes
  ed25519Sk : Bytes
  sessionId : Bytes
  ttlSeconds : ℤ
  report : Option String

/-- An attacker makes an answer from a client's static secret, the public values
    of its handshake, the server's public keys, and what it chooses. -/
abbrev Attacker : Type :=
  (clientStaticSk clientStaticPk clientEphPk : Bytes) → (serverHost : String) → (timestamp : ℤ) →
    (serverX25519Pk serverEd25519Pk : Bytes) → OwnSecrets → Except Exc HandshakeResponse

variable (crypto : Primitives)

/-- Derive what the server would derive, the static secret from the client's
    side, and sign with a key of one's own. -/
def impersonate : Attacker :=
  fun clientStaticSk clientStaticPk clientEphPk serverHost timestamp serverX25519Pk _ own => do
    let fullTranscript := serverTranscript
      (Client.transcript clientStaticPk clientEphPk (utf8 serverHost) timestamp)
      (crypto.publicKey own.ephSk) serverX25519Pk own.sessionId
    let dh1 ← scalarmult crypto own.ephSk clientEphPk
    let dh2 ← scalarmult crypto clientStaticSk serverX25519Pk
    let keystream ← hkdf crypto (dh1 ++ dh2) fullTranscript sessionKeysInfo 72
    let (c2s, s2c) ← deriveDirections keystream
    return {
      sessionId := b64e own.sessionId
      serverStaticPk := b64e serverX25519Pk
      serverEd25519Pk := b64e (crypto.verifyKey own.ed25519Sk)
      serverEphemeralPk := b64e (crypto.publicKey own.ephSk)
      ttlSeconds := own.ttlSeconds
      serverSig := b64e (crypto.sign own.ed25519Sk fullTranscript)
      noncePrefixC2s := hex c2s.noncePrefix
      noncePrefixS2c := hex s2c.noncePrefix
      attestationReport := own.report }

section Client

variable (identity : ClientIdentity) (clientEphSk : Bytes) (serverHost : String) (ts : ℤ)
  (server : ServerIdentity)

/-- The digest a report has to commit to. -/
def reportDigest (ephSk sid : Bytes) : Bytes :=
  crypto.sha256 (Client.fullTranscript crypto identity clientEphSk serverHost ts
    (crypto.publicKey ephSk) server.x25519Pk sid)

/-- An answer with the attacker's ephemeral key, and with a report it can get
    for the transcript, if any. -/
structure Obtainable (reports : Bytes → Set Bytes) (own : OwnSecrets)
    (response : HandshakeResponse) : Prop where
  ephemeral : b64d response.serverEphemeralPk = .ok (crypto.publicKey own.ephSk)
  report : ∀ text blob sid, response.attestationReport = some text → b64d text = .ok blob →
    b64d response.sessionId = .ok sid →
    blob ∈ reports (reportDigest crypto identity clientEphSk serverHost ts server own.ephSk sid)

variable (verifier : Option AttestationVerifier) (measurement : Option String) (required : Bool)
  (hserver : server.Matches crypto)
  (hcomm : ∀ a b, crypto.scalarmult a (crypto.publicKey b)
    = crypto.scalarmult b (crypto.publicKey a))
  (hdh : ∀ a b, (crypto.scalarmult a (crypto.publicKey b)).isSome)
  (hverify : ∀ sk message, crypto.verify (crypto.verifyKey sk) message (crypto.sign sk message)
    = true)

include hserver hcomm hdh hverify

/-- The attack goes through wherever the attestation check does. -/
theorem impersonate_accepted (own : OwnSecrets)
    (hattested : checkAttestation own.report verifier measurement required
      (reportDigest crypto identity clientEphSk serverHost ts server own.ephSk own.sessionId)
        = .ok ()) :
    ∃ response outcome,
      impersonate crypto identity.x25519Sk identity.x25519Pk (crypto.publicKey clientEphSk)
        serverHost ts server.x25519Pk server.ed25519Pk own = .ok response ∧
      response.attestationReport = own.report ∧ response.sessionId = b64e own.sessionId ∧
      response.serverEphemeralPk = b64e (crypto.publicKey own.ephSk) ∧
      deriveSession crypto identity clientEphSk serverHost ts response server.x25519Pk verifier
        measurement required = .ok outcome := by
  rcases Option.isSome_iff_exists.mp (hdh own.ephSk clientEphSk) with ⟨dh1, hdh1⟩
  rcases Option.isSome_iff_exists.mp (hdh identity.x25519Sk server.x25519Sk) with ⟨dh2, hdh2⟩
  rw [← hserver.x25519] at hdh2
  generalize hfull : serverTranscript (Client.transcript identity.x25519Pk
    (crypto.publicKey clientEphSk) (utf8 serverHost) ts) (crypto.publicKey own.ephSk)
    server.x25519Pk own.sessionId = full
  rcases hkdf_length crypto (dh1 ++ dh2) full sessionKeysInfo 72 (by decide) with
    ⟨keystream, hks, hlen⟩
  rcases deriveDirections_ok keystream hlen with ⟨c2s, s2c, hdirs⟩
  have hclient := deriveSession_ok crypto identity clientEphSk serverHost ts own.ttlSeconds
    own.report verifier measurement required server.x25519Pk (crypto.verifyKey own.ed25519Sk)
    (crypto.publicKey own.ephSk) own.sessionId (crypto.sign own.ed25519Sk full) dh1 dh2 full
    keystream c2s s2c hfull (hverify _ _) (hfull ▸ hattested) (by rw [hcomm, hdh1]) hdh2 hks hdirs
  refine ⟨_, _, ?_, ?_, ?_, ?_, hclient⟩
  · -- The attacker derives the same keys from its own side.
    simp only [impersonate, scalarmult, hdh1, hdh2, hfull, hks, hdirs, bind, Except.bind, pure,
      Except.pure]
  · rfl
  · rfl
  · rfl

/-- **A stolen client secret impersonates the server.** A client that pins a
    server accepts no attacker's answer, if and only if it requires attestation
    and its verifier accepts no report that the attacker can get. -/
theorem no_kci_resistance (reports : Bytes → Set Bytes) :
    (∀ (attacker : Attacker) (own : OwnSecrets) (response : HandshakeResponse),
      attacker identity.x25519Sk identity.x25519Pk (crypto.publicKey clientEphSk) serverHost ts
        server.x25519Pk server.ed25519Pk own = .ok response →
      Obtainable crypto identity clientEphSk serverHost ts server reports own response →
      ∀ outcome, deriveSession crypto identity clientEphSk serverHost ts response server.x25519Pk
        verifier measurement required ≠ .ok outcome) ↔
    required = true ∧ ∀ verify, verifier = some verify → ∀ ephSk sid,
      ∀ blob ∈ reports (reportDigest crypto identity clientEphSk serverHost ts server ephSk sid),
        verify blob (reportDigest crypto identity clientEphSk serverHost ts server ephSk sid)
          measurement ≠ .ok () := by
  have hattack : ∀ own : OwnSecrets,
      checkAttestation own.report verifier measurement required
        (reportDigest crypto identity clientEphSk serverHost ts server own.ephSk own.sessionId)
          = .ok () →
      (∀ text blob, own.report = some text → b64d text = .ok blob → blob ∈ reports
        (reportDigest crypto identity clientEphSk serverHost ts server own.ephSk own.sessionId)) →
      ¬ ∀ (attacker : Attacker) (own : OwnSecrets) (response : HandshakeResponse),
        attacker identity.x25519Sk identity.x25519Pk (crypto.publicKey clientEphSk) serverHost ts
          server.x25519Pk server.ed25519Pk own = .ok response →
        Obtainable crypto identity clientEphSk serverHost ts server reports own response →
        ∀ outcome, deriveSession crypto identity clientEphSk serverHost ts response
          server.x25519Pk verifier measurement required ≠ .ok outcome := by
    intro own hattested hreports h
    rcases impersonate_accepted crypto identity clientEphSk serverHost ts server verifier
      measurement required hserver hcomm hdh hverify own hattested with
      ⟨response, outcome, hmade, hreport, hsid, heph, haccepted⟩
    refine h (impersonate crypto) own response hmade ⟨?_, fun text blob sid htext hblob hs => ?_⟩
      outcome haccepted
    · rw [heph, b64d_b64e]
    · rw [hsid, b64d_b64e, Except.ok.injEq] at hs
      rw [← hs]
      exact hreports text blob (hreport ▸ htext) hblob
  constructor
  · intro h
    refine ⟨?_, fun verify hv ephSk sid blob hblob hok => ?_⟩
    · -- Where no report is required, none is shown.
      by_contra hrequired
      refine hattack ⟨[], [], [], 0, none⟩ ?_ nofun h
      exact (checkAttestation_ok_iff _ _ _ _ _).mpr (Or.inl ⟨rfl, Bool.not_eq_true _ ▸ hrequired⟩)
    · refine hattack ⟨ephSk, [], sid, 0, some (b64e blob)⟩ ?_ (fun text blob' htext hb => ?_) h
      · exact (checkAttestation_ok_iff _ _ _ _ _).mpr
          (Or.inr ⟨b64e blob, blob, verify, rfl, b64d_b64e blob, hv, hok⟩)
      · rw [← Option.some.inj htext, b64d_b64e, Except.ok.injEq] at hb
        rw [← hb]
        exact hblob
  · rintro ⟨hrequired, hrefused⟩ attacker own response - hobtainable outcome haccepted
    rcases deriveSession_accepted crypto identity clientEphSk serverHost ts response
      server.x25519Pk verifier measurement required outcome haccepted with
      ⟨_, eph, sid, _, -, -, heph, hsid, -, -, hattested, -⟩
    have heq : eph = crypto.publicKey own.ephSk :=
      Except.ok.inj (heph.symm.trans hobtainable.ephemeral)
    rw [heq] at hattested
    rcases (checkAttestation_ok_iff _ _ _ _ _).mp hattested with
      ⟨-, hnot⟩ | ⟨text, blob, verify, htext, hblob, hv, hok⟩
    · rw [hrequired] at hnot
      exact absurd hnot nofun
    · exact hrefused verify hv own.ephSk sid blob
        (hobtainable.report text blob sid htext hblob hsid) hok

end Client

/-- A server, to run the model on. -/
def ServerIdentity.sample : ServerIdentity := ⟨[3], pad32 [3], [4], [4]⟩

/-- The sample client takes the attacker's answer for its server's. -/
theorem impersonate_sample :
    ∃ response outcome,
      impersonate .sample [1] (pad32 [1]) (pad32 [5]) "h" 100 (pad32 [3]) [4]
        ⟨[6], [7], List.replicate 16 7, 3600, none⟩ = .ok response ∧
      deriveSession .sample .sample [5] "h" 100 response (pad32 [3]) none none false
        = .ok outcome := by
  rcases impersonate_accepted .sample .sample [5] "h" 100 .sample none none false ⟨rfl, rfl⟩
    Primitives.sample_comm (fun _ _ => rfl) (fun _ _ => beq_self_eq_true _)
    ⟨[6], [7], List.replicate 16 7, 3600, none⟩ rfl with
    ⟨response, outcome, hmade, -, -, -, haccepted⟩
  exact ⟨response, outcome, hmade, haccepted⟩

/-- So the sample client does not withstand the theft, with any reports or
    none. -/
theorem no_kci_resistance_sample :
    ¬ ∀ (attacker : Attacker) (own : OwnSecrets) (response : HandshakeResponse),
      attacker [1] (pad32 [1]) (pad32 [5]) "h" 100 (pad32 [3]) [4] own = .ok response →
      Obtainable .sample .sample [5] "h" 100 .sample (fun _ => ∅) own response →
      ∀ outcome, deriveSession .sample .sample [5] "h" 100 response (pad32 [3]) none none false
        ≠ .ok outcome := by
  intro h
  have hrequired := ((no_kci_resistance .sample .sample [5] "h" 100 .sample none none false
    ⟨rfl, rfl⟩ Primitives.sample_comm (fun _ _ => rfl) (fun _ _ => beq_self_eq_true _)
    (fun _ => ∅)).mp h).1
  exact absurd hrequired nofun

end SecureLlm
