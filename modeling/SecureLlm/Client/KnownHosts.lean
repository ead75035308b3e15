import SecureLlm.Client.Attestation
import SecureLlm.Client.Transport

/-!
# Known Hosts

The file of pinned servers, and the client that is built from it. An entry may
pin a measurement and may require attestation. The client looks its server up
and takes the key of the entry; the transport it builds has neither the
measurement nor the flag, and no verifier.

So a client built from the file never asks for a report, whatever the file says.

## Main definitions

* `HostRow`, `HostEntry`: An entry as it stands in the file, and as it is loaded.
* `loadHosts`: Reading the file.
* `SecureLLMClient.new`: Building a client.
* `Attested`: A response with a report that was verified.

## Theorems

* `client_of_lookup`: What a client takes from its entry.
* `doHandshake_new`: Such a client takes an answer without a report.
* `known_hosts_policy_dropped`: When the policy of an entry is kept.
-/

namespace SecureLlm

open Library

/-- An entry of the file. -/
structure HostRow where
  host : Option String
  x25519Pk : Option String
  measurement : Option String
  attestationRequired : Option Bool

structure HostEntry where
  host : String
  x25519Pk : Bytes
  measurement : Option String := none
  attestationRequired : Bool := false
  deriving DecidableEq

/-- `entry[key]`. -/
def required {α : Type} : Option α → Except Exc α
  | some a => .ok a
  | none => .error .keyError

def HostRow.load (row : HostRow) : Except Exc HostEntry := do
  let host ← required row.host
  let text ← required row.x25519Pk
  match b64decode false text with
  | none => .error .binasciiError
  | some x25519Pk => return {
      host, x25519Pk
      measurement := row.measurement
      attestationRequired := row.attestationRequired.getD false }

/-- The entries by host; a later one replaces an earlier one. A file that does
    not exist has none. -/
def loadHosts : Option (List HostRow) → Except Exc (Dict String HostEntry)
  | none => .ok Dict.empty
  | some rows => rows.foldlM (fun out row => do
      let entry ← row.load
      return out.set entry.host entry) Dict.empty

def lookupHost (file : Option (List HostRow)) (host : String) : Except Exc (Option HostEntry) := do
  let hosts ← loadHosts file
  return hosts.get? host

/-- What follows the first `://`. -/
def afterScheme : List Char → Option (List Char)
  | [] => none
  | c :: cs => if "://".toList.isPrefixOf (c :: cs) then some (cs.drop 2) else afterScheme cs

/-- `base_url.split("://", 1)[-1]`. -/
def hostOfUrl (baseUrl : String) : String :=
  String.ofList ((afterScheme baseUrl.toList).getD baseUrl.toList)

/-- `SecureLLMClient.__init__`: the key that is given, or else the one of the
    server's entry. `repr` shows a text in a message. -/
def SecureLLMClient.new (repr : String → String) (baseUrl : String) (identity : ClientIdentity)
    (serverPubkey : Option Bytes) (knownHosts : Option (String × Option (List HostRow))) :
    Except Exc Transport := do
  let pinned ← match serverPubkey with
    | some pinned => .ok pinned
    | none =>
      match knownHosts with
      | none => .error (.serverKeyMismatch ("no pinned server_pubkey and no known_hosts_path; "
          ++ "use `sllm trust <host> <pubkey>` first"))
      | some (path, file) => do
        let host := hostOfUrl baseUrl
        match ← lookupHost file host with
        | none => .error (.serverKeyMismatch
            ("host " ++ repr host ++ " not in " ++ path ++ "; trust it first"))
        | some entry => .ok entry.x25519Pk
  return Transport.new baseUrl identity pinned

/-- A client takes the key of its entry, and nothing else. -/
theorem client_of_lookup (repr : String → String) (baseUrl : String) (identity : ClientIdentity)
    (path : String) (file : Option (List HostRow)) (entry : HostEntry)
    (h : lookupHost file (hostOfUrl baseUrl) = .ok (some entry)) :
    SecureLLMClient.new repr baseUrl identity none (some (path, file)) =
      .ok (Transport.new baseUrl identity entry.x25519Pk) := by
  simp only [SecureLLMClient.new, h, bind, Except.bind, pure, Except.pure]

/-- A client with a key alone takes an answer that is good without a report. -/
theorem doHandshake_new (crypto : Primitives) (netloc : String → String) (baseUrl : String)
    (identity : ClientIdentity) (pinned ephSk : Bytes) (ts : ℤ) (response : HandshakeResponse)
    (outcome : HandshakeOutcome)
    (h : deriveSession crypto identity ephSk (netloc (stripSlashes baseUrl)) ts response pinned
      none none false = .ok outcome) :
    (Transport.new baseUrl identity pinned).doHandshake crypto netloc ephSk ts
      (fun _ => ⟨200, .ok response⟩) = .ok ⟨outcome, 0, 0⟩ := by
  simp only [Transport.doHandshake, Transport.new, bind, Except.bind, h]
  rfl

/-- The response carries a report that the transport's verifier has accepted for
    the transcript and a measurement. -/
def Attested (crypto : Primitives) (netloc : String → String) (transport : Transport)
    (ephSk : Bytes) (ts : ℤ) (measurement : Option String) (response : HandshakeResponse) : Prop :=
  ∃ eph sid text blob verify, b64d response.serverEphemeralPk = .ok eph ∧
    b64d response.sessionId = .ok sid ∧ response.attestationReport = some text ∧
    b64d text = .ok blob ∧ transport.attestationVerifier = some verify ∧
    verify blob (crypto.sha256 (Client.fullTranscript crypto transport.identity ephSk
      (netloc transport.base) ts eph transport.pinned sid)) measurement = .ok ()

/-- **The policy of an entry is dropped.** A client built from the file, for an
    entry that requires attestation or pins a measurement, accepts no answer
    without a verified report, if and only if it accepts none at all: its
    secret and the pinned key have no shared secret. -/
theorem known_hosts_policy_dropped (crypto : Primitives) (netloc repr : String → String)
    (hdh : ∀ a b, (crypto.scalarmult a (crypto.publicKey b)).isSome)
    (hverify : ∀ sk message, crypto.verify (crypto.verifyKey sk) message (crypto.sign sk message)
      = true)
    (baseUrl : String) (identity : ClientIdentity) (path : String)
    (file : Option (List HostRow)) (entry : HostEntry)
    (hentry : lookupHost file (hostOfUrl baseUrl) = .ok (some entry))
    (_hpolicy : entry.attestationRequired = true ∨ entry.measurement.isSome) (ephSk : Bytes)
    (ts : ℤ) :
    ∃ transport,
      SecureLLMClient.new repr baseUrl identity none (some (path, file)) = .ok transport ∧
      ((∀ post response state,
        transport.doHandshake crypto netloc ephSk ts post = .ok state →
        (∀ req, (post req).response = .ok response) →
          Attested crypto netloc transport ephSk ts entry.measurement response) ↔
        crypto.scalarmult identity.x25519Sk entry.x25519Pk = none) := by
  refine ⟨_, client_of_lookup repr baseUrl identity path file entry hentry, ?_⟩
  constructor
  · intro h
    -- An answer without a report is accepted whenever the key exchange works.
    by_contra hdh2
    rcases exists_accepted crypto identity ephSk (netloc (stripSlashes baseUrl)) ts 0
      entry.x25519Pk [] [] [] none none none false hverify (hdh _ _)
      (Option.isSome_iff_ne_none.mpr hdh2) rfl with ⟨response, outcome, hreport, haccepted⟩
    have hstate := doHandshake_new crypto netloc baseUrl identity entry.x25519Pk ephSk ts response
      outcome haccepted
    rcases h _ response _ hstate (fun _ => rfl) with ⟨_, _, _, _, verify, -, -, -, -, hv, -⟩
    exact absurd hv nofun
  · intro hnone post response state hstate hresponse
    rw [Transport.doHandshake] at hstate
    split at hstate
    · exact absurd hstate nofun
    rw [hresponse] at hstate
    simp only [bind_ok_iff] at hstate
    rcases hstate with ⟨response', -, outcome, haccepted, -⟩
    rcases deriveSession_accepted crypto _ _ _ _ _ _ _ _ _ _ haccepted with
      ⟨_, _, _, _, -, -, -, -, -, -, -, hdh2⟩
    have hsome : (crypto.scalarmult identity.x25519Sk entry.x25519Pk).isSome := hdh2
    rw [hnone] at hsome
    exact absurd hsome nofun

/-- A file that requires attestation of its one server. -/
def sampleHosts : Option (List HostRow) :=
  some [⟨some "h:1", some (b64e (pad32 [3])), none, some true⟩]

/-- Its client accepts an answer without a report. -/
theorem known_hosts_report_omitted :
    ∃ entry transport response state,
      lookupHost sampleHosts (hostOfUrl "https://h:1") = .ok (some entry) ∧
      entry.attestationRequired = true ∧
      SecureLLMClient.new id "https://h:1" .sample none (some ("known_hosts.toml", sampleHosts))
        = .ok transport ∧
      response.attestationReport = none ∧
      transport.doHandshake .sample id [5] 100 (fun _ => ⟨200, .ok response⟩) = .ok state := by
  have hentry : lookupHost sampleHosts (hostOfUrl "https://h:1")
      = .ok (some ⟨"h:1", pad32 [3], none, true⟩) := by decide +kernel
  rcases exists_accepted .sample .sample [5] "https://h:1" 100 3600 (pad32 [3]) [6] [4]
    (List.replicate 16 7) none none none false (fun _ _ => beq_self_eq_true _) rfl rfl rfl with
    ⟨response, outcome, hreport, haccepted⟩
  refine ⟨_, _, response, ⟨outcome, 0, 0⟩, hentry, rfl, client_of_lookup _ _ _ _ _ _ hentry,
    hreport, ?_⟩
  refine doHandshake_new _ _ _ _ _ _ _ _ _ ?_
  rw [show stripSlashes "https://h:1" = "https://h:1" by decide +kernel]
  exact haccepted

/-- So it does not keep to the policy. -/
theorem known_hosts_policy_dropped_sample :
    ∃ transport,
      SecureLLMClient.new id "https://h:1" .sample none (some ("known_hosts.toml", sampleHosts))
        = .ok transport ∧
      ¬ ∀ post response state, transport.doHandshake .sample id [5] 100 post = .ok state →
        (∀ req, (post req).response = .ok response) →
          Attested .sample id transport [5] 100 none response := by
  rcases known_hosts_policy_dropped .sample id id (fun _ _ => rfl)
    (fun _ _ => beq_self_eq_true _) "https://h:1" .sample "known_hosts.toml" sampleHosts
    ⟨"h:1", pad32 [3], none, true⟩ (by decide +kernel) (Or.inl rfl) [5] 100 with
    ⟨transport, hnew, hiff⟩
  exact ⟨transport, hnew, fun h => absurd (hiff.mp h) nofun⟩

end SecureLlm
