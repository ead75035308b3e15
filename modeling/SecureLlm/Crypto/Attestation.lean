import SecureLlm.Client.Errors
import SecureLlm.Crypto.HandshakeAuth

/-!
# Attestation Backends

What the server attaches to its answer: nothing, or a report that commits to the
digest of the transcript. A backend refuses a digest that is not one of SHA-256.

`dumps` is the JSON encoder of the standard library, without blanks and with the
keys in order.

## Main definitions

* `noneBackend`: Attestation disabled.
* `MockAttestationBackend`: Reports under a shared secret.
* `mockReport`, `MockAttestationBackend.report`: What such a report says.
* `MockAttestationBackend.generate`: The report for a digest.

## Theorems

* `establishSession_noneBackend`: Disabled attestation never fails a handshake.
* `MockAttestationBackend.generate_ok`: When there is a report, and which.
-/

namespace SecureLlm

open Library

/-- The length of a report's user data, a SHA-256 digest. -/
def userdataLen : ℕ := 32

def isAscii (s : String) : Bool := s.toList.all fun c => decide (c.toNat < 128)

theorem isAscii_iff (s : String) : isAscii s = true ↔ ∀ c ∈ s.toList, c.toNat < 128 := by
  simp only [isAscii, List.all_eq_true, decide_eq_true_eq]

/-- `s.encode("ascii")`. -/
def encodeAscii (s : String) : Except Exc Bytes :=
  if isAscii s then .ok (utf8 s) else .error (.unicodeEncodeError "ascii")

/-- Attestation disabled: no report, but the length is checked all the same. -/
def noneBackend : Bytes → Except String (Option Bytes) := fun digest =>
  if digest.length ≠ userdataLen then .error "transcript_digest must be 32 bytes" else .ok none

/-- Reports of a configured measurement, under a secret the client shares. -/
structure MockAttestationBackend where
  measurement : String
  sharedSecret : Bytes

variable (crypto : Primitives)

/-- The MAC of a report, in hexadecimal. -/
def reportMac (secret : Bytes) (message : Bytes) : String := hex (crypto.hmacSha256 secret message)

/-- What a MAC is over: the digest in hexadecimal and the measurement. -/
def macMessage (digest : Bytes) (measurement : String) : Bytes :=
  utf8 (hex digest ++ "|" ++ measurement)

/-- What a report says: its type, the digest in hexadecimal, the measurement and
    the MAC over both, with the keys in order. -/
def mockReport (measurement userdata mac : String) : Json :=
  .object [("mac", .string mac), ("measurement", .string measurement), ("type", .string "mock"),
    ("userdata", .string userdata)]

variable (dumps : Json → Bytes)

/-- The report for a digest. -/
def MockAttestationBackend.generate (backend : MockAttestationBackend) (transcriptDigest : Bytes) :
    Except Exc Bytes :=
  if transcriptDigest.length ≠ userdataLen then
    .error (.valueError "transcript_digest must be 32 bytes")
  else do
    let userdataHex := hex transcriptDigest
    -- Only the measurement can have anything but ASCII in it.
    let message ← encodeAscii (userdataHex ++ "|" ++ backend.measurement)
    let mac := reportMac crypto backend.sharedSecret message
    return dumps (mockReport backend.measurement userdataHex mac)

/-- The report of a backend about a digest. -/
def MockAttestationBackend.report (backend : MockAttestationBackend) (digest : Bytes) : Json :=
  mockReport backend.measurement (hex digest)
    (reportMac crypto backend.sharedSecret (macMessage digest backend.measurement))

/-- Disabled attestation is no backend at all. -/
theorem establishSession_noneBackend (valid : Validated) (serverIdentity : ServerIdentity)
    (ttlSeconds : ℤ) (serverEphSk sessionId : Bytes) :
    establishSession crypto valid serverIdentity ttlSeconds (some noneBackend) serverEphSk sessionId
      = establishSession crypto valid serverIdentity ttlSeconds none serverEphSk sessionId := by
  have hreport (message : Bytes) :
      generateReport (some noneBackend) (crypto.sha256 message)
        = generateReport none (crypto.sha256 message) := by
    simp only [generateReport, noneBackend, userdataLen, crypto.sha256_length, ne_eq,
      not_true_eq_false, if_false]
  simp only [establishSession, hreport]

/-- Every character of hexadecimal text is ASCII. -/
theorem toNat_mem_hexChars (b : Bytes) (c : Char) (hc : c ∈ hexChars b) : c.toNat < 128 := by
  have hdigit : ∀ n < 16, (hexDigit n).toNat < 128 := by decide
  induction b with
  | nil => exact absurd hc List.not_mem_nil
  | cons x b ih =>
      have hx : x.toNat < 256 := x.toNat_lt
      rw [hexChars, List.mem_cons, List.mem_cons] at hc
      rcases hc with rfl | rfl | hc
      · exact hdigit _ (by omega)
      · exact hdigit _ (by omega)
      · exact ih hc

/-- The message of a MAC is ASCII where the measurement is. -/
theorem encodeAscii_message (digest : Bytes) (measurement : String)
    (h : ∀ c ∈ measurement.toList, c.toNat < 128) :
    encodeAscii (hex digest ++ "|" ++ measurement) = .ok (macMessage digest measurement) := by
  rw [encodeAscii, if_pos]
  · rfl
  rw [isAscii_iff]
  intro c hc
  rw [String.toList_append, String.toList_append, List.mem_append, List.mem_append] at hc
  rcases hc with (hc | hc) | hc
  · rw [hex, String.toList_ofList] at hc
    exact toNat_mem_hexChars digest c hc
  · rw [List.mem_singleton.mp hc]
    decide
  · exact h c hc

/-- A digest of the right length gets a report where the measurement is ASCII. -/
theorem MockAttestationBackend.generate_ok (backend : MockAttestationBackend) (digest : Bytes)
    (hlen : digest.length = userdataLen)
    (hascii : ∀ c ∈ backend.measurement.toList, c.toNat < 128) :
    backend.generate crypto dumps digest = .ok (dumps (backend.report crypto digest)) := by
  rw [MockAttestationBackend.generate, if_neg (not_not.mpr hlen)]
  dsimp only
  rw [encodeAscii_message digest backend.measurement hascii]
  rfl

end SecureLlm
