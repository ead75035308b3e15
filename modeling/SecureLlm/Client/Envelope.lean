import SecureLlm.Crypto.Envelope

/-!
# The Client's Envelopes

The client has its own copy of sealing and opening, a near-twin of the server's.
It does the same, so that what either seals either opens.

## Main definitions

* `Client.nonceFor`, `Client.sealEnvelope`, `Client.openEnvelope`: The client's copy.
* `Side`: Client or server.

## Theorems

* `Client.sealEnvelope_eq`, `Client.openEnvelope_eq`: The copies are equal.
* `Side.sealEnvelope_eq`, `Side.openEnvelope_eq`: The sides do the same.
-/

namespace SecureLlm

open Library

namespace Client

/-- The nonce of a counter: the direction's prefix and the counter. -/
def nonceFor (direction : DirectionKeys) (counter : ℤ) : Except Exc Bytes :=
  if counter < 0 ∨ counter / 2 ^ 64 ≠ 0 then .error (.valueError "counter out of range")
  else do
    let count ← intToBytes 8 counter
    return direction.noncePrefix ++ count

/-- Encrypt and frame. -/
def sealEnvelope (aead : Aead) (direction : DirectionKeys) (counter : ℤ) (sessionId : Bytes)
    (method path : String) (plaintext : Bytes) : Except Exc Bytes := do
  let nonce ← Client.nonceFor direction counter
  let aad ← buildAad method path sessionId counter
  let ciphertext := aead.encrypt plaintext aad nonce direction.key
  packEnvelope sessionId counter nonce ciphertext

/-- Unframe and decrypt. -/
def openEnvelope (aead : Aead) (direction : DirectionKeys) (expectedSessionId : Bytes)
    (method path : String) (body : Bytes) : Except Exc (Envelope × Bytes) :=
  match unpackEnvelope body with
  | .error e => .error (.envelopeAuthError e.message)
  | .ok env =>
    if env.sessionId ≠ expectedSessionId then
      .error (.envelopeAuthError "session_id mismatch")
    else
      match buildAad method path env.sessionId env.counter with
      | .error e => .error e
      | .ok aad =>
        match aead.decrypt env.ciphertext aad env.nonce direction.key with
        | none => .error (.envelopeAuthError "decrypt failed")
        | some plaintext => .ok (env, plaintext)

theorem nonceFor_eq : Client.nonceFor = SecureLlm.nonceFor := by
  funext direction counter
  rw [Client.nonceFor, SecureLlm.nonceFor]

theorem sealEnvelope_eq : Client.sealEnvelope = SecureLlm.sealEnvelope := by
  funext aead direction counter sessionId method path plaintext
  rw [Client.sealEnvelope, SecureLlm.sealEnvelope, nonceFor_eq]

theorem openEnvelope_eq : Client.openEnvelope = SecureLlm.openEnvelope := by
  funext aead direction sessionId method path body
  unfold Client.openEnvelope SecureLlm.openEnvelope
  cases unpackEnvelope body with
  | error e => rfl
  | ok env =>
      cases hbuild : buildAad method path env.sessionId env.counter with
      | error e => simp only [hbuild]
      | ok aad =>
          cases hdecrypt : aead.decrypt env.ciphertext aad env.nonce direction.key with
          | none => simp only [hbuild, hdecrypt]
          | some plaintext => simp only [hbuild, hdecrypt]

end Client

/-- Which of the two copies is used. -/
inductive Side where
  | client
  | server
  deriving DecidableEq

namespace Side

def sealEnvelope (aead : Aead) : Side → DirectionKeys → ℤ → Bytes → String → String → Bytes →
    Except Exc Bytes
  | .client => Client.sealEnvelope aead
  | .server => SecureLlm.sealEnvelope aead

def openEnvelope (aead : Aead) : Side → DirectionKeys → Bytes → String → String → Bytes →
    Except Exc (Envelope × Bytes)
  | .client => Client.openEnvelope aead
  | .server => SecureLlm.openEnvelope aead

@[simp] theorem sealEnvelope_eq (aead : Aead) (side : Side) :
    side.sealEnvelope aead = SecureLlm.sealEnvelope aead := by
  cases side with
  | client => rw [sealEnvelope, Client.sealEnvelope_eq]
  | server => rw [sealEnvelope]

@[simp] theorem openEnvelope_eq (aead : Aead) (side : Side) :
    side.openEnvelope aead = SecureLlm.openEnvelope aead := by
  cases side with
  | client => rw [openEnvelope, Client.openEnvelope_eq]
  | server => rw [openEnvelope]

end Side

end SecureLlm
