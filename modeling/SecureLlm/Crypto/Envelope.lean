import Mathlib.Data.UInt
import SecureLlm.Protocol.Wire

/-!
# Envelope Encryption

Sealing and opening an envelope. The cipher itself is a parameter with its two
laws: decryption undoes encryption under the same key, nonce and additional
data, and the ciphertext is the plaintext's length plus the tag.

A nonce is a direction's four-byte prefix followed by the counter, so it never
repeats while the counter does not, `nonceFor_inj`. A counter
that has left 64 bits has no nonce and nothing is sealed under it.

## Main definitions

* `Aead`, `Aead.sample`: The cipher, as the code uses it, and a model of it.
* `DirectionKeys`: A key and a nonce prefix of the right lengths.
* `nonceFor`: The nonce of a counter.
* `sealEnvelope`: Encrypt and frame.
* `openEnvelope`: Unframe and decrypt.

## Theorems

* `nonceFor_inj`: Different counters have different nonces.
* `sealEnvelope_eq_ok_iff`: What a sealed envelope is made of.
* `openEnvelope_eq_ok_iff`: What an opened body must be.
* `openEnvelope_sealEnvelope`: What is sealed is opened again.
* `opened_of_made`: What opens is what was sealed, if it was made for an envelope.
-/

namespace SecureLlm

open Library

/-- ChaCha20-Poly1305 (IETF): encryption, and decryption with its refusal. -/
structure Aead where
  encrypt : (plaintext aad nonce key : Bytes) → Bytes
  decrypt : (ciphertext aad nonce key : Bytes) → Option Bytes
  decrypt_encrypt : ∀ plaintext aad nonce key, nonce.length = nonceBytes → key.length = 32 →
    decrypt (encrypt plaintext aad nonce key) aad nonce key = some plaintext
  length_encrypt : ∀ plaintext aad nonce key,
    (encrypt plaintext aad nonce key).length = plaintext.length + tagBytes

/-- A cipher that satisfies both laws and hides nothing, to run the model on.
    The tag is a checksum of everything that goes in. -/
def Aead.sample : Aead where
  encrypt plaintext aad nonce key :=
    plaintext ++ List.replicate tagBytes (plaintext ++ aad ++ nonce ++ key).sum
  decrypt ciphertext aad nonce key :=
    let plaintext := ciphertext.take (ciphertext.length - tagBytes)
    if ciphertext = plaintext ++ List.replicate tagBytes (plaintext ++ aad ++ nonce ++ key).sum then
      some plaintext
    else none
  decrypt_encrypt plaintext aad nonce key _ _ := by
    simp only [List.length_append, List.length_replicate, Nat.add_sub_cancel, List.take_left',
      if_true]
  length_encrypt plaintext aad nonce key := by rw [List.length_append, List.length_replicate]

/-- Per-session, per-direction symmetric key and 4-byte nonce prefix. -/
@[ext] structure DirectionKeys where
  key : Bytes
  noncePrefix : Bytes
  key_length : key.length = 32
  noncePrefix_length : noncePrefix.length = 4
  deriving DecidableEq

/-- Building a direction from bytes of any length. -/
def DirectionKeys.ofBytes (key noncePrefix : Bytes) : Except Exc DirectionKeys :=
  if hk : key.length = 32 then
    if hp : noncePrefix.length = 4 then .ok ⟨key, noncePrefix, hk, hp⟩
    else .error (.valueError "nonce_prefix must be 4 bytes")
  else .error (.valueError "key must be 32 bytes")

/-- A direction's own bytes build it. -/
@[simp] theorem DirectionKeys.ofBytes_self (d : DirectionKeys) :
    DirectionKeys.ofBytes d.key d.noncePrefix = .ok d := by
  rw [DirectionKeys.ofBytes, dif_pos d.key_length, dif_pos d.noncePrefix_length]

/-- The nonce of a counter: the direction's prefix and the counter. -/
def nonceFor (direction : DirectionKeys) (counter : ℤ) : Except Exc Bytes :=
  if counter < 0 ∨ counter / 2 ^ 64 ≠ 0 then .error (.valueError "counter out of range")
  else do
    let count ← intToBytes 8 counter
    return direction.noncePrefix ++ count

/-- Encrypt and frame. -/
def sealEnvelope (aead : Aead) (direction : DirectionKeys) (counter : ℤ) (sessionId : Bytes)
    (method path : String) (plaintext : Bytes) : Except Exc Bytes := do
  let nonce ← nonceFor direction counter
  let aad ← buildAad method path sessionId counter
  let ciphertext := aead.encrypt plaintext aad nonce direction.key
  packEnvelope sessionId counter nonce ciphertext

/-- Unframe and decrypt. Every framing and every AEAD failure is one
    exception; a method that cannot be encoded is another. -/
def openEnvelope (aead : Aead) (direction : DirectionKeys) (expectedSessionId : Bytes)
    (method path : String) (body : Bytes) : Except Exc (Envelope × Bytes) :=
  match unpackEnvelope body with
  | .error e => .error (.envelopeAuthError e.message)
  | .ok env =>
    if env.sessionId ≠ expectedSessionId then
      .error (.envelopeAuthError "session_id mismatch")
    else
      match buildAad method path env.sessionId env.counter with
      | .error e => .error e
      | .ok aad =>
        match aead.decrypt env.ciphertext aad env.nonce direction.key with
        | none => .error (.envelopeAuthError "decrypt failed")
        | some plaintext => .ok (env, plaintext)

/-- A counter inside 64 bits has a nonce, and no other counter has one. -/
theorem nonceFor_eq_ok_iff (direction : DirectionKeys) (counter : ℤ) (nonce : Bytes) :
    nonceFor direction counter = .ok nonce ↔
      0 ≤ counter ∧ counter < 2 ^ 64 ∧
        direction.noncePrefix ++ toBytesBE 8 counter.toNat = nonce := by
  by_cases hrange : counter < 0 ∨ counter / 2 ^ 64 ≠ 0
  · rw [nonceFor, if_pos hrange]
    exact ⟨nofun, fun h => absurd hrange (by omega)⟩
  · have hbytes : intToBytes 8 counter = .ok (toBytesBE 8 counter.toNat) :=
      (intToBytes_eq_ok_iff _ _ _).mpr ⟨by omega, by omega, rfl⟩
    rw [nonceFor, if_neg hrange, hbytes]
    simp only [bind, Except.bind, pure, Except.pure, Except.ok.injEq]
    exact ⟨fun h => ⟨by omega, by omega, h⟩, fun h => h.2.2⟩

theorem length_nonceFor (direction : DirectionKeys) (counter : ℤ) (nonce : Bytes)
    (h : nonceFor direction counter = .ok nonce) : nonce.length = nonceBytes := by
  obtain ⟨-, -, heq⟩ := (nonceFor_eq_ok_iff _ _ _).mp h
  rw [← heq, List.length_append, direction.noncePrefix_length, length_toBytesBE]
  rfl

/-- A nonce repeats only if the counter does, whatever the directions. -/
theorem nonceFor_inj (direction direction' : DirectionKeys) (c d : ℤ) (nonce : Bytes)
    (hc : nonceFor direction c = .ok nonce) (hd : nonceFor direction' d = .ok nonce) : c = d := by
  obtain ⟨hc₀, hc₁, hceq⟩ := (nonceFor_eq_ok_iff _ _ _).mp hc
  obtain ⟨hd₀, hd₁, hdeq⟩ := (nonceFor_eq_ok_iff _ _ _).mp hd
  have hbytes := (List.append_inj (hceq.trans hdeq.symm) (by
    rw [direction.noncePrefix_length, direction'.noncePrefix_length])).2
  have := toBytesBE_inj 8 c.toNat d.toNat (by omega) (by omega) hbytes
  omega

/-- A sealed envelope: the nonce of its counter, its additional data, and the
    encryption under both, framed. -/
theorem sealEnvelope_eq_ok_iff (aead : Aead) (direction : DirectionKeys) (counter : ℤ)
    (sessionId : Bytes) (method path : String) (plaintext body : Bytes) :
    sealEnvelope aead direction counter sessionId method path plaintext = .ok body ↔
      ∃ nonce aad, nonceFor direction counter = .ok nonce ∧
        buildAad method path sessionId counter = .ok aad ∧
        packEnvelope sessionId counter nonce (aead.encrypt plaintext aad nonce direction.key)
          = .ok body := by
  simp only [sealEnvelope, bind, Except.bind]
  cases hnonce : nonceFor direction counter with
  | error e => exact ⟨nofun, fun ⟨_, _, h, _⟩ => absurd h nofun⟩
  | ok nonce =>
      cases haad : buildAad method path sessionId counter with
      | error e => exact ⟨nofun, fun ⟨_, _, _, h, _⟩ => absurd h nofun⟩
      | ok aad =>
          constructor
          · exact fun h => ⟨nonce, aad, rfl, rfl, h⟩
          · rintro ⟨nonce', aad', hn, ha, h⟩
            rw [Except.ok.inj hn, Except.ok.inj ha]
            exact h

/-- A counter that has left 64 bits seals nothing. -/
theorem sealEnvelope_out_of_range (aead : Aead) (direction : DirectionKeys) (counter : ℤ)
    (sessionId : Bytes) (method path : String) (plaintext : Bytes) (h : 2 ^ 64 ≤ counter) :
    sealEnvelope aead direction counter sessionId method path plaintext
      = .error (.valueError "counter out of range") := by
  have hrange : counter < 0 ∨ counter / 2 ^ 64 ≠ 0 := Or.inr (by omega)
  rw [sealEnvelope, nonceFor, if_pos hrange]
  rfl

/-- An opened body: its framing parses to an envelope of the expected session,
    and its ciphertext decrypts under the additional data of the request. -/
theorem openEnvelope_eq_ok_iff (aead : Aead) (direction : DirectionKeys) (sid : Bytes)
    (method path : String) (body : Bytes) (env : Envelope) (plaintext : Bytes) :
    openEnvelope aead direction sid method path body = .ok (env, plaintext) ↔
      unpackEnvelope body = .ok env ∧ env.sessionId = sid ∧
        ∃ aad, buildAad method path sid env.counter = .ok aad ∧
          aead.decrypt env.ciphertext aad env.nonce direction.key = some plaintext := by
  rw [openEnvelope]
  cases hunpack : unpackEnvelope body with
  | error e => exact ⟨nofun, fun h => absurd h.1 nofun⟩
  | ok env' =>
      simp only [Except.ok.injEq]
      by_cases hsid : env'.sessionId = sid
      -- The additional data is built from the session that is expected.
      · rw [if_neg (not_not.mpr hsid), hsid]
        cases haad : buildAad method path sid env'.counter with
        | error e =>
            refine ⟨nofun, ?_⟩
            rintro ⟨rfl, -, aad, h, -⟩
            rw [haad] at h
            exact absurd h nofun
        | ok aad =>
            dsimp only
            cases hdec : aead.decrypt env'.ciphertext aad env'.nonce direction.key with
            | none =>
                refine ⟨nofun, ?_⟩
                rintro ⟨rfl, -, aad', h, h'⟩
                rw [haad, Except.ok.injEq] at h
                rw [← h, hdec] at h'
                exact absurd h' nofun
            | some p =>
                simp only [Except.ok.injEq, Prod.mk.injEq]
                constructor
                · rintro ⟨rfl, rfl⟩
                  exact ⟨rfl, hsid, aad, haad, hdec⟩
                · rintro ⟨rfl, -, aad', h, h'⟩
                  rw [haad, Except.ok.injEq] at h
                  rw [← h, hdec, Option.some.injEq] at h'
                  exact ⟨rfl, h'⟩
      · rw [if_pos hsid]
        refine ⟨nofun, ?_⟩
        rintro ⟨rfl, h, -⟩
        exact absurd h hsid

/-- What is sealed is opened again, by the session, method and path it was
    sealed for. -/
theorem openEnvelope_sealEnvelope (aead : Aead) (direction : DirectionKeys) (counter : ℤ)
    (sid : Bytes) (method path : String) (plaintext body : Bytes)
    (hsid : sid.length = sessionIdBytes)
    (h : sealEnvelope aead direction counter sid method path plaintext = .ok body) :
    ∃ env, env.counter = counter.toNat ∧
      openEnvelope aead direction sid method path body = .ok (env, plaintext) := by
  obtain ⟨nonce, aad, hnonce, haad, hpack⟩ := (sealEnvelope_eq_ok_iff _ _ _ _ _ _ _ _).mp h
  obtain ⟨hc₀, hc₁, -⟩ := (nonceFor_eq_ok_iff _ _ _).mp hnonce
  have hlen := length_nonceFor _ _ _ hnonce
  have hcast : counter = (counter.toNat : ℤ) := by omega
  rw [hcast, packEnvelope_natCast _ _ _ _ hsid hlen (by omega), Except.ok.injEq] at hpack
  refine ⟨⟨sid, counter.toNat, nonce, aead.encrypt plaintext aad nonce direction.key⟩, rfl, ?_⟩
  rw [openEnvelope_eq_ok_iff, ← hpack]
  refine ⟨unpackEnvelope_frame _ ⟨hsid, by simp only; omega, hlen, ?_⟩, rfl, aad, ?_, ?_⟩
  · simp only [aead.length_encrypt]
    omega
  · rw [← hcast]
    exact haad
  · exact aead.decrypt_encrypt _ _ _ _ hlen direction.key_length

/-- What is sealed has a session id of the right length. -/
theorem length_of_sealEnvelope {aead : Aead} {direction : DirectionKeys} {counter : ℤ}
    {sessionId : Bytes} {method path : String} {plaintext body : Bytes}
    (h : sealEnvelope aead direction counter sessionId method path plaintext = .ok body) :
    sessionId.length = sessionIdBytes := by
  rcases (sealEnvelope_eq_ok_iff _ _ _ _ _ _ _ _).mp h with ⟨nonce, aad, -, -, hpack⟩
  by_contra hlen
  rcases packEnvelope_of_not sessionId counter nonce (aead.encrypt plaintext aad nonce
    direction.key) (fun hall => hlen hall.1) with ⟨message, herror⟩
  rw [herror] at hpack
  exact absurd hpack nofun

/-- A sealed body parses to what was sealed. -/
theorem unpackEnvelope_of_sealEnvelope {aead : Aead} {direction : DirectionKeys} {counter : ℕ}
    {sessionId : Bytes} {method path : String} {plaintext body : Bytes}
    (h : sealEnvelope aead direction counter sessionId method path plaintext = .ok body) :
    ∃ nonce aad, nonceFor direction counter = .ok nonce ∧
      buildAad method path sessionId counter = .ok aad ∧
      unpackEnvelope body =
        .ok ⟨sessionId, counter, nonce, aead.encrypt plaintext aad nonce direction.key⟩ := by
  have hsid := length_of_sealEnvelope h
  rcases (sealEnvelope_eq_ok_iff _ _ _ _ _ _ _ _).mp h with ⟨nonce, aad, hnonce, haad, hpack⟩
  rcases (nonceFor_eq_ok_iff _ _ _).mp hnonce with ⟨-, hlt, -⟩
  have hlen := length_nonceFor _ _ _ hnonce
  have hcounter : counter < 2 ^ 64 := by omega
  rw [packEnvelope_natCast _ _ _ _ hsid hlen hcounter, Except.ok.injEq] at hpack
  refine ⟨nonce, aad, hnonce, haad, ?_⟩
  rw [← hpack]
  refine unpackEnvelope_frame _ ⟨hsid, hcounter, hlen, ?_⟩
  rw [aead.length_encrypt]
  exact Nat.le_add_left _ _

/-- It opens for the same session and path, and the same method up to case. -/
theorem openEnvelope_of_sealEnvelope {aead : Aead} {direction : DirectionKeys} {counter : ℕ}
    {sessionId : Bytes} {method method' path : String} {plaintext body : Bytes}
    (h : sealEnvelope aead direction counter sessionId method path plaintext = .ok body)
    (hmethod : IsMethod method) (hmethod' : IsMethod method')
    (hupper : method'.toUpper = method.toUpper) :
    ∃ env, env.counter = counter ∧
      openEnvelope aead direction sessionId method' path body = .ok (env, plaintext) := by
  rcases unpackEnvelope_of_sealEnvelope h with ⟨nonce, aad, hnonce, haad, hunpack⟩
  refine ⟨_, rfl, (openEnvelope_eq_ok_iff _ _ _ _ _ _ _ _).mpr ⟨hunpack, rfl, aad, ?_, ?_⟩⟩
  · rw [buildAad_congr method' method path sessionId _ hmethod' hmethod hupper]
    exact haad
  · exact aead.decrypt_encrypt _ _ _ _ (length_nonceFor _ _ _ hnonce) direction.key_length

/-- What opens by a ciphertext and additional data that were made for an envelope is
    the envelope's plaintext, under its counter and for its session and endpoint. -/
theorem opened_of_made {aead : Aead} {direction made : DirectionKeys} {sid sid' : Bytes}
    {method method' path path' : String} {content body aad plaintext : Bytes} {env : Envelope}
    {counter : ℕ}
    (hopen : openEnvelope aead direction sid method path content = .ok (env, plaintext))
    (hmethod : IsMethod method) (hpath : IsPath path) (hmethod' : IsMethod method')
    (hpath' : IsPath path') (hlen : sid'.length = sessionIdBytes)
    (haad : buildAad method path env.sessionId env.counter = .ok aad)
    (hnonce : nonceFor made counter = .ok env.nonce)
    (haad' : buildAad method' path' sid' counter = .ok aad)
    (hciphertext : env.ciphertext = aead.encrypt body aad env.nonce direction.key) :
    body = plaintext ∧ sid' = sid ∧ counter = env.counter ∧ method'.toUpper = method.toUpper ∧
      path' = path := by
  rcases (openEnvelope_eq_ok_iff _ _ _ _ _ _ _ _).mp hopen with
    ⟨hunpack, hsid, aad'', haad'', hdecrypt⟩
  have haads : aad'' = aad := by
    rw [← hsid, haad] at haad''
    exact (Except.ok.inj haad'').symm
  rcases buildAad_inj method method' path path' env.sessionId sid' env.counter counter aad hmethod
    hmethod' hpath hpath' ((unpackEnvelope_eq_ok _ _ hunpack).1.sessionId.trans hlen.symm) haad
    haad' with ⟨hsids, hcounters, hmethods, hpaths⟩
  have hround := aead.decrypt_encrypt body aad env.nonce direction.key
    (length_nonceFor _ _ _ hnonce) direction.key_length
  rw [← hciphertext, ← haads, hdecrypt] at hround
  exact ⟨(Option.some.inj hround).symm, by rw [← hsids, hsid], (Int.ofNat_inj.mp hcounters).symm,
    hmethods.symm, hpaths.symm⟩

end SecureLlm
