import SecureLlm.Crypto.HandshakeAuth

/-!
# The Keystore

The server's identity and its allowlist, which may be read again while the
server runs. What the allowlist's files hold at that moment is an argument.

## Main definitions

* `Keystore`: The identity and the allowlist.
* `Keystore.reloadAllowlist`: Reading the allowlist again.
* `Keystore.Admits`: A static key is listed and not revoked.

## Theorems

* `performHandshake_admits`: A handshake that succeeds is one of an admitted key,
  and is for the id it was given.
-/

namespace SecureLlm

open Library

structure Keystore where
  server : ServerIdentity
  allowlist : Dict Bytes AuthorizedClient := Dict.empty
  allowlistPath : Option String := none

/-- Replace the allowlist by what `load` makes of its path, and count its
    entries. Without a path nothing is replaced. -/
def Keystore.reloadAllowlist (keystore : Keystore)
    (load : String → Except Exc (Dict Bytes AuthorizedClient)) : Except Exc (Keystore × ℕ) :=
  match keystore.allowlistPath with
  | none => .ok (keystore, 0)
  | some path => do
    let allowlist ← load path
    return ({ keystore with allowlist }, allowlist.entries.length)

/-- The static key is listed, and not as revoked. -/
def Keystore.Admits (keystore : Keystore) (clientStaticPk : Bytes) : Prop :=
  ∃ entry, keystore.allowlist.get? clientStaticPk = some entry ∧ entry.revoked = false

/-- The material of a session is for the id it was derived for. -/
theorem establishSession_sessionId (crypto : Primitives) (valid : Validated)
    (serverIdentity : ServerIdentity) (ttlSeconds : ℤ)
    (attestation : Option (Bytes → Except String (Option Bytes)))
    (serverEphSk sessionId : Bytes) (response : HandshakeResponse) (material : SessionMaterial)
    (h : establishSession crypto valid serverIdentity ttlSeconds attestation serverEphSk sessionId
      = .ok (response, material)) : material.sessionId = sessionId := by
  simp only [establishSession, bind_ok_iff] at h
  rcases h with ⟨_, _, _, _, _, _, ⟨c2s, s2c⟩, _, _, _, h⟩
  simp only [pure, Except.pure, Except.ok.injEq, Prod.mk.injEq] at h
  rw [← h.2]

/-- A handshake that succeeds is one of a key the allowlist admits. -/
theorem performHandshake_admits (crypto : Primitives) (req : HandshakeRequest)
    (keystore : Keystore) (skewSeconds ttlSeconds : ℤ) (expectedHost : Option Text)
    (now : Option ℤ) (attestation : Option (Bytes → Except String (Option Bytes))) (time : ℚ)
    (serverEphSk sessionId : Bytes) (response : HandshakeResponse) (material : SessionMaterial)
    (h : performHandshake crypto req keystore.server keystore.allowlist skewSeconds ttlSeconds
      expectedHost now attestation time serverEphSk sessionId = .ok (response, material)) :
    (∃ pk, b64dText req.clientStaticPk = .ok pk ∧ keystore.Admits pk) ∧
      material.sessionId = sessionId := by
  rw [performHandshake, bind_ok_iff] at h
  rcases h with ⟨valid, hvalid, hrest⟩
  have hauth := (validateRequest_ok_iff crypto _ _ _ _ _ _).mp hvalid
  exact ⟨⟨valid.clientStaticPk, hauth.staticPk, valid.entry, hauth.listed, hauth.notRevoked⟩,
    establishSession_sessionId crypto _ _ _ _ _ _ _ _ hrest⟩

end SecureLlm
