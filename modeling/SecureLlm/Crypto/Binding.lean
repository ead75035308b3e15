import SecureLlm.Client.Envelope

/-!
# What an Envelope Is Bound To

A sealed envelope opens for the session, the path and the method it was sealed for,
the method up to case, and under the key it was sealed with; and no other body
opens in its place. The header is covered by the additional data but for the nonce,
and the nonce is what the cipher decrypts under.

That is a matter of what encryption has produced. Whoever holds the key can encrypt
under any nonce, and the code that opens does not ask whether the nonce is that of
the counter. So an envelope that opens is one that sealing gives exactly if its
nonce is the direction's.

## Main definitions

* `Aead.Authentic`: A cipher that decrypts only what it encrypts.

## Theorems

* `openEnvelope_fails`: When opening fails.
* `envelope_round_trip_binding`: What opens a sealed envelope.
* `opened_is_sealed_iff`: When an envelope that opens is one that was sealed.
* `foreign_nonce_opens`: One that was not.
-/

namespace SecureLlm

open Library

/-- Decryption gives a plaintext only for what encryption gives for it. -/
def Aead.Authentic (aead : Aead) : Prop :=
  ∀ ciphertext aad nonce key plaintext, nonce.length = nonceBytes →
    aead.decrypt ciphertext aad nonce key = some plaintext →
      aead.encrypt plaintext aad nonce key = ciphertext

theorem Aead.authentic_sample : Aead.sample.Authentic := by
  intro ciphertext aad nonce key plaintext _ h
  unfold sample at h ⊢
  simp only [Option.ite_none_right_eq_some, Option.some.injEq] at h ⊢
  rcases h with ⟨hct, rfl⟩
  exact hct.symm

/-- Opening fails with the one exception unless the body is an envelope of the
    session that decrypts. -/
theorem openEnvelope_fails (aead : Aead) (direction : DirectionKeys) (sid : Bytes)
    (method path : String) (body : Bytes) (hmethod : IsMethod method)
    (h : ∀ env aad, unpackEnvelope body = .ok env → env.sessionId = sid →
      buildAad method path env.sessionId env.counter = .ok aad →
        aead.decrypt env.ciphertext aad env.nonce direction.key = none) :
    ∃ message,
      openEnvelope aead direction sid method path body = .error (.envelopeAuthError message) := by
  unfold openEnvelope
  cases hunpack : unpackEnvelope body with
  | error e => exact ⟨_, rfl⟩
  | ok env =>
      dsimp only
      by_cases hsid : env.sessionId = sid
      · rw [if_neg (not_not.mpr hsid)]
        rcases exists_buildAad method path env.sessionId env.counter hmethod
          (unpackEnvelope_eq_ok body env hunpack).1.counter with ⟨aad, haad⟩
        rw [haad]
        dsimp only
        rw [h env aad hunpack hsid haad]
        exact ⟨_, rfl⟩
      · rw [if_pos hsid]
        exact ⟨_, rfl⟩

/-- What sealing gives, as an envelope. -/
theorem sealEnvelope_natCast (aead : Aead) (direction : DirectionKeys) (sid : Bytes)
    (hsid : sid.length = sessionIdBytes) (counter : ℕ) (hcounter : counter < 2 ^ 64)
    (method path : String) (hmethod : IsMethod method) (plaintext : Bytes) :
    ∃ nonce aad, nonceFor direction counter = .ok nonce ∧
      buildAad method path sid counter = .ok aad ∧
      Envelope.WellFormed ⟨sid, counter, nonce, aead.encrypt plaintext aad nonce direction.key⟩ ∧
      sealEnvelope aead direction counter sid method path plaintext =
        .ok (Envelope.frame
          ⟨sid, counter, nonce, aead.encrypt plaintext aad nonce direction.key⟩) := by
  rcases exists_buildAad method path sid counter hmethod hcounter with ⟨aad, haad⟩
  have hcast : (counter : ℤ) < 2 ^ 64 := by omega
  have hnonce : nonceFor direction counter = .ok (direction.noncePrefix ++ toBytesBE 8 counter) :=
    (nonceFor_eq_ok_iff _ _ _).mpr ⟨Int.natCast_nonneg _, hcast, rfl⟩
  have hlen := length_nonceFor _ _ _ hnonce
  refine ⟨_, aad, hnonce, haad, ⟨hsid, hcounter, hlen, ?_⟩, ?_⟩
  · rw [aead.length_encrypt]
    omega
  · exact (sealEnvelope_eq_ok_iff _ _ _ _ _ _ _ _).mpr
      ⟨_, aad, hnonce, haad, packEnvelope_natCast _ _ _ _ hsid hlen hcounter⟩

/-- **What opens a sealed envelope**, on either side. The session, the path and the
    method up to case give the plaintext and the counter back. Where decryption fails
    on all but what this sealing has encrypted, another body does not open, and
    neither does this one for another session, path or method or under another
    key. -/
theorem envelope_round_trip_binding (aead : Aead) (sealer opener : Side)
    (direction : DirectionKeys) (sid : Bytes) (hsid : sid.length = sessionIdBytes) (counter : ℕ)
    (hcounter : counter < 2 ^ 64) (method path : String) (hmethod : IsMethod method)
    (hpath : IsPath path) (plaintext : Bytes) :
    ∃ body nonce aad,
      sealer.sealEnvelope aead direction counter sid method path plaintext = .ok body ∧
      nonceFor direction counter = .ok nonce ∧ buildAad method path sid counter = .ok aad ∧
      (∀ (direction' : DirectionKeys) (method' : String), direction'.key = direction.key →
        IsMethod method' → method'.toUpper = method.toUpper → ∃ env, env.counter = counter ∧
          opener.openEnvelope aead direction' sid method' path body = .ok (env, plaintext)) ∧
      ∀ (direction' : DirectionKeys) (sid' : Bytes) (method' path' : String) (body' : Bytes),
        IsMethod method' → IsPath path' →
        (∀ env aad', unpackEnvelope body' = .ok env →
          buildAad method' path' env.sessionId env.counter = .ok aad' →
          (direction'.key, env.nonce, aad', env.ciphertext) ≠
            (direction.key, nonce, aad, aead.encrypt plaintext aad nonce direction.key) →
          aead.decrypt env.ciphertext aad' env.nonce direction'.key = none) →
        body' ≠ body ∨ direction'.key ≠ direction.key ∨ sid' ≠ sid ∨ path' ≠ path ∨
          method'.toUpper ≠ method.toUpper →
        ∃ message, opener.openEnvelope aead direction' sid' method' path' body' =
          .error (.envelopeAuthError message) := by
  rcases sealEnvelope_natCast aead direction sid hsid counter hcounter method path hmethod
    plaintext with ⟨nonce, aad, hnonce, haad, hwf, hsealed⟩
  simp only [Side.sealEnvelope_eq, Side.openEnvelope_eq]
  refine ⟨_, nonce, aad, hsealed, hnonce, haad, ?_, ?_⟩
  · intro direction' method' hkey hmethod' hupper
    refine ⟨_, rfl, (openEnvelope_eq_ok_iff _ _ _ _ _ _ _ _).mpr
      ⟨unpackEnvelope_frame _ hwf, rfl, aad, ?_, ?_⟩⟩
    · rw [buildAad_congr method' method path sid _ hmethod' hmethod hupper]
      exact haad
    · rw [hkey]
      exact aead.decrypt_encrypt _ _ _ _ hwf.nonce direction.key_length
  · intro direction' sid' method' path' body' hmethod' hpath' hfails hdiffers
    refine openEnvelope_fails aead direction' sid' method' path' body' hmethod' ?_
    intro env aad' hunpack hsid' haad'
    refine hfails env aad' hunpack haad' fun hsame => ?_
    rcases Prod.mk.inj hsame with ⟨hkey, hrest⟩
    rcases Prod.mk.inj hrest with ⟨hnonce', hrest'⟩
    rcases Prod.mk.inj hrest' with ⟨haads, hct⟩
    -- The additional data says what the envelope was opened for.
    rcases unpackEnvelope_eq_ok body' env hunpack with ⟨hwf', hbody'⟩
    rw [haads] at haad'
    rcases buildAad_inj method' method path' path env.sessionId sid env.counter counter aad
      hmethod' hmethod hpath' hpath (hwf'.sessionId.trans hsid.symm) haad' haad with
      ⟨hsids, hcounters, huppers, hpaths⟩
    have henv : env = ⟨sid, counter, nonce, aead.encrypt plaintext aad nonce direction.key⟩ := by
      cases env
      simp only [Envelope.mk.injEq]
      exact ⟨hsids, Int.ofNat.inj hcounters, hnonce', hct⟩
    rcases hdiffers with hbody | hkeys | hsession | hpaths' | hmethods
    · exact hbody (by rw [hbody', henv])
    · exact hkeys hkey
    · exact hsession (hsid'.symm.trans hsids)
    · exact hpaths' hpaths
    · exact hmethods huppers

/-- A direction, to run the model on. -/
def DirectionKeys.sample : DirectionKeys :=
  ⟨List.replicate 32 5, List.replicate 4 6, List.length_replicate, List.length_replicate⟩

/-- A check of what a call gives holds of what it gave. -/
theorem all_of_ok {ε α : Type} {p : α → Bool} {x : Except ε α} {a : α}
    (h : x.toOption.all p = true) (hx : x = .ok a) : p a = true := by
  rw [hx] at h
  exact h

/-- What the client seals for one path does not open for another. -/
theorem envelope_round_trip_binding_sample :
    ∃ body, Side.client.sealEnvelope .sample .sample (7 : ℕ) (List.replicate 16 3) "POST"
        "/v1/chat" [4] = .ok body ∧
      ∃ message, Side.server.openEnvelope .sample .sample (List.replicate 16 3) "POST" "/v1/system"
        body = .error (.envelopeAuthError message) := by
  rcases envelope_round_trip_binding .sample .client .server .sample (List.replicate 16 3)
    List.length_replicate 7 (by omega) "POST" "/v1/chat" (by decide) (by decide) [4] with
    ⟨body, nonce, aad, hsealed, -, -, -, hbinds⟩
  refine ⟨body, hsealed, hbinds .sample (List.replicate 16 3) "POST" "/v1/system" body (by decide)
    (by decide) ?_ (Or.inr (Or.inr (Or.inr (Or.inl (by decide)))))⟩
  -- The tag is another one.
  have hfails : (sealEnvelope .sample .sample (7 : ℕ) (List.replicate 16 3) "POST" "/v1/chat"
      [4]).toOption.all (fun body => (unpackEnvelope body).toOption.all fun env =>
        (buildAad "POST" "/v1/system" env.sessionId env.counter).toOption.all fun aad => decide
          (Aead.sample.decrypt env.ciphertext aad env.nonce DirectionKeys.sample.key = none)) =
        true := by
    decide +kernel
  intro env aad' hunpack haad' _
  rw [Side.sealEnvelope_eq] at hsealed
  have hopened := all_of_ok hfails hsealed
  have hframed := all_of_ok hopened hunpack
  have hdecrypt := all_of_ok hframed haad'
  have hnone := of_decide_eq_true hdecrypt
  exact hnone

/-- **Which envelopes that open are sealed ones.** An envelope that opens is what
    sealing its plaintext under its counter gives exactly if its nonce field is the
    direction's prefix and its counter field. -/
theorem opened_is_sealed_iff (aead : Aead) (haead : aead.Authentic) (direction : DirectionKeys)
    (sid : Bytes) (method path : String) (body : Bytes) (env : Envelope) (plaintext : Bytes)
    (hopen : openEnvelope aead direction sid method path body = .ok (env, plaintext)) :
    (sealEnvelope aead direction env.counter sid method path plaintext = .ok body ∧
        env.nonce = direction.noncePrefix ++ toBytesBE 8 env.counter) ↔
      slice body 29 12 = direction.noncePrefix ++ slice body 21 8 := by
  rcases (openEnvelope_eq_ok_iff _ _ _ _ _ _ _ _).mp hopen with
    ⟨hunpack, hsid, aad, haad, hdecrypt⟩
  rcases unpackEnvelope_eq_ok body env hunpack with ⟨hwf, hbody⟩
  have hnonce : slice body 29 12 = env.nonce := by
    rw [hbody]
    exact slice_frame_nonce env hwf
  have hcounter : slice body 21 8 = toBytesBE 8 env.counter := by
    rw [hbody]
    exact slice_frame_counter env hwf
  rw [hnonce, hcounter]
  refine ⟨fun h => h.2, fun hprefix => ⟨?_, hprefix⟩⟩
  have hcast : (env.counter : ℤ) < 2 ^ 64 := by
    have := hwf.counter
    omega
  refine (sealEnvelope_eq_ok_iff _ _ _ _ _ _ _ _).mpr ⟨env.nonce, aad,
    (nonceFor_eq_ok_iff _ _ _).mpr ⟨Int.natCast_nonneg _, hcast, hprefix.symm⟩, haad, ?_⟩
  rw [haead _ _ _ _ _ hwf.nonce hdecrypt, ← hsid]
  exact packEnvelope_unpackEnvelope body env hunpack

/-- An envelope under a nonce of the caller's choice. -/
def encryptUnder (nonce : Bytes) : Bytes :=
  match buildAad "POST" "/v1/chat" (List.replicate 16 3) (7 : ℕ) with
  | .error _ => []
  | .ok aad => Envelope.frame ⟨List.replicate 16 3, 7, nonce,
      Aead.sample.encrypt [4] aad nonce DirectionKeys.sample.key⟩

/-- Under the nonce of sealing it is what sealing gives. -/
theorem opened_is_sealed_iff_sample :
    Aead.sample.Authentic ∧ ∃ env plaintext,
      openEnvelope .sample .sample (List.replicate 16 3) "POST" "/v1/chat"
          (encryptUnder ([6, 6, 6, 6] ++ toBytesBE 8 7)) = .ok (env, plaintext) ∧
        sealEnvelope .sample .sample env.counter (List.replicate 16 3) "POST" "/v1/chat"
          plaintext = .ok (encryptUnder ([6, 6, 6, 6] ++ toBytesBE 8 7)) := by
  refine ⟨Aead.authentic_sample, ?_⟩
  have hopens : (openEnvelope .sample .sample (List.replicate 16 3) "POST" "/v1/chat"
      (encryptUnder ([6, 6, 6, 6] ++ toBytesBE 8 7))).toOption.isSome = true := by
    decide +kernel
  cases hopen : openEnvelope .sample .sample (List.replicate 16 3) "POST" "/v1/chat"
      (encryptUnder ([6, 6, 6, 6] ++ toBytesBE 8 7)) with
  | error e =>
      rw [hopen] at hopens
      exact absurd hopens nofun
  | ok opened =>
      refine ⟨opened.1, opened.2, rfl, ((opened_is_sealed_iff .sample Aead.authentic_sample
        .sample (List.replicate 16 3) "POST" "/v1/chat" _ opened.1 opened.2 hopen).mpr ?_).1⟩
      decide +kernel

/-- Under a nonce of zeros an envelope opens that sealing does not give. -/
theorem foreign_nonce_opens :
    ∃ body env plaintext,
      openEnvelope .sample .sample (List.replicate 16 3) "POST" "/v1/chat" body =
        .ok (env, plaintext) ∧
      sealEnvelope .sample .sample env.counter (List.replicate 16 3) "POST" "/v1/chat" plaintext ≠
        .ok body ∧
      env.nonce ≠ DirectionKeys.sample.noncePrefix ++ toBytesBE 8 env.counter := by
  let body := encryptUnder (List.replicate 12 0)
  have hopens : (openEnvelope .sample .sample (List.replicate 16 3) "POST" "/v1/chat"
      body).toOption.any (fun opened => decide (sealEnvelope .sample .sample opened.1.counter
        (List.replicate 16 3) "POST" "/v1/chat" opened.2 ≠ .ok body ∧
          opened.1.nonce ≠ DirectionKeys.sample.noncePrefix ++
            toBytesBE 8 opened.1.counter)) = true := by
    decide +kernel
  cases hopen : openEnvelope .sample .sample (List.replicate 16 3) "POST" "/v1/chat" body with
  | error e =>
      rw [hopen] at hopens
      exact absurd hopens nofun
  | ok opened =>
      rw [hopen] at hopens
      exact ⟨body, opened.1, opened.2, hopen, of_decide_eq_true hopens⟩

end SecureLlm
