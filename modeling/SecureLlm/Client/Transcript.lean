import SecureLlm.Client.Attestation
import SecureLlm.Library.Lines

/-!
# The Signed Transcripts Are Unambiguous

The transcripts are fields joined by NUL bytes, and NUL bytes may also occur
inside the keys, the session id and the host. What makes them readable is that
only one field has a free length. The client's transcript is read from the front
up to the host, whose neighbours have a fixed width, and from the back to the
last NUL, since no decimal number contains one. The server's is read from the
back, past the fields of a fixed width, so that the base transcript is whatever
is left.

## Theorems

* `toString_utf8_inj`: The text of an integer determines it.
* `transcript_inj`: The client's transcript determines its fields.
* `serverTranscript_inj`: The server's transcript determines its fields.
* `transcripts_unambiguous`: Both, and the client builds the server's bytes.
-/

namespace SecureLlm

open Library

theorem isDigit_of_mem_repr {n : ℕ} {c : Char} (hc : c ∈ n.repr.toList) : c.isDigit = true := by
  rw [Nat.toList_repr] at hc
  exact Nat.isDigit_of_mem_toDigits (by decide) (by decide) hc

/-- The digits of a number have its value. -/
theorem natRepr_inj {m n : ℕ} (h : m.repr = n.repr) : m = n := by
  -- `Nat.repr_injective` is in no module of the library short of all of it.
  have hvalue (k : ℕ) : Nat.ofDigitChars 10 k.repr.toList 0 = k := by
    rw [Nat.toList_repr]
    exact Nat.ofDigitChars_toDigits (by decide) (by decide)
  rw [← hvalue m, h, hvalue]

/-- No number without a sign is written as one with it. -/
theorem natRepr_ne_minus (m n : ℕ) : m.repr ≠ "-" ++ n.repr := by
  intro h
  have hminus : '-' ∈ m.repr.toList := by
    rw [h, String.toList_append]
    exact List.mem_append_left _ List.mem_cons_self
  exact absurd (isDigit_of_mem_repr hminus) (by decide)

theorem repr_inj {m n : ℤ} (h : m.repr = n.repr) : m = n := by
  rw [Int.repr_eq_if, Int.repr_eq_if] at h
  by_cases hm : 0 ≤ m
  · by_cases hn : 0 ≤ n
    · rw [if_pos hm, if_pos hn] at h
      have := natRepr_inj h
      omega
    · rw [if_pos hm, if_neg hn] at h
      exact absurd h (natRepr_ne_minus _ _)
  · by_cases hn : 0 ≤ n
    · rw [if_neg hm, if_pos hn] at h
      exact absurd h.symm (natRepr_ne_minus _ _)
    · rw [if_neg hm, if_neg hn] at h
      have := natRepr_inj (String.append_right_inj "-" |>.mp h)
      omega

/-- The text of an integer determines it. -/
theorem toString_utf8_inj (m n : ℤ) (h : utf8 (toString m) = utf8 (toString n)) : m = n :=
  repr_inj (utf8_inj _ _ h)

/-- A decimal number has no NUL and nothing but ASCII. -/
theorem mem_repr (n : ℤ) (c : Char) (hc : c ∈ n.repr.toList) : 0 < c.toNat ∧ c.toNat < 128 := by
  have hdigit (m : ℕ) (hm : c ∈ m.repr.toList) : 0 < c.toNat ∧ c.toNat < 128 := by
    have hd := Char.isDigit_iff_toNat.mp (isDigit_of_mem_repr hm)
    have hlow : '0'.toNat = 48 := rfl
    have hhigh : '9'.toNat = 57 := rfl
    omega
  rw [Int.repr_eq_if] at hc
  split at hc
  · exact hdigit _ hc
  · rw [String.toList_append, List.mem_append] at hc
    rcases hc with hminus | hc
    · rw [List.mem_singleton.mp hminus]
      decide
    · exact hdigit _ hc

/-- The text of an integer contains no NUL byte. -/
theorem zero_notMem_toString (n : ℤ) : (0 : UInt8) ∉ utf8 (toString n) := by
  intro hzero
  have hascii := utf8_ascii n.repr.toList fun c hc => (mem_repr n c hc).2
  rw [String.ofList_toList] at hascii
  rw [show toString n = n.repr from rfl, hascii] at hzero
  rcases List.mem_map.mp hzero with ⟨c, hc, hbyte⟩
  have hrange := mem_repr n c hc
  have hnat := congrArg UInt8.toNat hbyte
  rw [UInt8.toNat_ofNat'] at hnat
  have hz : (0 : UInt8).toNat = 0 := rfl
  omega

/-- The transcript a client signs determines its keys, the host and the
    timestamp. -/
theorem transcript_inj (label static eph host static' eph' host' : Bytes) (ts ts' : ℤ)
    (hstatic : static.length = static'.length) (heph : eph.length = eph'.length)
    (h : transcript label static eph host ts = transcript label static' eph' host' ts') :
    static = static' ∧ eph = eph' ∧ host = host' ∧ ts = ts' := by
  simp only [transcript, joinBytes_cons_cons, joinBytes_singleton] at h
  -- From the front: the label, then the two keys by their width.
  have hfront := (List.cons.inj (List.append_cancel_left h)).2
  have hkeys := (List.cons.inj (List.append_cancel_left hfront)).2
  rcases List.append_inj hkeys hstatic with ⟨hs, hrest⟩
  have hephs := (List.cons.inj (List.append_cancel_left (List.cons.inj hrest).2)).2
  rcases List.append_inj hephs heph with ⟨he, hrest⟩
  have hhosts := (List.cons.inj (List.append_cancel_left (List.cons.inj hrest).2)).2
  -- From the back: the number up to the last NUL, then the mark before it.
  have hends : (host ++ 0 :: utf8 "ts") ++ 0 :: utf8 (toString ts)
      = (host' ++ 0 :: utf8 "ts") ++ 0 :: utf8 (toString ts') := by
    rw [List.append_assoc, List.append_assoc, List.cons_append, List.cons_append]
    exact hhosts
  obtain ⟨hhost, hts⟩ := append_last_marker_inj 0 _ _ _ _ (zero_notMem_toString ts)
    (zero_notMem_toString ts') hends
  exact ⟨hs, he, List.append_cancel_right hhost, toString_utf8_inj ts ts' hts⟩

/-- The transcript a server signs determines the client's transcript, the
    server's keys and the session id. -/
theorem serverTranscript_inj (base eph static sid base' eph' static' sid' : Bytes)
    (heph : eph.length = eph'.length) (hstatic : static.length = static'.length)
    (hsid : sid.length = sid'.length)
    (h : serverTranscript base eph static sid = serverTranscript base' eph' static' sid') :
    base = base' ∧ eph = eph' ∧ static = static' ∧ sid = sid' := by
  simp only [serverTranscript, joinBytes_cons_cons, joinBytes_singleton] at h
  -- All that follows the base has a fixed width.
  obtain ⟨hbase, htail⟩ := List.append_inj' h (by
    simp only [List.length_cons, List.length_append, heph, hstatic, hsid])
  have hephs := (List.cons.inj (List.append_cancel_left (List.cons.inj htail).2)).2
  rcases List.append_inj hephs heph with ⟨he, hrest⟩
  have hstatics := (List.cons.inj (List.append_cancel_left (List.cons.inj hrest).2)).2
  rcases List.append_inj hstatics hstatic with ⟨hs, hrest⟩
  have hsids := (List.cons.inj (List.append_cancel_left (List.cons.inj hrest).2)).2
  exact ⟨hbase, he, hs, hsids⟩

/-- Equal transcripts have equal fields, for the client's and for the server's,
    and what the client signs and checks the signature over is built as the
    server builds it. -/
theorem transcripts_unambiguous :
    (∀ (label static eph host static' eph' host' : Bytes) (ts ts' : ℤ),
      static.length = 32 → eph.length = 32 → static'.length = 32 → eph'.length = 32 →
      transcript label static eph host ts = transcript label static' eph' host' ts' →
      static = static' ∧ eph = eph' ∧ host = host' ∧ ts = ts') ∧
    (∀ base eph static sid base' eph' static' sid' : Bytes,
      eph.length = 32 → static.length = 32 → sid.length = 16 →
      eph'.length = 32 → static'.length = 32 → sid'.length = 16 →
      serverTranscript base eph static sid = serverTranscript base' eph' static' sid' →
      base = base' ∧ eph = eph' ∧ static = static' ∧ sid = sid') ∧
    (∀ (static eph host : Bytes) (ts : ℤ),
      Client.transcript static eph host ts
        = transcript (utf8 protocolLabel) static eph host ts) ∧
    ∀ (crypto : Primitives) (identity : ClientIdentity) (clientEphSk : Bytes)
      (serverHost : String) (ts : ℤ) (response : HandshakeResponse) (pinned : Bytes)
      (verifier : Option AttestationVerifier) (measurement : Option String) (required : Bool)
      (outcome : HandshakeOutcome),
      deriveSession crypto identity clientEphSk serverHost ts response pinned verifier
        measurement required = .ok outcome →
      ∃ ed25519 eph sid sig, b64d response.serverEd25519Pk = .ok ed25519 ∧
        b64d response.serverEphemeralPk = .ok eph ∧ b64d response.sessionId = .ok sid ∧
        b64d response.serverSig = .ok sig ∧
        crypto.verify ed25519 (serverTranscript (transcript (utf8 protocolLabel)
          identity.x25519Pk (crypto.publicKey clientEphSk) (utf8 serverHost) ts) eph pinned sid)
          sig = true := by
  refine ⟨?_, ?_, Client.transcript_eq, ?_⟩
  · intro label static eph host static' eph' host' ts ts' hs he hs' he' h
    exact transcript_inj label static eph host static' eph' host' ts ts' (hs.trans hs'.symm)
      (he.trans he'.symm) h
  · intro base eph static sid base' eph' static' sid' he hs hsid he' hs' hsid' h
    exact serverTranscript_inj base eph static sid base' eph' static' sid' (he.trans he'.symm)
      (hs.trans hs'.symm) (hsid.trans hsid'.symm) h
  · intro crypto identity clientEphSk serverHost ts response pinned verifier measurement required
      outcome h
    obtain ⟨ed25519, eph, sid, sig, -, hed, heph, hsid, hsig, hverify, -⟩ :=
      deriveSession_accepted crypto identity clientEphSk serverHost ts response pinned verifier
        measurement required outcome h
    exact ⟨ed25519, eph, sid, sig, hed, heph, hsid, hsig, hverify⟩

/-- The theorem on two hosts that differ in what looks like the field after them. -/
theorem transcripts_unambiguous_sample :
    transcript (utf8 protocolLabel) (pad32 [1]) (pad32 [2]) [104] 5
      ≠ transcript (utf8 protocolLabel) (pad32 [1]) (pad32 [2]) [104, 0, 116, 115] 5 := by
  intro h
  have hfields := transcripts_unambiguous.1 _ _ _ _ _ _ _ _ _ (length_pad32 _) (length_pad32 _)
    (length_pad32 _) (length_pad32 _) h
  exact absurd hfields.2.2.1 (by decide)

end SecureLlm
