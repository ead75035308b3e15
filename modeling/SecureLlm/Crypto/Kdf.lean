import Mathlib.Algebra.GroupWithZero.Nat
import SecureLlm.Library.Base64
import SecureLlm.Protocol.Errors

/-!
# HKDF-SHA-256

Key derivation and fingerprints over the primitives of the crypto library,
which are a parameter: a hash, a keyed hash, Diffie-Hellman and signatures,
with the output lengths the code relies on.

The expansion's loop stops for either of two reasons, enough output or a block
counter that no longer fits a byte. `hkdf_length` says that for a length the
guard lets through it is always the first.

## Main definitions

* `Primitives`: What the code uses of the crypto library.
* `hkdfExtract`, `hkdfExpand`, `hkdf`: Key derivation.
* `fingerprint`: The short name of a public key.

## Theorems

* `hkdfExpand_length`: Expansion succeeds and gives the length asked for.
* `hkdf_length`: The same for the whole derivation.
-/

namespace SecureLlm

open Library

/-- The operations of the crypto library, with `none` where one raises. -/
structure Primitives where
  hmacSha256 : (key message : Bytes) → Bytes
  sha256 : Bytes → Bytes
  scalarmult : (sk pk : Bytes) → Option Bytes
  publicKey : (sk : Bytes) → Bytes
  verifyKey : (sk : Bytes) → Bytes
  sign : (sk message : Bytes) → Bytes
  verify : (pk message sig : Bytes) → Bool
  hmacSha256_length : ∀ key message, (hmacSha256 key message).length = 32
  sha256_length : ∀ message, (sha256 message).length = 32
  publicKey_length : ∀ sk, (publicKey sk).length = 32

/-- A byte string cut or filled to 32 bytes. -/
def pad32 (b : Bytes) : Bytes := (b ++ List.replicate 32 0).take 32

theorem length_pad32 (b : Bytes) : (pad32 b).length = 32 := by
  rw [pad32, List.length_take, List.length_append, List.length_replicate]
  omega

/-- Primitives that satisfy every law the code relies on and protect nothing,
    to run the model on. -/
def Primitives.sample : Primitives where
  hmacSha256 _ message := pad32 message
  sha256 message := pad32 message
  scalarmult sk pk := some (List.zipWith (· ^^^ ·) (pad32 sk) pk)
  publicKey sk := pad32 sk
  verifyKey sk := sk
  sign sk message := sk ++ message
  verify pk message sig := sig == pk ++ message
  hmacSha256_length _ message := length_pad32 message
  sha256_length message := length_pad32 message
  publicKey_length sk := length_pad32 sk

def hkdfHashLen : ℕ := 32

variable (crypto : Primitives)

def hkdfExtract (salt ikm : Bytes) : Bytes :=
  crypto.hmacSha256 (if salt.isEmpty then List.replicate hkdfHashLen 0 else salt) ikm

/-- The expansion's loop, counting down the values `bytes([counter])` has room
    for: the counter is `255 - left`. -/
def hkdfLoop (prk info : Bytes) (length : ℕ) : ℕ → List Bytes → Bytes → Except Exc (List Bytes)
  | 0, blocks, _ =>
    if (blocks.map List.length).sum < length then
      .error (.valueError "bytes must be in range(0, 256)")
    else .ok blocks
  | left + 1, blocks, prev =>
    if (blocks.map List.length).sum < length then
      let prev := crypto.hmacSha256 prk (prev ++ info ++ [UInt8.ofNat (255 - left)])
      hkdfLoop prk info length left (blocks ++ [prev]) prev
    else .ok blocks

def hkdfExpand (prk info : Bytes) (length : ℕ) : Except Exc Bytes :=
  if 255 * hkdfHashLen < length then .error (.valueError "HKDF length exceeds maximum")
  else do
    let blocks ← hkdfLoop crypto prk info length 255 [] []
    return blocks.flatten.take length

def hkdf (ikm salt info : Bytes) (length : ℕ) : Except Exc Bytes :=
  hkdfExpand crypto (hkdfExtract crypto salt ikm) info length

/-- Stable short fingerprint: SHA-256, first 16 base32 characters. -/
def fingerprint (pubkey : Bytes) : String :=
  (String.ofList ((b32encode (crypto.sha256 pubkey)).toList.take 16)).toLower

/-- While there are counters for the missing blocks, the loop ends with enough
    of them. -/
theorem hkdfLoop_length (prk info : Bytes) (length left : ℕ) (blocks : List Bytes) (prev : Bytes)
    (h : length ≤ (blocks.map List.length).sum + hkdfHashLen * left) :
    ∃ out, hkdfLoop crypto prk info length left blocks prev = .ok out ∧
      length ≤ (out.map List.length).sum := by
  induction left generalizing blocks prev with
  | zero =>
      have hdone : ¬ (blocks.map List.length).sum < length := by omega
      exact ⟨blocks, by rw [hkdfLoop, if_neg hdone], by omega⟩
  | succ left ih =>
      by_cases hmore : (blocks.map List.length).sum < length
      · rw [hkdfLoop, if_pos hmore]
        refine ih _ _ ?_
        rw [List.map_append, List.sum_append, List.map_singleton, List.sum_singleton,
          crypto.hmacSha256_length]
        rw [hkdfHashLen] at h ⊢
        omega
      · exact ⟨blocks, by rw [hkdfLoop, if_neg hmore], by omega⟩

theorem hkdfExpand_length (prk info : Bytes) (length : ℕ) (h : length ≤ 255 * hkdfHashLen) :
    ∃ out, hkdfExpand crypto prk info length = .ok out ∧ out.length = length := by
  obtain ⟨blocks, hblocks, hlen⟩ := hkdfLoop_length crypto prk info length 255 [] [] (by
    rw [List.map_nil, List.sum_nil, Nat.zero_add, Nat.mul_comm]
    exact h)
  refine ⟨blocks.flatten.take length, ?_, ?_⟩
  · rw [hkdfExpand, if_neg (not_lt.mpr h), hblocks]
    simp only [bind, Except.bind, pure, Except.pure]
  · rw [List.length_take, List.length_flatten, min_eq_left hlen]

theorem hkdf_length (ikm salt info : Bytes) (length : ℕ) (h : length ≤ 255 * hkdfHashLen) :
    ∃ out, hkdf crypto ikm salt info length = .ok out ∧ out.length = length :=
  hkdfExpand_length crypto _ info length h

end SecureLlm
