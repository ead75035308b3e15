import SecureLlm.Client.Handshake
import SecureLlm.Library.Feedback

/-!
# Both Key Derivations Against RFC 5869

The standard in its own terms, and the two implementations as refinements of
it. The server refuses a length past the maximum up front; the client starts on
it all the same and stops when its block counter no longer fits a byte.
`hkdfLoop_eq` says what the loop of either gives from any block on, and that
the counter runs out exactly on the lengths the server refuses.

## Main definitions

* `Rfc5869.t`: The block of a number.
* `Rfc5869.okm`: The output keying material of a length.

## Theorems

* `hkdfLoop_eq`: What the loop gives, from any block on.
* `hkdf_agree`: Both derivations are the standard's, on both sides of the limit.
-/

namespace SecureLlm

open Library

variable (crypto : Primitives)

namespace Rfc5869

/-- The pseudorandom key: no salt is a salt of 32 zero bytes. -/
def prk (ikm salt : Bytes) : Bytes :=
  crypto.hmacSha256 (if salt = [] then List.replicate 32 0 else salt) ikm

/-- `T(i)`: nothing for zero, then the keyed hash of the block before, the info
    and the number's octet. -/
def t (prk info : Bytes) : ℕ → Bytes
  | 0 => []
  | i + 1 => crypto.hmacSha256 prk (t prk info i ++ info ++ [UInt8.ofNat (i + 1)])

/-- `T(1) | T(2) | ... | T(n)`. -/
def concatenation (prk info : Bytes) (n : ℕ) : Bytes :=
  ((List.range n).map fun i => t crypto prk info (i + 1)).flatten

/-- The first bytes of as many blocks as the length takes. -/
def okm (ikm salt info : Bytes) (length : ℕ) : Bytes :=
  (concatenation crypto (prk crypto ikm salt) info ((length + 31) / 32)).take length

/-- One step of the feedback, as both loops take it. -/
def step (prk info prev : Bytes) (i : ℕ) : Bytes :=
  crypto.hmacSha256 prk (prev ++ info ++ [UInt8.ofNat i])

theorem t_eq_block (prk info : Bytes) (i : ℕ) :
    t crypto prk info i = Feedback.block (step crypto prk info) i := by
  induction i with
  | zero => rfl
  | succ i ih => rw [t, ih, Feedback.block, step]

theorem concatenation_eq_output (prk info : Bytes) (n : ℕ) :
    concatenation crypto prk info n = Feedback.output (step crypto prk info) n := by
  rw [concatenation, Feedback.output, Feedback.blocks]
  exact congrArg List.flatten (List.map_congr_left fun i _ => t_eq_block crypto prk info (i + 1))

theorem length_step (prk info prev : Bytes) (i : ℕ) : (step crypto prk info prev i).length = 32 :=
  crypto.hmacSha256_length _ _

/-- Any number of blocks that reach the length gives the same bytes. -/
theorem take_concatenation (prk info : Bytes) {length m n : ℕ} (hm : length ≤ m * 32)
    (hn : length ≤ n * 32) :
    (concatenation crypto prk info m).take length
      = (concatenation crypto prk info n).take length := by
  rw [concatenation_eq_output, concatenation_eq_output]
  rcases le_total m n with h | h
  · exact (Feedback.take_output (length_step crypto prk info) hm h).symm
  · exact Feedback.take_output (length_step crypto prk info) hn h

theorem length_okm (ikm salt info : Bytes) (length : ℕ) :
    (okm crypto ikm salt info length).length = length := by
  rw [okm, List.length_take, concatenation_eq_output,
    Feedback.length_output (length_step crypto _ info)]
  omega

/-- A shorter output is the front of a longer one. -/
theorem okm_prefix (ikm salt info : Bytes) {length longer : ℕ} (h : length ≤ longer) :
    okm crypto ikm salt info length <+: okm crypto ikm salt info longer := by
  have hlong : okm crypto ikm salt info length
      = (okm crypto ikm salt info longer).take length := by
    -- The longer one has more blocks, but not in what the shorter one takes.
    rw [okm, okm, List.take_take, min_eq_left h]
    exact take_concatenation crypto _ info (by omega) (by omega)
  rw [hlong]
  exact List.take_prefix _ _

end Rfc5869

/-- The loop with the blocks so far, one counter value for each block to come:
    it ends with as many blocks as the length takes, or runs out of counters. -/
theorem hkdfLoop_eq (prk info : Bytes) (length left done : ℕ) (hleft : done + left = 255) :
    hkdfLoop crypto prk info length left (Feedback.blocks (Rfc5869.step crypto prk info) done)
        (Feedback.block (Rfc5869.step crypto prk info) done)
      = if length ≤ 8160 then
          .ok (Feedback.blocks (Rfc5869.step crypto prk info) (max done ((length + 31) / 32)))
        else .error (.valueError "bytes must be in range(0, 256)") := by
  have hsum (n : ℕ) : ((Feedback.blocks (Rfc5869.step crypto prk info) n).map
      List.length).sum = n * 32 := by
    rw [← List.length_flatten]
    exact Feedback.length_output (Rfc5869.length_step crypto prk info) n
  induction left generalizing done with
  | zero =>
      -- Without a counter value left, another block is wanted only past the maximum.
      rw [hkdfLoop, hsum]
      by_cases hmax : length ≤ 8160
      · rw [if_neg (by omega), if_pos hmax, max_eq_left (by omega)]
      · rw [if_pos (by omega), if_neg hmax]
  | succ left ih =>
      rw [hkdfLoop, hsum]
      by_cases hmore : done * 32 < length
      · -- The counter is the number of the block that comes next.
        have hcounter : 255 - left = done + 1 := by omega
        have hblocks := Feedback.blocks_succ (Rfc5869.step crypto prk info) done
        rw [Feedback.block, Rfc5869.step] at hblocks
        have hrest := ih (done + 1) (by omega)
        rw [hblocks, Feedback.block, Rfc5869.step, max_eq_right (by omega)] at hrest
        rw [if_pos hmore, hcounter, max_eq_right (by omega)]
        exact hrest
      -- The blocks reach the length, so that it is within the maximum as well.
      · rw [if_neg hmore, if_pos (by omega), max_eq_left (by omega)]

/-- The loop from the start, joined and cut to the length. -/
theorem hkdfLoop_take (prk info : Bytes) (length : ℕ) :
    (do
      let blocks ← hkdfLoop crypto prk info length 255 [] []
      return blocks.flatten.take length)
      = if length ≤ 8160 then
          Except.ok ((Rfc5869.concatenation crypto prk info ((length + 31) / 32)).take length)
        else .error (.valueError "bytes must be in range(0, 256)") := by
  have hloop := hkdfLoop_eq crypto prk info length 255 0 rfl
  rw [Feedback.blocks_zero, Feedback.block, max_eq_right (Nat.zero_le _)] at hloop
  rw [hloop]
  by_cases hmax : length ≤ 8160
  · rw [if_pos hmax, if_pos hmax, Rfc5869.concatenation_eq_output, Feedback.output]
    rfl
  · rw [if_neg hmax, if_neg hmax]
    rfl

theorem hkdf_eq_okm (ikm salt info : Bytes) (length : ℕ) :
    hkdf crypto ikm salt info length
      = if length ≤ 8160 then .ok (Rfc5869.okm crypto ikm salt info length)
        else .error (.valueError "HKDF length exceeds maximum") := by
  rw [hkdf, hkdfExpand, hkdfHashLen, Rfc5869.okm, Rfc5869.prk, hkdfExtract]
  by_cases hmax : length ≤ 8160
  · rw [if_neg (by omega), hkdfLoop_take, if_pos hmax, if_pos hmax]
    simp only [List.isEmpty_iff, hkdfHashLen]
  · rw [if_pos (by omega), if_neg hmax]

theorem Client.hkdf_eq_okm (ikm salt info : Bytes) (length : ℕ) :
    Client.hkdf crypto ikm salt info length
      = if length ≤ 8160 then .ok (Rfc5869.okm crypto ikm salt info length)
        else .error (.valueError "bytes must be in range(0, 256)") := by
  rw [Client.hkdf, Client.hkdfLoop_eq, hkdfLoop_take, Rfc5869.okm, Rfc5869.prk]
  simp only [List.isEmpty_iff, Client.hLen]

/-- Both derivations raise past the maximum, each for its own reason, and up to
    it both give the standard's bytes: as many as were asked for, and the front
    of what any longer length gives. -/
theorem hkdf_agree (ikm salt info : Bytes) (length : ℕ) :
    hkdf crypto ikm salt info length
        = (if length ≤ 8160 then .ok (Rfc5869.okm crypto ikm salt info length)
          else .error (.valueError "HKDF length exceeds maximum")) ∧
      Client.hkdf crypto ikm salt info length
        = (if length ≤ 8160 then .ok (Rfc5869.okm crypto ikm salt info length)
          else .error (.valueError "bytes must be in range(0, 256)")) ∧
      (Rfc5869.okm crypto ikm salt info length).length = length ∧
      ∀ longer, length ≤ longer →
        Rfc5869.okm crypto ikm salt info length <+: Rfc5869.okm crypto ikm salt info longer :=
  ⟨hkdf_eq_okm crypto ikm salt info length, Client.hkdf_eq_okm crypto ikm salt info length,
    Rfc5869.length_okm crypto ikm salt info length,
    fun _ h => Rfc5869.okm_prefix crypto ikm salt info h⟩

end SecureLlm
