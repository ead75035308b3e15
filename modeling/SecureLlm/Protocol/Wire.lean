import Mathlib.Data.List.Forall2
import SecureLlm.Library.Encoding
import SecureLlm.Protocol.Errors

/-!
# Application-Layer Envelope Framing

The framing of an envelope,

    magic(4) | version(1) | session_id(16) | counter(8) | nonce(12) | ciphertext | tag(16)

and the additional data that binds it to its HTTP context. Encryption is not
here: the ciphertext is an opaque run of bytes, with the tag at its end.

Everything before the ciphertext has a fixed width, so the parser is exact.
`unpackEnvelope_frame` and `packEnvelope_unpackEnvelope` say that it
inverts the packer on both sides: a buffer is accepted only if it is the
packing of what was read from it.

The additional data joins six fields with `|`. Four have a fixed width, and
what separates the last two is not the `|`, which a method and a path may both
contain, but the `/` a path starts with. `buildAad_inj` needs just that.

## Main definitions

* `Envelope`: A parsed header with its ciphertext.
* `packEnvelope`: Framing.
* `unpackEnvelope`: Parsing, with its three refusals.
* `encodeMethod`: `method.upper().encode("ascii")`.
* `IsFramed`: The grammar of framed envelopes.
* `buildAad`: The additional data of the AEAD.

## Theorems

* `unpackEnvelope_frame`: What is framed is parsed back.
* `packEnvelope_unpackEnvelope`: What is parsed frames to the buffer read.
* `envelope_framing_bijective`: Framing and parsing as a whole.
* `encodeMethod_eq_iff`: Which ASCII methods share an encoding.
* `buildAad_split`: The additional data determines its session and counter.
* `buildAad_inj`: The additional data determines its HTTP context.
-/

namespace SecureLlm

open Library

def envelopeMagic : Bytes := utf8 "SLLM"
def envelopeVersion : UInt8 := 1
def sessionIdBytes : Nat := 16
def counterBytes : Nat := 8
def nonceBytes : Nat := 12
def tagBytes : Nat := 16

def envelopeHeaderSize : Nat :=
  envelopeMagic.length + 1 + sessionIdBytes + counterBytes + nonceBytes

/-- Parsed envelope header and ciphertext. -/
structure Envelope where
  sessionId : Bytes
  counter : Nat
  nonce : Bytes
  ciphertext : Bytes
  deriving DecidableEq, Repr

/-- `n.to_bytes(len, "big")`. -/
def intToBytes (len : Nat) (n : Int) : Except Exc Bytes :=
  if n < 0 then .error (.overflowError "can't convert negative int to unsigned")
  else if n < 256 ^ len then .ok (toBytesBE len n.toNat)
  else .error (.overflowError "int too big to convert")

/-- Concatenate header and ciphertext. -/
def packEnvelope (sessionId : Bytes) (counter : Int) (nonce ciphertext : Bytes) :
    Except Exc Bytes :=
  if sessionId.length ≠ sessionIdBytes then
    .error (.envelopeError "session_id must be 16 bytes")
  else if nonce.length ≠ nonceBytes then
    .error (.envelopeError "nonce must be 12 bytes")
  else if counter < 0 ∨ counter / 2 ^ (counterBytes * 8) ≠ 0 then
    .error (.envelopeError "counter out of range")
  else do
    let count ← intToBytes counterBytes counter
    return envelopeMagic ++ [envelopeVersion] ++ sessionId ++ count ++ nonce ++ ciphertext

/-- `buf[pos : pos + len]`. -/
def slice (buf : Bytes) (pos len : Nat) : Bytes := (buf.drop pos).take len

/-- Parse the framed envelope. -/
def unpackEnvelope (buf : Bytes) : Except Exc Envelope :=
  if buf.length < envelopeHeaderSize + tagBytes then
    .error (.envelopeError "envelope too short")
  else if ¬ envelopeMagic.isPrefixOf buf then
    .error (.envelopeError "bad magic")
  else
    let pos := envelopeMagic.length
    let version := buf.getD pos 0
    if version ≠ envelopeVersion then
      .error (.envelopeError (s!"unsupported envelope version: {version.toNat}"))
    else
      let pos := pos + 1
      let sessionId := slice buf pos sessionIdBytes
      let pos := pos + sessionIdBytes
      let counter := ofBytesBE (slice buf pos counterBytes)
      let pos := pos + counterBytes
      let nonce := slice buf pos nonceBytes
      let pos := pos + nonceBytes
      .ok { sessionId, counter, nonce, ciphertext := buf.drop pos }

/-- One character of `method.upper().encode("ascii")`. Ten characters outside
    ASCII have an upper case inside it; every other one makes the encoding
    fail. -/
def encodeMethodChar (c : Char) : Option Bytes :=
  if c.toNat < 128 then some [UInt8.ofNat c.toUpper.toNat]
  else match c.toNat with
    | 0xdf => some (utf8 "SS")
    | 0x131 => some (utf8 "I")
    | 0x17f => some (utf8 "S")
    | 0xfb00 => some (utf8 "FF")
    | 0xfb01 => some (utf8 "FI")
    | 0xfb02 => some (utf8 "FL")
    | 0xfb03 => some (utf8 "FFI")
    | 0xfb04 => some (utf8 "FFL")
    | 0xfb05 => some (utf8 "ST")
    | 0xfb06 => some (utf8 "ST")
    | _ => none

/-- `method.upper().encode("ascii")`. -/
def encodeMethod (method : String) : Except Exc Bytes :=
  match method.toList.mapM encodeMethodChar with
  | some parts => .ok parts.flatten
  | none => .error (.unicodeEncodeError "ascii")

/-- The byte that joins the fields of the additional data, `|`. -/
def aadSeparator : UInt8 := 0x7c

/-- AEAD additional data: binds the envelope to its HTTP context. -/
def buildAad (method path : String) (sessionId : Bytes) (counter : Int) : Except Exc Bytes := do
  let count ← intToBytes counterBytes counter
  let verb ← encodeMethod method
  return joinBytes aadSeparator
    [envelopeMagic, [envelopeVersion], sessionId, count, verb, utf8 path]

@[simp] theorem length_envelopeMagic : envelopeMagic.length = 4 := by decide

theorem intToBytes_eq_ok_iff (len : Nat) (n : Int) (b : Bytes) :
    intToBytes len n = .ok b ↔ 0 ≤ n ∧ n < 256 ^ len ∧ toBytesBE len n.toNat = b := by
  by_cases hneg : n < 0
  · rw [intToBytes, if_pos hneg]
    exact ⟨nofun, fun h => absurd h.1 (by omega)⟩
  · by_cases hbig : n < 256 ^ len
    · rw [intToBytes, if_neg hneg, if_pos hbig, Except.ok.injEq]
      exact ⟨fun h => ⟨by omega, hbig, h⟩, fun h => h.2.2⟩
    · rw [intToBytes, if_neg hneg, if_neg hbig]
      exact ⟨nofun, fun h => absurd h.2.1 hbig⟩

theorem intToBytes_natCast (len n : Nat) (h : n < 256 ^ len) :
    intToBytes len n = .ok (toBytesBE len n) := by
  rw [intToBytes_eq_ok_iff]
  refine ⟨Int.natCast_nonneg n, ?_, by rw [Int.toNat_natCast]⟩
  have hcast := Int.ofNat_lt.mpr h
  rwa [Int.natCast_pow] at hcast

/-- The buffer an envelope is framed to. -/
def Envelope.frame (env : Envelope) : Bytes :=
  envelopeMagic ++ (envelopeVersion :: (env.sessionId ++ (toBytesBE counterBytes env.counter ++
    (env.nonce ++ env.ciphertext))))

/-- The widths a header has room for, and a ciphertext with its tag. -/
structure Envelope.WellFormed (env : Envelope) : Prop where
  sessionId : env.sessionId.length = sessionIdBytes
  counter : env.counter < 2 ^ 64
  nonce : env.nonce.length = nonceBytes
  ciphertext : tagBytes ≤ env.ciphertext.length

theorem packEnvelope_natCast (sessionId : Bytes) (counter : Nat) (nonce ciphertext : Bytes)
    (hsid : sessionId.length = sessionIdBytes) (hnonce : nonce.length = nonceBytes)
    (hcount : counter < 2 ^ 64) :
    packEnvelope sessionId counter nonce ciphertext
      = .ok (Envelope.frame { sessionId, counter, nonce, ciphertext }) := by
  have hrange : ¬ ((counter : Int) < 0 ∨ (counter : Int) / 2 ^ (counterBytes * 8) ≠ 0) := by
    simp only [counterBytes, Nat.reduceMul]
    omega
  rw [packEnvelope, if_neg (not_not.mpr hsid), if_neg (not_not.mpr hnonce), if_neg hrange,
    intToBytes_natCast _ _ hcount]
  simp only [bind, Except.bind, pure, Except.pure, Envelope.frame, List.append_assoc,
    List.cons_append, List.nil_append]

theorem slice_append (a b c : Bytes) (pos len : Nat) (hpos : pos = a.length)
    (hlen : len = b.length) : slice (a ++ (b ++ c)) pos len = b := by
  rw [slice, hpos, List.drop_left, hlen, List.take_left]

/-- A buffer from a position on is the field there and what follows it. -/
theorem slice_append_drop (buf : Bytes) (pos len : Nat) :
    slice buf pos len ++ buf.drop (pos + len) = buf.drop pos := by
  rw [slice, ← List.drop_drop, List.take_append_drop]

theorem length_slice (buf : Bytes) (pos len : Nat) (h : pos + len ≤ buf.length) :
    (slice buf pos len).length = len := by
  rw [slice, List.length_take, List.length_drop]
  omega

theorem length_frame (env : Envelope) (h : env.WellFormed) :
    env.frame.length = 41 + env.ciphertext.length := by
  simp only [Envelope.frame, List.length_append, List.length_cons, length_envelopeMagic,
    length_toBytesBE, h.sessionId, h.nonce, sessionIdBytes, counterBytes, nonceBytes]
  omega

-- The fields, each read at the position where the ones before it end.
theorem slice_frame_sessionId (env : Envelope) (h : env.WellFormed) :
    slice env.frame 5 16 = env.sessionId := by
  rw [Envelope.frame, List.append_cons]
  exact slice_append _ _ _ _ _ (by decide) h.sessionId.symm

theorem slice_frame_counter (env : Envelope) (h : env.WellFormed) :
    slice env.frame 21 8 = toBytesBE counterBytes env.counter := by
  rw [Envelope.frame, List.append_cons, ← List.append_assoc]
  refine slice_append _ _ _ _ _ ?_ (length_toBytesBE _ _).symm
  simp only [List.length_append, length_envelopeMagic, h.sessionId, List.length_singleton,
    sessionIdBytes]

theorem slice_frame_nonce (env : Envelope) (h : env.WellFormed) :
    slice env.frame 29 12 = env.nonce := by
  rw [Envelope.frame, List.append_cons, ← List.append_assoc, ← List.append_assoc]
  refine slice_append _ _ _ _ _ ?_ h.nonce.symm
  simp only [List.length_append, length_envelopeMagic, h.sessionId, List.length_singleton,
    sessionIdBytes, length_toBytesBE, counterBytes]

theorem drop_frame (env : Envelope) (h : env.WellFormed) : env.frame.drop 41 = env.ciphertext := by
  rw [Envelope.frame, List.append_cons, ← List.append_assoc, ← List.append_assoc,
    ← List.append_assoc]
  refine List.drop_left' ?_
  simp only [List.length_append, length_envelopeMagic, h.sessionId, List.length_singleton,
    sessionIdBytes, length_toBytesBE, counterBytes, h.nonce, nonceBytes]

/-- What is framed is parsed back. -/
theorem unpackEnvelope_frame (env : Envelope) (h : env.WellFormed) :
    unpackEnvelope env.frame = .ok env := by
  have hlen : ¬ env.frame.length < envelopeHeaderSize + tagBytes := by
    have htag := h.ciphertext
    simp only [length_frame env h, envelopeHeaderSize, length_envelopeMagic, sessionIdBytes,
      counterBytes, nonceBytes, tagBytes] at htag ⊢
    omega
  have hmagic : envelopeMagic.isPrefixOf env.frame :=
    List.isPrefixOf_iff_prefix.mpr (List.prefix_append _ _)
  have hversion : env.frame.getD 4 0 = envelopeVersion := by
    rw [List.getD_eq_getElem?_getD, Envelope.frame, List.getElem?_append_right (by decide)]
    rfl
  rw [unpackEnvelope, if_neg hlen, if_neg (not_not.mpr hmagic)]
  simp only [length_envelopeMagic, hversion, ne_eq, not_true_eq_false, if_false, sessionIdBytes,
    counterBytes, nonceBytes, Nat.reduceAdd, slice_frame_sessionId env h, slice_frame_nonce env h,
    drop_frame env h]
  rw [slice_frame_counter env h, ofBytesBE_toBytesBE _ _ h.counter]

/-- What an accepted buffer must be: well-formed fields, framed. -/
theorem unpackEnvelope_eq_ok (buf : Bytes) (env : Envelope) (h : unpackEnvelope buf = .ok env) :
    env.WellFormed ∧ buf = env.frame := by
  by_cases hlen : buf.length < envelopeHeaderSize + tagBytes
  · rw [unpackEnvelope, if_pos hlen] at h
    exact absurd h nofun
  by_cases hmagic : envelopeMagic.isPrefixOf buf
  swap
  · rw [unpackEnvelope, if_neg hlen, if_pos hmagic] at h
    exact absurd h nofun
  rw [unpackEnvelope, if_neg hlen, if_neg (not_not.mpr hmagic)] at h
  simp only [length_envelopeMagic] at h
  by_cases hversion : buf.getD 4 0 = envelopeVersion
  swap
  · rw [if_pos hversion] at h
    exact absurd h nofun
  rw [if_neg (not_not.mpr hversion), Except.ok.injEq] at h
  simp only [sessionIdBytes, counterBytes, nonceBytes, Nat.reduceAdd] at h
  have hbound : 57 ≤ buf.length := by
    simp only [envelopeHeaderSize, length_envelopeMagic, sessionIdBytes, counterBytes, nonceBytes,
      tagBytes] at hlen
    omega
  have hcountLen : (slice buf 21 8).length = 8 := length_slice _ _ _ (by omega)
  have hcount : toBytesBE 8 (ofBytesBE (slice buf 21 8)) = slice buf 21 8 := by
    have := toBytesBE_ofBytesBE (slice buf 21 8)
    rwa [hcountLen] at this
  refine ⟨⟨?_, ?_, ?_, ?_⟩, ?_⟩
  · rw [← h]
    exact length_slice _ _ _ (by omega)
  · have := ofBytesBE_lt (slice buf 21 8)
    rw [hcountLen] at this
    rw [← h]
    exact this
  · rw [← h]
    exact length_slice _ _ _ (by omega)
  · rw [← h, List.length_drop, tagBytes]
    omega
  · -- Cutting the buffer field by field and joining the parts again.
    obtain ⟨rest, hrest⟩ := List.isPrefixOf_iff_prefix.mp hmagic
    have hfour : buf.drop 4 = rest := by rw [← hrest, List.drop_left' length_envelopeMagic]
    have hhead : rest = envelopeVersion :: buf.drop 5 := by
      rw [← hfour, List.drop_eq_getElem_cons (by omega), ← hversion,
        List.getD_eq_getElem?_getD, List.getElem?_eq_getElem (by omega), Option.getD_some]
    rw [← h, Envelope.frame]
    simp only [counterBytes, hcount]
    rw [slice_append_drop buf 29 12, slice_append_drop buf 21 8, slice_append_drop buf 5 16,
      ← hhead, hrest]

/-- Parsing and packing again gives the buffer back. -/
theorem packEnvelope_unpackEnvelope (buf : Bytes) (env : Envelope)
    (h : unpackEnvelope buf = .ok env) :
    packEnvelope env.sessionId env.counter env.nonce env.ciphertext = .ok buf := by
  obtain ⟨hwf, hbuf⟩ := unpackEnvelope_eq_ok buf env h
  rw [packEnvelope_natCast _ _ _ _ hwf.sessionId hwf.nonce hwf.counter, hbuf]

/-- The grammar: the smallest length, the magic and the version byte. -/
def IsFramed (buf : Bytes) : Prop :=
  57 ≤ buf.length ∧ utf8 "SLLM" <+: buf ∧ buf[4]? = some 1

theorem unpackEnvelope_ok_iff (buf : Bytes) :
    (∃ env, unpackEnvelope buf = .ok env) ↔ IsFramed buf := by
  constructor
  · rintro ⟨env, h⟩
    obtain ⟨hwf, hbuf⟩ := unpackEnvelope_eq_ok buf env h
    have htag := hwf.ciphertext
    refine ⟨?_, ?_, ?_⟩
    · rw [hbuf, length_frame env hwf]
      simp only [tagBytes] at htag
      omega
    · rw [hbuf]
      exact List.prefix_append _ _
    · rw [hbuf, Envelope.frame, List.getElem?_append_right (by decide)]
      rfl
  · rintro ⟨hlen, hmagic, hversion⟩
    have hlong : ¬ buf.length < envelopeHeaderSize + tagBytes := by
      simp only [envelopeHeaderSize, length_envelopeMagic, sessionIdBytes, counterBytes, nonceBytes,
        tagBytes]
      omega
    have hversion' : buf.getD envelopeMagic.length 0 = envelopeVersion := by
      rw [length_envelopeMagic, List.getD_eq_getElem?_getD, hversion]
      rfl
    have hprefix : envelopeMagic.isPrefixOf buf := List.isPrefixOf_iff_prefix.mpr hmagic
    rw [unpackEnvelope, if_neg hlong, if_neg (not_not.mpr hprefix)]
    exact ⟨_, if_neg (not_not.mpr hversion')⟩

/-- Fields of other widths, and counters out of range, are not framed. -/
theorem packEnvelope_of_not (sessionId : Bytes) (counter : Int) (nonce ciphertext : Bytes)
    (h : ¬ (sessionId.length = sessionIdBytes ∧ nonce.length = nonceBytes ∧
      0 ≤ counter ∧ counter < 2 ^ 64)) :
    ∃ message,
      packEnvelope sessionId counter nonce ciphertext = .error (.envelopeError message) := by
  unfold packEnvelope
  by_cases hsid : sessionId.length = sessionIdBytes
  · by_cases hnonce : nonce.length = nonceBytes
    · have hrange : counter < 0 ∨ counter / 2 ^ (counterBytes * 8) ≠ 0 := by
        have hcount : ¬ (0 ≤ counter ∧ counter < 2 ^ 64) := fun hc => h ⟨hsid, hnonce, hc⟩
        simp only [counterBytes, Nat.reduceMul]
        omega
      rw [if_neg (not_not.mpr hsid), if_neg (not_not.mpr hnonce), if_pos hrange]
      exact ⟨_, rfl⟩
    · rw [if_neg (not_not.mpr hsid), if_pos hnonce]
      exact ⟨_, rfl⟩
  · rw [if_pos hsid]
    exact ⟨_, rfl⟩

/-- **Framing is a bijection onto its grammar.** What is accepted is what has the
    grammar, and frames to itself again; what is framed is parsed back; and only
    fields of the right widths are framed. -/
theorem envelope_framing_bijective :
    (∀ buf, (∃ env, unpackEnvelope buf = .ok env) ↔ IsFramed buf) ∧
    (∀ buf env, unpackEnvelope buf = .ok env →
      packEnvelope env.sessionId env.counter env.nonce env.ciphertext = .ok buf) ∧
    (∀ (sessionId nonce ciphertext : Bytes) (counter : Int), sessionId.length = sessionIdBytes →
      nonce.length = nonceBytes → 0 ≤ counter → counter < 2 ^ 64 → tagBytes ≤ ciphertext.length →
      ∃ buf, packEnvelope sessionId counter nonce ciphertext = .ok buf ∧
        unpackEnvelope buf = .ok ⟨sessionId, counter.toNat, nonce, ciphertext⟩) ∧
    (∀ (sessionId nonce ciphertext : Bytes) (counter : Int),
      ¬ (sessionId.length = sessionIdBytes ∧ nonce.length = nonceBytes ∧
        0 ≤ counter ∧ counter < 2 ^ 64) →
      ∃ message,
        packEnvelope sessionId counter nonce ciphertext = .error (.envelopeError message)) := by
  refine ⟨unpackEnvelope_ok_iff, packEnvelope_unpackEnvelope, ?_,
    fun sessionId nonce ciphertext counter =>
      packEnvelope_of_not sessionId counter nonce ciphertext⟩
  intro sessionId nonce ciphertext counter hsid hnonce hpos hlt htag
  have hcount : counter.toNat < 2 ^ 64 := by omega
  have hwf : Envelope.WellFormed ⟨sessionId, counter.toNat, nonce, ciphertext⟩ :=
    ⟨hsid, hcount, hnonce, htag⟩
  refine ⟨_, ?_, unpackEnvelope_frame _ hwf⟩
  have hpack := packEnvelope_natCast sessionId counter.toNat nonce ciphertext hsid hnonce hcount
  rwa [Int.toNat_of_nonneg hpos] at hpack

/-- A method the additional data can separate from a path. -/
def IsMethod (method : String) : Prop := ∀ c ∈ method.toList, c.toNat < 128 ∧ c ≠ '/'

instance (method : String) : Decidable (IsMethod method) :=
  List.decidableBAll (fun c : Char => c.toNat < 128 ∧ c ≠ '/') method.toList

/-- A path as an HTTP request carries it. -/
def IsPath (path : String) : Prop := path.toList.head? = some '/'

instance (path : String) : Decidable (IsPath path) :=
  inferInstanceAs (Decidable (path.toList.head? = some '/'))

theorem toUpper_ascii (c : Char) (h : c.toNat < 128) : c.toUpper.toNat < 128 := by
  have hall : ∀ n < 128, (Char.ofNat n).toUpper.toNat < 128 := by decide
  have := hall c.toNat h
  rwa [Char.ofNat_toNat] at this

theorem toUpper_eq_slash (c : Char) (h : c.toNat < 128) (hup : c.toUpper.toNat = 0x2f) :
    c = '/' := by
  have hall : ∀ n < 128, (Char.ofNat n).toUpper.toNat = 0x2f → Char.ofNat n = '/' := by decide
  have := hall c.toNat h
  rw [Char.ofNat_toNat] at this
  exact this hup

/-- An ASCII method in upper case is one. -/
theorem IsMethod.toUpper {method : String} (h : IsMethod method) : IsMethod method.toUpper := by
  intro c hc
  rw [String.toUpper, String.toList_map, List.mem_map] at hc
  rcases hc with ⟨d, hd, rfl⟩
  refine ⟨toUpper_ascii d (h d hd).1, fun hslash => (h d hd).2 ?_⟩
  exact toUpper_eq_slash d (h d hd).1 (by rw [hslash]; rfl)

/-- Upper case is upper case already. -/
theorem IsMethod.toUpper_toUpper {method : String} (h : IsMethod method) :
    method.toUpper.toUpper = method.toUpper := by
  have hall : ∀ n < 128, (Char.ofNat n).toUpper.toUpper = (Char.ofNat n).toUpper := by decide
  rw [String.toUpper, String.toUpper, ← String.toList_inj, String.toList_map, String.toList_map,
    List.map_map]
  refine List.map_congr_left fun c hc => ?_
  have hchar := hall c.toNat (h c hc).1
  rwa [Char.ofNat_toNat] at hchar

/-- The encoding of an ASCII method, character by character. -/
theorem encodeMethod_ascii (method : String) (h : IsMethod method) :
    encodeMethod method = .ok (method.toList.map (fun c => UInt8.ofNat c.toUpper.toNat)) := by
  have hchars : ∀ cs : List Char, (∀ c ∈ cs, c.toNat < 128 ∧ c ≠ '/') →
      cs.mapM encodeMethodChar = some (cs.map (fun c => [UInt8.ofNat c.toUpper.toNat])) := by
    intro cs hcs
    induction cs with
    | nil => rfl
    | cons c cs ih =>
        rw [List.mapM_cons, encodeMethodChar, if_pos (hcs c List.mem_cons_self).1,
          ih (fun d hd => hcs d (List.mem_cons_of_mem _ hd))]
        rfl
  have hflat : method.toList.map (fun c => UInt8.ofNat c.toUpper.toNat)
      = method.toList.flatMap (fun c => [UInt8.ofNat c.toUpper.toNat]) := List.map_eq_flatMap
  rw [encodeMethod, hchars _ h, hflat, List.flatMap_def]

/-- An encoded method has no `/` in it. -/
theorem slash_notMem_encodeMethod (method : String) (verb : Bytes) (h : IsMethod method)
    (hverb : encodeMethod method = .ok verb) : 0x2f ∉ verb := by
  rw [encodeMethod_ascii method h, Except.ok.injEq] at hverb
  rw [← hverb, List.mem_map]
  rintro ⟨c, hc, hslash⟩
  have hlt := toUpper_ascii c (h c hc).1
  have hval : c.toUpper.toNat = 0x2f := by
    have hnat := congrArg UInt8.toNat hslash
    rw [UInt8.toNat_ofNat'] at hnat
    have hlit : (0x2f : UInt8).toNat = 0x2f := rfl
    omega
  exact (h c hc).2 (toUpper_eq_slash c (h c hc).1 hval)

-- Upper case letters in ASCII are told apart by their bytes.
theorem map_toUpper_inj (cs ds : List Char) (hcs : ∀ c ∈ cs, c.toNat < 128)
    (hds : ∀ d ∈ ds, d.toNat < 128)
    (h : cs.map (fun c => UInt8.ofNat c.toUpper.toNat)
      = ds.map (fun c => UInt8.ofNat c.toUpper.toNat)) :
    cs.map Char.toUpper = ds.map Char.toUpper := by
  induction cs generalizing ds with
  | nil =>
      rw [List.map_nil, eq_comm, List.map_eq_nil_iff] at h
      rw [h]
  | cons c cs ih =>
      cases ds with
      | nil => exact absurd h nofun
      | cons d ds =>
          rw [List.map_cons, List.map_cons, List.cons.injEq] at h
          have hc := toUpper_ascii c (hcs c List.mem_cons_self)
          have hd := toUpper_ascii d (hds d List.mem_cons_self)
          have hnat := congrArg UInt8.toNat h.1
          rw [UInt8.toNat_ofNat', UInt8.toNat_ofNat'] at hnat
          have hcd : c.toUpper = d.toUpper := Char.toNat_inj.mp (by omega)
          rw [List.map_cons, List.map_cons, hcd,
            ih ds (fun x hx => hcs x (List.mem_cons_of_mem _ hx))
              (fun x hx => hds x (List.mem_cons_of_mem _ hx)) h.2]

/-- Two ASCII methods have one encoding exactly when they differ in case only. -/
theorem encodeMethod_eq_iff (m n : String) (hm : IsMethod m) (hn : IsMethod n) :
    encodeMethod m = encodeMethod n ↔ m.toUpper = n.toUpper := by
  rw [encodeMethod_ascii m hm, encodeMethod_ascii n hn, Except.ok.injEq, String.toUpper,
    String.toUpper, ← String.toList_inj, String.toList_map, String.toList_map]
  constructor
  · exact map_toUpper_inj _ _ (fun c hc => (hm c hc).1) (fun c hc => (hn c hc).1)
  · intro h
    have hmap := congrArg (List.map (fun c : Char => UInt8.ofNat c.toNat)) h
    rwa [List.map_map, List.map_map] at hmap

/-- The additional data, its fields written out. -/
theorem buildAad_eq_ok (method path : String) (sessionId : Bytes) (counter : Int) (aad : Bytes)
    (h : buildAad method path sessionId counter = .ok aad) :
    0 ≤ counter ∧ counter < 2 ^ 64 ∧ ∃ verb, encodeMethod method = .ok verb ∧
      aad = (envelopeMagic ++ [aadSeparator, envelopeVersion, aadSeparator])
        ++ (sessionId ++ ([aadSeparator] ++ (toBytesBE counterBytes counter.toNat
        ++ ([aadSeparator] ++ (verb ++ [aadSeparator] ++ utf8 path))))) := by
  simp only [buildAad, bind, Except.bind, pure, Except.pure] at h
  cases hcount : intToBytes counterBytes counter with
  | error e =>
      rw [hcount] at h
      exact absurd h nofun
  | ok count =>
      cases hverb : encodeMethod method with
      | error e =>
          rw [hcount, hverb] at h
          exact absurd h nofun
      | ok verb =>
          rw [hcount, hverb] at h
          obtain ⟨hneg, hbig, hbytes⟩ := (intToBytes_eq_ok_iff _ _ _).mp hcount
          refine ⟨hneg, hbig, verb, rfl, ?_⟩
          rw [← Except.ok.inj h, hbytes]
          simp only [joinBytes_cons_cons, joinBytes_singleton, List.append_assoc, List.cons_append,
            List.nil_append]

/-- A counter of eight bytes and an ASCII method have additional data. -/
theorem exists_buildAad (method path : String) (sessionId : Bytes) (counter : Nat)
    (hmethod : IsMethod method) (hcounter : counter < 2 ^ 64) :
    ∃ aad, buildAad method path sessionId counter = .ok aad := by
  have hpow : 256 ^ counterBytes = 2 ^ 64 := rfl
  rw [buildAad, encodeMethod_ascii method hmethod,
    intToBytes_natCast counterBytes counter (by omega)]
  exact ⟨_, rfl⟩

/-- The case of the method makes no difference. -/
theorem buildAad_congr (m n path : String) (sessionId : Bytes) (counter : Int) (hm : IsMethod m)
    (hn : IsMethod n) (h : m.toUpper = n.toUpper) :
    buildAad m path sessionId counter = buildAad n path sessionId counter := by
  rw [buildAad, buildAad, (encodeMethod_eq_iff m n hm hn).mpr h]

theorem utf8_path (path : String) (h : IsPath path) : ∃ rest, utf8 path = 0x2f :: rest := by
  obtain ⟨tail, htail⟩ : ∃ tail, path.toList = '/' :: tail := by
    cases hlist : path.toList with
    | nil =>
        rw [IsPath, hlist] at h
        exact absurd h nofun
    | cons c cs =>
        rw [IsPath, hlist, List.head?_cons, Option.some.injEq] at h
        exact ⟨cs, by rw [h]⟩
  have hpath : path = "/" ++ String.ofList tail := by
    have hslash : "/".toList = ['/'] := by decide
    rw [← String.toList_inj, String.toList_append, htail, hslash, String.toList_ofList,
      List.singleton_append]
  have hslash : utf8 "/" = [0x2f] := by decide
  exact ⟨utf8 (String.ofList tail), by rw [hpath, utf8_append, hslash, List.singleton_append]⟩

-- The fields of a fixed width come off one by one.
theorem buildAad_split (m n p q : String) (sid tid : Bytes) (c d : Int) (aad : Bytes)
    (hlen : sid.length = tid.length) (h₁ : buildAad m p sid c = .ok aad)
    (h₂ : buildAad n q tid d = .ok aad) :
    sid = tid ∧ c = d ∧ ∃ verb werb, encodeMethod m = .ok verb ∧ encodeMethod n = .ok werb ∧
      werb ++ [aadSeparator] ++ utf8 q = verb ++ [aadSeparator] ++ utf8 p := by
  obtain ⟨hc, hc', verb, hverb, haad⟩ := buildAad_eq_ok m p sid c aad h₁
  obtain ⟨hd, hd', werb, hwerb, haad'⟩ := buildAad_eq_ok n q tid d aad h₂
  rw [haad'] at haad
  have hcounts :
      (toBytesBE counterBytes d.toNat).length = (toBytesBE counterBytes c.toNat).length := by
    rw [length_toBytesBE, length_toBytesBE]
  obtain ⟨hsid, hrest⟩ := List.append_inj (List.append_cancel_left haad) hlen.symm
  obtain ⟨hcount, htail⟩ := List.append_inj (List.append_cancel_left hrest) hcounts
  have hpow : 256 ^ counterBytes = 2 ^ 64 := rfl
  have hcd : d.toNat = c.toNat := toBytesBE_inj counterBytes _ _ (by omega) (by omega) hcount
  exact ⟨hsid.symm, by omega, verb, werb, hverb, hwerb, List.append_cancel_left htail⟩

/-- The additional data determines the session, the counter, the path and the
    method up to case. -/
theorem buildAad_inj (m n p q : String) (sid tid : Bytes) (c d : Int) (aad : Bytes)
    (hm : IsMethod m) (hn : IsMethod n) (hp : IsPath p) (hq : IsPath q)
    (hlen : sid.length = tid.length)
    (h₁ : buildAad m p sid c = .ok aad) (h₂ : buildAad n q tid d = .ok aad) :
    sid = tid ∧ c = d ∧ m.toUpper = n.toUpper ∧ p = q := by
  obtain ⟨hsid, hcd, verb, werb, hverb, hwerb, hsplit⟩ :=
    buildAad_split m n p q sid tid c d aad hlen h₁ h₂
  -- What is left is split by the first slash, the one the path starts with.
  obtain ⟨s, hs⟩ := utf8_path p hp
  obtain ⟨t, ht⟩ := utf8_path q hq
  have hfree : ∀ (method : String) (v : Bytes), IsMethod method → encodeMethod method = .ok v →
      (0x2f : UInt8) ∉ v ++ [aadSeparator] := by
    intro method v hmethod hv hmem
    rcases List.mem_append.mp hmem with hin | hin
    · exact slash_notMem_encodeMethod method v hmethod hv hin
    · exact absurd hin (by decide)
  rw [hs, ht] at hsplit
  obtain ⟨hverbs, hpaths⟩ := append_marker_inj _ _ _ _ _ (hfree n werb hn hwerb)
    (hfree m verb hm hverb) hsplit
  have hmn : encodeMethod m = encodeMethod n := by
    rw [hverb, hwerb, List.append_cancel_right hverbs]
  refine ⟨hsid, hcd, (encodeMethod_eq_iff m n hm hn).mp hmn, utf8_inj _ _ ?_⟩
  rw [hs, ht, hpaths]

end SecureLlm
