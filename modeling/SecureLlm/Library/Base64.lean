import SecureLlm.Library.Encoding

/-!
# Base64 and Base32 Text

The two text encodings of byte strings, with the decoder written as the state
machine that runs over the characters one at a time. It keeps its place in
the current group of four (`quad`), the bits that are not yet a whole byte
(`left`) and what padding it has seen.

The decoder is not injective: the bits that the last character of a padded
group leaves over are dropped unread, so several texts stand for one byte
string. Only the other direction is a round trip, `b64decode_b64encode`, and
it holds in both modes because an encoded text never takes a branch in which
they differ.

## Main definitions

* `b64encode`: The base64 text of a byte string.
* `decodeLoop`: The decoder's run over the characters.
* `b64decode`: Decoding, in strict mode or skipping foreign characters.
* `b32encode`: The base32 text of a byte string.

## Theorems

* `b64Value_b64Char`: A digit of the alphabet is read back.
* `decodeLoop_encode`: The decoder's run over an encoded text.
* `isB64_of_mem`: The characters of an encoded text.
* `b64decode_b64encode`: Decoding inverts encoding.
-/

namespace Library

/-- The digits of base64. -/
def b64Char (n : Nat) : Char :=
  if n < 26 then Char.ofNat (65 + n)
  else if n < 52 then Char.ofNat (71 + n)
  else if n < 62 then Char.ofNat (n - 4)
  else if n = 62 then '+' else '/'

/-- The value of a base64 digit, `none` for every other character. -/
def b64Value (c : Char) : Option Nat :=
  if 65 ≤ c.toNat ∧ c.toNat ≤ 90 then some (c.toNat - 65)
  else if 97 ≤ c.toNat ∧ c.toNat ≤ 122 then some (c.toNat - 71)
  else if 48 ≤ c.toNat ∧ c.toNat ≤ 57 then some (c.toNat + 4)
  else if c = '+' then some 62
  else if c = '/' then some 63
  else none

theorem b64Value_b64Char (n : Nat) (h : n < 64) : b64Value (b64Char n) = some n := by
  have hall : ∀ i < 64, b64Value (b64Char i) = some i := by decide
  exact hall n h

theorem b64Char_ne_pad (n : Nat) (h : n < 64) : b64Char n ≠ '=' := by
  have hall : ∀ i < 64, b64Char i ≠ '=' := by decide
  exact hall n h

/-- A character of a base64 text, and not one of a bracketed text. -/
def IsB64 (c : Char) : Prop := 0x20 < c.toNat ∧ c.toNat < 0x7f ∧ c ≠ '['

instance (c : Char) : Decidable (IsB64 c) := inferInstanceAs (Decidable (_ ∧ _))

theorem isB64_b64Char (n : Nat) (h : n < 64) : IsB64 (b64Char n) := by
  have hall : ∀ i < 64, IsB64 (b64Char i) := by decide
  exact hall n h

/-- Four digits for three bytes, the last group padded. -/
def b64encodeChars : Bytes → List Char
  | [] => []
  | [a] => [b64Char (a.toNat / 4), b64Char (a.toNat % 4 * 16), '=', '=']
  | [a, b] => [b64Char (a.toNat / 4), b64Char (a.toNat % 4 * 16 + b.toNat / 16),
      b64Char (b.toNat % 16 * 4), '=']
  | a :: b :: c :: rest => b64Char (a.toNat / 4) :: b64Char (a.toNat % 4 * 16 + b.toNat / 16)
      :: b64Char (b.toNat % 16 * 4 + c.toNat / 64) :: b64Char (c.toNat % 64)
      :: b64encodeChars rest

/-- The base64 text of a byte string. -/
def b64encode (b : Bytes) : String := String.ofList (b64encodeChars b)

/-- The decoder's run over the characters that are left. `quad` counts the
    digits of the current group, `left` holds its unread bits, `pads` its
    padding so far, and `padded` says whether any padding has been seen. -/
def decodeLoop (strict : Bool) (quad left pads : Nat) (padded : Bool) :
    List Char → Option Bytes
  | [] => if quad = 0 then some [] else none
  | c :: cs =>
    if c = '=' then
      if 2 ≤ quad ∧ 4 ≤ quad + (pads + 1) then
        -- The group is complete: nothing may follow it in strict mode.
        if strict ∧ cs ≠ [] then none else some []
      else decodeLoop strict quad left (if 2 ≤ quad then pads + 1 else pads) true cs
    else
      match b64Value c with
      | none => if strict then none else decodeLoop strict quad left pads padded cs
      | some v =>
        if strict ∧ padded then none
        else
          match quad with
          | 0 => decodeLoop strict 1 v 0 padded cs
          | 1 => (decodeLoop strict 2 (v % 16) 0 padded cs).map
              (UInt8.ofNat (left * 4 + v / 16) :: ·)
          | 2 => (decodeLoop strict 3 (v % 4) 0 padded cs).map
              (UInt8.ofNat (left * 16 + v / 4) :: ·)
          | _ => (decodeLoop strict 0 0 0 padded cs).map (UInt8.ofNat (left * 64 + v) :: ·)

/-- Decoding. Text outside ASCII is refused in both modes; strict mode also
    refuses leading padding, characters that are no digits and anything after
    the padding, which the other mode skips. -/
def b64decode (strict : Bool) (s : String) : Option Bytes :=
  if s.toList.any (fun c => 128 ≤ c.toNat) then none
  else if strict ∧ s.toList.head? = some '=' then none
  else decodeLoop strict 0 0 0 false s.toList

/-- The first digit of a group only opens it. -/
theorem decodeLoop_open (strict : Bool) (left pads n : Nat) (cs : List Char) (h : n < 64) :
    decodeLoop strict 0 left pads false (b64Char n :: cs) = decodeLoop strict 1 n 0 false cs := by
  rw [decodeLoop, if_neg (b64Char_ne_pad n h), b64Value_b64Char n h]
  simp only [Bool.false_eq_true, and_false, if_false]

/-- The first two digits of a group make its first byte. -/
theorem decodeLoop_first (strict : Bool) (left m n : Nat) (x : UInt8) (cs : List Char)
    (hm : m < 64) (hn : n < 64) (hx : m * 4 + n / 16 = x.toNat) :
    decodeLoop strict 0 left 0 false (b64Char m :: b64Char n :: cs)
      = (decodeLoop strict 2 (n % 16) 0 false cs).map (x :: ·) := by
  rw [decodeLoop_open _ _ _ _ _ hm, decodeLoop, if_neg (b64Char_ne_pad n hn),
    b64Value_b64Char n hn]
  simp only [Bool.false_eq_true, and_false, if_false, hx, UInt8.ofNat_toNat]

theorem decodeLoop_second (strict : Bool) (left n : Nat) (x : UInt8) (cs : List Char)
    (hn : n < 64) (hx : left * 16 + n / 4 = x.toNat) :
    decodeLoop strict 2 left 0 false (b64Char n :: cs)
      = (decodeLoop strict 3 (n % 4) 0 false cs).map (x :: ·) := by
  rw [decodeLoop, if_neg (b64Char_ne_pad n hn), b64Value_b64Char n hn]
  simp only [Bool.false_eq_true, and_false, if_false, hx, UInt8.ofNat_toNat]

theorem decodeLoop_third (strict : Bool) (left n : Nat) (x : UInt8) (cs : List Char)
    (hn : n < 64) (hx : left * 64 + n = x.toNat) :
    decodeLoop strict 3 left 0 false (b64Char n :: cs)
      = (decodeLoop strict 0 0 0 false cs).map (x :: ·) := by
  rw [decodeLoop, if_neg (b64Char_ne_pad n hn), b64Value_b64Char n hn]
  simp only [Bool.false_eq_true, and_false, if_false, hx, UInt8.ofNat_toNat]

/-- Running the decoder over an encoded text, group by group. -/
theorem decodeLoop_encode (strict : Bool) (left : Nat) (b : Bytes) :
    decodeLoop strict 0 left 0 false (b64encodeChars b) = some b := by
  induction b using b64encodeChars.induct generalizing left with
  | case1 => simp only [b64encodeChars, decodeLoop, if_true]
  | case2 a =>
      have ha : a.toNat < 256 := a.toNat_lt
      rw [b64encodeChars, decodeLoop_first _ _ _ _ a _ (by omega) (by omega) (by omega)]
      -- The first pad leaves the group open, the second one closes it.
      simp only [decodeLoop, if_true, le_refl, ne_eq, not_true_eq_false, and_false, if_false,
        Nat.reduceAdd, Nat.reduceLeDiff, and_self, Option.map_some]
  | case3 a b =>
      have ha : a.toNat < 256 := a.toNat_lt
      have hb : b.toNat < 256 := b.toNat_lt
      rw [b64encodeChars, decodeLoop_first _ _ _ _ a _ (by omega) (by omega) (by omega),
        decodeLoop_second _ _ _ b _ (by omega) (by omega)]
      simp only [decodeLoop, if_true, le_refl, ne_eq, not_true_eq_false, and_false, if_false,
        Nat.reduceAdd, Nat.reduceLeDiff, and_self, Option.map_some]
  | case4 a b c rest ih =>
      have ha : a.toNat < 256 := a.toNat_lt
      have hb : b.toNat < 256 := b.toNat_lt
      have hc : c.toNat < 256 := c.toNat_lt
      rw [b64encodeChars, decodeLoop_first _ _ _ _ a _ (by omega) (by omega) (by omega),
        decodeLoop_second _ _ _ b _ (by omega) (by omega),
        decodeLoop_third _ _ _ c _ (by omega) (by omega), ih]
      rfl

/-- An encoded text is printable, without blanks and without opening brackets. -/
theorem isB64_of_mem (b : Bytes) : ∀ c ∈ b64encodeChars b, IsB64 c := by
  induction b using b64encodeChars.induct with
  | case1 => simp only [b64encodeChars, List.not_mem_nil, false_implies, implies_true]
  | case2 a =>
      have ha : a.toNat < 256 := a.toNat_lt
      simp only [b64encodeChars, List.forall_mem_cons]
      exact ⟨isB64_b64Char _ (by omega), isB64_b64Char _ (by omega), by decide, by decide,
        by simp only [List.not_mem_nil, false_implies, implies_true]⟩
  | case3 a b =>
      have ha : a.toNat < 256 := a.toNat_lt
      have hb : b.toNat < 256 := b.toNat_lt
      simp only [b64encodeChars, List.forall_mem_cons]
      exact ⟨isB64_b64Char _ (by omega), isB64_b64Char _ (by omega), isB64_b64Char _ (by omega),
        by decide, by simp only [List.not_mem_nil, false_implies, implies_true]⟩
  | case4 a b c rest ih =>
      have ha : a.toNat < 256 := a.toNat_lt
      have hb : b.toNat < 256 := b.toNat_lt
      have hc : c.toNat < 256 := c.toNat_lt
      simp only [b64encodeChars, List.forall_mem_cons]
      exact ⟨isB64_b64Char _ (by omega), isB64_b64Char _ (by omega), isB64_b64Char _ (by omega),
        isB64_b64Char _ (by omega), ih⟩

theorem head?_b64encodeChars (b : Bytes) : (b64encodeChars b).head? ≠ some '=' := by
  have hhead : ∀ x : UInt8, some (b64Char (x.toNat / 4)) ≠ some '=' := fun x hc =>
    b64Char_ne_pad _ (by have hx : x.toNat < 256 := x.toNat_lt; omega) (Option.some.inj hc)
  match b with
  | [] => exact nofun
  | [a] => exact hhead a
  | [a, _] => exact hhead a
  | a :: _ :: _ :: _ => exact hhead a

@[simp] theorem b64decode_b64encode (strict : Bool) (b : Bytes) :
    b64decode strict (b64encode b) = some b := by
  have hascii : (b64encodeChars b).any (fun c => 128 ≤ c.toNat) = false := by
    rw [List.any_eq_false]
    intro c hc
    have hlt := (isB64_of_mem b c hc).2.1
    simp only [decide_eq_true_eq, not_le]
    omega
  rw [b64decode, b64encode, String.toList_ofList, hascii, if_neg (by decide),
    if_neg (fun hc => head?_b64encodeChars b hc.2), decodeLoop_encode]

/-- The digits of base32. -/
def b32Char (n : Nat) : Char :=
  if n < 26 then Char.ofNat (65 + n) else Char.ofNat (24 + n)

/-- The padding of a last group of one to four bytes. -/
def b32Pads : Nat → Nat
  | 1 => 6
  | 2 => 4
  | 3 => 3
  | 4 => 1
  | _ => 0

/-- The eight digits of the first five bytes, read as one number. -/
def b32Group (b : Bytes) : List Char :=
  let n := ofBytesBE ((b ++ List.replicate 5 0).take 5)
  [n / 32 ^ 7, n / 32 ^ 6, n / 32 ^ 5, n / 32 ^ 4, n / 32 ^ 3, n / 32 ^ 2, n / 32, n].map
    (fun d => b32Char (d % 32))

/-- Eight digits for five bytes, the last group padded. -/
def b32encodeChars : Bytes → List Char
  | [] => []
  | a :: b :: c :: d :: e :: rest => b32Group [a, b, c, d, e] ++ b32encodeChars rest
  | short => (b32Group short).take (8 - b32Pads short.length)
      ++ List.replicate (b32Pads short.length) '='

/-- The base32 text of a byte string. -/
def b32encode (b : Bytes) : String := String.ofList (b32encodeChars b)

end Library
