import Mathlib.Algebra.Group.Int.Defs
import Mathlib.Algebra.Group.Nat.Defs
import Mathlib.Data.List.Basic
import Mathlib.Data.List.Infix

/-!
# Byte Strings

Byte strings and the encodings a wire format is built from: big-endian
integers of a fixed width, fields joined by a separator, hexadecimal text,
and text as bytes.

A format that joins its fields with a separator is unambiguous only where the
separator cannot be taken for field content. Fields of a fixed width settle
it by their length (`List.append_inj`), and `append_marker_inj` covers the
remaining case, a field that cannot contain a byte followed by a field that
must start with it. `append_last_marker_inj` is the same read from the end.

## Main definitions

* `Bytes`: A byte string.
* `toBytesBE`: The big-endian encoding of a number in a given width.
* `ofBytesBE`: The number a big-endian encoding stands for.
* `joinBytes`: Fields separated by one byte.
* `utf8`: The UTF-8 encoding of a text.
* `hex`: Lowercase hexadecimal text.

## Theorems

* `length_toBytesBE`: The encoding has the width asked for.
* `ofBytesBE_toBytesBE`: A number that fits its width is read back.
* `toBytesBE_ofBytesBE`: Reading and writing back is the identity.
* `ofBytesBE_lt`: What is read from a width fits it.
* `append_marker_inj`: Splitting at the first occurrence of a byte.
* `append_last_marker_inj`: Splitting at the last one.
* `utf8_inj`: The encoding of a text determines it.
* `hex_inj`: The hexadecimal text of a byte string determines it.
-/

namespace Library

/-- A byte string. -/
abbrev Bytes := List UInt8

/-- The big-endian encoding of `n` in `len` bytes. -/
def toBytesBE : Nat → Nat → Bytes
  | 0, _ => []
  | len + 1, n => toBytesBE len (n / 256) ++ [UInt8.ofNat (n % 256)]

/-- The number a big-endian byte string stands for. -/
def ofBytesBE (b : Bytes) : Nat := b.foldl (fun acc x => acc * 256 + x.toNat) 0

@[simp] theorem length_toBytesBE (len n : Nat) : (toBytesBE len n).length = len := by
  induction len generalizing n with
  | zero => rfl
  | succ len ih => simp only [toBytesBE, List.length_append, ih, List.length_singleton]

theorem ofBytesBE_concat (b : Bytes) (x : UInt8) :
    ofBytesBE (b ++ [x]) = ofBytesBE b * 256 + x.toNat := by
  simp only [ofBytesBE, List.foldl_append, List.foldl_cons, List.foldl_nil]

theorem ofBytesBE_toBytesBE (len n : Nat) (h : n < 256 ^ len) :
    ofBytesBE (toBytesBE len n) = n := by
  induction len generalizing n with
  | zero =>
      rw [Nat.pow_zero] at h
      simp only [toBytesBE, ofBytesBE, List.foldl_nil]
      omega
  | succ len ih =>
      have hdiv : n / 256 < 256 ^ len := by
        rw [Nat.pow_succ] at h
        omega
      have hbyte : (UInt8.ofNat (n % 256)).toNat = n % 256 := by
        rw [UInt8.toNat_ofNat']
        omega
      rw [toBytesBE, ofBytesBE_concat, ih _ hdiv, hbyte]
      omega

theorem toBytesBE_ofBytesBE (b : Bytes) : toBytesBE b.length (ofBytesBE b) = b := by
  induction b using List.reverseRecOn with
  | nil => rfl
  | append_singleton b x ih =>
      have hx : x.toNat < 256 := x.toNat_lt
      have hdiv : (ofBytesBE b * 256 + x.toNat) / 256 = ofBytesBE b := by omega
      have hmod : (ofBytesBE b * 256 + x.toNat) % 256 = x.toNat := by omega
      rw [List.length_append, List.length_singleton, toBytesBE, ofBytesBE_concat, hdiv, hmod, ih,
        UInt8.ofNat_toNat]

theorem ofBytesBE_lt (b : Bytes) : ofBytesBE b < 256 ^ b.length := by
  induction b using List.reverseRecOn with
  | nil => exact Nat.one_pos
  | append_singleton b x ih =>
      have hx : x.toNat < 256 := x.toNat_lt
      rw [List.length_append, List.length_singleton, Nat.pow_succ, ofBytesBE_concat]
      omega

theorem toBytesBE_inj (len m n : Nat) (hm : m < 256 ^ len) (hn : n < 256 ^ len)
    (h : toBytesBE len m = toBytesBE len n) : m = n := by
  rw [← ofBytesBE_toBytesBE len m hm, ← ofBytesBE_toBytesBE len n hn, h]

/-- Fields separated by one byte, as `sep.join(fields)` builds them. -/
def joinBytes (sep : UInt8) (fields : List Bytes) : Bytes := [sep].intercalate fields

@[simp] theorem joinBytes_singleton (sep : UInt8) (a : Bytes) : joinBytes sep [a] = a := by
  simp only [joinBytes, List.intercalate, List.intersperse, List.flatten_cons, List.flatten_nil,
    List.append_nil]

@[simp] theorem joinBytes_cons_cons (sep : UInt8) (a b : Bytes) (rest : List Bytes) :
    joinBytes sep (a :: b :: rest) = a ++ sep :: joinBytes sep (b :: rest) := by
  simp only [joinBytes, List.intercalate, List.intersperse, List.flatten_cons,
    List.singleton_append]

/-- A byte that occurs in neither front part marks where the fronts end. -/
theorem append_marker_inj {α : Type} (m : α) (a b x y : List α) (ha : m ∉ a) (hb : m ∉ b)
    (h : a ++ m :: x = b ++ m :: y) : a = b ∧ x = y := by
  induction a generalizing b with
  | nil =>
      cases b with
      | nil => exact ⟨rfl, (List.cons.inj h).2⟩
      | cons c b =>
          -- The marker would have to be the head of the other front.
          exact absurd (List.mem_cons.mpr (Or.inl (List.cons.inj h).1)) hb
  | cons c a ih =>
      cases b with
      | nil => exact absurd (List.mem_cons.mpr (Or.inl (List.cons.inj h).1.symm)) ha
      | cons d b =>
          obtain ⟨hcd, hrest⟩ := List.cons.inj h
          obtain ⟨hab, hxy⟩ := ih b (fun hc => ha (List.mem_cons_of_mem _ hc))
            (fun hc => hb (List.mem_cons_of_mem _ hc)) hrest
          exact ⟨by rw [hcd, hab], hxy⟩

/-- A byte that occurs in neither back part marks where the backs begin. -/
theorem append_last_marker_inj {α : Type} (m : α) (a b x y : List α) (hx : m ∉ x) (hy : m ∉ y)
    (h : a ++ m :: x = b ++ m :: y) : a = b ∧ x = y := by
  have hrev : x.reverse ++ m :: a.reverse = y.reverse ++ m :: b.reverse := by
    have hboth := congrArg List.reverse h
    rw [List.reverse_append, List.reverse_append, List.reverse_cons, List.reverse_cons,
      List.append_assoc, List.append_assoc, List.singleton_append, List.singleton_append] at hboth
    exact hboth
  obtain ⟨hxy, hab⟩ := append_marker_inj m _ _ _ _ (fun hm => hx (List.mem_reverse.mp hm))
    (fun hm => hy (List.mem_reverse.mp hm)) hrev
  exact ⟨List.reverse_inj.mp hab, List.reverse_inj.mp hxy⟩

/-- The UTF-8 encoding of a text. -/
def utf8 (s : String) : Bytes := s.toUTF8.data.toList

theorem utf8_inj (s t : String) (h : utf8 s = utf8 t) : s = t :=
  String.toByteArray_inj.mp (ByteArray.ext (Array.toList_inj.mp h))

theorem utf8_append (s t : String) : utf8 (s ++ t) = utf8 s ++ utf8 t := by
  simp only [utf8, String.toUTF8, String.toByteArray_append, ByteArray.data_append,
    Array.toList_append]

/-- One lowercase hexadecimal digit. -/
def hexDigit (n : Nat) : Char :=
  if n < 10 then Char.ofNat (48 + n) else Char.ofNat (87 + n)

theorem hexDigit_inj (m n : Nat) (hm : m < 16) (hn : n < 16) (h : hexDigit m = hexDigit n) :
    m = n := by
  have hall : ∀ i < 16, ∀ j < 16, hexDigit i = hexDigit j → i = j := by decide
  exact hall m hm n hn h

/-- The two hexadecimal digits of each byte. -/
def hexChars : Bytes → List Char
  | [] => []
  | x :: b => hexDigit (x.toNat / 16) :: hexDigit (x.toNat % 16) :: hexChars b

/-- Lowercase hexadecimal text. -/
def hex (b : Bytes) : String := String.ofList (hexChars b)

theorem hexChars_inj (a b : Bytes) (h : hexChars a = hexChars b) : a = b := by
  induction a generalizing b with
  | nil =>
      cases b with
      | nil => rfl
      | cons y b => exact absurd h (by simp only [hexChars, reduceCtorEq, not_false_eq_true])
  | cons x a ih =>
      cases b with
      | nil => exact absurd h (by simp only [hexChars, reduceCtorEq, not_false_eq_true])
      | cons y b =>
          simp only [hexChars, List.cons.injEq] at h
          have hx : x.toNat < 256 := x.toNat_lt
          have hy : y.toNat < 256 := y.toNat_lt
          have hhi := hexDigit_inj _ _ (by omega) (by omega) h.1
          have hlo := hexDigit_inj _ _ (by omega) (by omega) h.2.1
          have hxy : x = y := UInt8.toNat_inj.mp (by omega)
          rw [hxy, ih b h.2.2]

theorem hex_inj (a b : Bytes) (h : hex a = hex b) : a = b :=
  hexChars_inj a b (String.ofList_inj.mp h)

end Library
