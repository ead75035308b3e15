import SecureLlm.Library.Encoding

/-!
# Texts With Surrogates

Texts of a language in which a text is any sequence of code points, so that half of
a surrogate pair may stand alone. There is no encoding of such a half. What is left
are the sequences of scalar values, which are the `String`s: a text can be encoded
exactly when it is one of them.

## Main definitions

* `CodePoint`: A scalar value, or half of a surrogate pair.
* `Text`: A sequence of code points.
* `Text.ofString`, `Text.toString?`: A string as a text, and back if it is one.
* `Text.encode`: The UTF-8 encoding, if there is one.
* `Text.strip`: A text without the blanks at its ends.

## Theorems

* `Text.toString?_eq_some_iff`: When a text is a string.
* `Text.encode_eq_none_iff`: A text without an encoding has a surrogate in it.
* `Text.encode_ofString`, `Text.strip_ofString`: What is done to a string as a text.
-/

namespace Library

/-- A scalar value, or half of a surrogate pair, by its distance from `U+D800`. -/
inductive CodePoint where
  | scalar (c : Char)
  | surrogate (n : Fin 2048)
  deriving DecidableEq, Repr

/-- A sequence of code points. -/
@[ext] structure Text where
  points : List CodePoint
  deriving DecidableEq, Repr

namespace Text

def ofString (s : String) : Text := ⟨s.toList.map .scalar⟩

instance : Coe String Text := ⟨ofString⟩

/-- The characters, if all code points are scalar values. -/
def scalars? : List CodePoint → Option (List Char)
  | [] => some []
  | .scalar c :: ps => (scalars? ps).map (c :: ·)
  | .surrogate _ :: _ => none

def toString? (t : Text) : Option String := (scalars? t.points).map String.ofList

/-- `t.encode("utf-8")`, or nothing where it raises. -/
def encode (t : Text) : Option Bytes := t.toString?.map utf8

/-- A blank among the code points. A surrogate is none. -/
def isBlank (blank : Char → Bool) : CodePoint → Bool
  | .scalar c => blank c
  | .surrogate _ => false

/-- `t.strip()`, for a notion of blanks. -/
def strip (blank : Char → Bool) (t : Text) : Text :=
  ⟨((t.points.dropWhile (isBlank blank)).reverse.dropWhile (isBlank blank)).reverse⟩

theorem scalars?_eq_some_iff (ps : List CodePoint) (cs : List Char) :
    scalars? ps = some cs ↔ ps = cs.map .scalar := by
  induction ps generalizing cs with
  | nil =>
      rw [scalars?, Option.some.injEq]
      constructor
      · rintro rfl
        rfl
      · intro h
        exact (List.map_eq_nil_iff.mp h.symm).symm
  | cons p ps ih =>
      cases p with
      | scalar c =>
          rw [scalars?, Option.map_eq_some_iff]
          constructor
          · rintro ⟨ds, hds, rfl⟩
            rw [(ih ds).mp hds, List.map_cons]
          · intro h
            rcases List.map_eq_cons_iff.mp h.symm with ⟨d, ds, rfl, hd, hds⟩
            rw [← CodePoint.scalar.inj hd]
            exact ⟨ds, (ih ds).mpr hds.symm, rfl⟩
      | surrogate n =>
          rw [scalars?]
          constructor
          · exact fun h => absurd h nofun
          · intro h
            rcases List.map_eq_cons_iff.mp h.symm with ⟨d, ds, -, hd, -⟩
            exact absurd hd nofun

/-- A text is a string exactly when it is made of the characters of one. -/
theorem toString?_eq_some_iff (t : Text) (s : String) : t.toString? = some s ↔ t = ofString s := by
  rw [toString?, Option.map_eq_some_iff, Text.ext_iff, ofString]
  constructor
  · rintro ⟨cs, hcs, rfl⟩
    rw [String.toList_ofList]
    exact (scalars?_eq_some_iff _ _).mp hcs
  · intro h
    exact ⟨s.toList, (scalars?_eq_some_iff _ _).mpr h, String.ofList_toList⟩

@[simp] theorem toString?_ofString (s : String) : (ofString s).toString? = some s :=
  (toString?_eq_some_iff _ _).mpr rfl

@[simp] theorem encode_ofString (s : String) : (ofString s).encode = some (utf8 s) := by
  rw [encode, toString?_ofString, Option.map_some]

theorem scalars?_eq_none_iff (ps : List CodePoint) :
    scalars? ps = none ↔ ∃ n, .surrogate n ∈ ps := by
  induction ps with
  | nil => exact ⟨nofun, fun ⟨_, h⟩ => absurd h List.not_mem_nil⟩
  | cons p ps ih =>
      cases p with
      | scalar c =>
          rw [scalars?, Option.map_eq_none_iff, ih]
          simp only [List.mem_cons, reduceCtorEq, false_or]
      | surrogate n => exact iff_of_true rfl ⟨n, List.mem_cons_self⟩

/-- A text cannot be encoded exactly when there is a surrogate in it. -/
theorem encode_eq_none_iff (t : Text) : t.encode = none ↔ ∃ n, .surrogate n ∈ t.points := by
  rw [encode, Option.map_eq_none_iff, toString?, Option.map_eq_none_iff, scalars?_eq_none_iff]

/-- The blanks in front of a string are those in front of the text. -/
theorem dropWhile_isBlank (blank : Char → Bool) (cs : List Char) :
    (cs.map .scalar).dropWhile (isBlank blank) = (cs.dropWhile blank).map .scalar := by
  induction cs with
  | nil => rfl
  | cons c cs ih =>
      rw [List.map_cons, List.dropWhile_cons, List.dropWhile_cons, isBlank, ih]
      by_cases hblank : blank c = true
      · rw [if_pos hblank, if_pos hblank]
      · rw [if_neg hblank, if_neg hblank, List.map_cons]

theorem strip_ofString (blank : Char → Bool) (s : String) :
    (ofString s).strip blank =
      ofString (String.ofList ((s.toList.dropWhile blank).reverse.dropWhile blank).reverse) := by
  rw [strip, ofString, ofString, dropWhile_isBlank, ← List.map_reverse, dropWhile_isBlank,
    ← List.map_reverse, String.toList_ofList]

end Text

end Library
