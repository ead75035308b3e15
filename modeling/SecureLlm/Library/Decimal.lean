import Mathlib.Algebra.Order.Floor.Semiring
import Mathlib.Data.Rat.Floor
import Mathlib.Tactic.Linarith

/-!
# Fixed-Point Text

A number written with a fixed number of digits after the point, as `format` does
it: rounded to the nearest, ties to even, and with the sign of the number before
rounding. The text forgets what is below the last digit.

## Main definitions

* `roundHalfEven`: The nearest natural number.
* `fracDigits`: The last digits of a number.
* `fixed`: The text.

## Theorems

* `roundHalfEven_add`: Less than a half is forgotten.
* `fixed_add`: Less than a half of the last digit is forgotten.
* `getLast?_fixed`: The text ends in a digit.
-/

namespace Library

/-- The natural number nearest to a rational one, ties to even. -/
def roundHalfEven (q : ℚ) : ℕ :=
  let n := q.floor.toNat
  if q - n < 1 / 2 then n
  else if 1 / 2 < q - n then n + 1
  else if n % 2 = 0 then n else n + 1

/-- The last digits of a number, with zeros in front. -/
def fracDigits : ℕ → ℕ → List Char
  | 0, _ => []
  | places + 1, n => fracDigits places (n / 10) ++ [Nat.digitChar (n % 10)]

/-- The text of a number with a sign, with some digits after the point. -/
def fixed (places : ℕ) (negative : Bool) (magnitude : ℚ) : String :=
  let n := roundHalfEven (magnitude * 10 ^ places)
  (if negative then "-" else "") ++ toString (n / 10 ^ places) ++ "." ++
    String.ofList (fracDigits places (n % 10 ^ places))

theorem roundHalfEven_add (n : ℕ) (r : ℚ) (hr : 0 ≤ r) (hhalf : r < 1 / 2) :
    roundHalfEven (n + r) = n := by
  have hfloor : (n + r : ℚ).floor = n := by
    rw [show (n + r : ℚ).floor = ⌊(n + r : ℚ)⌋ from rfl, Int.floor_eq_iff]
    refine ⟨?_, ?_⟩
    · push_cast
      linarith
    · push_cast
      linarith
  simp only [roundHalfEven, hfloor, Int.toNat_natCast]
  rw [if_pos]
  linarith

theorem fixed_add (places : ℕ) (negative : Bool) (n : ℕ) (r : ℚ) (hr : 0 ≤ r)
    (hhalf : r * 10 ^ places < 1 / 2) :
    fixed places negative (n + r) = fixed places negative n := by
  have hround : ∀ x : ℚ, 0 ≤ x → x * 10 ^ places < 1 / 2 →
      roundHalfEven ((n + x) * 10 ^ places) = n * 10 ^ places := by
    intro x hx hlow
    have hsplit : ((n : ℚ) + x) * 10 ^ places = ((n * 10 ^ places : ℕ) : ℚ) + x * 10 ^ places := by
      push_cast
      rw [add_mul]
    rw [hsplit]
    exact roundHalfEven_add _ _ (mul_nonneg hx (by positivity)) hlow
  have hzero := hround 0 (le_refl 0) (by rw [zero_mul]; norm_num)
  rw [add_zero] at hzero
  simp only [fixed, hround r hr hhalf, hzero]

/-- The text ends in a digit. -/
theorem getLast?_fixed (places : ℕ) (negative : Bool) (magnitude : ℚ) :
    ∃ d < 10, (fixed (places + 1) negative magnitude).toList.getLast? = some (Nat.digitChar d) := by
  refine ⟨roundHalfEven (magnitude * 10 ^ (places + 1)) % 10 ^ (places + 1) % 10,
    Nat.mod_lt _ (by decide), ?_⟩
  simp only [fixed, String.toList_append, String.toList_ofList, fracDigits]
  rw [← List.append_assoc, List.getLast?_concat]

end Library
