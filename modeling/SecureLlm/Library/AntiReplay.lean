import Mathlib.Data.Set.Insert
import Mathlib.Order.Lattice

/-!
# Anti-Replay Filters

What a sliding-window replay check is for, said without the window: the
numbers let through so far, their high watermark, and a width below the
watermark from which on a number is refused unseen.

The filter remembers every number it let through, also those that have left
the window. An implementation forgets them, and is right to, because the
watermark never falls: a number is refused once it was let through, and
`admits_of_admits_accept` says that no refusal is taken back.

## Main definitions

* `AntiReplay`: A watermark and the numbers let through.
* `AntiReplay.Admits`: The numbers that may still come through.
* `AntiReplay.accept`: Letting a number through.

## Theorems

* `AntiReplay.not_admits_accept`: A number let through is refused at once.
* `AntiReplay.admits_of_admits_accept`: A refusal is never taken back.
-/

namespace Library

/-- A replay filter: the numbers let through, none above the watermark. -/
structure AntiReplay where
  high : ℕ
  seen : Set ℕ
  seen_le : ∀ c ∈ seen, c ≤ high

namespace AntiReplay

/-- A filter that has let nothing through and stands at a watermark. -/
def startAt (high : ℕ) : AntiReplay := ⟨high, ∅, fun _ h => h.elim⟩

/-- A number above the watermark comes through, and below it one that is
    unseen and closer than the width. -/
def Admits (width : ℕ) (f : AntiReplay) (c : ℕ) : Prop :=
  f.high < c ∨ f.high < c + width ∧ c ∉ f.seen

/-- Let a number through. -/
def accept (f : AntiReplay) (c : ℕ) : AntiReplay :=
  ⟨max f.high c, insert c f.seen, by
    intro d hd
    rcases hd with hd | hd
    · exact hd ▸ le_max_right _ _
    · exact (f.seen_le d hd).trans (le_max_left _ _)⟩

variable (width : ℕ) (f : AntiReplay)

theorem not_admits_accept (c : ℕ) : ¬ Admits width (f.accept c) c := by
  rintro (h | ⟨-, h⟩)
  · exact absurd h (not_lt.mpr (le_max_right _ _))
  · exact h (Set.mem_insert _ _)

/-- The watermark only rises and the numbers seen are only added to, so a
    number refused before is refused after. -/
theorem admits_of_admits_accept (c d : ℕ) (h : Admits width (f.accept c) d) :
    Admits width f d := by
  have hrise : f.high ≤ (f.accept c).high := le_max_left _ _
  rcases h with h | ⟨hnear, hseen⟩
  · exact Or.inl (lt_of_le_of_lt hrise h)
  · exact Or.inr ⟨lt_of_le_of_lt hrise hnear, fun hd => hseen (Set.mem_insert_of_mem _ hd)⟩

end AntiReplay

end Library
