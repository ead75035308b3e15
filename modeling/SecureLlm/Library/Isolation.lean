import Mathlib.Data.List.Basic
import Mathlib.Data.List.DropRight
import Mathlib.Data.List.TakeWhile
import Mathlib.Algebra.Order.BigOperators.Group.List
import Mathlib.Algebra.Order.Group.Nat

/-!
# Isolation of Outputs

Some states agree on what one party owns. An output is confined at a state if
all the states that agree with it have the same output, so that it tells the
party nothing but what it owns.

An output that is computed from what is agreed on is confined. To see that one
is not, two states that agree and whose outputs differ are enough, and neither
has to be the state itself.

The lists here hold what all parties own, and the states agree on the part of
one of them. A list that has room can get an item of another party; one that is
full of the party's own is agreed on as a whole.

## Main definitions

* `Confined`: All states that agree have the same output.

## Theorems

* `not_confined`: Two states that agree with different outputs.
* `eq_of_full`: Bounded lists that are full of the part they agree on are equal.
* `prefix_filter_takeWhile`, `suffix_filter_rtakeWhile`: What lies past a barrier
  when some of the barriers are left out.
* `exists_fresh`: A string that is not in a list, with a given beginning and end.
-/

namespace Library

variable {S O P : Type}

/-- All states that agree with a state have its output. -/
def Confined (agree : S → S → Prop) (out : S → O) (s : S) : Prop :=
  ∀ t, agree s t → out s = out t

section

variable {agree : S → S → Prop} {out : S → O} {s : S}

/-- Two states that agree with different outputs, by what they are read through. -/
theorem not_confined {t u : S} (f : O → P) (ht : agree s t) (hu : agree s u)
    (hne : f (out t) ≠ f (out u)) : ¬ Confined agree out s := by
  intro h
  rw [← h t ht, ← h u hu] at hne
  exact hne rfl

end

section

variable {α : Type}

/-- Bounded lists that are full of the part they agree on are equal. -/
theorem eq_of_full {p q : α → Bool} {l l' : List α} {n : ℕ} (hle : l.length ≤ n)
    (hle' : l'.length ≤ n) (hagree : l.filter p = l'.filter q) (hfull : (l.filter p).length = n) :
    l = l' := by
  have hall : ∀ {r : α → Bool} {k : List α}, k.length ≤ n → (k.filter r).length = n →
      k.filter r = k := by
    intro r k hk hr
    refine List.filter_sublist.eq_of_length_le ?_
    omega
  rw [← hall hle hfull, hagree]
  exact hall hle' (hagree ▸ hfull)

/-- What passes before the first barrier is a beginning of what passes before the
    first barrier among those that pass. -/
theorem prefix_filter_takeWhile (p q : α → Bool) (l : List α) :
    (l.takeWhile p).filter q <+: (l.filter q).takeWhile p := by
  induction l with
  | nil => exact List.prefix_refl _
  | cons a rest ih =>
      cases hp : p a with
      | false =>
          rw [List.takeWhile_cons_of_neg (by simp [hp]), List.filter_nil]
          exact List.nil_prefix
      | true =>
          rw [List.takeWhile_cons_of_pos hp]
          cases hq : q a with
          | false =>
              rw [List.filter_cons_of_neg (by simp [hq]), List.filter_cons_of_neg (by simp [hq])]
              exact ih
          | true =>
              rw [List.filter_cons_of_pos hq, List.filter_cons_of_pos hq,
                List.takeWhile_cons_of_pos hp]
              exact (List.cons_prefix_cons).mpr ⟨rfl, ih⟩

/-- The same from the end. -/
theorem suffix_filter_rtakeWhile (p q : α → Bool) (l : List α) :
    (l.rtakeWhile p).filter q <:+ (l.filter q).rtakeWhile p := by
  unfold List.rtakeWhile
  rw [List.filter_reverse, ← List.filter_reverse (l := l)]
  exact List.reverse_suffix.mpr (prefix_filter_takeWhile p q l.reverse)

end

/-- A string with a given beginning and end that is not in a list. -/
theorem exists_fresh (first last : String) (taken : List String) :
    ∃ s, first ++ s ++ last ∉ taken := by
  refine ⟨String.ofList (List.replicate ((taken.map String.length).sum + 1) 'a'), fun h => ?_⟩
  have hmem := List.mem_map_of_mem (f := String.length) h
  have hle := List.single_le_sum (fun _ _ => Nat.zero_le _) _ hmem
  rw [String.length_append, String.length_append, String.length_ofList,
    List.length_replicate] at hle
  omega

end Library
