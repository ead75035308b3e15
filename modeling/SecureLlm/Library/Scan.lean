import Mathlib.Data.List.Basic
import Mathlib.Data.List.DropRight

/-!
# Scans from the End

A bounded buffer keeps the last items it is given. A scan from its end with two
early exits, one at a barrier and one when it has enough, is to find the last
items that pass a test, and a barrier does not pass.

It finds them just when no barrier hides one: an item that passes may lie before a
barrier only if enough of them lie behind it. Where the items are in order there is
nothing that passes before a barrier at all.

## Main definitions

* `keepLast`: An item more in a bounded buffer.
* `EnoughBehind`: No barrier hides an item.

## Theorems

* `foldl_keepLast`: What is in the buffer.
* `rtake_scan_eq`, `enoughBehind_of_length`: When the scan finds the last items that
  pass.
* `enoughBehind_of_pairwise`: Items in order.
-/

namespace Library

variable {α : Type}

/-- An item more, with the oldest left out where there is no room. -/
def keepLast (n : ℕ) (l : List α) (x : α) : List α := (l ++ [x]).rtake n

theorem length_rtake (n : ℕ) (l : List α) : (l.rtake n).length = min n l.length := by
  rw [List.rtake, List.length_drop]
  omega

/-- What lies before enough items makes no difference. -/
theorem rtake_append_of_le {n : ℕ} (l : List α) {k : List α} (h : n ≤ k.length) :
    (l ++ k).rtake n = k.rtake n := by
  rw [List.rtake, List.rtake, List.drop_append, List.length_append,
    List.drop_of_length_le (by omega), List.nil_append]
  congr 1
  omega

theorem keepLast_rtake (n : ℕ) (l : List α) (x : α) :
    keepLast n (l.rtake n) x = (l ++ [x]).rtake n := by
  rw [keepLast]
  cases n with
  | zero => rw [List.rtake_zero, List.rtake_zero]
  | succ n =>
      rw [List.rtake_concat_succ, List.rtake_concat_succ, List.rtake, List.rtake, List.rtake,
        List.drop_drop, List.length_drop]
      congr 2
      omega

/-- The buffer holds the last items it was given. -/
theorem foldl_keepLast (n : ℕ) (items l : List α) :
    items.foldl (keepLast n) (l.rtake n) = (l ++ items).rtake n := by
  induction items generalizing l with
  | nil => rw [List.foldl_nil, List.append_nil]
  | cons x items ih =>
      rw [List.foldl_cons, keepLast_rtake, ih, List.append_assoc, List.singleton_append]

/-- An item that passes lies before a barrier only if enough of them lie behind it. -/
def EnoughBehind (barrier passes : α → Bool) (n : ℕ) (l : List α) : Prop :=
  ∀ before b after, l = before ++ b :: after → barrier b → (∃ a ∈ before, passes a) →
    n ≤ after.countP passes

variable {barrier passes : α → Bool} {n : ℕ} {l : List α}

/-- A list is what the scan reaches, behind the last barrier if there is one. -/
theorem eq_rtakeWhile_or (barrier : α → Bool) (l : List α) :
    l.rtakeWhile (fun a => !barrier a) = l ∨ ∃ before b, barrier b ∧
      l = before ++ b :: l.rtakeWhile (fun a => !barrier a) := by
  induction l using List.reverseRecOn with
  | nil => exact .inl rfl
  | append_singleton l x ih =>
      by_cases hx : barrier x
      · refine .inr ⟨l, x, hx, ?_⟩
        rw [List.rtakeWhile_concat_neg _ _ _ (by simp [hx])]
      · rw [List.rtakeWhile_concat_pos _ _ _ (by simp [hx])]
        rcases ih with h | ⟨before, b, hb, h⟩
        · exact .inl (by rw [h])
        · refine .inr ⟨before, b, hb, ?_⟩
          rw [← List.cons_append, ← List.append_assoc, ← h]

/-- What the scan reaches lies behind every barrier. -/
theorem rtakeWhile_suffix_of_eq (before after : List α) (b : α) (hb : barrier b)
    (h : l = before ++ b :: after) : l.rtakeWhile (fun a => !barrier a) <:+ after := by
  subst h
  induction after using List.reverseRecOn with
  | nil =>
      simp [List.rtakeWhile_concat_neg, hb]
  | append_singleton after x ih =>
      rw [← List.cons_append, ← List.append_assoc]
      by_cases hx : barrier x
      · rw [List.rtakeWhile_concat_neg _ _ _ (by simp [hx])]
        exact List.nil_suffix
      · rw [List.rtakeWhile_concat_pos _ _ _ (by simp [hx])]
        rcases ih with ⟨front, hfront⟩
        exact ⟨front, by rw [← List.append_assoc, hfront]⟩

variable (hpasses : ∀ a, barrier a → passes a = false)

include hpasses

/-- Where no barrier hides an item, the scan finds the last ones. -/
theorem rtake_scan_eq (h : EnoughBehind barrier passes n l) :
    ((l.rtakeWhile (fun a => !barrier a)).filter passes).rtake n = (l.filter passes).rtake n := by
  rcases eq_rtakeWhile_or barrier l with hall | ⟨before, b, hb, hsplit⟩
  · rw [hall]
  · have hfilter : l.filter passes = before.filter passes ++
        (l.rtakeWhile (fun a => !barrier a)).filter passes := by
      conv_lhs => rw [hsplit]
      rw [List.filter_append, List.filter_cons_of_neg (by simp [hpasses b hb])]
    by_cases hbefore : ∃ a ∈ before, passes a
    · have henough := h before b _ hsplit hb hbefore
      rw [hfilter, rtake_append_of_le]
      rw [← List.countP_eq_length_filter]
      exact henough
    · have hnone : before.filter passes = [] :=
        List.filter_eq_nil_iff.mpr fun a ha hpass => hbefore ⟨a, ha, hpass⟩
      rw [hfilter, hnone, List.nil_append]

/-- Where it finds as many, none is hidden. -/
theorem enoughBehind_of_length
    (h : (((l.rtakeWhile (fun a => !barrier a)).filter passes).rtake n).length
      = ((l.filter passes).rtake n).length) : EnoughBehind barrier passes n l := by
  intro before b after hsplit hb hbefore
  -- The scan finds no more than lies behind, and there is one more in front of it.
  have hsuffix := (rtakeWhile_suffix_of_eq before after b hb hsplit).sublist.filter passes
  have hreached := hsuffix.length_le
  have hfront : 0 < before.countP passes := List.countP_pos_iff.mpr hbefore
  have htotal : (l.filter passes).length = before.countP passes + after.countP passes := by
    rw [hsplit, List.filter_append, List.length_append,
      List.filter_cons_of_neg (by simp [hpasses b hb]), List.countP_eq_length_filter,
      List.countP_eq_length_filter]
  rw [length_rtake, length_rtake, htotal] at h
  rw [← List.countP_eq_length_filter (l := after)] at hreached
  omega

omit hpasses

/-- Where a barrier is never behind an item that passes, none is hidden. -/
theorem enoughBehind_of_pairwise (h : l.Pairwise fun a b => passes a → barrier b = false) :
    EnoughBehind barrier passes n l := by
  intro before b after hsplit hb hbefore
  rcases hbefore with ⟨a, ha, hpass⟩
  rw [hsplit, List.pairwise_append] at h
  have hno := h.2.2 a ha b List.mem_cons_self hpass
  rw [hno] at hb
  cases hb

end Library
