import Mathlib.Algebra.BigOperators.Group.List.Basic
import Mathlib.Tactic.Tauto
import SecureLlm.Library.Dict

/-!
# Tallies

A list is gone through once, and what comes together under each key is kept in a
dictionary. A key has an entry when some item has it, and the entry is what its own
items alone give, in their order: those of other keys do not matter.

Where the items are counted, the counts over any list of distinct keys that has all
of theirs add up to how many items there are.

## Main definitions

* `tally`: Going through the list.

## Theorems

* `get?_tally`, `mem_keys_tally`: What is kept under a key.
* `sum_countP`, `sum_countP_keys`: Each item is counted under one key.
-/

namespace Library

variable {A K V : Type} [DecidableEq K]

/-- Go through a list and keep under each key what its items come to. -/
def tally (key : A → K) (add : V → A → V) (zero : V) (xs : List A) : Dict K V :=
  xs.foldl (fun d x => d.set (key x) (add ((d.get? (key x)).getD zero) x)) .empty

/-- **What is kept under a key** is what the items of that key come to. -/
theorem get?_tally (key : A → K) (add : V → A → V) (zero : V) (xs : List A) (k : K) :
    (tally key add zero xs).get? k =
      if k ∈ xs.map key then some ((xs.filter fun x => key x = k).foldl add zero) else none := by
  have hfrom : ∀ d : Dict K V, (xs.foldl (fun d x => d.set (key x) (add ((d.get? (key x)).getD
      zero) x)) d).get? k = if k ∈ xs.map key then
        some ((xs.filter fun x => key x = k).foldl add ((d.get? k).getD zero))
      else d.get? k := by
    induction xs with
    | nil =>
        intro d
        simp
    | cons x rest ih =>
        intro d
        rw [List.foldl_cons, ih, Dict.get?_set, List.map_cons, List.filter_cons]
        by_cases hkey : k = key x
        · have hmem : k ∈ key x :: rest.map key := by rw [hkey]; exact List.mem_cons_self
          have hfirst : decide (key x = k) = true := decide_eq_true hkey.symm
          rw [if_pos hkey, if_pos hmem, if_pos hfirst, List.foldl_cons, Option.getD_some, hkey]
          by_cases hrest : key x ∈ rest.map key
          · rw [if_pos hrest]
          · -- No later item has the key, so nothing more is added.
            have hnone : rest.filter (fun y => decide (key y = key x)) = [] := by
              rw [List.filter_eq_nil_iff]
              intro y hy hsame
              exact hrest (List.mem_map.mpr ⟨y, hy, of_decide_eq_true hsame⟩)
            rw [if_neg hrest, hnone, List.foldl_nil]
        · have hfirst : ¬ decide (key x = k) = true := fun h => hkey (of_decide_eq_true h).symm
          have hmem : k ∈ key x :: rest.map key ↔ k ∈ rest.map key := by
            rw [List.mem_cons, or_iff_right hkey]
          rw [if_neg hkey, if_neg hfirst, if_congr hmem rfl rfl]
  exact hfrom .empty

theorem mem_keys_tally (key : A → K) (add : V → A → V) (zero : V) (xs : List A) (k : K) :
    k ∈ (tally key add zero xs).entries.map Prod.fst ↔ ∃ x ∈ xs, key x = k := by
  rw [Dict.mem_keys_iff, get?_tally, ← List.mem_map]
  by_cases hk : k ∈ xs.map key
  · rw [if_pos hk]
    exact iff_of_true rfl hk
  · rw [if_neg hk]
    exact iff_of_false (by simp) hk

/-- The items counted under distinct keys are those that have one of the keys. -/
theorem sum_countP (key : A → K) (keys : List K) (hnodup : keys.Nodup) (xs : List A) :
    (keys.map fun k => xs.countP fun x => key x = k).sum = xs.countP fun x => key x ∈ keys := by
  induction keys with
  | nil => simp
  | cons k rest ih =>
      rw [List.nodup_cons] at hnodup
      rw [List.map_cons, List.sum_cons, ih hnodup.2,
        List.countP_eq_countP_filter_add xs (fun x => key x ∈ k :: rest) fun x => key x = k,
        List.countP_filter, List.countP_filter]
      refine congrArg₂ _ (List.countP_congr fun x _ => ?_) (List.countP_congr fun x _ => ?_)
      · by_cases hkey : key x = k
        · simp [hkey]
        · simp [hkey]
      · by_cases hkey : key x = k
        · simp [hkey, hnodup.1]
        · simp [hkey]

/-- **Each item is counted under one key.** -/
theorem sum_countP_keys (key : A → K) (keys : List K) (hnodup : keys.Nodup) (xs : List A)
    (hall : ∀ x ∈ xs, key x ∈ keys) :
    (keys.map fun k => xs.countP fun x => key x = k).sum = xs.length := by
  rw [sum_countP key keys hnodup, List.countP_eq_length]
  intro x hx
  exact decide_eq_true (hall x hx)

end Library
