import Mathlib.Data.List.Basic
import SecureLlm.Library.Dict

/-!
# Layers

Tables that are laid over each other, so that a later one decides about every
key it has. What a key maps to in the end is decided by the last layer that has
the key, and within a layer that is filled entry by entry by the last entry for
it. Where the layers come in an order, the last one is the greatest.

## Main definitions

* `lastWhere`: The last item that passes a test.
* `Dict.update`: A table laid over another.

## Theorems

* `lastWhere_cons`: The last item is looked for behind the first one.
* `rel_lastWhere`: In a sorted list it is the greatest.
* `Dict.get?_update`: The table on top decides about its keys.
-/

namespace Library

variable {α : Type}

/-- The last item that passes a test. -/
def lastWhere (p : α → Bool) (l : List α) : Option α := l.reverse.find? p

@[simp] theorem lastWhere_nil (p : α → Bool) : lastWhere p [] = none := rfl

theorem lastWhere_cons (p : α → Bool) (a : α) (l : List α) :
    lastWhere p (a :: l) = (lastWhere p l).or (if p a then some a else none) := by
  rw [lastWhere, List.reverse_cons, List.find?_append, lastWhere]
  cases ha : p a with
  | true => rw [List.find?_cons_of_pos ha, if_pos rfl]
  | false =>
      rw [List.find?_cons_of_neg (by rw [ha]; exact Bool.false_ne_true), List.find?_nil,
        if_neg Bool.false_ne_true]

theorem lastWhere_eq_some (p : α → Bool) (l : List α) (a : α) (h : lastWhere p l = some a) :
    p a = true ∧ a ∈ l :=
  ⟨List.find?_some h, List.mem_reverse.mp (List.mem_of_find?_eq_some h)⟩

theorem lastWhere_eq_none (p : α → Bool) (l : List α) :
    lastWhere p l = none ↔ ∀ a ∈ l, ¬ p a = true := by
  rw [lastWhere, List.find?_eq_none]
  exact ⟨fun h a ha => h a (List.mem_reverse.mpr ha), fun h a ha => h a (List.mem_reverse.mp ha)⟩

/-- In a list that is sorted by a relation, whatever passes the test comes before
    the last item that does. -/
theorem rel_lastWhere (r : α → α → Prop) (hrefl : ∀ a, r a a) (p : α → Bool) (l : List α) (a : α)
    (hsorted : l.Pairwise r) (h : lastWhere p l = some a) : ∀ b ∈ l, p b = true → r b a := by
  induction l with
  | nil => exact fun b hb => absurd hb List.not_mem_nil
  | cons c l ih =>
      rw [List.pairwise_cons] at hsorted
      rw [lastWhere_cons] at h
      intro b hb hp
      cases hlast : lastWhere p l with
      | some d =>
          rw [hlast, Option.some_or] at h
          rcases List.mem_cons.mp hb with rfl | hb
          · rw [← Option.some.inj h]
            exact hsorted.1 d (lastWhere_eq_some p l d hlast).2
          · exact ih hsorted.2 (hlast.trans h) b hb hp
      | none =>
          -- Nothing behind the head passes, so both are the head.
          rw [hlast, Option.none_or] at h
          rcases List.mem_cons.mp hb with rfl | hb
          · rw [if_pos hp] at h
            rw [Option.some.inj h]
            exact hrefl a
          · exact absurd hp ((lastWhere_eq_none p l).mp hlast b hb)

namespace Dict

variable {K V : Type} [DecidableEq K]

/-- `d.update(e)`: each entry in turn is assigned. -/
def update (d e : Dict K V) : Dict K V :=
  e.entries.foldl (fun out entry => out.set entry.1 entry.2) d

theorem get?_foldl_set (es : List (K × V)) (d : Dict K V) (hnodup : (es.map Prod.fst).Nodup)
    (k : K) : (es.foldl (fun out entry => out.set entry.1 entry.2) d).get? k
      = (es.lookup k).or (d.get? k) := by
  induction es generalizing d with
  | nil => rw [List.foldl_nil, List.lookup_nil, Option.none_or]
  | cons e es ih =>
      rw [List.map_cons, List.nodup_cons] at hnodup
      rw [List.foldl_cons, ih _ hnodup.2, get?_set, List.lookup_cons]
      by_cases hk : k = e.1
      · -- No later entry has the key of the head.
        have hrest : es.lookup k = none := by
          rw [List.lookup_eq_none_iff]
          intro entry hentry
          rw [bne_iff_ne]
          rintro heq
          rw [← hk, heq] at hnodup
          exact hnodup.1 (List.mem_map_of_mem hentry)
        rw [if_pos hk, hrest, Option.none_or, beq_iff_eq.mpr hk]
        rfl
      · rw [if_neg hk, beq_eq_false_iff_ne.mpr hk]

/-- The table on top decides about its keys. -/
theorem get?_update (d e : Dict K V) (k : K) : (d.update e).get? k = (e.get? k).or (d.get? k) :=
  get?_foldl_set e.entries d e.nodup k

end Dict

end Library
