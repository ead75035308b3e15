import Mathlib.Data.List.Infix

/-!
# Machines and Purged Inputs

A machine takes inputs one after the other, changes its state and answers each.
Purging a sequence of inputs means deleting some of them and comparing what
becomes of the rest. If each deleted input leaves the state alone at the moment
it comes, then neither the state at the end nor the answers to the others
change: whoever sends the deleted inputs does not interfere with anyone else.

A machine that another one sees a part of does the same to that part, so what
holds of the part holds of the machine.

## Main definitions

* `Machine`: A step with an answer.
* `Machine.after`: The state after a sequence of inputs.
* `Machine.answers`: The answers to the inputs that are kept.
* `Machine.Idle`: The inputs that are not kept leave the state alone.
* `Machine.View`: One machine as a part of another.

## Theorems

* `Machine.after_filter`, `Machine.answers_filter`: Idle inputs may be purged.
* `Machine.View.after`, `Machine.View.answers`: A run seen in part.
-/

namespace Library

/-- What a machine does with an input: its next state, and its answer. -/
abbrev Machine (σ α β : Type) : Type := σ → α → σ × β

namespace Machine

variable {σ τ α β : Type}

/-- The state after a sequence of inputs. -/
def after (m : Machine σ α β) (s : σ) (xs : List α) : σ := xs.foldl (fun s x => (m s x).1) s

/-- The answers to the inputs that are kept, out of a run on all of them. -/
def answers (m : Machine σ α β) (keep : α → Bool) : σ → List α → List β
  | _, [] => []
  | s, x :: xs =>
    if keep x then (m s x).2 :: m.answers keep (m s x).1 xs else m.answers keep (m s x).1 xs

/-- Each input that is not kept leaves the state as it is when it comes. -/
def Idle (m : Machine σ α β) (keep : α → Bool) (s : σ) (xs : List α) : Prop :=
  ∀ pre x, pre ++ [x] <+: xs → keep x = false → (m (m.after s pre) x).1 = m.after s pre

variable (m : Machine σ α β) (keep : α → Bool) (s : σ)

@[simp] theorem after_nil : m.after s [] = s := rfl

@[simp] theorem after_cons (x : α) (xs : List α) :
    m.after s (x :: xs) = m.after (m s x).1 xs := rfl

theorem after_append (xs ys : List α) : m.after s (xs ++ ys) = m.after (m.after s xs) ys :=
  List.foldl_append

theorem idle_cons (x : α) (xs : List α) (h : m.Idle keep s (x :: xs)) :
    (keep x = false → (m s x).1 = s) ∧ m.Idle keep (m s x).1 xs := by
  refine ⟨fun hx => h [] x ⟨xs, rfl⟩ hx, fun pre y hpre hy => ?_⟩
  exact h (x :: pre) y (List.cons_prefix_cons.mpr ⟨rfl, hpre⟩) hy

/-- Idle inputs make no difference to the state. -/
theorem after_filter (xs : List α) (h : m.Idle keep s xs) :
    m.after s (xs.filter keep) = m.after s xs := by
  induction xs generalizing s with
  | nil => rfl
  | cons x xs ih =>
      rcases idle_cons m keep s x xs h with ⟨hidle, hrest⟩
      cases hx : keep x with
      | true =>
          rw [List.filter_cons_of_pos hx, after_cons, after_cons]
          exact ih _ hrest
      | false =>
          rw [hidle hx] at hrest
          rw [List.filter_cons_of_neg (by rw [hx]; exact Bool.false_ne_true), after_cons, hidle hx]
          exact ih s hrest

/-- Nor to the answers. -/
theorem answers_filter (xs : List α) (h : m.Idle keep s xs) :
    m.answers keep s (xs.filter keep) = m.answers keep s xs := by
  induction xs generalizing s with
  | nil => rfl
  | cons x xs ih =>
      rcases idle_cons m keep s x xs h with ⟨hidle, hrest⟩
      cases hx : keep x with
      | true =>
          rw [List.filter_cons_of_pos hx, answers, answers, if_pos hx, if_pos hx, ih _ hrest]
      | false =>
          rw [hidle hx] at hrest
          have hskip : m.answers keep s (x :: xs) = m.answers keep s xs := by
            rw [answers, if_neg (by rw [hx]; exact Bool.false_ne_true), hidle hx]
          rw [List.filter_cons_of_neg (by rw [hx]; exact Bool.false_ne_true), hskip]
          exact ih s hrest

/-- A machine does to a part of its state what another machine does, and
    answers like it where the answer is kept. -/
structure View (m : Machine σ α β) (n : Machine τ α β) (inv : σ → Prop) (view : σ → τ)
    (keep : α → Bool) : Prop where
  keeps : ∀ s x, inv s → inv (m s x).1
  state : ∀ s x, inv s → view (m s x).1 = (n (view s) x).1
  answer : ∀ s x, inv s → keep x = true → (m s x).2 = (n (view s) x).2

namespace View

variable {m : Machine σ α β} {n : Machine τ α β} {inv : σ → Prop} {view : σ → τ} {keep : α → Bool}

theorem after (h : m.View n inv view keep) (s : σ) (hs : inv s) (xs : List α) :
    view (m.after s xs) = n.after (view s) xs := by
  induction xs generalizing s with
  | nil => rfl
  | cons x xs ih => rw [after_cons, after_cons, ih _ (h.keeps s x hs), h.state s x hs]

theorem answers (h : m.View n inv view keep) (s : σ) (hs : inv s) (xs : List α) :
    m.answers keep s xs = n.answers keep (view s) xs := by
  induction xs generalizing s with
  | nil => rfl
  | cons x xs ih =>
      rw [Machine.answers, Machine.answers, ih _ (h.keeps s x hs), h.state s x hs]
      cases hx : keep x with
      | true => rw [if_pos rfl, if_pos rfl, h.answer s x hs hx]
      | false => rw [if_neg Bool.false_ne_true, if_neg Bool.false_ne_true]

end View

end Machine

end Library
