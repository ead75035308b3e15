import SecureLlm.Library.Coop

/-!
# Tasks Run Alone

A task run from start to end with nothing in between: at one moment, and the service
answers each question at once, from a state of its own. A wait for what nobody else
is there to bring about has no end.

## Main definitions

* `Coop.solo`: The run of a task on its own.

## Theorems

* `Coop.solo_bind`, `Coop.solo_bind_fail`: Running a sequence of two tasks.
* `Coop.solo_tryFinally`: Running a task with its cleanup.
-/

namespace Library

namespace Coop

variable {σ κ : Type} {ρ : κ → Type} {τ ε α β δ : Type} (exec : (c : κ) → δ → δ × ρ c) (t : τ)

/-- Run a task alone: what it leaves of the state and of the service's, and how it
    ends. -/
def solo : Coop σ κ ρ τ ε α → σ → δ → Option (σ × δ × Except ε α)
  | done a, s, d => some (s, d, .ok a)
  | fail e, s, d => some (s, d, .error e)
  | now next, s, d => (next t).solo s d
  | step upd next, s, d => (next s).solo (upd s) d
  | wait ready next, s, d => if ready s then next.solo s d else none
  | call c next, s, d => (next (exec c d).2).solo s (exec c d).1

variable {exec t}

theorem solo_wait (ready : σ → Bool) (next : Coop σ κ ρ τ ε α) (s : σ) (d : δ) :
    (wait ready next).solo exec t s d = if ready s then next.solo exec t s d else none := rfl

theorem solo_bind {p : Coop σ κ ρ τ ε α} (f : α → Coop σ κ ρ τ ε β) {s s' : σ} {d d' : δ} {a : α}
    (h : p.solo exec t s d = some (s', d', .ok a)) :
    (p.bind f).solo exec t s d = (f a).solo exec t s' d' := by
  induction p generalizing s d with
  | done b =>
      simp only [solo, Option.some.injEq, Prod.mk.injEq, Except.ok.injEq] at h
      rw [bind, h.1, h.2.1, h.2.2]
  | fail e => simp only [solo, Option.some.injEq, Prod.mk.injEq, reduceCtorEq, and_false] at h
  | now next ih => exact ih t h
  | step upd next ih => exact ih s h
  | wait ready next ih =>
      rw [solo_wait] at h
      rw [bind, solo_wait]
      by_cases hready : ready s = true
      · rw [if_pos hready] at h ⊢
        exact ih h
      · rw [if_neg hready] at h
        exact absurd h (by simp)
  | call c next ih => exact ih (exec c d).2 h

theorem solo_bind_fail {p : Coop σ κ ρ τ ε α} (f : α → Coop σ κ ρ τ ε β) {s s' : σ} {d d' : δ}
    {e : ε} (h : p.solo exec t s d = some (s', d', .error e)) :
    (p.bind f).solo exec t s d = some (s', d', .error e) := by
  induction p generalizing s d with
  | done b => simp only [solo, Option.some.injEq, Prod.mk.injEq, reduceCtorEq, and_false] at h
  | fail e' =>
      simp only [solo, Option.some.injEq, Prod.mk.injEq, Except.error.injEq] at h
      rw [bind, solo, h.1, h.2.1, h.2.2]
  | now next ih => exact ih t h
  | step upd next ih => exact ih s h
  | wait ready next ih =>
      rw [solo_wait] at h
      rw [bind, solo_wait]
      by_cases hready : ready s = true
      · rw [if_pos hready] at h ⊢
        exact ih h
      · rw [if_neg hready] at h
        exact absurd h (by simp)
  | call c next ih => exact ih (exec c d).2 h

/-- The cleanup runs where a task has returned. -/
theorem solo_tryFinally {p : Coop σ κ ρ τ ε α} (fin : Coop σ κ ρ τ ε Unit) {s s' : σ} {d d' : δ}
    {a : α} (h : p.solo exec t s d = some (s', d', .ok a)) :
    (p.tryFinally fin).solo exec t s d = (fin.bind fun _ => done a).solo exec t s' d' := by
  induction p generalizing s d with
  | done b =>
      simp only [solo, Option.some.injEq, Prod.mk.injEq, Except.ok.injEq] at h
      rw [tryFinally, h.1, h.2.1, h.2.2]
  | fail e => simp only [solo, Option.some.injEq, Prod.mk.injEq, reduceCtorEq, and_false] at h
  | now next ih => exact ih t h
  | step upd next ih => exact ih s h
  | wait ready next ih =>
      rw [solo_wait] at h
      rw [tryFinally, solo_wait]
      by_cases hready : ready s = true
      · rw [if_pos hready] at h ⊢
        exact ih h
      · rw [if_neg hready] at h
        exact absurd h (by simp)
  | call c next ih => exact ih (exec c d).2 h

end Coop

end Library
