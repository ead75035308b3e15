import SecureLlm.Library.Coop

/-!
# What a Task Asks For

A task that looks at the clock and then asks the service for something asks by a
reading that is as old as the uninterrupted run it was made in. `Coop.Asks` says of
everything a task may ask that it is allowed by the last such reading, in whatever
states the task finds and whatever it is answered. `Asks.advance` carries it along a
run: what is left of the task asks by a reading of that run, if by one at all.

## Main definitions

* `Coop.Asks`: Everything a task may ask is allowed.

## Theorems

* `Coop.Asks.bind`, `Coop.Asks.tryFinally`: Rules for tasks.
* `Coop.Asks.advance`: What is left after a run.
-/

namespace Library

namespace Coop

variable {σ κ : Type} {ρ : κ → Type} {τ ε α β : Type} {ask : Option τ → κ → Prop}

/-- Everything the task may ask the service for is allowed, given the last reading of
    the clock in the same uninterrupted run. -/
def Asks (ask : Option τ → κ → Prop) : Coop σ κ ρ τ ε α → Option τ → Prop
  | done _, _ => True
  | fail _, _ => True
  | now next, _ => ∀ t, (next t).Asks ask (some t)
  | step _ next, t => ∀ s, (next s).Asks ask t
  | wait _ next, _ => next.Asks ask none
  | call c next, t => ask t c ∧ ∀ r, (next r).Asks ask none

theorem Asks.bind {p : Coop σ κ ρ τ ε α} {f : α → Coop σ κ ρ τ ε β} {t : Option τ}
    (h : p.Asks ask t) (hf : ∀ a t, (f a).Asks ask t) : (p.bind f).Asks ask t := by
  induction p generalizing t with
  | done a => exact hf a t
  | fail e => trivial
  | now next ih => exact fun r => ih r (h r)
  | step upd next ih => exact fun s => ih s (h s)
  | wait ready next ih => exact ih h
  | call c next ih => exact ⟨h.1, fun r => ih r (h.2 r)⟩

theorem Asks.tryFinally {p : Coop σ κ ρ τ ε α} {fin : Coop σ κ ρ τ ε Unit} {t : Option τ}
    (h : p.Asks ask t) (hfin : ∀ t, fin.Asks ask t) : (p.tryFinally fin).Asks ask t := by
  induction p generalizing t with
  | done a => exact Asks.bind (hfin t) fun _ _ => trivial
  | fail e => exact Asks.bind (hfin t) fun _ _ => trivial
  | now next ih => exact fun r => ih r (h r)
  | step upd next ih => exact fun s => ih s (h s)
  | wait ready next ih => exact ih h
  | call c next ih => exact ⟨h.1, fun r => ih r (h.2 r)⟩

/-- What is left of a task after a run asks by a reading of that run, if by one at all. -/
theorem Asks.advance (P : τ → Prop) {p : Coop σ κ ρ τ ε α} {t : Option τ} (clock : ℕ → τ) (s : σ)
    (hclock : ∀ n, P (clock n)) (ht : ∀ r, t = some r → P r) (h : p.Asks ask t) :
    ∃ u, (∀ r, u = some r → P r) ∧ (p.advance clock s).2.2.Asks ask u := by
  induction p generalizing t clock s with
  | done a => exact ⟨t, ht, trivial⟩
  | fail e => exact ⟨t, ht, trivial⟩
  | now next ih =>
      refine ih (clock 0) (fun n => clock (n + 1)) s (fun n => hclock (n + 1)) ?_ (h (clock 0))
      intro r hr
      rw [← Option.some.inj hr]
      exact hclock 0
  | step upd next ih => exact ih s clock (upd s) hclock ht (h s)
  | wait ready next ih =>
      rw [Coop.advance]
      by_cases hready : ready s = true
      · rw [if_pos hready]
        exact ih clock s hclock (fun r hr => absurd hr (by simp)) h
      · rw [if_neg hready]
        exact ⟨none, fun r hr => absurd hr (by simp), h⟩
  | call c next ih => exact ⟨t, ht, h⟩

end Coop

end Library
