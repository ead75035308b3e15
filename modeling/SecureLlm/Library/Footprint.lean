import SecureLlm.Library.Coop

/-!
# The Changes a Task Makes

A contract is about what a task's changes add up to. Here the changes are looked
at one by one, each with the last reading of the clock that came before it in
the same uninterrupted run. `Coop.Within` says of every change a task may make
that it is of a given kind, as long as the others keep an invariant, the clock
shows what it may and the service answers what it may; `Coop.Along` says it of
the changes of one run to the next suspension. `Coop.Within.advance` puts the two
together: what the changes of the one kind that are also of the other keep, the
run keeps.

## Main definitions

* `Bounds`: The invariant, the kind of change, and what passes between the task
  and the service.
* `Coop.Within`: Every change a task may make is within bounds.
* `Coop.Along`: Every change of a run is of a kind.

## Theorems

* `Coop.Within.mono`, `Coop.Within.bind`, `Coop.Within.tryFinally`: Rules for
  tasks.
* `Coop.Within.advance`: What a run keeps.
-/

namespace Library

/-- The bounds of a task: an invariant, what the clock may show, what each of
    the task's changes may be, given the last reading, what it may ask of the
    service, and what the service may answer. -/
structure Bounds (σ κ : Type) (ρ : κ → Type) (τ : Type) where
  inv : σ → Prop
  shows : τ → Prop
  change : Option τ → σ → σ → Prop
  ask : κ → Prop
  reply : (c : κ) → ρ c → Prop

namespace Coop

variable {σ κ : Type} {ρ : κ → Type} {τ ε α β : Type}

/-- Every change the task may make is within bounds, and where it returns its
    postcondition holds. -/
def Within (B : Bounds σ κ ρ τ) (post : α → σ → Prop) : Coop σ κ ρ τ ε α → Option τ → σ → Prop
  | done a, _, s => post a s
  | fail _, _, _ => True
  | now next, _, s => ∀ t, B.shows t → (next t).Within B post (some t) s
  | step upd next, t, s =>
    B.inv (upd s) ∧ B.change t s (upd s) ∧ (next s).Within B post t (upd s)
  | wait _ next, _, _ => ∀ u, B.inv u → next.Within B post none u
  | call c next, _, _ => B.ask c ∧ ∀ u r, B.inv u → B.reply c r → (next r).Within B post none u

/-- Every change of the run to the next suspension is within `P`. -/
def Along (P : Option τ → σ → σ → Prop) :
    Coop σ κ ρ τ ε α → Option τ → (ℕ → τ) → σ → Prop
  | done _, _, _, _ => True
  | fail _, _, _, _ => True
  | now next, _, clock, s => (next (clock 0)).Along P (some (clock 0)) (fun n => clock (n + 1)) s
  | step upd next, t, clock, s => P t s (upd s) ∧ (next s).Along P t clock (upd s)
  | wait ready next, _, clock, s => ready s = true → next.Along P none clock s
  | call _ _, _, _, _ => True

theorem along_trivial (p : Coop σ κ ρ τ ε α) (t : Option τ) (clock : ℕ → τ) (s : σ) :
    p.Along (fun _ _ _ => True) t clock s := by
  induction p generalizing t clock s with
  | done a => trivial
  | fail e => trivial
  | now next ih => exact ih _ _ _ _
  | step upd next ih => exact ⟨trivial, ih _ _ _ _⟩
  | wait ready next ih => exact fun _ => ih _ _ _
  | call c next ih => trivial

variable (B : Bounds σ κ ρ τ)

theorem Within.mono (post post' : α → σ → Prop) (p : Coop σ κ ρ τ ε α) (t : Option τ) (s : σ)
    (hpost : ∀ a u, post a u → post' a u) (h : p.Within B post t s) : p.Within B post' t s := by
  induction p generalizing t s with
  | done a => exact hpost a s h
  | fail e => trivial
  | now next ih => exact fun r hr => ih r _ s (h r hr)
  | step upd next ih => exact ⟨h.1, h.2.1, ih s t (upd s) h.2.2⟩
  | wait ready next ih => exact fun u hu => ih none u (h u hu)
  | call c next ih => exact ⟨h.1, fun u r hu hr => ih r none u (h.2 u r hu hr)⟩

/-- Sequencing. The second task starts where the first one ends, in a state that
    keeps the invariant. -/
theorem Within.bind (post : β → σ → Prop) (p : Coop σ κ ρ τ ε α) (f : α → Coop σ κ ρ τ ε β)
    (t : Option τ) (s : σ) (hs : B.inv s)
    (h : p.Within B (fun a u => ∀ t, B.inv u → (f a).Within B post t u) t s) :
    (p.bind f).Within B post t s := by
  induction p generalizing t s with
  | done a => exact h t hs
  | fail e => trivial
  | now next ih => exact fun r hr => ih r _ s hs (h r hr)
  | step upd next ih => exact ⟨h.1, h.2.1, ih s t (upd s) h.1 h.2.2⟩
  | wait ready next ih => exact fun u hu => ih none u hu (h u hu)
  | call c next ih => exact ⟨h.1, fun u r hu hr => ih r none u hu (h.2 u r hu hr)⟩

/-- The cleanup makes its changes wherever the task ends. -/
theorem Within.tryFinally (p : Coop σ κ ρ τ ε α) (fin : Coop σ κ ρ τ ε Unit) (t : Option τ) (s : σ)
    (hs : B.inv s) (hfin : ∀ t u, B.inv u → fin.Within B (fun _ _ => True) t u)
    (h : p.Within B (fun _ _ => True) t s) : (p.tryFinally fin).Within B (fun _ _ => True) t s := by
  have hend : ∀ (q : Coop σ κ ρ τ ε α) t u, B.inv u → (∀ t u, q.Within B (fun _ _ => True) t u) →
      (fin.bind (fun _ => q)).Within B (fun _ _ => True) t u := fun q t u hu hq =>
    Within.bind B _ fin _ t u hu (Within.mono B _ _ fin t u (fun _ v _ t _ => hq t v) (hfin t u hu))
  induction p generalizing t s with
  | done a => exact hend (done a) t s hs (fun _ _ => trivial)
  | fail e => exact hend (fail e) t s hs (fun _ _ => trivial)
  | now next ih => exact fun r hr => ih r _ s hs (h r hr)
  | step upd next ih => exact ⟨h.1, h.2.1, ih s t (upd s) h.1 h.2.2⟩
  | wait ready next ih => exact fun u hu => ih none u hu (h u hu)
  | call c next ih => exact ⟨h.1, fun u r hu hr => ih r none u hu (h.2 u r hu hr)⟩

/-- A run keeps the invariant, and what its changes keep. Where it ends its
    postcondition holds, and what is left of a task that has not ended is within
    bounds in any state that keeps the invariant. -/
theorem Within.advance (post : α → σ → Prop) (P : Option τ → σ → σ → Prop) (I : σ → Prop)
    (hkeep : ∀ t s u, B.change t s u → P t s u → I s → I u) (p : Coop σ κ ρ τ ε α) (t : Option τ)
    (clock : ℕ → τ) (s : σ) (hclock : ∀ n, B.shows (clock n)) (hs : B.inv s)
    (hp : p.Within B post t s) (halong : p.Along P t clock s) (hI : I s) :
    B.inv (p.advance clock s).1 ∧ I (p.advance clock s).1 ∧
      ((∃ a, (p.advance clock s).2.2 = done a ∧ post a (p.advance clock s).1) ∨
        (∃ e, (p.advance clock s).2.2 = fail e) ∨
        ∀ t u, (p.advance clock s).2.2.Within B post t u) := by
  induction p generalizing t clock s with
  | done a => exact ⟨hs, hI, Or.inl ⟨a, rfl, hp⟩⟩
  | fail e => exact ⟨hs, hI, Or.inr (Or.inl ⟨e, rfl⟩)⟩
  | now next ih => exact ih _ _ _ s (fun n => hclock (n + 1)) hs (hp _ (hclock 0)) halong hI
  | step upd next ih =>
      exact ih s t clock (upd s) hclock hp.1 hp.2.2 halong.2
        (hkeep t s (upd s) hp.2.1 halong.1 hI)
  | wait ready next ih =>
      rw [Coop.advance]
      by_cases hready : ready s = true
      · rw [if_pos hready]
        exact ih none clock s hclock hs (hp s hs) (halong hready) hI
      · rw [if_neg hready]
        exact ⟨hs, hI, Or.inr (Or.inr fun _ _ => hp)⟩
  | call c next ih => exact ⟨hs, hI, Or.inr (Or.inr fun _ _ => hp)⟩

end Coop

end Library
