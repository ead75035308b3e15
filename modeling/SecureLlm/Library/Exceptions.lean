/-!
# Sequencing Fallible Steps

A sequence of two steps returns when both do, and raises when the first raises
or the second does after it. So what it raises is of a kind if what the first step
raises is, and what the second raises where it is come to.

## Main definitions

* `RaisesOnly`: Whatever is raised is of a kind.

## Theorems

* `bind_ok_iff`: When a sequence returns.
* `bind_error_iff`: When a sequence raises.
* `foldlM_error`: A loop with an item that raises, raises.
* `raisesOnly_ok`, `raisesOnly_error`, `raisesOnly_bind`: The rules for what is raised.
* `mapError_bind`: Exceptions seen as exceptions of another type.
-/

namespace Library

theorem bind_ok_iff {ε α β : Type} (x : Except ε α) (f : α → Except ε β) (b : β) :
    (x >>= f) = .ok b ↔ ∃ a, x = .ok a ∧ f a = .ok b := by
  cases x with
  | error e => exact ⟨nofun, fun ⟨_, h, _⟩ => absurd h nofun⟩
  | ok a => exact ⟨fun h => ⟨a, rfl, h⟩, fun ⟨_, ha, h⟩ => by rw [Except.ok.inj ha]; exact h⟩

theorem bind_error_iff {ε α β : Type} (x : Except ε α) (f : α → Except ε β) (e : ε) :
    (x >>= f) = .error e ↔ x = .error e ∨ ∃ a, x = .ok a ∧ f a = .error e := by
  cases x with
  | error e' =>
      constructor
      · intro h
        exact Or.inl (congrArg Except.error (Except.error.inj h))
      · rintro (h | ⟨_, h, _⟩)
        · exact congrArg Except.error (Except.error.inj h)
        · exact absurd h nofun
  | ok a =>
      constructor
      · exact fun h => Or.inr ⟨a, rfl, h⟩
      · rintro (h | ⟨_, ha, h⟩)
        · exact absurd h nofun
        · rw [Except.ok.inj ha]
          exact h

/-- A loop over a list raises if one of its items does whatever is there by then. -/
theorem foldlM_error {ε α β : Type} (f : β → α → Except ε β) (l : List α) (a : α) (ha : a ∈ l)
    (h : ∀ b, ∃ e, f b a = .error e) (b : β) : ∃ e, l.foldlM f b = .error e := by
  induction l generalizing b with
  | nil => exact absurd ha List.not_mem_nil
  | cons c l ih =>
      rw [List.foldlM_cons]
      cases hc : f b c with
      | error e => exact ⟨e, rfl⟩
      | ok b' =>
          rcases List.mem_cons.mp ha with rfl | ha
          · obtain ⟨e, he⟩ := h b
            rw [hc] at he
            cases he
          · exact ih ha b'

/-- Whatever is raised is of a kind. -/
def RaisesOnly {ε α : Type} (kind : ε → Prop) (x : Except ε α) : Prop :=
  ∀ e, x = .error e → kind e

section

variable {ε ε' α β : Type} {kind : ε → Prop}

@[simp] theorem raisesOnly_ok (a : α) : RaisesOnly kind (.ok a) := by
  intro e he
  cases he

@[simp] theorem raisesOnly_error (e : ε) : RaisesOnly kind (.error e : Except ε α) ↔ kind e := by
  constructor
  · exact fun h => h e rfl
  · intro h e' he
    rw [← Except.error.inj he]
    exact h

theorem raisesOnly_bind (x : Except ε α) (f : α → Except ε β) :
    RaisesOnly kind (x >>= f) ↔ RaisesOnly kind x ∧ ∀ a, x = .ok a → RaisesOnly kind (f a) := by
  cases x with
  | error e =>
      have hraise : (Except.error e >>= f : Except ε β) = .error e := rfl
      rw [hraise, raisesOnly_error, raisesOnly_error]
      refine ⟨fun h => ⟨h, fun a ha => ?_⟩, fun h => h.1⟩
      cases ha
  | ok a =>
      refine ⟨fun h => ⟨raisesOnly_ok a, fun b hb => ?_⟩, fun h => h.2 a rfl⟩
      rw [← Except.ok.inj hb]
      exact h

@[simp] theorem mapError_error (inj : ε → ε') (e : ε) :
    (.error e : Except ε α).mapError inj = .error (inj e) := rfl

@[simp] theorem mapError_ok (inj : ε → ε') (a : α) :
    (.ok a : Except ε α).mapError inj = .ok a := rfl

@[simp] theorem mapError_pure (inj : ε → ε') (a : α) :
    (pure a : Except ε α).mapError inj = pure a := rfl

/-- The exceptions of a sequence, seen as exceptions of another type. -/
theorem mapError_bind (inj : ε → ε') (x : Except ε α) (f : α → Except ε β) :
    (x >>= f).mapError inj = x.mapError inj >>= fun a => (f a).mapError inj := by
  cases x with
  | error e => rfl
  | ok a => rfl

theorem mapError_eq_ok_iff (inj : ε → ε') (x : Except ε α) (a : α) :
    x.mapError inj = .ok a ↔ x = .ok a := by
  cases x with
  | error e => simp
  | ok b => simp

theorem raisesOnly_mapError (inj : ε → ε') (kind : ε' → Prop) (x : Except ε α) :
    RaisesOnly kind (x.mapError inj) ↔ RaisesOnly (fun e => kind (inj e)) x := by
  cases x with
  | error e => rw [mapError_error, raisesOnly_error, raisesOnly_error]
  | ok a => exact iff_of_true (raisesOnly_ok a) (raisesOnly_ok a)

end

end Library
