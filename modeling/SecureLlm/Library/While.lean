import Mathlib.Data.Nat.Notation

/-!
# While Loops

A loop is its body: from a state it goes on to another one, or ends with a result.
`Returns` is the relation between the two ends of a loop, which no fuel shows in.

`returns_of_variant` is the rule for total correctness. The user supplies an
invariant and a number that each pass lowers.

## Main definitions

* `loopFor`: So many passes at most.
* `Returns`: The result of a loop.

## Theorems

* `Returns.unique`: A loop has one result.
* `Returns.post`: What an invariant says of the result.
* `returns_of_variant`: A loop with a variant has one.
-/

namespace Library

namespace While

variable {σ ρ : Type}

/-- The result of a loop, if it takes no more than so many passes. -/
def loopFor (body : σ → σ ⊕ ρ) : ℕ → σ → Option ρ
  | 0, _ => none
  | fuel + 1, s =>
    match body s with
    | .inl t => loopFor body fuel t
    | .inr r => some r

/-- The loop ends with this result. -/
def Returns (body : σ → σ ⊕ ρ) (s : σ) (r : ρ) : Prop := ∃ fuel, loopFor body fuel s = some r

variable {body : σ → σ ⊕ ρ} {s t : σ} {r r' : ρ}

theorem returns_done (h : body s = .inr r) : Returns body s r := ⟨1, by rw [loopFor, h]⟩

theorem returns_next (h : body s = .inl t) : Returns body s r ↔ Returns body t r := by
  constructor
  · rintro ⟨fuel, hfuel⟩
    cases fuel with
    | zero => cases hfuel
    | succ fuel =>
        rw [loopFor, h] at hfuel
        exact ⟨fuel, hfuel⟩
  · rintro ⟨fuel, hfuel⟩
    exact ⟨fuel + 1, by rw [loopFor, h]; exact hfuel⟩

/-- More fuel than it takes changes nothing, so there is one result. -/
theorem Returns.unique (h : Returns body s r) (h' : Returns body s r') : r = r' := by
  rcases h with ⟨fuel, hfuel⟩
  induction fuel generalizing s with
  | zero => cases hfuel
  | succ fuel ih =>
      cases hbody : body s with
      | inl t =>
          rw [loopFor, hbody] at hfuel
          exact ih ((returns_next hbody).mp h') hfuel
      | inr q =>
          rcases h' with ⟨fuel', hfuel'⟩
          cases fuel' with
          | zero => cases hfuel'
          | succ fuel' =>
              rw [loopFor, hbody] at hfuel hfuel'
              exact Option.some.inj (hfuel.symm.trans hfuel')

/-- What holds at the start and is kept by each pass holds where the loop ends. -/
theorem Returns.post (I : σ → Prop) (Q : ρ → Prop) (hstart : I s)
    (hkeep : ∀ s t, I s → body s = .inl t → I t) (hdone : ∀ s r, I s → body s = .inr r → Q r)
    (h : Returns body s r) : Q r := by
  rcases h with ⟨fuel, hfuel⟩
  induction fuel generalizing s with
  | zero => cases hfuel
  | succ fuel ih =>
      cases hbody : body s with
      | inl t =>
          rw [loopFor, hbody] at hfuel
          exact ih (hkeep s t hstart hbody) hfuel
      | inr q =>
          rw [loopFor, hbody] at hfuel
          exact hdone s r hstart (hbody.trans (congrArg _ (Option.some.inj hfuel)))

/-- A loop each pass of which lowers the variant has a result. -/
theorem returns_of_variant (I : σ → Prop) (variant : σ → ℕ) (hstart : I s)
    (hkeep : ∀ s t, I s → body s = .inl t → I t ∧ variant t < variant s) :
    ∃ r, Returns body s r := by
  induction hn : variant s using Nat.strongRecOn generalizing s with
  | ind n ih =>
      cases hbody : body s with
      | inr r => exact ⟨r, returns_done hbody⟩
      | inl t =>
          rcases hkeep s t hstart hbody with ⟨ht, hlt⟩
          rcases ih (variant t) (hn ▸ hlt) ht rfl with ⟨r, hr⟩
          exact ⟨r, (returns_next hbody).mpr hr⟩

end While

end Library
