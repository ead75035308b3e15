import SecureLlm.Library.Roster
import SecureLlm.Library.Transition

/-!
# Runs With a Record

A run keeps no record of what its steps gave out. Where that matters, the steps
can be made to write it down: a recorded system takes the same steps and appends
to a log what each of them gives out.

A queue is a case in point. What goes in is appended at one end and what comes
out is taken from the other, and nobody can tell from the queue alone that this
has been so all the time. With the record, one can: what has come out, followed
by what is still in, is what has gone in.

## Main definitions

* `Recorded`: A state with what was given out so far.
* `record`: The steps of a system, recorded.
* `Each`: Each entry of a log is as it should be, given the ones before.

## Theorems

* `log_append_queue`: Out and in again, in order.
* `getLast_of_recorded`: What was given out last.
* `Each.append`, `Each.mono`: A log with one more entry, and a weaker demand.
-/

namespace Library

namespace Transition

variable {σ ε ω : Type}

/-- A state, and what the steps to it have given out. -/
structure Recorded (σ ω : Type) where
  state : σ
  log : List ω

/-- A step, and a record of what it gives out. -/
def record (step : σ → ε → Option σ) (out : σ → ε → List ω) (r : Recorded σ ω) (e : ε) :
    Option (Recorded σ ω) :=
  (step r.state e).map fun t => ⟨t, r.log ++ out r.state e⟩

variable {step : σ → ε → Option σ} {out : σ → ε → List ω} {s t : σ} {r r' : Recorded σ ω}

theorem record_eq_some {e : ε} (h : record step out r e = some r') :
    step r.state e = some r'.state ∧ r'.log = r.log ++ out r.state e := by
  rcases Option.map_eq_some_iff.mp h with ⟨t, ht, rfl⟩
  exact ⟨ht, rfl⟩

/-- **The rule for queues.** If each step takes what it gives out from the front of
    a queue and appends what it takes in at the end, then what has been given out,
    followed by what is in the queue, is what has been taken in, in order. -/
theorem log_append_queue (queue taken : σ → List ω)
    (hstart : r.log ++ queue r.state = taken r.state)
    (hstep : ∀ s e t, step s e = some t →
      ∃ new, out s e ++ queue t = queue s ++ new ∧ taken t = taken s ++ new)
    (h : Run (record step out) anyStep r r') : r'.log ++ queue r'.state = taken r'.state := by
  induction h with
  | start => exact hstart
  | tail t u e _ _ hrec ih =>
      rcases record_eq_some hrec with ⟨hstep', hlog⟩
      rcases hstep t.state e u.state hstep' with ⟨new, hqueue, htaken⟩
      rw [hlog, List.append_assoc, hqueue, ← List.append_assoc, ih, htaken]

/-- **What was given out last.** If a step that gives out nothing leaves alone what
    a state holds, or lets go of it, and one that gives something out holds the last
    of that, then what a state holds was given out last. -/
theorem getLast_of_recorded (held : σ → Option ω)
    (hstart : ∀ a, held r.state = some a → r.log.getLast? = some a)
    (hstep : ∀ s e t, step s e = some t → ∀ a, held t = some a →
      (out s e).getLast? = some a ∨ out s e = [] ∧ held s = some a)
    (h : Run (record step out) anyStep r r') (a : ω) (ha : held r'.state = some a) :
    r'.log.getLast? = some a := by
  induction h generalizing a with
  | start => exact hstart a ha
  | tail t u e _ _ hrec ih =>
      rcases record_eq_some hrec with ⟨hstep', hlog⟩
      rw [hlog]
      rcases hstep t.state e u.state hstep' a ha with hout | ⟨hnone, hheld⟩
      · rw [List.getLast?_append, hout, Option.some_or]
      · rw [hnone, List.append_nil]
        exact ih a hheld

end Transition

/-! ## Logs -/

variable {α β : Type}

/-- Each entry of a log, a key and a value, is as it should be, given the keys
    before it. -/
def Each (P : List α → α → β → Prop) (log : List (α × β)) : Prop :=
  ∀ n a b, log[n]? = some (a, b) → P ((log.take n).map Prod.fst) a b

theorem Each.nil (P : List α → α → β → Prop) : Each P [] := by
  intro n a b h
  exact absurd h (by simp)

theorem Each.append {P : List α → α → β → Prop} {log : List (α × β)} (h : Each P log) {a : α}
    {b : β} (hab : P (log.map Prod.fst) a b) : Each P (log ++ [(a, b)]) := by
  intro n a' b' hn
  rcases getElem?_concat_cases hn with hold | ⟨hlen, hentry⟩
  · have hlt : n < log.length := (List.getElem?_eq_some_iff.mp hold).1
    rw [List.take_append_of_le_length (by omega)]
    exact h n a' b' hold
  · rcases Prod.mk.inj hentry with ⟨rfl, rfl⟩
    rw [hlen, List.take_left]
    exact hab

theorem Each.mono {P Q : List α → α → β → Prop} {log : List (α × β)} (h : Each P log)
    (hPQ : ∀ before a b, P before a b → Q before a b) : Each Q log :=
  fun n a b hn => hPQ _ a b (h n a b hn)

end Library
