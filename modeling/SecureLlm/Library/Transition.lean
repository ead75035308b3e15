import Mathlib.Data.Nat.Notation

/-!
# Runs of a Transition System

A system takes one step after the other. `Run step ok s` holds of the states a
run from `s` reaches when each of its steps is as `ok` says, where `ok` sees the
state a step starts in, the event and the state it ends in. With `anyStep` for
`ok` these are the reachable states.

A condition on the steps and a condition on the states reached often say the
same. `run_iff` is the rule for that: it is enough to look at a single step from
a state that meets the invariant and the condition on states.

## Main definitions

* `Run`: The states reached by steps of a kind.
* `anyStep`: No condition on the steps.
* `play`: The state after a list of events.
* `playIf`: The same, for events that pass a check.

## Theorems

* `Run.trans`: One run after another.
* `Run.invariant`: What each step keeps holds of every state reached.
* `run_iff_keeping`, `run_iff_steps`: When two conditions on steps allow the same
  runs.
* `run_iff`: When a condition on steps and one on states do.
* `exists_run_of_measure`: A run that gets to its goal.
* `run_of_play_of`, `run_of_playIf_of`, `run_of_playIf`: A list of events is a run.
* `play_invariant`: What each step keeps of the state and the events so far.
* `play_rel`: Two systems that go through the same lists of events.
-/

namespace Library

namespace Transition

variable {σ ε : Type}

/-- The states that steps of a kind reach. -/
inductive Run (step : σ → ε → Option σ) (ok : σ → ε → σ → Prop) (s : σ) : σ → Prop where
  | start : Run step ok s s
  | tail (t u : σ) (e : ε) (hrun : Run step ok s t) (hok : ok t e u)
      (hstep : step t e = some u) : Run step ok s u

/-- No condition on the steps. -/
def anyStep (_ : σ) (_ : ε) (_ : σ) : Prop := True

/-- The state after a list of events, if each of them can happen. -/
def play (step : σ → ε → Option σ) (s : σ) : List ε → Option σ
  | [] => some s
  | e :: es => (step s e).bind (fun t => play step t es)

/-- The state after a list of events, if each of them passes a check and can
    happen. -/
def playIf (check : σ → ε → Bool) (step : σ → ε → Option σ) (s : σ) : List ε → Option σ
  | [] => some s
  | e :: es => if check s e then (step s e).bind (fun t => playIf check step t es) else none

variable {step : σ → ε → Option σ} {ok ok' : σ → ε → σ → Prop} {s t : σ}

theorem Run.trans {u : σ} (h : Run step ok s t) (h' : Run step ok t u) : Run step ok s u := by
  induction h' with
  | start => exact h
  | tail v w e _ hok hstep ih => exact .tail v w e ih hok hstep

/-- **The invariant rule.** What holds at the start and is kept by each step
    holds of every state reached. -/
theorem Run.invariant (P : σ → Prop) (hstart : P s)
    (hkeep : ∀ t e u, P t → ok t e u → step t e = some u → P u) (h : Run step ok s t) : P t := by
  induction h with
  | start => exact hstart
  | tail t u e _ hok hstep ih => exact hkeep t e u ih hok hstep

/-- **Two conditions on steps.** Let each step keep `I`, let a step as `ok'` says
    from a state with `P` end in one with `P`, and let a step from a state with `I`
    and `P` be as `ok` says exactly when it is as `ok'` says. Then they allow the
    same runs. -/
theorem run_iff_keeping (I P : σ → Prop) (ok ok' : σ → ε → σ → Prop) (hI : I s) (hP : P s)
    (hkeep : ∀ t e u, I t → step t e = some u → I u)
    (hend : ∀ t e u, P t → step t e = some u → ok' t e u → P u)
    (hstep : ∀ t e u, I t → P t → step t e = some u → (ok t e u ↔ ok' t e u)) :
    Run step ok s t ↔ Run step ok' s t := by
  constructor
  · intro h
    have hreach : Run step ok' s t ∧ I t ∧ P t := by
      induction h with
      | start => exact ⟨.start, hI, hP⟩
      | tail t u e _ hok hu ih =>
          rcases ih with ⟨hrun, hIt, hPt⟩
          have hok' : ok' t e u := (hstep t e u hIt hPt hu).mp hok
          exact ⟨.tail t u e hrun hok' hu, hkeep t e u hIt hu, hend t e u hPt hu hok'⟩
    exact hreach.1
  · intro h
    have hreach : Run step ok s t ∧ I t ∧ P t := by
      induction h with
      | start => exact ⟨.start, hI, hP⟩
      | tail t u e _ hok' hu ih =>
          rcases ih with ⟨hrun, hIt, hPt⟩
          have hok : ok t e u := (hstep t e u hIt hPt hu).mpr hok'
          exact ⟨.tail t u e hrun hok hu, hkeep t e u hIt hu, hend t e u hPt hu hok'⟩
    exact hreach.1

/-- The same, where a step as `ok'` says ends in a state with `P` from any state. -/
theorem run_iff_steps (I P : σ → Prop) (ok ok' : σ → ε → σ → Prop) (hI : I s) (hP : P s)
    (hkeep : ∀ t e u, I t → step t e = some u → I u) (hend : ∀ t e u, ok' t e u → P u)
    (hstep : ∀ t e u, I t → P t → step t e = some u → (ok t e u ↔ ok' t e u)) :
    Run step ok s t ↔ Run step ok' s t :=
  run_iff_keeping I P ok ok' hI hP hkeep (fun t e u _ _ hok' => hend t e u hok') hstep

/-- **Conditions on steps and conditions on states.** Let each step keep `I`,
    and let a step from a state with `I` and `P` be as `ok` says exactly when it
    ends in a state with `P`. Then the runs whose steps are as `ok` says are
    those that stay in `P`. -/
theorem run_iff (I P : σ → Prop) (ok : σ → ε → Prop) (hI : I s) (hP : P s)
    (hkeep : ∀ t e u, I t → step t e = some u → I u)
    (hstep : ∀ t e u, I t → P t → step t e = some u → (ok t e ↔ P u)) :
    Run step (fun t e _ => ok t e) s t ↔ Run step (fun _ _ u => P u) s t :=
  run_iff_steps I P (fun t e _ => ok t e) (fun _ _ u => P u) hI hP hkeep (fun _ _ _ hu => hu) hstep

/-- **The measure rule.** If from every state that meets an invariant, but not the
    goal, some step keeps the invariant and lowers a measure, a run gets to the
    goal. -/
theorem exists_run_of_measure (I goal : σ → Prop) (measure : σ → ℕ)
    (hnext : ∀ t, I t → ¬ goal t →
      ∃ e u, ok t e u ∧ step t e = some u ∧ I u ∧ measure u < measure t)
    (hstart : I s) : ∃ t, Run step ok s t ∧ goal t := by
  have hfrom : ∀ n t, measure t = n → Run step ok s t → I t → ∃ t, Run step ok s t ∧ goal t := by
    intro n
    induction n using Nat.strongRecOn with
    | ind n ih =>
        intro t hn hrun ht
        by_cases hgoal : goal t
        · exact ⟨t, hrun, hgoal⟩
        · rcases hnext t ht hgoal with ⟨e, u, hok, hstep, hu, hless⟩
          exact ih (measure u) (by rw [← hn]; exact hless) u rfl (.tail t u e hrun hok hstep) hu
  exact hfrom (measure s) s rfl .start hstart

/-- A list of events that can happen one after the other, each of them as `ok`
    says, is a run. -/
theorem run_of_play_of (es : List ε) (hok : ∀ e ∈ es, ∀ t u, ok t e u)
    (h : play step s es = some t) : Run step ok s t := by
  have hfrom : ∀ (r : σ) (es : List ε), (∀ e ∈ es, ∀ t u, ok t e u) → Run step ok s r →
      play step r es = some t → Run step ok s t := by
    intro r es
    induction es generalizing r with
    | nil =>
        intro _ hrun hplay
        rw [← Option.some.inj hplay]
        exact hrun
    | cons e es ih =>
        intro hok hrun hplay
        rw [play, Option.bind_eq_some_iff] at hplay
        rcases hplay with ⟨u, hu, hrest⟩
        refine ih u (fun e' he' => hok e' (List.mem_cons_of_mem e he')) ?_ hrest
        exact .tail r u e hrun (hok e List.mem_cons_self r u) hu
  exact hfrom s es hok .start h

theorem run_of_play (es : List ε) (h : play step s es = some t) : Run step anyStep s t :=
  run_of_play_of es (fun _ _ _ _ => trivial) h

/-- A list of events that can happen one after the other, each of them passing a check
    that is one for `ok`, is a run. -/
theorem run_of_playIf_of (check : σ → ε → Bool) (es : List ε)
    (hcheck : ∀ e ∈ es, ∀ t u, check t e = true → ok t e u)
    (h : playIf check step s es = some t) : Run step ok s t := by
  have hfrom : ∀ (r : σ) (es : List ε), (∀ e ∈ es, ∀ t u, check t e = true → ok t e u) →
      Run step ok s r → playIf check step r es = some t → Run step ok s t := by
    intro r es
    induction es generalizing r with
    | nil =>
        intro _ hrun hplay
        rw [← Option.some.inj hplay]
        exact hrun
    | cons e es ih =>
        intro hcheck hrun hplay
        unfold playIf at hplay
        by_cases hpass : check r e = true
        · rw [if_pos hpass, Option.bind_eq_some_iff] at hplay
          rcases hplay with ⟨u, hu, hrest⟩
          refine ih u (fun e' he' => hcheck e' (List.mem_cons_of_mem e he')) ?_ hrest
          exact .tail r u e hrun (hcheck e List.mem_cons_self r u hpass) hu
        · rw [if_neg hpass] at hplay
          exact absurd hplay nofun
  exact hfrom s es hcheck .start h

/-- A list of events that pass a check for `ok` is a run. -/
theorem run_of_playIf (check : σ → ε → Bool) (es : List ε)
    (hcheck : ∀ t e u, check t e = true → ok t e u) (h : playIf check step s es = some t) :
    Run step ok s t :=
  run_of_playIf_of check es (fun e _ t u => hcheck t e u) h

/-- **The invariant rule, with the past.** What holds at the start of no events, and is
    kept by each step, holds of the events and the state after them. -/
theorem play_invariant (P : List ε → σ → Prop) (hstart : P [] s)
    (hkeep : ∀ es t e u, P es t → step t e = some u → P (es ++ [e]) u) (es : List ε)
    (h : play step s es = some t) : P es t := by
  have hfrom : ∀ (es before : List ε) (r : σ), P before r → play step r es = some t →
      P (before ++ es) t := by
    intro es
    induction es with
    | nil =>
        intro before r hr hplay
        rw [← Option.some.inj hplay, List.append_nil]
        exact hr
    | cons e es ih =>
        intro before r hr hplay
        rw [play, Option.bind_eq_some_iff] at hplay
        rcases hplay with ⟨u, hu, hrest⟩
        have hnext := ih (before ++ [e]) u (hkeep before r e u hr hu) hrest
        rw [List.append_assoc, List.singleton_append] at hnext
        exact hnext
  exact hfrom es [] s hstart h

/-- In a list of events that goes through, each passes the check when it comes. -/
theorem check_of_playIf {check : σ → ε → Bool} {es : List ε} {s : σ}
    (h : (playIf check step s es).isSome = true) (before after : List ε) (e : ε) (u : σ)
    (hes : es = before ++ e :: after) (hu : play step s before = some u) : check u e = true := by
  induction before generalizing s es with
  | nil =>
      rw [← Option.some.inj hu]
      rw [hes, List.nil_append] at h
      unfold playIf at h
      by_cases hpass : check s e = true
      · exact hpass
      · rw [if_neg hpass] at h
        exact absurd h (by simp)
  | cons e' before ih =>
      rw [hes, List.cons_append] at h
      unfold playIf at h
      by_cases hpass : check s e' = true
      · rw [if_pos hpass] at h
        unfold play at hu
        cases hstep : step s e' with
        | none =>
            rw [hstep] at hu
            exact absurd hu (by simp)
        | some v =>
            rw [hstep] at hu h
            exact ih h rfl hu
      · rw [if_neg hpass] at h
        exact absurd h (by simp)

/-- **The rule for two systems.** If each event takes related states to related states,
    or is one that neither can take, the two go through the same lists of events. What
    is known of every event that comes may be used. -/
theorem play_rel {τ : Type} {step' : τ → ε → Option τ} (R : σ → τ → Prop) (ok : σ → ε → Prop)
    (hstep : ∀ s t e, ok s e → R s t → Option.Rel R (step s e) (step' t e)) (es : List ε) {s : σ}
    {t : τ} (h : R s t)
    (hok : ∀ before after e u, es = before ++ e :: after → play step s before = some u → ok u e) :
    Option.Rel R (play step s es) (play step' t es) := by
  induction es generalizing s t with
  | nil => exact .some h
  | cons e es ih =>
      have hnext := hstep s t e (hok [] es e s rfl rfl) h
      unfold play
      cases hs : step s e with
      | none =>
          rw [hs] at hnext
          cases ht : step' t e with
          | none => exact .none
          | some v =>
              rw [ht] at hnext
              cases hnext
      | some u =>
          rw [hs] at hnext
          cases ht : step' t e with
          | none =>
              rw [ht] at hnext
              cases hnext
          | some v =>
              rw [ht] at hnext
              cases hnext with
              | some huv =>
                  refine ih huv fun before after e' w hes hw => ?_
                  refine hok (e :: before) after e' w (by rw [hes, List.cons_append]) ?_
                  unfold play
                  rw [hs]
                  exact hw

/-- What related states have in common. -/
theorem map_eq_of_rel {τ γ : Type} {R : σ → τ → Prop} {f : σ → γ} {g : τ → γ}
    (hR : ∀ s t, R s t → f s = g t) {x : Option σ} {y : Option τ} (h : Option.Rel R x y) :
    x.map f = y.map g := by
  cases h with
  | none => rfl
  | some hst => exact congrArg some (hR _ _ hst)

end Transition

end Library
