import SecureLlm.Client.Calls

/-!
# Request Counters

A call takes its counter under the lock, from the session object it holds, and
seals with it later. In between other calls take theirs, the session may be
forgotten and another one made. None of that touches the object but to raise its
counter, so a counter is taken once, whether it has been sealed with or not.

## Main definitions

* `Shared.Issued`: A counter of a session object that is taken.
* `Shared.Grows`: What happens to session objects.
* `Shared.Owned`: The invariant.

## Theorems

* `Shared.Move.grows`: A step raises counters and changes nothing else of a session.
* `Shared.Owned.step`: A step keeps the invariant.
* `request_counters_unique`: Keys, ids and counters of what is sealed.
-/

namespace SecureLlm

open Library Transition

namespace Client

namespace Shared

variable {aead : Aead} {loads : Bytes → Except Exc Json} {t u : Shared}

/-- A counter of a session object that is taken: some call is about to seal with it,
    or it was sealed with. -/
def Issued (t : Shared) (s : ℕ) (n : ℤ) : Prop :=
  (∃ i c, t.calls i = some c ∧ c.phase = .sealing s n) ∨
    ∃ x ∈ t.sealed, x.session = s ∧ x.counter = n

/-- Session objects stay, with what the handshake made, and their counters rise. -/
def Grows (t u : Shared) : Prop :=
  ∀ (s : ℕ) state, t.sessions[s]? = some state → ∃ state', u.sessions[s]? = some state' ∧
    state'.outcome = state.outcome ∧ state.c2sCounter ≤ state'.c2sCounter

theorem Grows.of_eq (h : u.sessions = t.sessions) : t.Grows u := by
  intro s state hstate
  exact ⟨state, by rw [h, hstate], rfl, le_refl _⟩

/-- A step raises counters and changes nothing else of a session object. -/
theorem Move.grows {e : Event} (h : t.Move aead loads e u) : t.Grows u := by
  cases h with
  | makes i c outcome hcall hphase hsession =>
      intro s state hstate
      refine ⟨state, ?_, rfl, le_refl _⟩
      rw [List.getElem?_append_left (List.getElem?_eq_some_iff.mp hstate).1]
      exact hstate
  | takes i c s state hcall hphase hstate =>
      intro s' state' hstate'
      by_cases hs : s = s'
      · subst hs
        refine ⟨{ state with c2sCounter := state.c2sCounter + 1 }, ?_, ?_, ?_⟩
        · show (t.sessions.set s _)[s]? = _
          rw [List.getElem?_set_self (List.getElem?_eq_some_iff.mp hstate).1]
        · rw [hstate] at hstate'
          rw [Option.some.inj hstate']
        · rw [hstate] at hstate'
          rw [← Option.some.inj hstate']
          dsimp only
          omega
      · refine ⟨state', ?_, rfl, le_refl _⟩
        show (t.sessions.set s _)[s']? = _
        rw [List.getElem?_set_ne hs]
        exact hstate'
  | _ => exact .of_eq rfl

/-- The invariant. A taken counter is one of its session object's, no two calls are
    about to seal with the same, nor with one that was sealed with; and what was
    sealed was sealed with what one session object has. -/
structure Owned (aead : Aead) (t : Shared) : Prop where
  counters : ∀ (s : ℕ) state, t.sessions[s]? = some state → 0 ≤ state.c2sCounter
  issued : ∀ s n, t.Issued s n →
    ∃ state, t.sessions[s]? = some state ∧ 1 ≤ n ∧ n ≤ state.c2sCounter
  apart : ∀ i j c d s n, t.calls i = some c → t.calls j = some d → c.phase = .sealing s n →
    d.phase = .sealing s n → i = j
  unsent : ∀ i c s n, t.calls i = some c → c.phase = .sealing s n →
    ∀ x ∈ t.sealed, x.session = s → x.counter ≠ n
  keys : ∀ x ∈ t.sealed, ∃ state, t.sessions[x.session]? = some state ∧
    x.direction = state.outcome.c2s ∧ x.sessionId = state.outcome.sessionId ∧
    ∃ plaintext, SecureLlm.sealEnvelope aead x.direction x.counter x.sessionId x.method x.path
      plaintext = .ok x.body
  once : t.sealed.Pairwise fun x y => x.session = y.session → x.counter ≠ y.counter

theorem owned_start : start.Owned aead where
  counters _ _ h := absurd h nofun
  issued s n h := by
    rcases h with ⟨i, c, hcall, -⟩ | ⟨x, hx, -⟩
    · exact absurd hcall nofun
    · exact absurd hx List.not_mem_nil
  apart _ _ _ _ _ _ h := absurd h nofun
  unsent _ _ _ _ h := absurd h nofun
  keys _ h := absurd h List.not_mem_nil
  once := .nil

/-- The counters of session objects are not negative. -/
theorem Owned.counters_step (h : t.Owned aead) {e : Event} (hstep : t.Move aead loads e u) :
    ∀ (s : ℕ) state, u.sessions[s]? = some state → 0 ≤ state.c2sCounter := by
  cases hstep with
  | makes i c outcome hcall hphase hsession =>
      intro s state hstate
      dsimp only at hstate
      rcases List.mem_append.mp (List.mem_of_getElem? hstate) with hold | hnew
      · rcases List.getElem?_of_mem hold with ⟨s', hs'⟩
        exact h.counters s' state hs'
      · rw [List.mem_singleton.mp hnew]
        exact le_refl _
  | takes i c s state hcall hphase hstate =>
      intro s' state' hstate'
      have hset : (t.sessions.set s { state with c2sCounter := state.c2sCounter + 1 })[s']? =
          some state' := hstate'
      rcases List.mem_or_eq_of_mem_set (List.mem_of_getElem? hset) with hold | hnew
      · rcases List.getElem?_of_mem hold with ⟨s'', hs''⟩
        exact h.counters s'' state' hs''
      · have hpos := h.counters s state hstate
        rw [hnew]
        dsimp only
        omega
  | _ => exact h.counters

/-- What seals nothing and brings no call to the point of sealing keeps the rest. -/
theorem Owned.keep (h : t.Owned aead) (hgrows : t.Grows u)
    (hcounters : ∀ (s : ℕ) state, u.sessions[s]? = some state → 0 ≤ state.c2sCounter)
    (hsealed : u.sealed = t.sealed)
    (hcalls : ∀ i c s n, u.calls i = some c → c.phase = .sealing s n →
      ∃ c', t.calls i = some c' ∧ c'.phase = .sealing s n) : u.Owned aead where
  counters := hcounters
  issued s n hissued := by
    have hold : t.Issued s n := by
      rcases hissued with ⟨i, c, hcall, hphase⟩ | hsent
      · rcases hcalls i c s n hcall hphase with ⟨c', hcall', hphase'⟩
        exact Or.inl ⟨i, c', hcall', hphase'⟩
      · rw [hsealed] at hsent
        exact Or.inr hsent
    rcases h.issued s n hold with ⟨state, hstate, hpos, hle⟩
    rcases hgrows s state hstate with ⟨state', hstate', -, hrise⟩
    exact ⟨state', hstate', hpos, hle.trans hrise⟩
  apart i j c d s n hc hd hcphase hdphase := by
    rcases hcalls i c s n hc hcphase with ⟨c', hc', hcphase'⟩
    rcases hcalls j d s n hd hdphase with ⟨d', hd', hdphase'⟩
    exact h.apart i j c' d' s n hc' hd' hcphase' hdphase'
  unsent i c s n hc hcphase x hx := by
    rcases hcalls i c s n hc hcphase with ⟨c', hc', hcphase'⟩
    rw [hsealed] at hx
    exact h.unsent i c' s n hc' hcphase' x hx
  keys x hx := by
    rw [hsealed] at hx
    rcases h.keys x hx with ⟨state, hstate, hdirection, hid, hbody⟩
    rcases hgrows _ state hstate with ⟨state', hstate', houtcome, -⟩
    exact ⟨state', hstate', by rw [houtcome, hdirection], by rw [houtcome, hid], hbody⟩
  once := by
    rw [hsealed]
    exact h.once

/-- A call that moves to a point where it does not seal. -/
theorem sealing_of_update {i : ℕ} {c' : Call} (hidle : ∀ s n, c'.phase ≠ .sealing s n) :
    ∀ j c s n, Function.update t.calls i (some c') j = some c → c.phase = .sealing s n →
      ∃ d, t.calls j = some d ∧ d.phase = .sealing s n := by
  intro j c s n hcall hphase
  by_cases hj : j = i
  · rw [hj, Function.update_self, Option.some.injEq] at hcall
    rw [← hcall] at hphase
    exact absurd hphase (hidle s n)
  · rw [Function.update_of_ne hj] at hcall
    exact ⟨c, hcall, hphase⟩

/-- The counter a call takes is new. -/
theorem Owned.takes (h : t.Owned aead) {i : ℕ} {c : Call} {s : ℕ}
    {state : SessionState} (hstate : t.sessions[s]? = some state)
    (hgrows : t.Grows (t.takeCounter i c s state))
    (hcounters : ∀ (s' : ℕ) state', (t.takeCounter i c s state).sessions[s']? = some state' →
      0 ≤ state'.c2sCounter) :
    (t.takeCounter i c s state).Owned aead := by
  have hnew : ∀ n, t.Issued s n → n ≠ state.c2sCounter + 1 := by
    intro n hissued
    rcases h.issued s n hissued with ⟨state', hstate', -, hle⟩
    rw [hstate] at hstate'
    rw [← Option.some.inj hstate'] at hle
    omega
  have hself : (t.takeCounter i c s state).sessions[s]? =
      some { state with c2sCounter := state.c2sCounter + 1 } :=
    List.getElem?_set_self (List.getElem?_eq_some_iff.mp hstate).1
  -- Whoever is about to seal was so before, or is this call.
  have hcalls : ∀ j d s' n, (t.takeCounter i c s state).calls j = some d →
      d.phase = .sealing s' n →
        j = i ∧ s' = s ∧ n = state.c2sCounter + 1 ∨ j ≠ i ∧ t.calls j = some d := by
    intro j d s' n hcall hphase
    have hupdate : Function.update t.calls i
        (some { c with phase := .sealing s (state.c2sCounter + 1) }) j = some d := hcall
    by_cases hj : j = i
    · rw [hj, Function.update_self, Option.some.injEq] at hupdate
      rw [← hupdate, Phase.sealing.injEq] at hphase
      exact Or.inl ⟨hj, hphase.1.symm, hphase.2.symm⟩
    · rw [Function.update_of_ne hj] at hupdate
      exact Or.inr ⟨hj, hupdate⟩
  refine ⟨hcounters, ?_, ?_, ?_, ?_, h.once⟩
  -- The new counter is the session object's last one.
  · intro s' n hissued
    have hold : t.Issued s' n ∨ s' = s ∧ n = state.c2sCounter + 1 := by
      rcases hissued with ⟨j, d, hcall, hphase⟩ | hsent
      · rcases hcalls j d s' n hcall hphase with ⟨-, hs, hn⟩ | ⟨-, hd⟩
        · exact Or.inr ⟨hs, hn⟩
        · exact Or.inl (Or.inl ⟨j, d, hd, hphase⟩)
      · exact Or.inl (Or.inr hsent)
    rcases hold with hold | ⟨rfl, rfl⟩
    · rcases h.issued s' n hold with ⟨state', hstate', hpos, hle⟩
      rcases hgrows s' state' hstate' with ⟨state'', hstate'', -, hrise⟩
      exact ⟨state'', hstate'', hpos, hle.trans hrise⟩
    · have hpos := h.counters s' state hstate
      exact ⟨_, hself, by omega, le_refl _⟩
  -- Two calls about to seal with the same: both are this one, or both are old.
  · intro j k d d' s' n hd hd' hphase hphase'
    rcases hcalls j d s' n hd hphase with ⟨hj, hs, hn⟩ | ⟨-, hold⟩
    · rcases hcalls k d' s' n hd' hphase' with ⟨hk, -, -⟩ | ⟨-, hold'⟩
      · rw [hj, hk]
      · rw [hs] at hphase'
        exact absurd hn (hnew n (Or.inl ⟨k, d', hold', hphase'⟩))
    · rcases hcalls k d' s' n hd' hphase' with ⟨-, hs, hn⟩ | ⟨-, hold'⟩
      · rw [hs] at hphase
        exact absurd hn (hnew n (Or.inl ⟨j, d, hold, hphase⟩))
      · exact h.apart j k d d' s' n hold hold' hphase hphase'
  · intro j d s' n hd hphase x hx hsession
    rcases hcalls j d s' n hd hphase with ⟨-, hs, hn⟩ | ⟨-, hold⟩
    · rw [hn]
      exact hnew x.counter (Or.inr ⟨x, hx, hsession.trans hs, rfl⟩)
    · exact h.unsent j d s' n hold hphase x hx hsession
  · intro x hx
    rcases h.keys x hx with ⟨state', hstate', hdirection, hid, hbody⟩
    rcases hgrows _ state' hstate' with ⟨state'', hstate'', houtcome, -⟩
    exact ⟨state'', hstate'', by rw [houtcome, hdirection], by rw [houtcome, hid], hbody⟩

/-- A call seals with the counter it has taken. -/
theorem Owned.seals (h : t.Owned aead) {i : ℕ} {c : Call} {s : ℕ}
    {state : SessionState} {counter : ℤ} {body : Bytes} (hcall : t.calls i = some c)
    (hphase : c.phase = .sealing s counter) (hstate : t.sessions[s]? = some state)
    (hbody : Client.sealEnvelope aead state.outcome.c2s counter state.outcome.sessionId
      c.ask.method.toUpper c.ask.path c.ask.payload = .ok body)
    (hsessions : u.sessions = t.sessions)
    (hsealed : u.sealed = ⟨i, s, state.outcome.c2s, state.outcome.sessionId, counter,
      c.ask.method.toUpper, c.ask.path, body⟩ :: t.sealed)
    (hcalls : u.calls = Function.update t.calls i (some { c with phase := .waiting s })) :
    u.Owned aead := by
  -- The call that has sealed is not about to.
  have hothers : ∀ j d s' n, u.calls j = some d → d.phase = .sealing s' n →
      j ≠ i ∧ t.calls j = some d := by
    intro j d s' n hd hdphase
    rw [hcalls] at hd
    by_cases hj : j = i
    · rw [hj, Function.update_self, Option.some.injEq] at hd
      rw [← hd] at hdphase
      exact absurd hdphase nofun
    · rw [Function.update_of_ne hj] at hd
      exact ⟨hj, hd⟩
  rcases h.issued s counter (Or.inl ⟨i, c, hcall, hphase⟩) with ⟨state', hstate', hpos, hle⟩
  refine ⟨hsessions ▸ h.counters, ?_, ?_, ?_, ?_, ?_⟩
  · intro s' n hissued
    rw [hsessions]
    rcases hissued with ⟨j, d, hd, hdphase⟩ | ⟨x, hx, hxs, hxn⟩
    · exact h.issued s' n (Or.inl ⟨j, d, (hothers j d s' n hd hdphase).2, hdphase⟩)
    · rw [hsealed] at hx
      rcases List.mem_cons.mp hx with rfl | hx
      · rw [← hxs, ← hxn]
        exact ⟨state', hstate', hpos, hle⟩
      · exact h.issued s' n (Or.inr ⟨x, hx, hxs, hxn⟩)
  · intro j k d d' s' n hd hd' hdphase hdphase'
    exact h.apart j k d d' s' n (hothers j d s' n hd hdphase).2
      (hothers k d' s' n hd' hdphase').2 hdphase hdphase'
  · intro j d s' n hd hdphase x hx hsession
    rcases hothers j d s' n hd hdphase with ⟨hj, hold⟩
    rw [hsealed] at hx
    rcases List.mem_cons.mp hx with rfl | hx
    · -- Another call does not hold this counter.
      intro hn
      dsimp only at hsession hn
      rw [← hsession, ← hn] at hdphase
      exact hj (h.apart j i d c s counter hold hcall hdphase hphase)
    · exact h.unsent j d s' n hold hdphase x hx hsession
  · intro x hx
    rw [hsessions]
    rw [hsealed] at hx
    rcases List.mem_cons.mp hx with rfl | hx
    · rw [Client.sealEnvelope_eq] at hbody
      exact ⟨state, hstate, rfl, rfl, c.ask.payload, hbody⟩
    · exact h.keys x hx
  · rw [hsealed]
    refine .cons (fun x hx hsession => ?_) h.once
    exact (h.unsent i c s counter hcall hphase x hx hsession.symm).symm

/-- A step keeps the invariant. -/
theorem Owned.step (h : t.Owned aead) {e : Event} (hstep : t.Move aead loads e u) :
    u.Owned aead := by
  have hgrows := hstep.grows
  have hcounters := h.counters_step hstep
  cases hstep with
  | goes i c phase hcall hsent hidle hvalue =>
      exact h.keep hgrows hcounters rfl (sealing_of_update hidle)
  | takes i c s state hcall hphase hstate => exact h.takes hstate hgrows hcounters
  | seals i c s state counter body hcall hphase hstate hbody =>
      exact h.seals hcall hphase hstate hbody rfl rfl rfl
  | resets => exact h.keep hgrows hcounters rfl fun i c s n hcall hphase => ⟨c, hcall, hphase⟩
  | skips => exact h
  | accepts i c c' s k replay replay' counter hcall huses hreplay hcheck hask hphase hvalue =>
      refine h.keep hgrows hcounters rfl (sealing_of_update fun s n => ?_)
      rcases hphase with ⟨hreading, -⟩ | ⟨result, hover⟩
      · rw [hreading]
        exact nofun
      · rw [hover]
        exact nofun
  | _ => exact h.keep hgrows hcounters rfl (sealing_of_update fun _ _ => nofun)

end Shared

open Shared

/-- **Request counters are never reused.** In every run of one transport and its
    calls, no two envelopes sealed for one session object carry the same counter;
    and each was sealed under the keys and the id of its session object, with one
    of the counters it has given out, the first of which is 1. -/
theorem request_counters_unique (aead : Aead) (loads : Bytes → Except Exc Json) (t : Shared)
    (h : Run (step aead loads) anyStep start t) :
    (t.sealed.Pairwise fun x y => x.session = y.session → x.counter ≠ y.counter) ∧
      ∀ x ∈ t.sealed, ∃ state, t.sessions[x.session]? = some state ∧
        x.direction = state.outcome.c2s ∧ x.sessionId = state.outcome.sessionId ∧
        1 ≤ x.counter ∧ x.counter ≤ state.c2sCounter ∧
        ∃ plaintext, SecureLlm.sealEnvelope aead x.direction x.counter x.sessionId x.method
          x.path plaintext = .ok x.body := by
  have howned : t.Owned aead := Run.invariant (fun t => t.Owned aead) owned_start
    (fun _ _ _ ht _ hstep => ht.step (move_of_step hstep)) h
  refine ⟨howned.once, fun x hx => ?_⟩
  rcases howned.keys x hx with ⟨state, hstate, hdirection, hid, hbody⟩
  rcases howned.issued x.session x.counter (Or.inr ⟨x, hx, rfl, rfl⟩) with
    ⟨state', hstate', hpos, hle⟩
  rw [hstate] at hstate'
  rw [← Option.some.inj hstate'] at hle
  exact ⟨state, hstate, hdirection, hid, hpos, hle, hbody⟩

/-- Two calls take their counters crosswise. One is told that the server does not
    know the session and begins again with a session of its own. -/
theorem request_counters_unique_sample :
    ∃ t, Run (step .sample loadsSample) anyStep start t ∧
      t.sealed.map (fun x => (x.call, x.session, x.counter)) = [(0, 1, 1), (1, 0, 1), (0, 0, 2)] ∧
      t.sealed.Pairwise fun x y => x.session = y.session → x.counter ≠ y.counter := by
  let events : List Event := [.call 0 (.sample false) true, .call 1 (.sample true) true,
    .enter 1 (.ok (.sample 1)), .enter 0 (.ok (.sample 1)), .count 1, .count 0, .send 0,
    .reply 0 .unknownSession, .send 1, .forget 0, .enter 0 (.ok (.sample 2)), .count 0, .send 0]
  have hplay : ((play (step .sample loadsSample) start events).any (fun t => decide
      (t.sealed.map (fun x => (x.call, x.session, x.counter)) =
        [(0, 1, 1), (1, 0, 1), (0, 0, 2)]))) = true := by
    decide +kernel
  rcases (Option.any_eq_true _ _).mp hplay with ⟨t, ht, hend⟩
  have hrun := run_of_play events ht
  exact ⟨t, hrun, of_decide_eq_true hend, (request_counters_unique .sample loadsSample t hrun).1⟩

end Client

end SecureLlm
