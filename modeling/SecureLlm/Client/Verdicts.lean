import SecureLlm.Client.Calls

/-!
# Verdicts of the Replay Check

Counters start again with each session, so the verdict on an envelope should depend
on what was accepted under its own session. It does in a run in which every
envelope meets the replay check that the handshake of its session has made: then
that check has seen what was accepted under the session, and nothing else.

A call that still reads when the next handshake is made meets the next session's
check. What that session has accepted under a counter the older one is refused.

Whatever the sessions, a check lets each counter through once while it has met no
more than 4096.

## Main definitions

* `Shared.acceptedOf`: What was accepted under a session object.
* `Shared.verdict`: The verdict of a check that has accepted something.
* `Shared.Own`: A step in which an envelope meets its own session's check.
* `Shared.Separate`: The invariant.
* `Shared.metBy`: What has met a replay check.
* `Shared.Remembered`: What any step keeps of the checks.

## Theorems

* `Shared.Separate.step`: Such a step keeps it.
* `Shared.Remembered.accepted_once`: What a check lets through once.
* `replay_verdicts_per_session`: What verdicts depend on in runs of such steps.
* `undelivered_envelope_refused`: A run with another step.
-/

namespace SecureLlm

open Library Transition

namespace Client

namespace Shared

/-- The counters accepted under a session object, oldest first. -/
def acceptedOf (checked : List Checked) (s : ℕ) : List ℤ :=
  ((checked.filter fun x => decide (x.session = s) && x.accepted).map Checked.counter).reverse

/-- The verdict on a counter of a check that has accepted some. -/
def verdict (cs : List ℤ) (c : ℤ) : Bool :=
  match (ReplayClient.checks cs).1.check c with
  | .ok _ => true
  | .error _ => false

/-- Each verdict is that of a check that has accepted what was accepted under the
    envelope's own session. -/
def Faithful (checked : List Checked) : Prop :=
  ∀ later x earlier, checked = later ++ x :: earlier →
    x.accepted = verdict (acceptedOf earlier x.session) x.counter

variable (aead : Aead) (loads : Bytes → Except Exc Json)

/-- If the step has an envelope that opens, it meets the replay check that the
    handshake of its session has made. -/
def Own (t : Shared) (e : Event) : Prop :=
  ∀ s k, t.uses aead loads e = some (s, k) → k = s + 1

variable {aead loads} {t u : Shared}

theorem verdict_of_notMem {cs : List ℤ} {c : ℤ} (h : c ∉ cs) : verdict cs c = true := by
  rcases ReplayClient.exists_check_of_notMem cs h with ⟨r, hr⟩
  rw [verdict, hr]

theorem mem_of_mem_acceptedOf {checked : List Checked} {s : ℕ} {c : ℤ}
    (h : c ∈ acceptedOf checked s) : ∃ x ∈ checked, x.session = s ∧ x.counter = c := by
  unfold acceptedOf at h
  rw [List.mem_reverse, List.mem_map] at h
  rcases h with ⟨x, hx, hc⟩
  rw [List.mem_filter, Bool.and_eq_true, decide_eq_true_eq] at hx
  exact ⟨x, hx.1, hx.2.1, hc⟩

theorem acceptedOf_cons_of_ne {checked : List Checked} {x : Checked} {s : ℕ}
    (h : x.session ≠ s ∨ x.accepted = false) :
    acceptedOf (x :: checked) s = acceptedOf checked s := by
  unfold acceptedOf
  rw [List.filter_cons_of_neg]
  rw [Bool.and_eq_true, decide_eq_true_eq, not_and, Bool.not_eq_true]
  intro hs
  exact h.resolve_left (not_not.mpr hs)

theorem acceptedOf_cons_self (checked : List Checked) (i s k : ℕ) (c : ℤ) :
    acceptedOf (⟨i, s, k, c, true⟩ :: checked) s = acceptedOf checked s ++ [c] := by
  unfold acceptedOf
  rw [List.filter_cons_of_pos (by simp), List.map_cons, List.reverse_cons]

theorem faithful_cons {checked : List Checked} {x : Checked} (h : Faithful checked)
    (hx : x.accepted = verdict (acceptedOf checked x.session) x.counter) :
    Faithful (x :: checked) := by
  intro later y earlier heq
  cases later with
  | nil =>
      rw [List.nil_append, List.cons.injEq] at heq
      rw [← heq.1, ← heq.2]
      exact hx
  | cons z later =>
      rw [List.cons_append, List.cons.injEq] at heq
      exact h later y earlier heq.2

/-- The invariant. Each session object has the replay check that its handshake has
    made, which has accepted what was accepted under the session. -/
structure Separate (t : Shared) : Prop where
  length : t.replays.length = t.sessions.length + 1
  known : ∀ x ∈ t.checked, x.session < t.sessions.length
  replays : ∀ s < t.sessions.length,
    t.replays[s + 1]? = some (ReplayClient.checks (acceptedOf t.checked s)).1
  faithful : Faithful t.checked

theorem separate_start : start.Separate where
  length := rfl
  known _ h := absurd h List.not_mem_nil
  replays _ h := absurd h (Nat.not_lt_zero _)
  faithful _ _ _ h := absurd h.symm (List.append_ne_nil_of_right_ne_nil _ (List.cons_ne_nil _ _))

/-- The session an envelope is opened for is there. -/
theorem lt_of_uses {e : Event} {s k : ℕ} (h : t.uses aead loads e = some (s, k)) :
    s < t.sessions.length := by
  have hbound : ∀ (f : SessionState → Option (ℕ × ℕ)) (s' : ℕ),
      t.sessions[s']?.bind f = some (s, k) → s' < t.sessions.length := by
    intro f s' hbind
    rcases Option.bind_eq_some_iff.mp hbind with ⟨state, hstate, -⟩
    exact (List.getElem?_eq_some_iff.mp hstate).1
  unfold uses at h
  -- An envelope is opened when an answer is decoded and when a line is read.
  split at h
  · split at h
    · split at h
      · have hlt := hbound _ _ h
        rcases Option.bind_eq_some_iff.mp h with ⟨state, -, hopen⟩
        split at hopen
        · rw [← (Prod.mk.inj (Option.some.inj hopen)).1]
          exact hlt
        · exact absurd hopen nofun
      · exact absurd h nofun
    · exact absurd h nofun
  · split at h
    · split at h
      · have hlt := hbound _ _ h
        rcases Option.bind_eq_some_iff.mp h with ⟨state, -, hline⟩
        split at hline
        · rw [← (Prod.mk.inj (Option.some.inj hline)).1]
          exact hlt
        · exact absurd hline nofun
      · exact absurd h nofun
    · exact absurd h nofun
  · exact absurd h nofun

/-- What neither makes a session nor checks anything keeps the invariant. -/
theorem Separate.keep (h : t.Separate) (hsessions : u.sessions.length = t.sessions.length)
    (hreplays : u.replays = t.replays) (hchecked : u.checked = t.checked) : u.Separate where
  length := by rw [hreplays, hsessions, h.length]
  known := by
    rw [hsessions, hchecked]
    exact h.known
  replays := by
    rw [hsessions, hreplays, hchecked]
    exact h.replays
  faithful := by
    rw [hchecked]
    exact h.faithful

/-- The verdict of a session's own check. -/
theorem Separate.verdict_eq (h : t.Separate) {s : ℕ} (hs : s < t.sessions.length)
    {replay : ReplayClient} (hreplay : t.replays[s + 1]? = some replay) (c : ℤ) :
    verdict (acceptedOf t.checked s) c = match replay.check c with
      | .ok _ => true
      | .error _ => false := by
  rw [h.replays s hs] at hreplay
  rw [verdict, Option.some.inj hreplay]

/-- A step in which an envelope meets its own session's check keeps it. -/
theorem Separate.step (h : t.Separate) {e : Event} (hown : t.Own aead loads e)
    (hstep : t.Move aead loads e u) : u.Separate := by
  cases hstep with
  | makes i c outcome hcall hphase hsession =>
      refine ⟨?_, ?_, ?_, h.faithful⟩
      · show (t.replays ++ [ReplayClient.fresh]).length =
          (t.sessions ++ [SessionState.new outcome]).length + 1
        rw [List.length_append, List.length_append, h.length]
        rfl
      · intro x hx
        show x.session < (t.sessions ++ [SessionState.new outcome]).length
        rw [List.length_append]
        exact Nat.lt_add_right _ (h.known x hx)
      · intro s hs
        show (t.replays ++ [ReplayClient.fresh])[s + 1]? = _
        have hs' : s < (t.sessions ++ [SessionState.new outcome]).length := hs
        rw [List.length_append, List.length_singleton] at hs'
        by_cases hold : s < t.sessions.length
        · rw [List.getElem?_append_left (by rw [h.length]; omega)]
          exact h.replays s hold
        · -- Nothing was checked under the new session.
          have hnone : acceptedOf t.checked s = [] := by
            rw [List.eq_nil_iff_forall_not_mem]
            intro c hc
            rcases mem_of_mem_acceptedOf hc with ⟨x, hx, hxs, -⟩
            exact hold (hxs ▸ h.known x hx)
          have hlast : s + 1 = t.replays.length := by
            rw [h.length]
            omega
          rw [hnone, hlast, List.getElem?_concat_length]
          rfl
  | takes i c s state hcall hphase hstate => exact h.keep List.length_set rfl rfl
  | refuses i c s k replay counter error hcall huses hreplay hcheck =>
      have hs := lt_of_uses huses
      rw [hown s k huses] at hreplay
      refine ⟨h.length, ?_, ?_, faithful_cons h.faithful ?_⟩
      · intro x hx
        rcases List.mem_cons.mp hx with rfl | hx
        · exact hs
        · exact h.known x hx
      · intro s' hs'
        show t.replays[s' + 1]? = some (ReplayClient.checks
          (acceptedOf (⟨i, s, k, counter, false⟩ :: t.checked) s')).1
        rw [acceptedOf_cons_of_ne (Or.inr rfl)]
        exact h.replays s' hs'
      · rw [h.verdict_eq hs hreplay, hcheck]
  | accepts i c c' s k replay replay' counter hcall huses hreplay hcheck hask hphase hvalue =>
      have hs := lt_of_uses huses
      rw [hown s k huses] at hreplay ⊢
      refine ⟨?_, ?_, ?_, faithful_cons h.faithful ?_⟩
      · show (t.replays.set (s + 1) replay').length = _
        rw [List.length_set]
        exact h.length
      · intro x hx
        rcases List.mem_cons.mp hx with rfl | hx
        · exact hs
        · exact h.known x hx
      · intro s' hs'
        show (t.replays.set (s + 1) replay')[s' + 1]? = some (ReplayClient.checks
          (acceptedOf (⟨i, s, s + 1, counter, true⟩ :: t.checked) s')).1
        by_cases heq : s = s'
        · -- The check of the session has accepted one more.
          subst heq
          have hold := h.replays s hs
          rw [hreplay] at hold
          rw [Option.some.inj hold] at hcheck
          rw [List.getElem?_set_self (List.getElem?_eq_some_iff.mp hreplay).1,
            acceptedOf_cons_self, ReplayClient.checks_append, hcheck]
        · rw [List.getElem?_set_ne (fun hss => heq (Nat.succ.inj hss)),
            acceptedOf_cons_of_ne (Or.inl heq)]
          exact h.replays s' hs'
      · rw [h.verdict_eq hs hreplay, hcheck]
  | _ => exact h.keep rfl rfl rfl

/-! ## What one check has come across -/

/-- What has met a replay check, newest first. -/
def metBy (checked : List Checked) (k : ℕ) : List Checked :=
  checked.filter fun x => decide (x.replay = k)

theorem metBy_cons_self {checked : List Checked} {x : Checked} {k : ℕ} (h : x.replay = k) :
    metBy (x :: checked) k = x :: metBy checked k :=
  List.filter_cons_of_pos (decide_eq_true h)

theorem metBy_cons_of_ne {checked : List Checked} {x : Checked} {k : ℕ} (h : x.replay ≠ k) :
    metBy (x :: checked) k = metBy checked k :=
  List.filter_cons_of_neg fun hk => h (of_decide_eq_true hk)

/-- The invariant. Each replay check is as what it has met leaves it, and has let
    through what such a check lets through. -/
structure Remembered (t : Shared) : Prop where
  known : ∀ x ∈ t.checked, x.replay < t.replays.length
  replays : ∀ (k : ℕ) replay, t.replays[k]? = some replay →
    ReplayClient.checks ((metBy t.checked k).map Checked.counter).reverse =
      (replay, ((metBy t.checked k).filter Checked.accepted).map Checked.counter)

theorem remembered_start : start.Remembered where
  known _ h := absurd h List.not_mem_nil
  replays k replay h := by
    rw [List.mem_singleton.mp (List.mem_of_getElem? h)]
    rfl

/-- What neither makes a check nor checks anything keeps it. -/
theorem Remembered.keep (h : t.Remembered) (hreplays : u.replays = t.replays)
    (hchecked : u.checked = t.checked) : u.Remembered where
  known := by
    rw [hreplays, hchecked]
    exact h.known
  replays := by
    rw [hreplays, hchecked]
    exact h.replays

/-- Any step keeps it. -/
theorem Remembered.step (h : t.Remembered) {e : Event} (hstep : t.Move aead loads e u) :
    u.Remembered := by
  cases hstep with
  | makes i c outcome hcall hphase hsession =>
      refine ⟨fun x hx => ?_, fun k replay hreplay => ?_⟩
      · show x.replay < (t.replays ++ [ReplayClient.fresh]).length
        rw [List.length_append]
        exact Nat.lt_add_right _ (h.known x hx)
      · dsimp only at hreplay ⊢
        rcases lt_or_ge k t.replays.length with hk | hk
        · rw [List.getElem?_append_left hk] at hreplay
          exact h.replays k replay hreplay
        · -- The new check has met nothing.
          have hnone : metBy t.checked k = [] := by
            refine List.filter_eq_nil_iff.mpr fun x hx hxk => ?_
            exact absurd (h.known x hx) (not_lt.mpr (of_decide_eq_true hxk ▸ hk))
          rw [List.getElem?_append_right hk] at hreplay
          rw [hnone, List.mem_singleton.mp (List.mem_of_getElem? hreplay)]
          rfl
  | refuses i c s k replay counter error hcall huses hreplay hcheck =>
      refine ⟨fun x hx => ?_, fun k' replay' hreplay' => ?_⟩
      · rcases List.mem_cons.mp hx with rfl | hx
        · exact (List.getElem?_eq_some_iff.mp hreplay).1
        · exact h.known x hx
      · dsimp only at hreplay' ⊢
        by_cases hk : k = k'
        · subst hk
          rw [hreplay] at hreplay'
          rw [← Option.some.inj hreplay', metBy_cons_self rfl, List.map_cons, List.reverse_cons,
            ReplayClient.checks_append, h.replays k replay hreplay, hcheck,
            List.filter_cons_of_neg (by simp)]
        · rw [metBy_cons_of_ne hk]
          exact h.replays k' replay' hreplay'
  | accepts i c c' s k replay replay' counter hcall huses hreplay hcheck hask hphase hvalue =>
      refine ⟨fun x hx => ?_, fun k' replay'' hreplay'' => ?_⟩
      · show x.replay < (t.replays.set k replay').length
        rw [List.length_set]
        rcases List.mem_cons.mp hx with rfl | hx
        · exact (List.getElem?_eq_some_iff.mp hreplay).1
        · exact h.known x hx
      · dsimp only at hreplay'' ⊢
        by_cases hk : k = k'
        · subst hk
          rw [List.getElem?_set_self (List.getElem?_eq_some_iff.mp hreplay).1] at hreplay''
          rw [← Option.some.inj hreplay'', metBy_cons_self rfl, List.map_cons, List.reverse_cons,
            ReplayClient.checks_append, h.replays k replay hreplay, hcheck,
            List.filter_cons_of_pos rfl, List.map_cons]
        · rw [List.getElem?_set_ne hk] at hreplay''
          rw [metBy_cons_of_ne hk]
          exact h.replays k' replay'' hreplay''
  | _ => exact h.keep rfl rfl

/-- While a replay check has met no more than 4096 envelopes it lets each counter
    through once. -/
theorem Remembered.accepted_once (h : t.Remembered) {y : Checked} (hy : y ∈ t.checked)
    (haccepted : y.accepted = true) (hfew : (metBy t.checked y.replay).length ≤ 4096) :
    (metBy t.checked y.replay).filter
      (fun x => decide (x.counter = y.counter) && x.accepted) = [y] := by
  have hchecks := h.replays y.replay _ (List.getElem?_eq_getElem (h.known y hy))
  have hnodup := ReplayClient.nodup_passed
    ((metBy t.checked y.replay).map Checked.counter).reverse
    (by rw [List.length_reverse, List.length_map]; exact hfew)
  rw [hchecks] at hnodup
  have hmem : y ∈ (metBy t.checked y.replay).filter Checked.accepted :=
    List.mem_filter.mpr ⟨List.mem_filter.mpr ⟨hy, decide_eq_true rfl⟩, haccepted⟩
  -- Of what it has let through, the counter tells which it is.
  have hsame : ∀ x ∈ (metBy t.checked y.replay).filter Checked.accepted,
      decide (x.counter = y.counter) = decide (x = y) := by
    intro x hx
    rw [decide_eq_decide]
    exact ⟨List.inj_on_of_nodup_map hnodup hx hmem, congrArg Checked.counter⟩
  rw [← List.filter_filter, List.filter_congr hsame, List.filter_eq,
    List.count_eq_one_of_mem hnodup.of_map hmem, List.replicate_one]

end Shared

open Shared

/-- **Replay verdicts are per session, as long as each session's envelopes meet its
    own check.** In every run of such steps each verdict is that of a check that
    has accepted what was accepted under the envelope's own session; and an
    envelope of which no counter has come under its session is not refused. -/
theorem replay_verdicts_per_session (aead : Aead) (loads : Bytes → Except Exc Json) (t : Shared)
    (h : Run (step aead loads) (fun t e _ => t.Own aead loads e) start t) :
    Faithful t.checked ∧
      ∀ later x earlier, t.checked = later ++ x :: earlier →
        (∀ y ∈ earlier, y.session = x.session → y.counter ≠ x.counter) → x.accepted = true := by
  have hseparate : t.Separate := Run.invariant Separate separate_start
    (fun t e u ht hown (hstep : step aead loads t e = some u) =>
      ht.step hown (move_of_step hstep)) h
  refine ⟨hseparate.faithful, fun later x earlier heq hnew => ?_⟩
  rw [hseparate.faithful later x earlier heq]
  refine verdict_of_notMem fun hmem => ?_
  rcases mem_of_mem_acceptedOf hmem with ⟨y, hy, hsession, hcounter⟩
  exact hnew y hy hsession hcounter

/-- A stream's first envelope is accepted, and refused when it comes again. -/
theorem replay_verdicts_per_session_sample :
    ∃ t, Run (step .sample loadsSample) (fun t e _ => t.Own .sample loadsSample e) start t ∧
      t.checked = [⟨0, 0, 1, 1, false⟩, ⟨0, 0, 1, 1, true⟩] ∧ Faithful t.checked := by
  let line : String := "data: " ++ b64encode (envelopeSample 1 1 (utf8 "1"))
  let events : List Event := [.call 0 (.sample true) true, .enter 0 (.ok (.sample 1)), .count 0,
    .send 0, .reply 0 ⟨200, "text/event-stream", []⟩, .line 0 line, .line 0 line]
  let own : Shared → Event → Bool := fun t e =>
    (t.uses .sample loadsSample e).all fun p => decide (p.2 = p.1 + 1)
  have hplay : ((playIf own (step .sample loadsSample) start events).any (fun t => decide
      (t.checked = [⟨0, 0, 1, 1, false⟩, ⟨0, 0, 1, 1, true⟩]))) = true := by
    decide +kernel
  rcases (Option.any_eq_true _ _).mp hplay with ⟨t, ht, hend⟩
  have hrun :
      Run (step .sample loadsSample) (fun t e _ => t.Own .sample loadsSample e) start t := by
    refine run_of_playIf own events (fun t e _ hpass s k huses => ?_) ht
    have hown : (t.uses .sample loadsSample e).all (fun p => decide (p.2 = p.1 + 1)) = true := hpass
    rw [huses] at hown
    exact of_decide_eq_true hown
  exact ⟨t, hrun, of_decide_eq_true hend,
    (replay_verdicts_per_session .sample loadsSample t hrun).1⟩

/-- A stream is open when the session is reset. The next session's first answer is
    accepted, and then the stream's first line, which has the same counter, is
    refused. -/
theorem undelivered_envelope_refused :
    ∃ t, Run (step .sample loadsSample) anyStep start t ∧
      ∃ x earlier, t.checked = x :: earlier ∧ x.accepted = false ∧
        (∀ y ∈ earlier, y.session ≠ x.session) ∧
        verdict (acceptedOf earlier x.session) x.counter = true := by
  let events : List Event := [.call 0 (.sample true) true, .enter 0 (.ok (.sample 1)), .count 0,
    .send 0, .reply 0 ⟨200, "text/event-stream", []⟩, .reset, .call 1 (.sample false) true,
    .enter 1 (.ok (.sample 2)), .count 1, .send 1,
    .reply 1 ⟨200, "application/octet-stream", envelopeSample 2 1 (utf8 "2")⟩, .decode 1,
    .line 0 ("data: " ++ b64encode (envelopeSample 1 1 (utf8 "1")))]
  have hplay : ((play (step .sample loadsSample) start events).any (fun t => decide
      (t.checked = [⟨0, 0, 2, 1, false⟩, ⟨1, 1, 2, 1, true⟩]))) = true := by
    decide +kernel
  rcases (Option.any_eq_true _ _).mp hplay with ⟨t, ht, hend⟩
  refine ⟨t, run_of_play events ht, ⟨0, 0, 2, 1, false⟩, [⟨1, 1, 2, 1, true⟩],
    of_decide_eq_true hend, rfl, ?_, verdict_of_notMem ?_⟩
  · intro y hy
    rw [List.mem_singleton.mp hy]
    decide
  · exact List.not_mem_nil

end Client

end SecureLlm
