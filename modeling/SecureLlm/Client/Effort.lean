import SecureLlm.Client.Calls

/-!
# What a Call Costs

A request that the server does not know the session of forgets the session and begins
again, once. So a request takes a bounded number of steps and seals at most two
envelopes, whatever the server answers and whatever other threads do to the session in
between; a stream seals one. And a handshake is made for the first call, and then for
what a reset or a request that began again has left without a session.

A request that begins again forgets the session that is there by then, which another may
just have made. That is paid for by the request, too.

## Main definitions

* `Event.caller`, `Event.retries`, `Event.forgets`: Whose step it is, and of what kind.
* `times`: How often one has happened for a call.
* `Phase.stepsLeft`, `Phase.sealsLeft`, `Call.triesLeft`: What a call may still do.
* `Shared.Turn`: What a step costs the call that takes it.
* `Shared.PaidFor`, `Shared.Paid`: The invariant, of a call and of all.

## Theorems

* `Shared.turn_of_step`: Every step of a call is paid for.
* `Shared.Paid.step`: A step keeps the invariant.
* `client_effort_bounded`: What calls cost, in every run.
-/

namespace SecureLlm

open Library Transition

namespace Client

/-- The call whose step an event is. -/
def Event.caller : Event → Option ℕ
  | .call i _ _ | .enter i _ | .count i | .send i | .lose i _ | .reply i _ | .forget i | .decode i
  | .line i _ | .finish i => some i
  | .reset => none

/-- The request that begins, if it may begin again. -/
def Event.retries : Event → Option ℕ
  | .call i ask retry => if retry = true ∧ ask.streaming = false then some i else none
  | _ => none

theorem Event.retries_call_iff {i j : ℕ} {ask : Ask} {retry : Bool} :
    (Event.call i ask retry).retries = some j ↔
      (retry = true ∧ ask.streaming = false) ∧ i = j := by
  unfold Event.retries
  dsimp only
  by_cases hagain : retry = true ∧ ask.streaming = false
  · rw [if_pos hagain, Option.some.injEq, and_iff_right hagain]
  · rw [if_neg hagain]
    exact ⟨fun hc => absurd hc (by simp), fun hc => absurd hc.1 hagain⟩

/-- The request that begins again. -/
def Event.forgets : Event → Option ℕ
  | .forget i => some i
  | _ => none

theorem Event.caller_of_forgets {e : Event} {i : ℕ} (h : e.forgets = some i) :
    e.caller = some i := by
  cases e with
  | forget j => exact h
  | _ => exact absurd h (by simp [Event.forgets])

def Event.isReset : Event → Bool
  | .reset => true
  | _ => false

/-- How often something has happened for a call. -/
def times (f : Event → Option ℕ) (es : List Event) (i : ℕ) : ℕ := (es.filterMap f).count i

theorem times_snoc (f : Event → Option ℕ) (es : List Event) (e : Event) (i : ℕ) :
    times f (es ++ [e]) i = times f es i + if f e = some i then 1 else 0 := by
  unfold times
  rw [List.filterMap_append, List.count_append]
  cases hf : f e with
  | none => simp [hf]
  | some j => simp [hf, List.count_singleton]

/-- How many steps a request takes at most from here, if it does not begin again. -/
def Phase.stepsLeft : Phase → ℕ
  | .entering => 5
  | .counting _ => 4
  | .sealing _ _ => 3
  | .waiting _ => 2
  | .refused _ | .decoding _ _ _ | .reading _ => 1
  | .over _ => 0

/-- How many envelopes it seals, if it does not begin again. -/
def Phase.sealsLeft : Phase → ℕ
  | .entering | .counting _ | .sealing _ _ => 1
  | _ => 0

/-- How often it may begin again. -/
def Call.triesLeft (c : Call) : ℕ := if c.retry = true ∧ c.ask.streaming = false then 1 else 0

namespace Shared

variable {aead : Aead} {loads : Bytes → Except Exc Json} {t u : Shared} {e : Event}

/-- How many sessions have been made, and the one that the next call makes. -/
def due (t : Shared) : ℕ := t.sessions.length + if t.session = none then 1 else 0

/-- How often a call has sealed. -/
def seals (t : Shared) (i : ℕ) : ℕ := (t.sealed.map Sealed.call).count i

/-- What a step costs the call that takes it: a step, and an envelope or a try where it
    uses one up. -/
structure Turn (t u : Shared) (e : Event) (i : ℕ) (c c' : Call) : Prop where
  before : t.calls i = some c
  after : u.calls = Function.update t.calls i (some c')
  ask : c'.ask = c.ask
  steps : c.ask.streaming = false →
    c'.phase.stepsLeft + 5 * c'.triesLeft + 1 ≤ c.phase.stepsLeft + 5 * c.triesLeft
  sealed : ∀ j, j ≠ i → u.seals j = t.seals j
  seals : u.seals i + c'.phase.sealsLeft + c'.triesLeft ≤
    t.seals i + c.phase.sealsLeft + c.triesLeft
  tries : c'.triesLeft + (if e.forgets = some i then 1 else 0) ≤ c.triesLeft
  due : u.due ≤ t.due + if e.forgets = some i then 1 else 0
  refused : ∀ s, c'.phase = .refused s → c'.triesLeft = 1
  reading : ∀ s, c'.phase = .reading s → c'.ask.streaming = true

/-- A call that moves on, with nothing sealed and no session made or forgotten. -/
theorem Turn.of_moves {i : ℕ} {c c' : Call} (hcall : t.calls i = some c)
    (hcalls : u.calls = Function.update t.calls i (some c')) (hask : c'.ask = c.ask)
    (hretry : c'.retry = c.retry) (hsealed : u.sealed = t.sealed) (hdue : u.due ≤ t.due)
    (hforget : e.forgets = none)
    (hsteps : c.ask.streaming = false → c'.phase.stepsLeft + 1 ≤ c.phase.stepsLeft)
    (hseals : c'.phase.sealsLeft ≤ c.phase.sealsLeft)
    (hphase : ∀ s, (c'.phase = .refused s → c.triesLeft = 1) ∧
      (c'.phase = .reading s → c.ask.streaming = true)) : t.Turn u e i c c' := by
  have htries : c'.triesLeft = c.triesLeft := by
    unfold Call.triesLeft
    rw [hask, hretry]
  have hsame : ∀ j, u.seals j = t.seals j := by
    intro j
    unfold Shared.seals
    rw [hsealed]
  refine ⟨hcall, hcalls, hask, fun hs => ?_, fun j _ => hsame j, ?_, ?_, ?_, fun s hs => ?_,
    fun s hs => ?_⟩
  · have hless := hsteps hs
    rw [htries]
    omega
  · rw [htries, hsame i]
    omega
  · rw [hforget, if_neg (by simp), htries, Nat.add_zero]
  · exact le_trans hdue (Nat.le_add_right _ _)
  · rw [htries]
    exact (hphase s).1 hs
  · rw [hask]
    exact (hphase s).2 hs

/-- A call that moves on, and nothing else. -/
theorem Turn.of_goto {i : ℕ} {c : Call} {phase : Phase} (hcall : t.calls i = some c)
    (hforget : e.forgets = none) (hsteps : phase.stepsLeft + 1 ≤ c.phase.stepsLeft)
    (hseals : phase.sealsLeft ≤ c.phase.sealsLeft)
    (hphase : ∀ s, (phase = .refused s → c.triesLeft = 1) ∧
      (phase = .reading s → c.ask.streaming = true)) :
    t.Turn (t.goto i c phase) e i c { c with phase } :=
  .of_moves hcall rfl rfl rfl rfl (le_refl _) hforget (fun _ => hsteps) hseals hphase

/-- A call that ends. -/
theorem Turn.of_over {i : ℕ} {c : Call} (hcall : t.calls i = some c) (hforget : e.forgets = none)
    (hsteps : 1 ≤ c.phase.stepsLeft) (result : Except Raised (Option Json)) :
    t.Turn (t.goto i c (.over result)) e i c { c with phase := .over result } :=
  .of_goto hcall hforget hsteps (Nat.zero_le _) fun s => by simp

section

variable {i : ℕ}

theorem turn_of_enter {handshake : Except Exc HandshakeOutcome}
    (h : t.step aead loads (.enter i handshake) = some u) :
    ∃ c c', t.Turn u (.enter i handshake) i c c' := by
  rcases enter_of_step h with ⟨c, hcall, hphase, rfl⟩
  unfold sessionState
  cases hsession : t.session with
  | some s =>
      exact ⟨c, _, .of_goto hcall rfl (by rw [hphase]; exact le_refl _)
        (by rw [hphase]; exact le_refl _) fun s => by simp⟩
  | none =>
      cases handshake with
      | error error =>
          exact ⟨c, _, .of_over hcall rfl (by rw [hphase]; exact Nat.succ_pos _) _⟩
      | ok outcome =>
          refine ⟨c, _, .of_moves hcall rfl rfl rfl rfl ?_ rfl
            (fun _ => by rw [hphase]; exact le_refl _)
            (by rw [hphase]; exact le_refl _) fun s => by simp⟩
          -- The session that was due is there.
          unfold due
          rw [hsession]
          simp [Shared.goto]

theorem turn_of_count (h : t.step aead loads (.count i) = some u) :
    ∃ c c', t.Turn u (.count i) i c c' := by
  rcases count_of_step h with ⟨c, s, state, hcall, hphase, hstate, rfl⟩
  refine ⟨c, _, .of_moves hcall rfl rfl rfl rfl ?_ rfl (fun _ => by rw [hphase]; exact le_refl _)
    (by rw [hphase]; exact le_refl _) fun s => by simp⟩
  unfold due takeCounter Shared.goto
  rw [List.length_set]

theorem turn_of_send (h : t.step aead loads (.send i) = some u) :
    ∃ c c', t.Turn u (.send i) i c c' := by
  rcases send_of_step h with ⟨c, s, counter, state, hcall, hphase, hstate, rfl⟩
  unfold sealAndSend
  cases Client.sealEnvelope aead state.outcome.c2s counter state.outcome.sessionId
    c.ask.method.toUpper c.ask.path c.ask.payload with
  | error error => exact ⟨c, _, .of_over hcall rfl (by rw [hphase]; exact Nat.succ_pos _) _⟩
  | ok body =>
      refine ⟨c, _, hcall, rfl, rfl, fun _ => ?_, fun j hj => ?_, ?_, ?_, ?_,
        fun s hs => absurd hs (by simp), fun s hs => absurd hs (by simp)⟩
      · rw [hphase]
        change 2 + 5 * c.triesLeft + 1 ≤ 3 + 5 * c.triesLeft
        omega
      · exact List.count_cons_of_ne (fun hc => hj hc.symm)
      · rw [hphase]
        change (i :: t.sealed.map Sealed.call).count i + 0 + c.triesLeft ≤
          (t.sealed.map Sealed.call).count i + 1 + c.triesLeft
        rw [List.count_cons_self]
      · exact le_refl _
      · exact le_refl _

theorem turn_of_lose {error : Exc} (h : t.step aead loads (.lose i error) = some u) :
    ∃ c c', t.Turn u (.lose i error) i c c' := by
  rcases lose_of_step h with ⟨c, s, hcall, hphase, rfl⟩
  refine ⟨c, _, .of_over hcall rfl ?_ _⟩
  rcases hphase with hphase | hphase <;> rw [hphase] <;> exact Nat.succ_pos _

theorem turn_of_reply {r : Response} (h : t.step aead loads (.reply i r) = some u) :
    ∃ c c', t.Turn u (.reply i r) i c c' := by
  rcases reply_of_step h with ⟨c, s, hcall, hphase, rfl⟩
  unfold receive
  by_cases hstreaming : c.ask.streaming = true
  · rw [if_pos hstreaming]
    by_cases hstatus : r.statusCode ≠ 200
    · rw [if_pos hstatus]
      exact ⟨c, _, .of_goto hcall rfl (by rw [hphase]; exact le_refl _)
        (by rw [hphase]; exact le_refl _) fun s => by simp⟩
    · rw [if_neg hstatus]
      exact ⟨c, _, .of_goto hcall rfl (by rw [hphase]; exact le_refl _)
        (by rw [hphase]; exact le_refl _) fun s => ⟨by simp, fun _ => hstreaming⟩⟩
  · rw [if_neg hstreaming]
    split
    · rename_i hlost
      refine ⟨c, _, .of_goto hcall rfl (by rw [hphase]; exact le_refl _)
        (by rw [hphase]; exact le_refl _) fun s => ⟨fun _ => ?_, by simp⟩⟩
      unfold Call.triesLeft
      rw [if_pos ⟨hlost.2.2, by rw [Bool.not_eq_true] at hstreaming; exact hstreaming⟩]
    · exact ⟨c, _, .of_goto hcall rfl (by rw [hphase]; exact le_refl _)
        (by rw [hphase]; exact le_refl _) fun s => by simp⟩

theorem turn_of_forget
    (hrefused : ∀ c s, t.calls i = some c → c.phase = .refused s → c.triesLeft = 1)
    (h : t.step aead loads (.forget i) = some u) : ∃ c c', t.Turn u (.forget i) i c c' := by
  rcases forget_of_step h with ⟨c, s, hcall, hphase, rfl⟩
  have htries := hrefused c s hcall hphase
  have hnone : Call.triesLeft { c with retry := false, phase := .entering } = 0 := by
    unfold Call.triesLeft
    rw [if_neg (by simp)]
  refine ⟨c, { c with retry := false, phase := .entering }, hcall, rfl, rfl, fun _ => ?_,
    fun _ _ => rfl, ?_, ?_, ?_, fun s hs => absurd hs (by simp), fun s hs => absurd hs (by simp)⟩
  · rw [hnone, htries, hphase]
    exact le_refl _
  · rw [hnone, htries, hphase]
    exact le_refl _
  · rw [hnone, htries]
    simp [Event.forgets]
  -- Whatever session was there, one is due now.
  · unfold due
    simp [Event.forgets, Shared.goto]

theorem turn_of_decode (h : t.step aead loads (.decode i) = some u) :
    ∃ c c', t.Turn u (.decode i) i c c' := by
  rcases decode_of_step h with ⟨c, s, r, k, state, replay, hcall, hphase, hstate, hreplay, rfl⟩
  have hleft : 1 ≤ c.phase.stepsLeft := by
    rw [hphase]
    exact le_refl _
  unfold decode
  cases openResponse aead loads r state.outcome c.ask.method c.ask.path with
  | finished result => exact ⟨c, _, .of_over hcall rfl hleft _⟩
  | sealed counter plaintext =>
      dsimp only
      unfold check
      cases replay.check counter with
      | error error =>
          exact ⟨c, _, .of_moves hcall rfl rfl rfl rfl (le_refl _) rfl (fun _ => hleft)
            (Nat.zero_le _) fun s => by simp⟩
      | ok replay' =>
          exact ⟨c, _, .of_moves hcall rfl rfl rfl rfl (le_refl _) rfl (fun _ => hleft)
            (Nat.zero_le _) fun s => by simp⟩

/-- A line is read by a stream. -/
theorem turn_of_line {line : String}
    (hreading : ∀ c s, t.calls i = some c → c.phase = .reading s → c.ask.streaming = true)
    (h : t.step aead loads (.line i line) = some u) :
    ∃ c c', t.Turn u (.line i line) i c c' := by
  rcases line_of_step h with ⟨c, s, state, replay, hcall, hphase, hstate, hreplay, rfl⟩
  have hstreaming := hreading c s hcall hphase
  -- Its steps are not counted.
  have hsteps : ∀ c' : Call, c.ask.streaming = false →
      c'.phase.stepsLeft + 1 ≤ c.phase.stepsLeft := by
    intro _ hs
    rw [hstreaming] at hs
    exact absurd hs (by simp)
  unfold readLine
  cases Client.readLine aead state.outcome c.ask.method c.ask.path line with
  | skipped =>
      refine ⟨c, c, .of_moves hcall ?_ rfl rfl rfl (le_refl _) rfl (hsteps c) (le_refl _)
        fun s' => ⟨fun hs => ?_, fun _ => hstreaming⟩⟩
      · rw [← hcall, Function.update_eq_self]
      · rw [hphase] at hs
        exact absurd hs (by simp)
  | done =>
      exact ⟨c, _, .of_over hcall rfl (by rw [hphase]; exact le_refl _) _⟩
  | failed error =>
      exact ⟨c, _, .of_over hcall rfl (by rw [hphase]; exact le_refl _) _⟩
  | sealed counter plaintext =>
      dsimp only
      unfold check
      cases replay.check counter with
      | error error =>
          exact ⟨c, _, .of_moves hcall rfl rfl rfl rfl (le_refl _) rfl (hsteps _)
            (Nat.zero_le _) fun s => by simp⟩
      | ok replay' =>
          dsimp only
          cases parsePayload loads plaintext with
          | error error =>
              exact ⟨c, _, .of_moves hcall rfl rfl rfl rfl (le_refl _) rfl (hsteps _)
                (Nat.zero_le _) fun s => by simp⟩
          | ok value =>
              exact ⟨c, _, .of_moves hcall rfl rfl rfl rfl (le_refl _) rfl (hsteps _)
                (Nat.zero_le _) fun s => ⟨by simp, fun _ => hstreaming⟩⟩

theorem turn_of_finish (h : t.step aead loads (.finish i) = some u) :
    ∃ c c', t.Turn u (.finish i) i c c' := by
  rcases finish_of_step h with ⟨c, s, hcall, hphase, rfl⟩
  exact ⟨c, _, .of_over hcall rfl (by rw [hphase]; exact le_refl _) _⟩

end

/-- What a call has done and may still do is paid for by what has begun. -/
structure PaidFor (es : List Event) (t : Shared) (i : ℕ) : Prop where
  fresh : t.calls i = none → times Event.caller es i = 0 ∧ times Event.retries es i = 0 ∧
    times Event.forgets es i = 0 ∧ t.seals i = 0
  once : times Event.retries es i ≤ 1
  refused : ∀ c s, t.calls i = some c → c.phase = .refused s → c.triesLeft = 1
  reading : ∀ c s, t.calls i = some c → c.phase = .reading s → c.ask.streaming = true
  steps : ∀ c, t.calls i = some c → c.ask.streaming = false →
    times Event.caller es i + c.phase.stepsLeft + 5 * c.triesLeft ≤
      6 + 5 * times Event.retries es i
  seals : ∀ c, t.calls i = some c →
    t.seals i + c.phase.sealsLeft + c.triesLeft ≤ 1 + times Event.retries es i
  tries : ∀ c, t.calls i = some c →
    times Event.forgets es i + c.triesLeft ≤ times Event.retries es i

/-- A call that is where it was, with nothing more counted for it. -/
theorem PaidFor.of_eq {es : List Event} {i : ℕ} (h : t.PaidFor es i)
    (hcalls : u.calls i = t.calls i) (hseals : u.seals i = t.seals i)
    (hcaller : e.caller ≠ some i) (hretries : e.retries ≠ some i)
    (hforgets : e.forgets ≠ some i) : u.PaidFor (es ++ [e]) i := by
  have hnot : ∀ f : Event → Option ℕ, f e ≠ some i →
      times f (es ++ [e]) i = times f es i := by
    intro f hf
    rw [times_snoc, if_neg hf, Nat.add_zero]
  refine ⟨?_, ?_, ?_, ?_, ?_, ?_, ?_⟩
  · rw [hcalls, hnot _ hcaller, hnot _ hretries, hnot _ hforgets, hseals]
    exact h.fresh
  · rw [hnot _ hretries]
    exact h.once
  · rw [hcalls]
    exact h.refused
  · rw [hcalls]
    exact h.reading
  · rw [hcalls, hnot _ hcaller, hnot _ hretries]
    exact h.steps
  · rw [hcalls, hnot _ hretries, hseals]
    exact h.seals
  · rw [hcalls, hnot _ hretries, hnot _ hforgets]
    exact h.tries

/-- The call whose step it is. -/
theorem PaidFor.turn {es : List Event} {i : ℕ} {c c' : Call} (h : t.PaidFor es i)
    (hcaller : e.caller = some i) (hretries : e.retries = none) (hturn : t.Turn u e i c c') :
    u.PaidFor (es ++ [e]) i := by
  have hself : u.calls i = some c' := by rw [hturn.after, Function.update_self]
  have hown : ∀ d, u.calls i = some d → d = c' := by
    intro d hd
    rw [hself] at hd
    exact (Option.some.inj hd).symm
  have hsteps : times Event.caller (es ++ [e]) i = times Event.caller es i + 1 := by
    rw [times_snoc, if_pos hcaller]
  have hnone : times Event.retries (es ++ [e]) i = times Event.retries es i := by
    rw [times_snoc, hretries, if_neg (by simp), Nat.add_zero]
  refine ⟨fun hfree => ?_, ?_, fun d s hd hs => ?_, fun d s hd hs => ?_,
    fun d hd hstreaming => ?_, fun d hd => ?_, fun d hd => ?_⟩
  · rw [hself] at hfree
    exact absurd hfree (by simp)
  · rw [hnone]
    exact h.once
  · rw [hown d hd] at hs ⊢
    exact hturn.refused s hs
  · rw [hown d hd] at hs ⊢
    exact hturn.reading s hs
  · rw [hown d hd, hturn.ask] at hstreaming
    have hpaid := h.steps c hturn.before hstreaming
    have hcost := hturn.steps hstreaming
    rw [hsteps, hnone, hown d hd]
    omega
  · rw [hnone, hown d hd]
    exact le_trans hturn.seals (h.seals c hturn.before)
  · have hpaid := h.tries c hturn.before
    have hcost := hturn.tries
    rw [hnone, times_snoc, hown d hd]
    omega

/-- The call that begins. It may begin again exactly where that is counted. -/
theorem PaidFor.call {es : List Event} {i : ℕ} {ask : Ask} {retry : Bool} (h : t.PaidFor es i)
    (hfree : t.calls i = none)
    (hcalls : u.calls i = some ⟨ask, retry, .entering, []⟩) (hseals : u.seals i = t.seals i) :
    u.PaidFor (es ++ [.call i ask retry]) i := by
  rcases h.fresh hfree with ⟨hsteps, hretries, hforgets, hsealed⟩
  have hcaller : (Event.call i ask retry).caller = some i := rfl
  have hown : ∀ d, u.calls i = some d → d = ⟨ask, retry, .entering, []⟩ := by
    intro d hd
    rw [hcalls] at hd
    exact (Option.some.inj hd).symm
  have htries : times Event.retries (es ++ [.call i ask retry]) i =
      Call.triesLeft ⟨ask, retry, .entering, []⟩ := by
    rw [times_snoc, hretries, Nat.zero_add]
    exact if_congr (Event.retries_call_iff.trans (and_iff_left rfl)) rfl rfl
  refine ⟨fun hnone => ?_, ?_, fun d s hd hs => ?_, fun d s hd hs => ?_,
    fun d hd hstreaming => ?_, fun d hd => ?_, fun d hd => ?_⟩
  · rw [hcalls] at hnone
    exact absurd hnone (by simp)
  · rw [times_snoc, hretries, Nat.zero_add]
    split
    · exact le_refl _
    · exact Nat.zero_le _
  · rw [hown d hd] at hs
    exact absurd hs (by simp)
  · rw [hown d hd] at hs
    exact absurd hs (by simp)
  · rw [htries, times_snoc, hsteps, if_pos hcaller, hown d hd]
    exact le_refl _
  · rw [htries, hseals, hsealed, hown d hd]
    exact le_refl _
  · rw [htries, times_snoc, hforgets, if_neg (by simp [Event.forgets]), hown d hd, Nat.zero_add]

/-- **Every step is paid for**, but the call itself and a reset. -/
theorem turn_of_step {es : List Event} (h : ∀ i, t.PaidFor es i)
    (hstep : t.step aead loads e = some u) :
    (∃ i ask retry, e = .call i ask retry) ∨ e = .reset ∨
      ∃ i c c', e.caller = some i ∧ e.retries = none ∧ t.Turn u e i c c' := by
  have hturn : ∀ i, e.caller = some i → e.retries = none → (∃ c c', t.Turn u e i c c') →
      (∃ i ask retry, e = .call i ask retry) ∨ e = .reset ∨
        ∃ i c c', e.caller = some i ∧ e.retries = none ∧ t.Turn u e i c c' := by
    intro i hcaller hretries hpaid
    rcases hpaid with ⟨c, c', hpaid⟩
    exact .inr (.inr ⟨i, c, c', hcaller, hretries, hpaid⟩)
  cases e with
  | call i ask retry => exact .inl ⟨i, ask, retry, rfl⟩
  | reset => exact .inr (.inl rfl)
  | enter i handshake => exact hturn i rfl rfl (turn_of_enter hstep)
  | count i => exact hturn i rfl rfl (turn_of_count hstep)
  | send i => exact hturn i rfl rfl (turn_of_send hstep)
  | lose i error => exact hturn i rfl rfl (turn_of_lose hstep)
  | reply i r => exact hturn i rfl rfl (turn_of_reply hstep)
  | forget i => exact hturn i rfl rfl (turn_of_forget (h i).refused hstep)
  | decode i => exact hturn i rfl rfl (turn_of_decode hstep)
  | line i line => exact hturn i rfl rfl (turn_of_line (h i).reading hstep)
  | finish i => exact hturn i rfl rfl (turn_of_finish hstep)

/-- The invariant. The sessions are paid for by what has begun again and by resets. -/
structure Paid (es : List Event) (t : Shared) : Prop where
  calls : ∀ i, t.PaidFor es i
  due : t.due ≤ 1 + (es.filterMap Event.forgets).length + es.countP Event.isReset

theorem paid_start : start.Paid [] where
  calls _ := ⟨fun _ => ⟨rfl, rfl, rfl, rfl⟩, Nat.zero_le _, fun _ _ h => absurd h (by simp [start]),
    fun _ _ h => absurd h (by simp [start]), fun _ h => absurd h (by simp [start]),
    fun _ h => absurd h (by simp [start]), fun _ h => absurd h (by simp [start])⟩
  due := le_refl _

/-- **A step keeps the invariant.** -/
theorem Paid.step {es : List Event} (h : t.Paid es) (hstep : t.step aead loads e = some u) :
    u.Paid (es ++ [e]) := by
  have hpaid := h.due
  rcases turn_of_step h.calls hstep with ⟨i, ask, retry, rfl⟩ | rfl |
    ⟨i, c, c', hcaller, hretries, hturn⟩
  · cases hfree : t.calls i with
    | some c =>
        unfold step at hstep
        simp only [hfree, reduceCtorEq] at hstep
    | none =>
        unfold step at hstep
        simp only [hfree, Option.some.injEq] at hstep
        rw [← hstep]
        refine ⟨fun j => ?_, ?_⟩
        · by_cases hji : j = i
          · rw [hji]
            exact (h.calls i).call hfree (Function.update_self _ _ _) rfl
          · have hij : ¬ i = j := fun hc => hji hc.symm
            refine (h.calls j).of_eq (Function.update_of_ne hji _ _) rfl ?_
              (fun hc => hij (Event.retries_call_iff.mp hc).2) (by simp [Event.forgets])
            simpa [Event.caller] using hij
        · change t.due ≤ _
          rw [List.filterMap_append, List.length_append, List.countP_append]
          omega
  · rw [← Option.some.inj hstep]
    refine ⟨fun j => (h.calls j).of_eq rfl rfl (by simp [Event.caller]) (by simp [Event.retries])
      (by simp [Event.forgets]), ?_⟩
    have hdue : Shared.due { t with session := none } ≤ t.due + 1 := by
      unfold Shared.due
      dsimp only
      rw [if_pos rfl]
      omega
    have hcounted : [Event.reset].countP Event.isReset = 1 := rfl
    rw [List.filterMap_append, List.length_append, List.countP_append, hcounted]
    omega
  · refine ⟨fun j => ?_, ?_⟩
    · by_cases hji : j = i
      · rw [hji]
        exact (h.calls i).turn hcaller hretries hturn
      · refine (h.calls j).of_eq ?_ (hturn.sealed j hji) ?_ (by rw [hretries]; simp) fun hc => ?_
        · rw [hturn.after, Function.update_of_ne hji]
        · rw [hcaller]
          exact fun hc => hji (Option.some.inj hc).symm
        · have hsame := Event.caller_of_forgets hc
          rw [hcaller] at hsame
          exact hji (Option.some.inj hsame).symm
    · have hcost := hturn.due
      have hcounted : (if e.forgets = some i then 1 else 0) ≤
          ([e].filterMap Event.forgets).length := by
        by_cases hf : e.forgets = some i
        · rw [if_pos hf, List.filterMap_cons_some hf]
          exact Nat.succ_pos _
        · rw [if_neg hf]
          exact Nat.zero_le _
      rw [List.filterMap_append, List.length_append, List.countP_append]
      omega

/-- What begins again has begun as a request that may. -/
theorem Paid.forgets_le {es : List Event} (h : t.Paid es) :
    (es.filterMap Event.forgets).length ≤ (es.filterMap Event.retries).length := by
  refine (List.subperm_ext_iff.mpr fun i _ => ?_).length_le
  change times Event.forgets es i ≤ times Event.retries es i
  cases hcall : t.calls i with
  | none =>
      rw [((h.calls i).fresh hcall).2.2.1]
      exact Nat.zero_le _
  | some c => exact le_trans (Nat.le_add_right _ _) ((h.calls i).tries c hcall)

end Shared

/-- **What calls cost.** In every run, however the threads are interleaved and whatever
    the server answers: a call seals at most one envelope, or two if it is a request that
    may begin again; a request takes at most six steps, or eleven; and there are no more
    sessions made than one, and one for each such request and each reset. -/
theorem client_effort_bounded (aead : Aead) (loads : Bytes → Except Exc Json) (es : List Event)
    (t : Shared) (h : play (Shared.step aead loads) .start es = some t) :
    (∀ i, times Event.retries es i ≤ 1 ∧ t.seals i ≤ 1 + times Event.retries es i) ∧
    (∀ i c, t.calls i = some c → c.ask.streaming = false →
      times Event.caller es i ≤ 6 + 5 * times Event.retries es i) ∧
    t.sessions.length ≤ 1 + (es.filterMap Event.retries).length + es.countP Event.isReset := by
  have hpaid : t.Paid es := play_invariant (fun es t => Shared.Paid es t) Shared.paid_start
    (fun es t e u ht hstep => ht.step hstep) es h
  refine ⟨fun i => ⟨(hpaid.calls i).once, ?_⟩, fun i c hcall hstreaming => ?_, ?_⟩
  · cases hcall : t.calls i with
    | none =>
        rw [((hpaid.calls i).fresh hcall).2.2.2]
        exact Nat.zero_le _
    | some c =>
        have hseals := (hpaid.calls i).seals c hcall
        omega
  · have hsteps := (hpaid.calls i).steps c hcall hstreaming
    omega
  · have hdue := hpaid.due
    have hforgets := hpaid.forgets_le
    unfold Shared.due at hdue
    omega

/-- A request that is refused, begins again and is refused again. -/
def effortSample : List Event :=
  [.call 0 (.sample false) true, .enter 0 (.ok (.sample 1)), .count 0, .send 0,
    .reply 0 .unknownSession, .forget 0, .enter 0 (.ok (.sample 2)), .count 0, .send 0,
    .reply 0 .unknownSession, .decode 0]

/-- It takes all the steps and envelopes that it may. -/
theorem client_effort_bounded_sample : ∃ es t,
    play (Shared.step .sample loadsSample) .start es = some t ∧
    t.seals 0 = 2 ∧ t.sessions.length = 2 ∧ times Event.caller es 0 = 11 ∧
    (∀ i, t.seals i ≤ 1 + times Event.retries es i) := by
  have hplay : ((play (Shared.step .sample loadsSample) .start effortSample).any fun t => decide
      (t.seals 0 = 2 ∧ t.sessions.length = 2 ∧ times Event.caller effortSample 0 = 11)) = true := by
    decide +kernel
  rcases (Option.any_eq_true _ _).mp hplay with ⟨t, ht, hend⟩
  rcases of_decide_eq_true hend with ⟨hseals, hmade, hsteps⟩
  have hbounded := client_effort_bounded .sample loadsSample effortSample t ht
  exact ⟨effortSample, t, ht, hseals, hmade, hsteps, fun i => (hbounded.1 i).2⟩

end Client

end SecureLlm
