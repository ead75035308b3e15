import SecureLlm.Models.Steps

/-!
# One Call at a Time

The backend of a slot is not thread-safe. It is called by the slot's worker
only, which waits for one call before it makes the next; but a worker that is
cancelled does not wait any longer for a call it has handed to a thread, and the
thread runs on. So what a slot's worker is at says which calls of its backend may
be under way: its own one while it waits for it, and after a cancellation none
but the one that was running then. A worker that has been cancelled makes no
other call, and a slot is closed when its worker has ended.

## Main definitions

* `ModelManager.SingleLlama`: One call of a backend at a time, and none that
  begins after the backend was closed.
* `Worker.Uses`: The calls that may be under way.
* `ModelManager.Tended`: The invariant.

## Theorems

* `ModelManager.Tended.worker`: What a step of a worker has to keep.
* `ModelManager.Tended.still`, `ModelManager.Tended.requeue`: Steps that touch no
  call and no worker.
* `ModelManager.Tended.step`: Each step keeps the invariant.
* `single_llama`: A backend has one call at a time, in every state reached.
-/

namespace SecureLlm

open Library

namespace Models

/-- A call that a thread may begin or has begun. -/
def CallState.underWay : CallState → Bool
  | .queued => true
  | .running => true
  | _ => false

/-- The calls of a slot's backend that may be under way while the worker is at
    this place. -/
def Worker.Uses : Worker → ℕ → CallState → Prop
  | .calling _ own, c, _ => c = own
  | .pulling _ own, c, _ => c = own
  | .finishing _ true, _, state => state = .running
  | .ended _, _, state => state = .running
  | _, _, _ => False

namespace ModelManager

variable {cfg : Config} {m u : ModelManager}

/-- A backend has at most one call in progress, and no call of it has begun after
    it was closed. -/
structure SingleLlama (m : ModelManager) : Prop where
  alone : ∀ (c d b : ℕ), m.calls[c]? = some ⟨b, .running⟩ → m.calls[d]? = some ⟨b, .running⟩ →
    c = d
  notAfterClose : m.history.Pairwise fun later earlier =>
    ∀ b, later = .began b → earlier ≠ .closed b

/-- The calls under way are as the workers of their slots allow, and a slot is
    closed, and known to be, only when its worker has ended. -/
structure Tended (m : ModelManager) : Prop extends SingleLlama m where
  slotted : ∀ (c b : ℕ) (state : CallState), m.calls[c]? = some ⟨b, state⟩ → b < m.slots.length
  used : ∀ (b : ℕ) (s : Loaded) (c : ℕ) (state : CallState), m.slots[b]? = some s →
    m.calls[c]? = some ⟨b, state⟩ → state.underWay = true → s.worker.Uses c state
  ended : ∀ (b : ℕ) (s : Loaded), m.slots[b]? = some s → s.closed = true → s.worker.isEnded = true
  noted : ∀ b, .closed b ∈ m.history → ∃ s : Loaded, m.slots[b]? = some s ∧ s.closed = true

theorem tended_start : Tended start where
  alone _ _ _ h := absurd h nofun
  notAfterClose := List.Pairwise.nil
  slotted _ _ _ h := absurd h nofun
  used _ _ _ _ h := absurd h nofun
  ended _ _ h := absurd h nofun
  noted _ h := absurd h List.not_mem_nil

/-- **The worker's part.** A step that changes one slot and calls of its backend
    has to keep to what the worker allows afterwards. -/
theorem Tended.worker (h : Tended m) {b : ℕ} {s : Loaded} (hs : m.slots[b]? = some s)
    (f : Loaded → Loaded) (hslots : u.slots = (m.change b f).slots)
    (hclosed : (f s).closed = s.closed) (hended : s.closed = true → (f s).worker.isEnded = true)
    (hother : ∀ (c b' : ℕ) (state : CallState), b' ≠ b → u.calls[c]? = some ⟨b', state⟩ →
      b' < m.slots.length ∧ (state.underWay = true → m.calls[c]? = some ⟨b', state⟩))
    (hused : ∀ (c : ℕ) (state : CallState), u.calls[c]? = some ⟨b, state⟩ → state.underWay = true →
      (f s).worker.Uses c state)
    (halone : ∀ (c d : ℕ), u.calls[c]? = some ⟨b, .running⟩ → u.calls[d]? = some ⟨b, .running⟩ →
      c = d)
    (hhistory : u.history = m.history ∨ u.history = .began b :: m.history ∧ s.closed = false) :
    Tended u := by
  have hlt : b < m.slots.length := (List.getElem?_eq_some_iff.mp hs).1
  have hlength : u.slots.length = m.slots.length := by
    rw [hslots, ModelManager.change, List.length_modify]
  have hown : u.slots[b]? = some (f s) := by
    rw [hslots, slots_change, if_pos rfl, hs, Option.map_some]
  have hslot : ∀ b', b' ≠ b → u.slots[b']? = m.slots[b']? := fun b' hb' => by
    rw [hslots, slots_change, if_neg (Ne.symm hb')]
  have honly : ∀ s', u.slots[b]? = some s' → s' = f s := fun s' hs' =>
    Option.some.inj (hs'.symm.trans hown)
  have hmem : ∀ b', .closed b' ∈ u.history → .closed b' ∈ m.history := by
    intro b' hb'
    rcases hhistory with hsame | ⟨hbegan, _⟩
    · rwa [hsame] at hb'
    · rw [hbegan] at hb'
      exact (List.mem_cons.mp hb').resolve_left (by simp)
  refine ⟨⟨fun c d b' hc hd => ?_, ?_⟩, fun c b' state hc => ?_,
    fun b' s' c state hs' hc hunder => ?_, fun b' s' hs' hc => ?_, fun b' hb' => ?_⟩
  · by_cases hb : b' = b
    · rw [hb] at hc hd
      exact halone c d hc hd
    · exact h.alone c d b' ((hother c b' _ hb hc).2 rfl) ((hother d b' _ hb hd).2 rfl)
  · rcases hhistory with hsame | ⟨hbegan, hopen⟩
    · rw [hsame]
      exact h.notAfterClose
    · rw [hbegan]
      refine List.Pairwise.cons (fun n hn b' hb' hc => ?_) h.notAfterClose
      -- The backend that is called has not been closed.
      rw [hc] at hn
      rcases h.noted b' hn with ⟨s', hs', hclosed'⟩
      rw [← Note.began.inj hb', hs] at hs'
      rw [← Option.some.inj hs', hopen] at hclosed'
      cases hclosed'
  · rw [hlength]
    by_cases hb : b' = b
    · rw [hb]
      exact hlt
    · exact (hother c b' state hb hc).1
  · by_cases hb : b' = b
    · rw [hb] at hs' hc
      rw [honly s' hs']
      exact hused c state hc hunder
    · rw [hslot b' hb] at hs'
      exact h.used b' s' c state hs' ((hother c b' state hb hc).2 hunder) hunder
  · by_cases hb : b' = b
    · rw [hb] at hs'
      rw [honly s' hs'] at hc ⊢
      exact hended (hclosed.symm.trans hc)
    · rw [hslot b' hb] at hs'
      exact h.ended b' s' hs' hc
  · rcases h.noted b' (hmem b' hb') with ⟨s', hs', hc⟩
    by_cases hb : b' = b
    · rw [hb, hs] at hs'
      rw [← Option.some.inj hs'] at hc
      exact ⟨f s, by rw [hb]; exact hown, hclosed.trans hc⟩
    · exact ⟨s', (hslot b' hb).trans hs', hc⟩

/-! ## Steps that touch no call -/

/-- What tasks leave alone keeps the invariant. -/
theorem Tended.still (h : Tended m) (hstill : Still m u) : Tended u where
  alone c d b hc hd := by
    rw [hstill.calls] at hc hd
    exact h.alone c d b hc hd
  notAfterClose := by
    rw [hstill.history]
    exact h.notAfterClose
  slotted c b state hc := by
    rw [hstill.calls] at hc
    exact Nat.lt_of_lt_of_le (h.slotted c b state hc) hstill.length_le
  used b s' c state hs' hc hunder := by
    rw [hstill.calls] at hc
    rcases hstill.old hs' (h.slotted c b state hc) with ⟨s, hs, hsame⟩
    rw [hsame.2.1]
    exact h.used b s c state hs hc hunder
  ended b s' hs' hclosed := by
    rcases hstill.added b s' hs' with hlt | hfresh
    · rcases hstill.old hs' hlt with ⟨s, hs, hsame⟩
      rw [hsame.2.1]
      exact h.ended b s hs (hsame.2.2.symm.trans hclosed)
    · rw [hfresh.2.2] at hclosed
      exact absurd hclosed nofun
  noted b hb := by
    rw [hstill.history] at hb
    rcases h.noted b hb with ⟨s, hs, hc⟩
    rcases hstill.kept b s hs with ⟨s', hs', hsame⟩
    exact ⟨s', hs', hsame.2.2.trans hc⟩

/-- Queues and jobs do not matter. -/
theorem Tended.requeue (h : Tended m) (b : ℕ) (f : Loaded → Loaded)
    (hf : ∀ s, (f s).worker = s.worker ∧ (f s).closed = s.closed)
    (hslots : u.slots = (m.change b f).slots) (hcalls : u.calls = m.calls)
    (hhistory : u.history = m.history) : Tended u := by
  have hslot : ∀ (i : ℕ) (s' : Loaded), u.slots[i]? = some s' →
      ∃ s : Loaded, m.slots[i]? = some s ∧ s'.worker = s.worker ∧ s'.closed = s.closed := by
    intro i s' hs'
    rw [hslots, slots_change] at hs'
    by_cases hbi : b = i
    · rw [if_pos hbi] at hs'
      rcases Option.map_eq_some_iff.mp hs' with ⟨s, hs, rfl⟩
      exact ⟨s, hs, (hf s).1, (hf s).2⟩
    · rw [if_neg hbi] at hs'
      exact ⟨s', hs', rfl, rfl⟩
  refine ⟨⟨fun c d i hc hd => ?_, ?_⟩, fun c i state hc => ?_, fun i s' c state hs' hc hunder => ?_,
    fun i s' hs' hclosed => ?_, fun i hi => ?_⟩
  · rw [hcalls] at hc hd
    exact h.alone c d i hc hd
  · rw [hhistory]
    exact h.notAfterClose
  · rw [hcalls] at hc
    rw [hslots, ModelManager.change, List.length_modify]
    exact h.slotted c i state hc
  · rw [hcalls] at hc
    rcases hslot i s' hs' with ⟨s, hs, hworker, _⟩
    rw [hworker]
    exact h.used i s c state hs hc hunder
  · rcases hslot i s' hs' with ⟨s, hs, hworker, hsame⟩
    rw [hworker]
    exact h.ended i s hs (hsame.symm.trans hclosed)
  · rw [hhistory] at hi
    rcases h.noted i hi with ⟨s, hs, hc⟩
    rw [hslots, slots_change, hs]
    by_cases hbi : b = i
    · rw [if_pos hbi]
      exact ⟨f s, rfl, (hf s).2.trans hc⟩
    · rw [if_neg hbi]
      exact ⟨s, rfl, hc⟩

theorem Tended.submit (h : Tended m) (b : ℕ) (r : Request) : Tended (m.submit cfg b r) := by
  unfold ModelManager.submit
  split
  · split
    · exact h
    · exact h.requeue b (fun s => { s with queue := s.queue ++ [.item m.jobs.length] })
        (fun _ => ⟨rfl, rfl⟩) rfl rfl rfl
  · exact h

theorem Tended.settles (h : Tended m) (hu : Settles cfg m u) : Tended u := by
  cases hu with
  | still hstill => exact h.still hstill
  | fresh b r hstill _ => exact (h.still hstill).submit b r

/-! ## Steps of workers and threads -/

/-- In this list of calls those of other backends are as they were, if they are
    under way, and none of this one's is. -/
structure Rests (calls : List Call) (m : ModelManager) (b : ℕ) : Prop where
  others : ∀ (c b' : ℕ) (state : CallState), b' ≠ b → calls[c]? = some ⟨b', state⟩ →
    b' < m.slots.length ∧ (state.underWay = true → m.calls[c]? = some ⟨b', state⟩)
  none : ∀ (c : ℕ) (state : CallState), calls[c]? = some ⟨b, state⟩ → state.underWay = false

/-- A worker that uses no call leaves none under way. -/
theorem Tended.rests (h : Tended m) {b : ℕ} {s : Loaded} (hs : m.slots[b]? = some s)
    (hnone : ∀ c state, m.calls[c]? = some ⟨b, state⟩ → s.worker.Uses c state →
      state.underWay = false) : Rests m.calls m b where
  others c b' state _ hc := ⟨h.slotted c b' state hc, fun _ => hc⟩
  none c state hc := by
    by_contra hunder
    rw [Bool.not_eq_false] at hunder
    rw [hnone c state hc (h.used b s c state hs hc hunder)] at hunder
    exact absurd hunder nofun

/-- A worker whose call is not under way leaves none under way. -/
theorem Tended.rests_of_call (h : Tended m) {b own : ℕ} {s : Loaded} (hs : m.slots[b]? = some s)
    (hown : ∀ c state, s.worker.Uses c state → c = own) {b' : ℕ} {state' : CallState}
    (hcall : m.calls[own]? = some ⟨b', state'⟩) (hstate : state'.underWay = false) :
    Rests m.calls m b := by
  refine h.rests hs fun c state hc huses => ?_
  rw [hown c state huses, hcall] at hc
  rw [← (Call.mk.inj (Option.some.inj hc)).2]
  exact hstate

/-- Nor does one whose only call comes to an end. -/
theorem Tended.rests_changeCall (h : Tended m) {b own : ℕ} {s : Loaded}
    (hs : m.slots[b]? = some s) (hown : ∀ c state, s.worker.Uses c state → c = own)
    {state' : CallState} (hstate : state'.underWay = false) :
    Rests (m.changeCall own state').calls m b where
  others c b' state _ hc := by
    rw [calls_changeCall] at hc
    by_cases hcown : own = c
    · rw [if_pos hcown] at hc
      rcases Option.map_eq_some_iff.mp hc with ⟨call, hcall, heq⟩
      rcases Call.mk.inj heq with ⟨rfl, rfl⟩
      exact ⟨h.slotted c _ call.state hcall, fun hunder => absurd (hstate.symm.trans hunder) nofun⟩
    · rw [if_neg hcown] at hc
      exact ⟨h.slotted c b' state hc, fun _ => hc⟩
  none c state hc := by
    rw [calls_changeCall] at hc
    by_cases hcown : own = c
    · rw [if_pos hcown] at hc
      rcases Option.map_eq_some_iff.mp hc with ⟨call, _, heq⟩
      rw [← (Call.mk.inj heq).2]
      exact hstate
    · rw [if_neg hcown] at hc
      by_contra hunder
      rw [Bool.not_eq_false] at hunder
      exact hcown (hown c state (h.used b s c state hs hc hunder)).symm

/-- A slot whose worker has not ended is open. -/
theorem Tended.open_of_live (h : Tended m) {b : ℕ} {s : Loaded} (hs : m.slots[b]? = some s)
    (hlive : s.worker.isEnded = false) : s.closed = false := by
  by_contra hclosed
  rw [Bool.not_eq_false] at hclosed
  rw [h.ended b s hs hclosed] at hlive
  exact absurd hlive nofun

/-- A worker goes on and leaves no call under way. -/
theorem Tended.rest (h : Tended m) {b : ℕ} {s : Loaded} (hs : m.slots[b]? = some s)
    (hlive : s.worker.isEnded = false) (f : Loaded → Loaded)
    (hslots : u.slots = (m.change b f).slots) (hclosed : (f s).closed = s.closed)
    (hrests : Rests u.calls m b) (hhistory : u.history = m.history) : Tended u := by
  refine h.worker hs f hslots hclosed (fun hc => ?_) hrests.others (fun c state hc hunder => ?_)
    (fun c d hc _ => ?_) (Or.inl hhistory)
  · rw [h.open_of_live hs hlive] at hc
    exact absurd hc nofun
  · rw [hrests.none c state hc] at hunder
    exact absurd hunder nofun
  · exact absurd (hrests.none c .running hc) nofun

/-- A worker goes on with a new call. -/
theorem Tended.call (h : Tended m) {b : ℕ} {s : Loaded} (hs : m.slots[b]? = some s)
    (hlive : s.worker.isEnded = false) (f : Loaded → Loaded)
    (hslots : u.slots = (m.change b f).slots) (hclosed : (f s).closed = s.closed)
    {calls : List Call} (hrests : Rests calls m b) (state : CallState)
    (hcalls : u.calls = calls ++ [⟨b, state⟩])
    (huses : ∀ state, (f s).worker.Uses calls.length state)
    (hhistory : u.history = m.history ∨ u.history = .began b :: m.history) : Tended u := by
  have hopen : s.closed = false := h.open_of_live hs hlive
  have hnew : ∀ (c : ℕ) (state' : CallState), u.calls[c]? = some ⟨b, state'⟩ →
      state'.underWay = true → c = calls.length := by
    intro c state' hc hunder
    rw [hcalls] at hc
    rcases getElem?_concat_cases hc with hold | ⟨hc, _⟩
    · rw [hrests.none c state' hold] at hunder
      exact absurd hunder nofun
    · exact hc
  refine h.worker hs f hslots hclosed (fun hc => absurd (hopen.symm.trans hc) nofun)
    (fun c b' state' hb hc => ?_) (fun c state' hc hunder => ?_) (fun c d hc hd => ?_) ?_
  · rw [hcalls] at hc
    rcases getElem?_concat_cases hc with hold | ⟨_, heq⟩
    · exact hrests.others c b' state' hb hold
    · exact absurd (Call.mk.inj heq).1 hb
  · rw [hnew c state' hc hunder]
    exact huses state'
  · exact (hnew c .running hc rfl).trans (hnew d .running hd rfl).symm
  · exact hhistory.imp id fun hbegan => ⟨hbegan, hopen⟩

/-- A worker is cancelled and leaves a call that is running to itself. -/
theorem Tended.abandon (h : Tended m) {b : ℕ} {s : Loaded} (hs : m.slots[b]? = some s)
    (hlive : s.worker.isEnded = false) (f : Loaded → Loaded)
    (hslots : u.slots = (m.change b f).slots) (hclosed : (f s).closed = s.closed)
    (hcalls : u.calls = m.calls) (hhistory : u.history = m.history)
    (hused : ∀ c state, m.calls[c]? = some ⟨b, state⟩ → state.underWay = true →
      s.worker.Uses c state → (f s).worker.Uses c state) : Tended u := by
  refine h.worker hs f hslots hclosed (fun hc => ?_) (fun c b' state _ hc => ?_)
    (fun c state hc hunder => ?_) (fun c d hc hd => ?_) (Or.inl hhistory)
  · rw [h.open_of_live hs hlive] at hc
    exact absurd hc nofun
  · rw [hcalls] at hc
    exact ⟨h.slotted c b' state hc, fun _ => hc⟩
  · rw [hcalls] at hc
    exact hused c state hc hunder (h.used b s c state hs hc hunder)
  · rw [hcalls] at hc hd
    exact h.alone c d b hc hd

/-- A worker that leaves no call under way goes on with a stream. -/
theorem Tended.pump (h : Tended m) {b : ℕ} {s : Loaded} (hs : m.slots[b]? = some s)
    (hlive : s.worker.isEnded = false) (n : ModelManager) (hslots : n.slots = m.slots)
    (hrests : Rests n.calls m b) (hhistory : n.history = m.history) (j : ℕ) (cancelled : Bool) :
    Tended (n.pump b j cancelled) := by
  unfold ModelManager.pump
  split
  · refine h.rest hs hlive (fun s => { s with worker := .finishing j false }) ?_ rfl hrests hhistory
    simp only [move, ModelManager.change, hslots]
  · refine h.call hs hlive (fun s => { s with worker := .pulling j n.calls.length }) ?_ rfl hrests
      .queued rfl (fun _ => rfl) (Or.inl hhistory)
    simp only [move, ModelManager.change, addCall, hslots]

theorem Tended.workerMove {b : ℕ} {s : Loaded} {e : WorkerEvent} (h : Tended m)
    (hs : m.slots[b]? = some s) (hmove : m.WorkerMove b s e u) : Tended u := by
  cases hmove with
  | leave rest hworker _ =>
      exact h.rest hs (by rw [hworker]; rfl) _ rfl rfl
        (h.rests hs fun c state _ huses => by rw [hworker] at huses; exact huses.elim) rfl
  | begin j rest hworker _ =>
      exact h.call hs (by rw [hworker]; rfl) _ rfl rfl
        (h.rests hs fun c state _ huses => by rw [hworker] at huses; exact huses.elim)
        .running rfl (fun _ => rfl) (Or.inr rfl)
  | answer ok j c job hworker _ =>
      have hlive : s.worker.isEnded = false := by rw [hworker]; rfl
      have hrests : Rests (m.changeCall c (.ended .done)).calls m b :=
        h.rests_changeCall hs (fun c' state huses => by rw [hworker] at huses; exact huses) rfl
      unfold ModelManager.answer
      split
      · split
        · exact h.pump hs hlive (((m.changeCall c (.ended .done)).setBusy false).changeJob j _) rfl
            hrests rfl j job.cancelled
        · rw [move, ModelManager.resetIdle, change_change]
          exact h.rest hs hlive _ rfl rfl hrests rfl
      · exact h.rest hs hlive _ rfl rfl hrests rfl
  | chunk j c slot hworker hcall =>
      exact h.rest hs (by rw [hworker]; rfl) _ rfl rfl
        (h.rests_of_call hs (fun c' state huses => by rw [hworker] at huses; exact huses) hcall rfl)
        rfl
  | last j c slot result hworker hcall =>
      exact h.rest hs (by rw [hworker]; rfl) _ rfl rfl
        (h.rests_of_call hs (fun c' state huses => by rw [hworker] at huses; exact huses) hcall rfl)
        rfl
  | put j job hworker _ =>
      exact h.pump hs (by rw [hworker]; rfl) (m.changeJob j _) rfl
        (h.rests hs fun c state _ huses => by rw [hworker] at huses; exact huses.elim) rfl j
        job.cancelled
  | finish j cancelled hworker =>
      have hlive : s.worker.isEnded = false := by rw [hworker]; rfl
      rw [move, ModelManager.resetIdle, change_change]
      cases cancelled with
      | false =>
          exact h.rest hs hlive _ rfl rfl
            (h.rests hs fun c state _ huses => by rw [hworker] at huses; exact huses.elim) rfl
      | true =>
          exact h.abandon hs hlive _ rfl rfl rfl rfl
            fun c state _ _ huses => by rw [hworker] at huses; exact huses
  | cease hworker =>
      have hlive : s.worker.isEnded = false := by
        rcases hworker with hworker | ⟨j, cancelled, hworker⟩ <;> rw [hworker] <;> rfl
      rw [move, change_change]
      refine h.abandon hs hlive _ rfl rfl rfl rfl fun c state _ _ huses => ?_
      rcases hworker with hworker | ⟨j, cancelled, hworker⟩
      · rw [hworker] at huses
        exact huses.elim
      · rw [hworker] at huses
        cases cancelled with
        | false => exact huses.elim
        | true => exact huses
  | unput j hworker =>
      rw [move, change_change]
      exact h.rest hs (by rw [hworker]; rfl) _ rfl rfl
        (h.rests hs fun c state _ huses => by rw [hworker] at huses; exact huses.elim) rfl
  | drop j c slot hworker _ =>
      have hrests : Rests (m.changeCall c .dropped).calls m b :=
        h.rests_changeCall hs (fun c' state huses => by rw [hworker] at huses; exact huses) rfl
      refine h.rest hs (by rw [hworker]; rfl)
        ((fun s => { s with worker := .finishing j true }) ∘
          fun s => { s with cancelRequested := false }) ?_ rfl hrests rfl
      rw [← change_change]
      rfl
  | abandon j c hworker hcall =>
      rw [move, change_change]
      refine h.abandon hs (by rw [hworker]; rfl) _ rfl rfl rfl rfl
        fun c' state hc hunder huses => ?_
      rw [hworker] at huses
      have heq : c' = c := huses
      rw [heq] at hc
      -- The thread has begun the call, so it was not dropped.
      cases state with
      | queued => exact absurd hc (hcall b)
      | running => rfl
      | ended result => exact absurd hunder nofun
      | dropped => exact absurd hunder nofun

theorem Tended.threadMove {c : ℕ} {e : ThreadEvent} (h : Tended m) (hmove : ThreadMove m c e u) :
    Tended u := by
  cases hmove with
  | start b hcall =>
      have hlt : b < m.slots.length := h.slotted c b .queued hcall
      have hs : m.slots[b]? = some m.slots[b] := List.getElem?_eq_getElem hlt
      have huses : m.slots[b].worker.Uses c .queued := h.used b _ c .queued hs hcall rfl
      -- A worker with a queued call is at that call and has not ended.
      have honly : ∀ c' state, m.slots[b].worker.Uses c' state ↔ c' = c := by
        intro c' state
        cases hworker : m.slots[b].worker with
        | calling j own =>
            rw [hworker] at huses
            have hown : c = own := huses
            rw [hown]
            exact Iff.rfl
        | pulling j own =>
            rw [hworker] at huses
            have hown : c = own := huses
            rw [hown]
            exact Iff.rfl
        | waiting => rw [hworker] at huses; exact huses.elim
        | putting j => rw [hworker] at huses; exact huses.elim
        | finishing j cancelled =>
            rw [hworker] at huses
            cases cancelled with
            | false => exact huses.elim
            | true => cases huses
        | ended cancelled => rw [hworker] at huses; cases huses
      have hlive : m.slots[b].worker.isEnded = false := by
        cases hworker : m.slots[b].worker with
        | ended cancelled => rw [hworker] at huses; cases huses
        | _ => rfl
      have hopen := h.open_of_live hs hlive
      have hown : ∀ (c' : ℕ) (state : CallState),
          (m.changeCall c .running).calls[c']? = some ⟨b, state⟩ → state.underWay = true →
            c' = c := by
        intro c' state hc hunder
        rcases calls_changeCall_cases m hcall hc with ⟨heq, _, _⟩ | ⟨_, hold⟩
        · exact heq
        · exact (honly c' state).mp (h.used b _ c' state hs hold hunder)
      refine h.worker hs id ?_ rfl (fun hc => absurd (hopen.symm.trans hc) Bool.false_ne_true)
        (fun c' b' state hb hc => ?_) (fun c' state hc hunder => ?_) (fun c' d hc hd => ?_)
        (Or.inr ⟨rfl, hopen⟩)
      · simp [ModelManager.change, ModelManager.changeCall, ModelManager.note]
      · rcases calls_changeCall_cases m hcall hc with ⟨_, heq, _⟩ | ⟨_, hold⟩
        · exact absurd heq hb
        · exact ⟨h.slotted c' b' state hold, fun _ => hold⟩
      · exact (honly c' state).mpr (hown c' state hc hunder)
      · exact (hown c' .running hc rfl).trans (hown d .running hd rfl).symm
  | stop b result hcall =>
      have hlt : b < m.slots.length := h.slotted c b .running hcall
      have hs : m.slots[b]? = some m.slots[b] := List.getElem?_eq_getElem hlt
      have hold : ∀ (c' b' : ℕ) (state : CallState),
          (m.changeCall c (.ended result)).calls[c']? = some ⟨b', state⟩ →
            state.underWay = true → m.calls[c']? = some ⟨b', state⟩ := by
        intro c' b' state hc hunder
        rcases calls_changeCall_cases m hcall hc with ⟨_, _, heq⟩ | ⟨_, hold⟩
        · rw [heq] at hunder
          cases hunder
        · exact hold
      refine h.worker hs id ?_ rfl (h.ended b _ hs)
        (fun c' b' state _ hc => ⟨?_, hold c' b' state hc⟩)
        (fun c' state hc hunder => h.used b _ c' state hs (hold c' b state hc hunder) hunder)
        (fun c' d hc hd => h.alone c' d b (hold c' b _ hc rfl) (hold d b _ hd rfl)) (Or.inl rfl)
      · simp [ModelManager.change, ModelManager.changeCall]
      · rcases calls_changeCall_cases m hcall hc with ⟨_, heq, _⟩ | ⟨_, hsame⟩
        · rw [heq]
          exact hlt
        · exact h.slotted c' b' state hsame

/-- The end of an unload closes a slot whose worker has ended. -/
theorem Tended.close (h : Tended m) (v : Unload) {s : Loaded} (hs : m.slots[v.slot]? = some s)
    (hended : s.worker.isEnded = true) : Tended (m.close v) := by
  have hslot : ∀ b, (m.close v).slots[b]? =
      if v.slot = b then m.slots[b]?.map (fun s => { s with closed := true }) else m.slots[b]? :=
    fun b => slots_change m v.slot b _
  refine ⟨⟨h.alone, ?_⟩, fun c b state hc => ?_, fun b s' c state hs' hc hunder => ?_,
    fun b s' hs' hc => ?_, fun b hb => ?_⟩
  · exact List.Pairwise.cons (fun _ _ _ hbegan => absurd hbegan nofun) h.notAfterClose
  · have hlength : (m.close v).slots.length = m.slots.length := List.length_modify _ _ _
    rw [hlength]
    exact h.slotted c b state hc
  · rw [hslot] at hs'
    by_cases hb : v.slot = b
    · rw [if_pos hb] at hs'
      rcases Option.map_eq_some_iff.mp hs' with ⟨s₀, hs₀, rfl⟩
      exact h.used b s₀ c state hs₀ hc hunder
    · rw [if_neg hb] at hs'
      exact h.used b s' c state hs' hc hunder
  · rw [hslot] at hs'
    by_cases hb : v.slot = b
    · rw [if_pos hb, ← hb, hs] at hs'
      rw [← Option.some.inj hs']
      exact hended
    · rw [if_neg hb] at hs'
      exact h.ended b s' hs' hc
  · by_cases hvb : v.slot = b
    · refine ⟨{ s with closed := true }, ?_, rfl⟩
      rw [hslot, if_pos hvb, ← hvb, hs, Option.map_some]
    · have hold : .closed b ∈ m.history := by
        rcases List.mem_cons.mp hb with heq | hmem
        · exact absurd (Note.closed.inj heq).symm hvb
        · exact hmem
      rcases h.noted b hold with ⟨s', hs', hc⟩
      exact ⟨s', by rw [hslot, if_neg hvb]; exact hs', hc⟩

theorem Tended.taskMove {k : ℕ} {e : TaskEvent} (h : Tended m) (hmove : TaskMove cfg m k e u) :
    Tended u := by
  cases acts_of_taskMove hmove with
  | submit b r hstill => exact (h.still hstill).submit b r
  | settles hstill hu => exact (h.still hstill).settles hu
  | put k v w =>
      exact h.requeue v.slot (fun s => { s with queue := s.queue ++ [.stop] })
        (fun _ => ⟨rfl, rfl⟩) rfl rfl rfl
  | close v s cancelled hslot hworker hu =>
      exact (h.close v hslot (by rw [hworker]; rfl)).settles hu

/-- **Each step keeps the invariant.** -/
theorem Tended.step {e : Event} (h : Tended m) (hstep : m.step cfg e = some u) : Tended u := by
  cases move_of_step hstep with
  | worker b s e hs hmove => exact h.workerMove hs hmove
  | thread c e hmove => exact h.threadMove hmove
  | client j e hmove =>
      cases hmove with
      | change f _ =>
          exact h.requeue 0 id (fun _ => ⟨rfl, rfl⟩) (by simp [ModelManager.change, changeJob])
            rfl rfl
  | task k e hmove => exact h.taskMove hmove

end ModelManager

open Transition ModelManager

/-- **The single-Llama invariant.** In every state the manager reaches, whatever
    its tasks, workers, threads and callers do, a backend has at most one call in
    progress, those that run on in a thread included, and no call of it has begun
    after it was closed. -/
theorem single_llama (cfg : Config) (m : ModelManager) (h : Run (step cfg) anyStep start m) :
    SingleLlama m :=
  (h.invariant Tended tended_start fun _ _ _ ht _ hstep => ht.step hstep).toSingleLlama

/-- A stream is unloaded while its call runs in a thread. The wait times out, the
    worker is cancelled, and the slot is closed with the call still running; the
    model is loaded again and a job of the new slot is executed meanwhile. -/
theorem single_llama_sample :
    ∃ m, Run (step ⟨1, 2048, 8⟩) anyStep start m ∧ SingleLlama m ∧
      m.calls.filter (fun call => call.state == .running) = [⟨0, .running⟩, ⟨1, .running⟩] := by
  have hplay : ((play (step ⟨1, 2048, 8⟩) start
      [.task 0 (.request (.sample none (some (.chat, true)))), .task 0 (.acquire true),
        .worker 0 .take, .worker 0 (.answer true), .thread 1 .start,
        .task 1 (.forceUnload "default" "llama"), .task 1 .put, .task 1 .timeout,
        .worker 0 .interrupt, .worker 0 .put, .task 1 (.close true),
        .task 2 (.request (.sample none (some (.chat, false)))), .task 2 (.acquire true),
        .worker 1 .take]).any (fun m => decide (m.calls.filter
          (fun call => call.state == .running) = [⟨0, .running⟩, ⟨1, .running⟩]))) = true := by
    decide +kernel
  rcases (Option.any_eq_true _ _).mp hplay with ⟨m, hm, hcalls⟩
  have hrun := run_of_play _ hm
  exact ⟨m, hrun, single_llama ⟨1, 2048, 8⟩ m hrun, of_decide_eq_true hcalls⟩

end Models

end SecureLlm
