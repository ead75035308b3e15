import SecureLlm.Models.Offload

/-!
# Workers and Their Calls

A worker that waits for a call waits for one of its own backend, and one that has
not been dropped, so the wait has an end. A call the worker makes itself blocks the
loop until it returns; nothing else can begin one meanwhile, so the loop is blocked
exactly while there is one worker in such a call.

## Main definitions

* `Worker.call`: The call a worker waits for.
* `Worker.isCalling`: Is it in a call it makes itself?
* `Worker.Goes`: A worker nobody has ended.
* `ModelManager.Wired`: Workers and calls, and whether the loop is blocked.
* `ModelManager.CallsKept`, `ModelManager.Blocks`: What a step of a worker may do.

## Theorems

* `ModelManager.Wired.worker`: What a step of a worker has to keep.
* `ModelManager.pump_cases`, `ModelManager.answer_cases`: Where a worker goes.
* `ModelManager.Wired.step`: Each step keeps the invariant.
-/

namespace SecureLlm

open Library Transition

namespace Models

/-- The call a worker waits for. -/
def Worker.call : Worker → Option ℕ
  | .calling _ c => some c
  | .pulling _ c => some c
  | _ => none

/-- Is the worker in a call it makes itself? -/
def Worker.isCalling : Worker → Bool
  | .calling _ _ => true
  | _ => false

theorem Worker.serving_of_not_calling {w : Worker} (hw : w.isCalling = false) :
    w.serving = none := by
  cases w with
  | calling i c => exact absurd hw nofun
  | _ => rfl

/-- The worker has neither ended nor been told to while it was at a stream. -/
def Worker.Goes (w : Worker) : Prop := w.isEnded = false ∧ ∀ j, w ≠ .finishing j true

namespace ModelManager

variable {cfg : Config} {m u : ModelManager}

/-- A worker that waits for a call waits for one of its own backend that goes on. One
    worker at most is in a call it makes itself, and then the loop is blocked. -/
structure Wired (m : ModelManager) : Prop where
  called : ∀ (b : ℕ) (s : Loaded) (c : ℕ), m.slots[b]? = some s → s.worker.call = some c →
    ∃ state, m.calls[c]? = some ⟨b, state⟩ ∧ state ≠ .dropped
  one : ∀ (b b' : ℕ) (s s' : Loaded), m.slots[b]? = some s → m.slots[b']? = some s' →
    s.worker.isCalling = true → s'.worker.isCalling = true → b = b'
  busy : m.busy = true ↔ ∃ (b : ℕ) (s : Loaded), m.slots[b]? = some s ∧ s.worker.isCalling = true

theorem wired_start : Wired start where
  called _ _ _ hs := absurd hs (by simp [start])
  one _ _ _ _ hs := absurd hs (by simp [start])
  busy := by simp [start]

/-- The calls of other backends are as they were. -/
def CallsKept (b : ℕ) (m : ModelManager) (calls : List Call) : Prop :=
  ∀ (c b' : ℕ) (state : CallState), b' ≠ b → m.calls[c]? = some ⟨b', state⟩ →
    calls[c]? = some ⟨b', state⟩

theorem CallsKept.refl (b : ℕ) : CallsKept b m m.calls := fun _ _ _ _ => id

theorem CallsKept.append {b : ℕ} {calls : List Call} (h : CallsKept b m calls)
    (more : List Call) : CallsKept b m (calls ++ more) := by
  intro c b' state hb hc
  have hcall := h c b' state hb hc
  rw [List.getElem?_append_left (List.getElem?_eq_some_iff.mp hcall).1]
  exact hcall

theorem CallsKept.changeCall {b c : ℕ} {old : CallState} (hc : m.calls[c]? = some ⟨b, old⟩)
    (state : CallState) : CallsKept b m (m.changeCall c state).calls := by
  intro d b' state' hb hd
  rw [calls_changeCall]
  by_cases hcd : c = d
  · rw [← hcd, hc] at hd
    exact absurd (Call.mk.inj (Option.some.inj hd)).1.symm hb
  · rw [if_neg hcd]
    exact hd

/-- How a step of a worker changes whether the loop is blocked: not at all, as the
    worker is in no call of its own, or its call ends or begins. -/
inductive Blocks (m u : ModelManager) (w w' : Worker) : Prop where
  | same (hw : w.isCalling = false) (hw' : w'.isCalling = false) (hbusy : u.busy = m.busy)
  | ends (hw : w.isCalling = true) (hw' : w'.isCalling = false) (hbusy : u.busy = false)
  | begins (hfree : m.busy = false) (hw' : w'.isCalling = true) (hbusy : u.busy = true)

/-- **The worker's part.** What a step of a worker has to keep. -/
theorem Wired.worker (h : Wired m) {b : ℕ} {s : Loaded} (hs : m.slots[b]? = some s)
    (g : Loaded → Loaded) (hslots : u.slots = m.slots.modify b g) (hkept : CallsKept b m u.calls)
    (hown : ∀ c, (g s).worker.call = some c →
      ∃ state, u.calls[c]? = some ⟨b, state⟩ ∧ state ≠ .dropped)
    (hblocks : Blocks m u s.worker (g s).worker) : Wired u := by
  have hself : u.slots[b]? = some (g s) := by
    rw [hslots, List.getElem?_modify, hs]
    simp
  have hother : ∀ i, i ≠ b → u.slots[i]? = m.slots[i]? := fun i hi => by
    rw [hslots, List.getElem?_modify]
    simp [Ne.symm hi]
  -- Who is in a call of its own afterwards.
  have hcalling : ∀ i s', u.slots[i]? = some s' → s'.worker.isCalling = true →
      i = b ∧ (g s).worker.isCalling = true ∨
        i ≠ b ∧ m.slots[i]? = some s' ∧ s'.worker.isCalling = true := by
    intro i s' hs' hc
    by_cases hi : i = b
    · rw [hi, hself] at hs'
      rw [← Option.some.inj hs'] at hc
      exact Or.inl ⟨hi, hc⟩
    · rw [hother i hi] at hs'
      exact Or.inr ⟨hi, hs', hc⟩
  refine ⟨fun i s' c hs' hc => ?_, fun i i' s₁ s₂ hs₁ hs₂ hc₁ hc₂ => ?_, ?_⟩
  · by_cases hi : i = b
    · rw [hi, hself] at hs'
      rw [← Option.some.inj hs'] at hc
      rw [hi]
      exact hown c hc
    · rw [hother i hi] at hs'
      rcases h.called i s' c hs' hc with ⟨state, hcall, hstate⟩
      exact ⟨state, hkept c i state hi hcall, hstate⟩
  · rcases hcalling i s₁ hs₁ hc₁ with ⟨hi, hg⟩ | ⟨hi, hm₁, _⟩
    · rcases hcalling i' s₂ hs₂ hc₂ with ⟨hi', _⟩ | ⟨_, hm₂, _⟩
      · rw [hi, hi']
      · -- A call begins only while nobody else is in one.
        cases hblocks with
        | same _ hw' _ => rw [hw'] at hg; exact absurd hg nofun
        | ends _ hw' _ => rw [hw'] at hg; exact absurd hg nofun
        | begins hfree _ _ =>
            rw [h.busy.mpr ⟨i', s₂, hm₂, hc₂⟩] at hfree
            exact absurd hfree nofun
    · rcases hcalling i' s₂ hs₂ hc₂ with ⟨hi', hg⟩ | ⟨_, hm₂, _⟩
      · cases hblocks with
        | same _ hw' _ => rw [hw'] at hg; exact absurd hg nofun
        | ends _ hw' _ => rw [hw'] at hg; exact absurd hg nofun
        | begins hfree _ _ =>
            rw [h.busy.mpr ⟨i, s₁, hm₁, hc₁⟩] at hfree
            exact absurd hfree nofun
      · exact h.one i i' s₁ s₂ hm₁ hm₂ hc₁ hc₂
  · cases hblocks with
    | same hw hw' hbusy =>
        rw [hbusy, h.busy]
        constructor
        · rintro ⟨i, s', hs', hc⟩
          have hi : i ≠ b := by
            rintro rfl
            rw [hs] at hs'
            rw [← Option.some.inj hs', hw] at hc
            exact absurd hc nofun
          exact ⟨i, s', (hother i hi).trans hs', hc⟩
        · rintro ⟨i, s', hs', hc⟩
          rcases hcalling i s' hs' hc with ⟨_, hg⟩ | ⟨_, hm, _⟩
          · rw [hw'] at hg
            exact absurd hg nofun
          · exact ⟨i, s', hm, hc⟩
    | ends hw hw' hbusy =>
        rw [hbusy]
        refine iff_of_false Bool.false_ne_true ?_
        rintro ⟨i, s', hs', hc⟩
        rcases hcalling i s' hs' hc with ⟨_, hg⟩ | ⟨hi, hm, _⟩
        · rw [hw'] at hg
          exact absurd hg nofun
        · exact hi (h.one i b s' s hm hs hc hw)
    | begins _ hw' hbusy => exact iff_of_true hbusy ⟨b, g s, hself, hw'⟩

/-- Steps that leave workers and calls alone, or bring new workers that wait. -/
theorem Wired.of_workers (h : Wired m) (hcalls : u.calls = m.calls) (hbusy : u.busy = m.busy)
    (hslots : ∀ (b : ℕ) (s' : Loaded), u.slots[b]? = some s' →
      (∃ s : Loaded, m.slots[b]? = some s ∧ s'.worker = s.worker) ∨ s'.worker = .waiting)
    (hkept : ∀ (b : ℕ) (s : Loaded), m.slots[b]? = some s →
      ∃ s' : Loaded, u.slots[b]? = some s' ∧ s'.worker = s.worker) : Wired u where
  called b s' c hs' hc := by
    rcases hslots b s' hs' with ⟨s, hs, hworker⟩ | hwaiting
    · rw [hcalls]
      rw [hworker] at hc
      exact h.called b s c hs hc
    · rw [hwaiting] at hc
      exact absurd hc nofun
  one b b' s₁ s₂ hs₁ hs₂ hc₁ hc₂ := by
    rcases hslots b s₁ hs₁ with ⟨t₁, ht₁, hw₁⟩ | hwaiting
    · rcases hslots b' s₂ hs₂ with ⟨t₂, ht₂, hw₂⟩ | hwaiting
      · rw [hw₁] at hc₁
        rw [hw₂] at hc₂
        exact h.one b b' t₁ t₂ ht₁ ht₂ hc₁ hc₂
      · rw [hwaiting] at hc₂
        exact absurd hc₂ nofun
    · rw [hwaiting] at hc₁
      exact absurd hc₁ nofun
  busy := by
    rw [hbusy, h.busy]
    constructor
    · rintro ⟨b, s, hs, hc⟩
      rcases hkept b s hs with ⟨s', hs', hworker⟩
      exact ⟨b, s', hs', by rw [hworker]; exact hc⟩
    · rintro ⟨b, s', hs', hc⟩
      rcases hslots b s' hs' with ⟨s, hs, hworker⟩ | hwaiting
      · exact ⟨b, s, hs, by rw [← hworker]; exact hc⟩
      · rw [hwaiting] at hc
        exact absurd hc nofun

/-- Where the worker goes from the head of its loop over a generator. -/
theorem pump_cases (b j : ℕ) (cancelled : Bool) :
    ∃ w more, (m.pump b j cancelled).slots = m.slots.modify b (fun s => { s with worker := w }) ∧
      (m.pump b j cancelled).calls = m.calls ++ more ∧ (m.pump b j cancelled).busy = m.busy ∧
      w.isCalling = false ∧ w.Goes ∧
      ∀ c, w.call = some c → more = [⟨b, .queued⟩] ∧ c = m.calls.length := by
  unfold ModelManager.pump
  split
  · refine ⟨.finishing j false, [], rfl, (List.append_nil _).symm, rfl, rfl, ⟨rfl, ?_⟩, nofun⟩
    exact fun i hi => absurd (Worker.finishing.inj hi).2 Bool.false_ne_true
  · exact ⟨.pulling j m.calls.length, [⟨b, .queued⟩], rfl, rfl, rfl, rfl, ⟨rfl, fun _ => nofun⟩,
      fun c hc => ⟨rfl, (Option.some.inj hc).symm⟩⟩

/-- Where it goes from a call it made itself. -/
theorem answer_cases (b j : ℕ) (job : Job) (ok : Bool) :
    ∃ g more, (m.answer b j job ok).slots = m.slots.modify b g ∧
      (m.answer b j job ok).calls = m.calls ++ more ∧ (m.answer b j job ok).busy = m.busy ∧
      ∀ s, ((g s).queue = s.queue ∧ (g s).cancelRequested = s.cancelRequested ∧
        (g s).worker.isCalling = false ∧ (g s).worker.Goes) ∧
        ∀ c, (g s).worker.call = some c → more = [⟨b, .queued⟩] ∧ c = m.calls.length := by
  unfold ModelManager.answer
  split
  · split
    · rcases pump_cases (m := m.changeJob j fun job => { job with pending := false }) b j
        job.cancelled with ⟨w, more, hslots, hcalls, hbusy, hw, hgoes, hc⟩
      exact ⟨_, more, hslots, hcalls, hbusy, fun _ => ⟨⟨rfl, rfl, hw, hgoes⟩, hc⟩⟩
    · refine ⟨fun s => { s with timer := true, worker := .waiting }, [], ?_,
        (List.append_nil _).symm, rfl,
        fun _ => ⟨⟨rfl, rfl, rfl, rfl, fun _ => nofun⟩, nofun⟩⟩
      exact List.modify_modify_eq _ _ _ _
  · exact ⟨fun s => { s with worker := .waiting }, [], rfl, (List.append_nil _).symm, rfl,
      fun _ => ⟨⟨rfl, rfl, rfl, rfl, fun _ => nofun⟩, nofun⟩⟩

theorem Wired.workerStep (h : Wired m) {b : ℕ} {e : WorkerEvent}
    (hstep : m.step cfg (.worker b e) = some u) : Wired u := by
  have hon := hstep
  unfold ModelManager.step at hon
  split at hon
  · exact absurd hon nofun
  rename_i hfree
  rcases workerMove_of_step hon with ⟨s, hs, hmove⟩
  -- A worker that goes on to where it is in no call.
  have hrest : ∀ (g : Loaded → Loaded) (w : Worker), (g s).worker = w → w.call = none →
      w.isCalling = false → s.worker.isCalling = false → u.slots = m.slots.modify b g →
      CallsKept b m u.calls → u.busy = m.busy → Wired u := by
    intro g w hg hcall hw' hw hslots hkept hbusy
    refine h.worker hs g hslots hkept (fun c hc => ?_) (.same hw (by rw [hg, hw']) hbusy)
    rw [hg, hcall] at hc
    exact absurd hc nofun
  have htwice : ∀ f g : Loaded → Loaded,
      (m.slots.modify b f).modify b g = m.slots.modify b (g ∘ f) :=
    fun f g => List.modify_modify_eq _ _ _ _
  have hnew : ∀ (calls : List Call) (state : CallState),
      (calls ++ [⟨b, state⟩])[calls.length]? = some ⟨b, state⟩ :=
    fun _ _ => List.getElem?_concat_length
  -- The call a worker waits for is one of its own backend.
  have hown : ∀ {j c : ℕ}, s.worker = .calling j c ∨ s.worker = .pulling j c →
      ∃ state, m.calls[c]? = some ⟨b, state⟩ := by
    intro j c hworker
    rcases h.called b s c hs (by rcases hworker with hw | hw <;> rw [hw] <;> rfl) with
      ⟨state, hcall, _⟩
    exact ⟨state, hcall⟩
  cases hmove with
  | leave rest hworker _ =>
      exact hrest _ (.ended false) rfl rfl rfl (by rw [hworker]; rfl) rfl (.refl b) rfl
  | begin j rest hworker _ =>
      have hidle : m.busy = false := by
        cases hb : m.busy with
        | false => rfl
        | true => exact absurd (by rw [hb]; rfl) hfree
      refine h.worker hs (fun s => { s with queue := rest, worker := .calling j m.calls.length })
        rfl ((CallsKept.refl b).append _) (fun c hc => ?_) (.begins hidle rfl rfl)
      rw [← Option.some.inj hc]
      exact ⟨.running, hnew m.calls .running, nofun⟩
  | answer ok j c job hworker _ =>
      rcases hown (Or.inl hworker) with ⟨state, hcall⟩
      rcases answer_cases (m := (m.changeCall c (.ended .done)).setBusy false) b j job ok with
        ⟨g, more, hslots, hcalls, hbusy, hg⟩
      refine h.worker hs g hslots ?_ (fun d hd => ?_) 
        (.ends (by rw [hworker]; rfl) (hg s).1.2.2.1 hbusy)
      · rw [hcalls]
        exact (CallsKept.changeCall hcall _).append more
      · rcases (hg s).2 d hd with ⟨hmore, hlength⟩
        rw [hcalls, hmore, hlength]
        exact ⟨.queued, hnew _ .queued, nofun⟩
  | chunk j c slot hworker _ =>
      exact hrest (fun s => { s with worker := .putting j }) _ rfl rfl rfl (by rw [hworker]; rfl)
        rfl (.refl b) rfl
  | last j c slot result hworker _ =>
      exact hrest (fun s => { s with worker := .finishing j false }) _ rfl rfl rfl
        (by rw [hworker]; rfl) rfl (.refl b) rfl
  | put j job hworker _ =>
      rcases pump_cases
        (m := m.changeJob j fun job => { job with buffered := job.buffered + 1 }) b j
        job.cancelled with ⟨w, more, hslots, hcalls, hbusy, hw, _, hc⟩
      refine h.worker hs _ hslots ?_ (fun d hd => ?_) (.same (by rw [hworker]; rfl) hw hbusy)
      · rw [hcalls]
        exact (CallsKept.refl b).append more
      · rcases hc d hd with ⟨hmore, hlength⟩
        rw [hcalls, hmore, hlength]
        exact ⟨.queued, hnew _ .queued, nofun⟩
  | finish j cancelled hworker =>
      refine hrest _ (if cancelled then .ended true else .waiting) rfl ?_ ?_
        (by rw [hworker]; rfl) (htwice _ _) (.refl b) rfl
      · cases cancelled <;> rfl
      · cases cancelled <;> rfl
  | cease hworker =>
      refine hrest _ (.ended true) rfl rfl rfl ?_ (htwice _ _) (.refl b) rfl
      rcases hworker with hw | ⟨j, cancelled, hw⟩
      · rw [hw]; rfl
      · rw [hw]; rfl
  | unput j hworker =>
      exact hrest _ (.finishing j true) rfl rfl rfl (by rw [hworker]; rfl) (htwice _ _)
        (.refl b) rfl
  | drop j c slot hworker hcall =>
      rcases hown (Or.inr hworker) with ⟨state, hcall'⟩
      exact hrest _ (.finishing j true) rfl rfl rfl (by rw [hworker]; rfl) (htwice _ _)
        (.changeCall hcall' _) rfl
  | abandon j c hworker _ =>
      exact hrest _ (.finishing j true) rfl rfl rfl (by rw [hworker]; rfl) (htwice _ _)
        (.refl b) rfl

theorem Wired.thread (h : Wired m) {c : ℕ} {e : ThreadEvent} (hmove : ThreadMove m c e u) :
    Wired u := by
  have hchange : ∀ state, state ≠ .dropped → ∀ n : ModelManager, n.slots = m.slots →
      n.calls = (m.changeCall c state).calls → n.busy = m.busy → Wired n := by
    intro state hstate n hslots hcalls hbusy
    refine ⟨fun b s d hs hd => ?_, ?_, ?_⟩
    · rw [hslots] at hs
      rcases h.called b s d hs hd with ⟨old, hcall, hold⟩
      rw [hcalls, calls_changeCall]
      by_cases hcd : c = d
      · rw [if_pos hcd, hcall]
        exact ⟨state, rfl, hstate⟩
      · rw [if_neg hcd]
        exact ⟨old, hcall, hold⟩
    · rw [hslots]
      exact h.one
    · rw [hslots, hbusy]
      exact h.busy
  cases hmove with
  | start slot _ => exact hchange .running nofun _ rfl rfl rfl
  | stop slot result _ => exact hchange (.ended result) nofun _ rfl rfl rfl

theorem busy_submit (b : ℕ) (r : Request) : (m.submit cfg b r).busy = m.busy := by
  unfold ModelManager.submit
  split
  · split <;> rfl
  · rfl

theorem busy_loadOrEvict (k : ℕ) (r : Request) (loads : Bool) :
    (m.loadOrEvict cfg k r loads).busy = m.busy := by
  unfold ModelManager.loadOrEvict
  split
  · split <;> rfl
  · split
    · exact busy_submit _ r
    · rfl

theorem busy_sweep (k : ℕ) (targets : List (String × ℕ)) : (m.sweep k targets).busy = m.busy := by
  cases targets <;> rfl

theorem busy_fail (k : ℕ) (after : Then) : (m.fail k after).busy = m.busy := by
  cases after <;> rfl

theorem busy_proceed (k : ℕ) (loads : Bool) (after : Then) :
    (m.proceed cfg k loads after).busy = m.busy := by
  cases after with
  | load r => exact busy_loadOrEvict k r loads
  | next rest => exact busy_sweep k rest
  | stop => rfl

/-- No task blocks the loop. -/
theorem busy_of_taskMove {k : ℕ} {e : TaskEvent} (h : TaskMove cfg m k e u) :
    u.busy = m.busy := by
  cases h with
  | found r b _ _ => exact busy_submit b r
  | refound r b _ _ _ => exact busy_submit b r
  | load r loads _ _ => exact busy_loadOrEvict k r loads
  | forceUnload tenant modelId _ => exact busy_sweep k _
  | shutdown _ => exact busy_sweep k _
  | close v after loads _ _ _ _ _ => exact busy_proceed k loads after
  | abort v after _ => exact busy_fail k after
  | unput v after _ => exact busy_fail k after
  | _ => rfl

/-- **Each step keeps workers and calls together.** -/
theorem Wired.step {e : Event} (h : Wired m) (hstep : m.step cfg e = some u) : Wired u := by
  have hon := hstep
  unfold ModelManager.step at hon
  split at hon
  · exact absurd hon nofun
  cases e with
  | worker b e => exact h.workerStep hstep
  | thread c e => exact h.thread (threadMove_of_step hon)
  | client j e =>
      cases clientMove_of_step hon with
      | change f _ =>
          exact h.of_workers rfl rfl (fun b s' hs' => Or.inl ⟨s', hs', rfl⟩)
            (fun b s hs => ⟨s, hs, rfl⟩)
  | task k e =>
      have htends := tends_of_step hon
      refine h.of_workers htends.calls (busy_of_taskMove (taskMove_of_step hon))
        (fun b s' hs' => ?_) (fun b s hs => ?_)
      · rcases htends.kept b s' hs' with ⟨s, hs, hworker, _⟩ | ⟨_, hworker, _⟩
        · exact Or.inl ⟨s, hs, hworker⟩
        · exact Or.inr hworker
      · have hlt : b < m.slots.length := (List.getElem?_eq_some_iff.mp hs).1
        have hs' := List.getElem?_eq_getElem (Nat.lt_of_lt_of_le hlt htends.length_le)
        rcases htends.kept b _ hs' with ⟨s₀, hs₀, hworker, _⟩ | ⟨hle, _⟩
        · rw [hs] at hs₀
          rw [Option.some.inj hs₀]
          exact ⟨_, hs', hworker⟩
        · omega

end ModelManager

end Models

end SecureLlm
