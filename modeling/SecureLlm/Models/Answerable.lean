import SecureLlm.Models.Passed

/-!
# Which Jobs Can Still Be Answered

A job that waits in a queue is answered once the worker gets to it. What can be in
the way is a call that blocks the loop, the jobs ahead and a stream handle that is
full; but each of these comes to an end without any task of the manager doing
anything: calls return, and a consumer that reads makes room. Nobody waits for
anybody else in a circle, and so a job that is not passed over can be answered.

The steps to go are counted down: the jobs ahead, and for the job the worker is at
where it is with it.

## Main definitions

* `ModelManager.Unaided`: What workers, threads and readers do by themselves.
* `ModelManager.toGo`, `ModelManager.away`, `ModelManager.distance`: The steps to go.
* `ModelManager.Awaits`: A job that is not passed over.
* `ModelManager.Nearer`: Something can be done that gets nearer.

## Theorems

* `ModelManager.nearer_of_busy`, `ModelManager.nearer_take`,
  `ModelManager.nearer_pulling`, `ModelManager.nearer_put`: One for each place where
  the worker is.
* `ModelManager.next_step`: There is always a step that gets nearer to a job.
* `answerable_iff`: Which jobs can still be answered.
-/

namespace SecureLlm

open Library Transition

namespace Models

/-- A bound on the steps until the worker waits for its next job, if it waits for a
    call that is as given and the generator ends when it is next asked. -/
def CallState.toGo : CallState → ℕ
  | .queued => 8
  | .running => 6
  | .ended .chunk => 12
  | _ => 4

theorem CallState.toGo_le (state : CallState) : state.toGo ≤ 12 := by
  cases state with
  | ended result => cases result <;> decide
  | _ => decide

namespace ModelManager

variable {cfg : Config} {m u : ModelManager}

/-- What happens while no task does anything, no call fails and the callers only
    read. -/
def Unaided : Event → Prop
  | .worker _ e => e ≠ .answer false
  | .thread _ e => e ≠ .stop .error
  | .client _ e => e = .read
  | .task _ _ => False

/-- One if the handle of a job is full, and zero if it is not. -/
def crowd (m : ModelManager) (j : ℕ) : ℕ :=
  match m.jobs[j]? with
  | none => 0
  | some job => job.buffered + 1 - handleSize

/-- The same, wherever the worker is. -/
def toGo (m : ModelManager) : Worker → ℕ
  | .waiting => 0
  | .finishing j _ => 2 + m.crowd j
  | .pulling _ c => (m.calls[c]?.map fun call => call.state.toGo).getD 0
  | .putting j => 10 + m.crowd j
  | .calling _ _ => 14
  | .ended _ => 0

@[simp] theorem toGo_finishing (m : ModelManager) (j : ℕ) (cancelled : Bool) :
    m.toGo (.finishing j cancelled) = 2 + m.crowd j := rfl

@[simp] theorem toGo_putting (m : ModelManager) (j : ℕ) :
    m.toGo (.putting j) = 10 + m.crowd j := rfl

@[simp] theorem toGo_pulling (m : ModelManager) (j c : ℕ) :
    m.toGo (.pulling j c) = (m.calls[c]?.map fun call => call.state.toGo).getD 0 := rfl

theorem toGo_of_call {j c b : ℕ} {state : CallState} (hcall : m.calls[c]? = some ⟨b, state⟩) :
    m.toGo (.pulling j c) = state.toGo := by
  rw [toGo_pulling, hcall]
  rfl

/-- The steps to go until the worker of a slot that will get to a job has done so. -/
def away (m : ModelManager) (s : Loaded) (j : ℕ) : ℕ :=
  (if s.worker.serving = some j then 0 else 20 * ((ahead s.queue).idxOf j + 1)) +
    m.toGo s.worker + if m.busy then 1 else 0

/-- Is the future of a job unresolved? -/
def isPending (m : ModelManager) (j : ℕ) : Bool :=
  match m.jobs[j]? with
  | none => false
  | some job => job.pending

/-- The steps to go until a job is answered. -/
def distance (m : ModelManager) (b j : ℕ) : ℕ :=
  if m.isPending j then
    match m.slots[b]? with
    | none => 0
    | some s => m.away s j + 1
  else 0

/-- A job of a slot that is answered, or that its worker will get to. -/
structure Awaits (m : ModelManager) (b j : ℕ) : Prop where
  wired : Wired m
  placed : Placed m
  handles : Buffered m
  job : ∃ job : Job, m.jobs[j]? = some job ∧ job.slot = b ∧
    (job.pending = true → ∃ s, m.slots[b]? = some s ∧ s.Answers j)

theorem crowd_le (h : Buffered m) (j : ℕ) : m.crowd j ≤ 1 := by
  unfold crowd
  cases hjob : m.jobs[j]? with
  | none => exact Nat.zero_le _
  | some job =>
      have hle := h j job hjob
      dsimp only
      omega

/-- All but a call the worker makes itself is nearer than that. -/
theorem toGo_le (h : Buffered m) {w : Worker} (hw : w.isCalling = false) : m.toGo w ≤ 12 := by
  cases w with
  | calling i c => exact absurd hw nofun
  | finishing i cancelled =>
      have hle := crowd_le h i
      rw [toGo_finishing]
      omega
  | putting i =>
      have hle := crowd_le h i
      rw [toGo_putting]
      omega
  | pulling i c =>
      cases hcall : m.calls[c]? with
      | none =>
          rw [toGo_pulling, hcall]
          exact Nat.zero_le _
      | some call =>
          rw [toGo_of_call hcall]
          exact call.state.toGo_le
  | waiting => exact Nat.zero_le _
  | ended cancelled => exact Nat.zero_le _

/-- The head of the loop over a generator is nearer still. -/
theorem toGo_pump (b i : ℕ) (cancelled : Bool) (h : Buffered (m.pump b i cancelled)) {s : Loaded}
    (hs : m.slots[b]? = some s) :
    ∃ s' : Loaded, (m.pump b i cancelled).slots[b]? = some s' ∧ s'.queue = s.queue ∧
      s'.cancelRequested = s.cancelRequested ∧ s'.worker.Goes ∧ s'.worker.serving = none ∧
      (m.pump b i cancelled).toGo s'.worker ≤ 8 := by
  unfold ModelManager.pump at h ⊢
  split
  · refine ⟨{ s with worker := .finishing i false }, ?_, rfl, rfl, ⟨rfl, ?_⟩, rfl, ?_⟩
    · rw [ModelManager.move, slots_change, if_pos rfl, hs, Option.map_some]
    · exact fun j hj => absurd (Worker.finishing.inj hj).2 Bool.false_ne_true
    · rename_i hcancelled
      rw [if_pos hcancelled] at h
      have hle := crowd_le h i
      rw [toGo_finishing]
      omega
  · refine ⟨{ s with worker := .pulling i m.calls.length }, ?_, rfl, rfl, ⟨rfl, by simp⟩,
      rfl, ?_⟩
    · exact (slots_change m b b _).trans (by rw [if_pos rfl, hs, Option.map_some])
    · have hcall : ((m.move b (.pulling i m.calls.length)).addCall b .queued).calls[m.calls.length]? =
          some ⟨b, .queued⟩ := List.getElem?_concat_length
      rw [toGo_of_call hcall]
      exact Nat.le_refl 8

/-- A worker whose calls and handles are as they were has as far to go. -/
theorem toGo_congr {w : Worker} (hcalls : ∀ c, w.call = some c → u.calls[c]? = m.calls[c]?)
    (hcrowd : ∀ j, u.crowd j = m.crowd j) : u.toGo w = m.toGo w := by
  cases w with
  | pulling i c => rw [toGo_pulling, toGo_pulling, hcalls c rfl]
  | finishing i cancelled => rw [toGo_finishing, toGo_finishing, hcrowd]
  | putting i => rw [toGo_putting, toGo_putting, hcrowd]
  | _ => rfl

theorem Buffered.unaided {e : Event} (h : Buffered m) (he : Unaided e)
    (hstep : m.step cfg e = some u) : Buffered u := by
  unfold ModelManager.step at hstep
  split at hstep
  · exact absurd hstep nofun
  cases e with
  | worker b e => exact h.workerStep hstep
  | thread c e =>
      cases threadMove_of_step hstep with
      | start _ _ => exact h
      | stop _ _ _ => exact h
  | client j e => exact h.clientStep hstep
  | task k e => exact absurd he id

/-- Jobs stay, with their slots. -/
theorem job_unaided {e : Event} {j : ℕ} {job : Job} (he : Unaided e)
    (hstep : m.step cfg e = some u) (hjob : m.jobs[j]? = some job) :
    ∃ job' : Job, u.jobs[j]? = some job' ∧ job'.slot = job.slot := by
  have hmodified : ∀ (i : ℕ) (f : Job → Job), u.jobs = m.jobs.modify i f →
      (∀ job : Job, (f job).slot = job.slot) →
      ∃ job' : Job, u.jobs[j]? = some job' ∧ job'.slot = job.slot := by
    intro i f hu hf
    rw [hu, List.getElem?_modify, hjob]
    by_cases hij : i = j
    · exact ⟨f job, by simp [hij], hf job⟩
    · exact ⟨job, by simp [hij], rfl⟩
  unfold ModelManager.step at hstep
  split at hstep
  · exact absurd hstep nofun
  cases e with
  | worker b e =>
      rcases workerMove_of_step hstep with ⟨s, _, hmove⟩
      rcases jobs_of_workerMove hmove with ⟨i, f, hu, hf⟩
      exact hmodified i f hu hf
  | thread c e =>
      cases threadMove_of_step hstep with
      | start _ _ => exact ⟨job, hjob, rfl⟩
      | stop _ _ _ => exact ⟨job, hjob, rfl⟩
  | client i e =>
      cases clientMove_of_step hstep with
      | change f hf => exact hmodified i f rfl fun job => (hf job).2
  | task k e => exact absurd he id

/-- What has to be shown of a step that gets nearer. -/
theorem Awaits.nearer {b j : ℕ} {e : Event} {s : Loaded} (h : Awaits m b j)
    (hpending : m.isPending j = true) (hs : m.slots[b]? = some s) (he : Unaided e)
    (hstep : m.step cfg e = some u)
    (hnext : u.isPending j = true →
      ∃ s', u.slots[b]? = some s' ∧ s'.Answers j ∧ u.away s' j < m.away s j) :
    Awaits u b j ∧ u.distance b j < m.distance b j := by
  constructor
  · refine ⟨h.wired.step hstep, h.placed.step hstep, h.handles.unaided he hstep, ?_⟩
    rcases h.job with ⟨job, hjob, hslot, _⟩
    rcases job_unaided he hstep hjob with ⟨job', hjob', hslot'⟩
    refine ⟨job', hjob', hslot'.trans hslot, fun hp => ?_⟩
    rcases hnext (by unfold isPending; rw [hjob']; exact hp) with ⟨s', hs', hanswers, _⟩
    exact ⟨s', hs', hanswers⟩
  · unfold distance
    rw [if_pos hpending, hs]
    by_cases hu : u.isPending j = true
    · rcases hnext hu with ⟨s', hs', _, hless⟩
      rw [if_pos hu, hs']
      exact Nat.succ_lt_succ hless
    · rw [if_neg hu]
      exact Nat.succ_pos _

/-- What can be done next gets nearer. -/
def Nearer (cfg : Config) (m : ModelManager) (b j : ℕ) : Prop :=
  ∃ e u, Unaided e ∧ m.step cfg e = some u ∧ Awaits u b j ∧ u.distance b j < m.distance b j

/-- A step of the worker that keeps its queue gets nearer if it has less far to go. -/
theorem away_lt {s s' : Loaded} {j : ℕ} (hserving : s'.worker.serving = s.worker.serving)
    (hqueue : s'.queue = s.queue) (hbusy : u.busy = m.busy)
    (htoGo : u.toGo s'.worker < m.toGo s.worker) : u.away s' j < m.away s j := by
  unfold away
  rw [hserving, hqueue, hbusy]
  omega

theorem answers_of_goes {s s' : Loaded} {j : ℕ} (hstays : ¬ s.Leaving) (hmem : j ∈ ahead s.queue)
    (hqueue : s'.queue = s.queue) (hcancel : s'.cancelRequested = s.cancelRequested)
    (hgoes : s'.worker.Goes) : s'.Answers j := by
  refine Or.inr ⟨?_, by rw [hqueue]; exact hmem⟩
  rintro (hreq | hended | ⟨i, hi⟩)
  · exact hstays (Or.inl (by rw [← hcancel]; exact hreq))
  · rw [hgoes.1] at hended
    exact absurd hended nofun
  · exact hgoes.2 i hi

theorem step_of_free {e : Event} (hfree : m.busy = false) :
    m.step cfg e = match e with
      | .worker b e => m.workerStep b e
      | .thread c e => m.threadStep c e
      | .client j e => m.clientStep j e
      | .task k e => m.taskStep cfg k e := by
  unfold ModelManager.step
  rw [hfree]
  rfl

/-- The worker comes back from a call with the job answered, and no other job or
    handle changed. -/
theorem jobs_answer (b i : ℕ) (job : Job) (ok : Bool) :
    (m.answer b i job ok).jobs = (m.changeJob i fun job => { job with pending := false }).jobs := by
  unfold ModelManager.answer
  split
  · split
    · unfold ModelManager.pump
      split <;> rfl
    · rfl
  · rfl

theorem isPending_of_jobs {j : ℕ} (h : u.jobs = m.jobs) : u.isPending j = m.isPending j := by
  unfold isPending
  rw [h]

theorem crowd_of_jobs {j : ℕ} (h : u.jobs = m.jobs) : u.crowd j = m.crowd j := by
  unfold crowd
  rw [h]

theorem isPending_resolved (i : ℕ) :
    (m.changeJob i fun job => { job with pending := false }).isPending i = false := by
  unfold isPending
  rw [jobs_changeJob, if_pos rfl]
  cases m.jobs[i]? with
  | none => rfl
  | some job => rfl

theorem crowd_resolved (i j : ℕ) :
    (m.changeJob i fun job => { job with pending := false }).crowd j = m.crowd j := by
  unfold crowd
  rw [jobs_changeJob]
  by_cases hij : i = j
  · rw [if_pos hij]
    cases m.jobs[j]? with
    | none => rfl
    | some job => rfl
  · rw [if_neg hij]

/-- While a call blocks the loop, the call returns. -/
theorem nearer_of_busy {b j : ℕ} {s : Loaded} (h : Awaits m b j) (hpending : m.isPending j = true)
    (hs : m.slots[b]? = some s) (hanswers : s.Answers j) (hbusy : m.busy = true) :
    Nearer cfg m b j := by
  rcases h.wired.busy.mp hbusy with ⟨b', s', hs', hcalling⟩
  have hworker : ∃ i c, s'.worker = .calling i c := by
    cases hw : s'.worker with
    | calling i c => exact ⟨i, c, rfl⟩
    | _ => rw [hw] at hcalling; exact absurd hcalling nofun
  rcases hworker with ⟨i, c, hworker⟩
  rcases h.placed b' s' i hs' (Or.inr (by rw [hworker]; rfl)) with ⟨job, hjob, _⟩
  rcases h.wired.called b' s' c hs' (by rw [hworker]; rfl) with ⟨state, hcall, _⟩
  have hstep : m.step cfg (.worker b' (.answer true)) =
      some (((m.changeCall c (.ended .done)).setBusy false).answer b' i job true) := by
    unfold ModelManager.step
    rw [if_neg (by simp [Event.onLoop])]
    simp only [workerStep, hs', hworker, hjob, Option.bind_eq_bind, Option.bind_some]
  have he : Unaided (.worker b' (.answer true)) := by simp [Unaided]
  have hhandles := h.handles.unaided he hstep
  refine ⟨.worker b' (.answer true), _, he, hstep, ?_⟩
  rcases answer_cases (m := (m.changeCall c (.ended .done)).setBusy false) b' i job true with
    ⟨g, more, hslots, hcalls, hbusy', hg⟩
  have hjobs := jobs_answer (m := (m.changeCall c (.ended .done)).setBusy false) b' i job true
  refine h.nearer hpending hs he hstep fun hstill => ?_
  have hij : i ≠ j := by
    rintro rfl
    rw [isPending_of_jobs hjobs, isPending_resolved] at hstill
    exact absurd hstill nofun
  by_cases hb : b' = b
  · -- The worker of the slot itself. It was at another job.
    rw [hb, hs] at hs'
    rw [← Option.some.inj hs'] at hworker
    have hself : (((m.changeCall c (.ended .done)).setBusy false).answer b' i job true).slots[b]? =
        some (g s) := by
      rw [hslots, hb, List.getElem?_modify]
      exact (congrArg _ hs).trans (by simp)
    have hserving : s.worker.serving ≠ some j := by
      rw [hworker]
      exact fun hc => hij (Option.some.inj hc)
    have hmem : ¬ s.Leaving ∧ j ∈ ahead s.queue := hanswers.resolve_left hserving
    refine ⟨g s, hself, answers_of_goes hmem.1 hmem.2 (hg s).1.1 (hg s).1.2.1 (hg s).1.2.2.2, ?_⟩
    have hle := toGo_le hhandles (hg s).1.2.2.1
    have hnone : (g s).worker.serving ≠ some j := by
      rw [Worker.serving_of_not_calling (hg s).1.2.2.1]
      exact nofun
    have hto : m.toGo s.worker = 14 := by rw [hworker]; rfl
    unfold away
    rw [if_neg hnone, if_neg hserving, (hg s).1.1, hbusy', hto]
    have hoff : ((m.changeCall c (.ended .done)).setBusy false).busy = false := rfl
    rw [hoff, if_neg Bool.false_ne_true]
    omega
  · -- The worker of another slot. The call it made was one of its own backend.
    have hother : (((m.changeCall c (.ended .done)).setBusy false).answer b' i job true).slots[b]? =
        m.slots[b]? := by
      rw [hslots, List.getElem?_modify]
      simp [hb, setBusy, changeCall]
    have hsame : (((m.changeCall c (.ended .done)).setBusy false).answer b' i job true).toGo
        s.worker = m.toGo s.worker := by
      refine toGo_congr (fun d hd => ?_) fun i' => (crowd_of_jobs hjobs).trans (crowd_resolved i i')
      rcases h.wired.called b s d hs hd with ⟨state', hcall', _⟩
      rw [hcall', hcalls]
      exact ((CallsKept.changeCall hcall _).append more) d b state' (Ne.symm hb) hcall'
    refine ⟨s, hother.trans hs, hanswers, ?_⟩
    unfold away
    rw [hsame, hbusy', hbusy]
    have hoff : ((m.changeCall c (.ended .done)).setBusy false).busy = false := rfl
    rw [hoff, if_neg Bool.false_ne_true, if_pos rfl]
    omega

/-- A worker that waits takes what is first. -/
theorem nearer_take {b j : ℕ} {s : Loaded} (h : Awaits m b j) (hpending : m.isPending j = true)
    (hs : m.slots[b]? = some s) (hstays : ¬ s.Leaving) (hmem : j ∈ ahead s.queue)
    (hfree : m.busy = false) (hworker : s.worker = .waiting) : Nearer cfg m b j := by
  have hcancel : s.cancelRequested = false := by
    cases hc : s.cancelRequested with
    | false => rfl
    | true => exact absurd (Or.inl hc) hstays
  cases hqueue : s.queue with
  | nil => rw [hqueue] at hmem; exact absurd hmem List.not_mem_nil
  | cons x rest =>
      cases x with
      | stop => rw [hqueue] at hmem; exact absurd hmem List.not_mem_nil
      | item i =>
          have hstep : m.step cfg (.worker b .take) = some ((((m.change b fun s =>
              { s with queue := rest, worker := .calling i m.calls.length }).addCall b
                .running).note (.began b)).setBusy true) := by
            rw [step_of_free hfree]
            simp only [workerStep, hs, hcancel, hworker, hqueue, Option.bind_eq_bind,
              Option.bind_some]
          have he : Unaided (.worker b .take) := by simp [Unaided]
          refine ⟨.worker b .take, _, he, hstep, h.nearer hpending hs he hstep fun _ => ?_⟩
          refine ⟨{ s with queue := rest, worker := .calling i m.calls.length }, ?_, ?_, ?_⟩
          · exact (slots_change m b b _).trans (by rw [if_pos rfl, hs, Option.map_some])
          · rw [hqueue, ahead_item, List.mem_cons] at hmem
            by_cases hij : j = i
            · rw [hij]
              exact Or.inl rfl
            · refine Or.inr ⟨?_, hmem.resolve_left hij⟩
              rintro (hreq | hended | ⟨k, hk⟩)
              · exact hstays (Or.inl hreq)
              · exact absurd hended nofun
              · exact absurd hk nofun
          · have hwaits : s.worker.serving ≠ some j := by
              rw [hworker]
              exact nofun
            have hto : ∀ n : ModelManager, n.toGo s.worker = 0 := fun n => by rw [hworker]; rfl
            unfold away
            rw [if_neg hwaits, hto, hfree, if_neg Bool.false_ne_true, hqueue, ahead_item]
            have hcall : ∀ n : ModelManager, n.toGo (.calling i m.calls.length) = 14 := fun _ => rfl
            dsimp only
            rw [hcall]
            simp only [Worker.serving, Option.some.injEq, setBusy, if_true]
            by_cases hij : i = j
            · rw [if_pos hij, hij, List.idxOf_cons_self]
              omega
            · rw [if_neg hij, List.idxOf_cons_ne _ hij]
              omega

/-- A step of the worker, or of the thread it waits for, that keeps it at its stream. -/
theorem nearer_of_goes {b j : ℕ} {s s' : Loaded} {e : Event} (h : Awaits m b j)
    (hpending : m.isPending j = true) (hs : m.slots[b]? = some s) (hstays : ¬ s.Leaving)
    (hmem : j ∈ ahead s.queue) (hw : s.worker.serving = none) (he : Unaided e)
    (hstep : m.step cfg e = some u) (hs' : u.slots[b]? = some s') (hqueue : s'.queue = s.queue)
    (hcancel : s'.cancelRequested = s.cancelRequested) (hgoes : s'.worker.Goes)
    (hw' : s'.worker.serving = none) (hbusy : u.busy = m.busy)
    (htoGo : u.toGo s'.worker < m.toGo s.worker) : Nearer cfg m b j :=
  ⟨e, u, he, hstep, h.nearer hpending hs he hstep fun _ =>
    ⟨s', hs', answers_of_goes hstays hmem hqueue hcancel hgoes,
      away_lt (hw'.trans hw.symm) hqueue hbusy htoGo⟩⟩

/-- A worker that waits for a generator. -/
theorem nearer_pulling {b j i c : ℕ} {s : Loaded} (h : Awaits m b j)
    (hpending : m.isPending j = true) (hs : m.slots[b]? = some s) (hstays : ¬ s.Leaving)
    (hmem : j ∈ ahead s.queue) (hfree : m.busy = false) (hworker : s.worker = .pulling i c) :
    Nearer cfg m b j := by
  have hcancel : s.cancelRequested = false := by
    cases hc : s.cancelRequested with
    | false => rfl
    | true => exact absurd (Or.inl hc) hstays
  have hw : s.worker.serving = none := by rw [hworker]; rfl
  have hgoes : s.worker.Goes := by
    rw [hworker]
    exact ⟨rfl, by simp⟩
  rcases h.wired.called b s c hs (by rw [hworker]; rfl) with ⟨state, hcall, hlive⟩
  have hto : m.toGo s.worker = state.toGo := by rw [hworker, toGo_of_call hcall]
  -- The thread goes on with the call.
  have hthread : ∀ (e : ThreadEvent) (state' : CallState) (n : ModelManager), e ≠ .stop .error →
      m.threadStep c e = some n → n.slots = m.slots → n.busy = m.busy →
      n.calls = (m.changeCall c state').calls → state'.toGo < state.toGo → Nearer cfg m b j := by
    intro e state' n he hstep hslots hbusy hcalls hless
    have hcall' : n.calls[c]? = some ⟨b, state'⟩ := by
      rw [hcalls, calls_changeCall, if_pos rfl, hcall, Option.map_some]
    refine nearer_of_goes (e := .thread c e) h hpending hs hstays hmem hw he ?_
      (by rw [hslots]; exact hs) rfl rfl hgoes hw hbusy ?_
    · rw [step_of_free hfree]
      exact hstep
    · rw [hto, hworker, toGo_of_call hcall']
      exact hless
  -- The worker goes on with what the call gave.
  have hreceive : ∀ (w : Worker) (n : ModelManager), m.workerStep b .receive = some n →
      n = m.move b w → w.Goes → w.serving = none → n.toGo w < state.toGo → Nearer cfg m b j := by
    intro w n hstep hn hgoes' hw' hless
    have hs' : n.slots[b]? = some { s with worker := w } := by
      rw [hn, ModelManager.move, slots_change, if_pos rfl, hs, Option.map_some]
    refine nearer_of_goes (e := .worker b .receive) h hpending hs hstays hmem hw (by simp [Unaided])
      ?_ hs' rfl rfl hgoes' hw' (by rw [hn]; rfl) ?_
    · rw [step_of_free hfree]
      exact hstep
    · rw [hto]
      exact hless
  cases state with
  | queued =>
      refine hthread .start .running ((m.changeCall c .running).note (.began b)) (by simp) ?_
        rfl rfl rfl (by decide)
      simp only [threadStep, hcall, Option.bind_eq_bind, Option.bind_some]
  | running =>
      refine hthread (.stop .done) (.ended .done) (m.changeCall c (.ended .done)) (by simp) ?_
        rfl rfl rfl (by decide)
      simp only [threadStep, hcall, Option.bind_eq_bind, Option.bind_some]
  | dropped => exact absurd rfl hlive
  | ended result =>
      -- After a chunk the worker puts it, and else it comes to the end.
      have hcrowd : ∀ w, (m.move b w).crowd i ≤ 1 := fun w => crowd_le h.handles i
      have hlast : (CallState.ended result).toGo = 4 →
          m.workerStep b .receive = some (m.move b (.finishing i false)) → Nearer cfg m b j := by
        intro hfour hstep
        refine hreceive (.finishing i false) _ hstep rfl ⟨rfl, ?_⟩ rfl ?_
        · exact fun k hk => absurd (Worker.finishing.inj hk).2 Bool.false_ne_true
        · have hle := hcrowd (.finishing i false)
          rw [toGo_finishing, hfour]
          omega
      cases result with
      | chunk =>
          refine hreceive (.putting i) (m.move b (.putting i)) ?_ rfl ⟨rfl, by simp⟩ rfl ?_
          · simp only [workerStep, hs, hcancel, hworker, hcall, Option.bind_eq_bind,
              Option.bind_some]
          · have hle := hcrowd (.putting i)
            have htwelve : (CallState.ended .chunk).toGo = 12 := rfl
            rw [toGo_putting, htwelve]
            omega
      | done =>
          refine hlast rfl ?_
          simp only [workerStep, hs, hcancel, hworker, hcall, Option.bind_eq_bind, Option.bind_some]
      | error =>
          refine hlast rfl ?_
          simp only [workerStep, hs, hcancel, hworker, hcall, Option.bind_eq_bind, Option.bind_some]

/-- While a handle is full, its consumer reads. -/
theorem nearer_read {b j i : ℕ} {s : Loaded} {job : Job} (h : Awaits m b j)
    (hpending : m.isPending j = true) (hs : m.slots[b]? = some s) (hanswers : s.Answers j)
    (hfree : m.busy = false) (hjob : m.jobs[i]? = some job) (hfull : ¬ job.buffered < handleSize)
    (htoGo : ∀ n : ModelManager, n.crowd i < m.crowd i → n.toGo s.worker < m.toGo s.worker) :
    Nearer cfg m b j := by
  have hpos : 0 < job.buffered := by
    unfold handleSize at hfull
    omega
  have hstep : m.step cfg (.client i .read) = some (m.changeJob i fun job =>
      { job with buffered := job.buffered - 1 }) := by
    rw [step_of_free hfree]
    simp only [clientStep, hjob, Option.bind_eq_bind, Option.bind_some, hpos, if_true]
  have he : Unaided (.client i .read) := by simp [Unaided]
  refine ⟨.client i .read, _, he, hstep, h.nearer hpending hs he hstep fun _ => ?_⟩
  refine ⟨s, hs, hanswers, ?_⟩
  have hle := h.handles i job hjob
  have hcrowd : (m.changeJob i fun job => { job with buffered := job.buffered - 1 }).crowd i <
      m.crowd i := by
    unfold crowd
    rw [jobs_changeJob, if_pos rfl, hjob]
    dsimp only [Option.map_some]
    omega
  have hless := htoGo _ hcrowd
  have hbusy : (m.changeJob i fun job => { job with buffered := job.buffered - 1 }).busy = m.busy :=
    rfl
  unfold away
  rw [hbusy]
  omega

/-- A worker that has a chunk or the end mark in hand puts it, once there is room. -/
theorem nearer_put {b j i : ℕ} {s : Loaded} (h : Awaits m b j) (hpending : m.isPending j = true)
    (hs : m.slots[b]? = some s) (hstays : ¬ s.Leaving) (hmem : j ∈ ahead s.queue)
    (hfree : m.busy = false) (hworker : s.worker = .putting i ∨ s.worker = .finishing i false) :
    Nearer cfg m b j := by
  have hcancel : s.cancelRequested = false := by
    cases hc : s.cancelRequested with
    | false => rfl
    | true => exact absurd (Or.inl hc) hstays
  have hw : s.worker.serving = none := by
    rcases hworker with hw | hw
    · rw [hw]; rfl
    · rw [hw]; rfl
  have hat : s.worker.job = some i := by
    rcases hworker with hw | hw
    · rw [hw]; rfl
    · rw [hw]; rfl
  rcases h.placed b s i hs (Or.inr hat) with ⟨job, hjob, _⟩
  by_cases hroom : job.buffered < handleSize
  · have he : Unaided (.worker b .put) := by simp [Unaided]
    rcases hworker with hputting | hfinishing
    · have hstep : m.step cfg (.worker b .put) = some ((m.changeJob i fun job =>
          { job with buffered := job.buffered + 1 }).pump b i job.cancelled) := by
        rw [step_of_free hfree]
        simp only [workerStep, hs, hcancel, hputting, hjob, Option.bind_eq_bind, Option.bind_some,
          hroom, if_true]
      rcases toGo_pump b i job.cancelled (h.handles.unaided he hstep) hs with
        ⟨s', hs', hqueue, hcancel', hgoes, hw', hto⟩
      refine nearer_of_goes h hpending hs hstays hmem hw he hstep hs' hqueue hcancel' hgoes hw' ?_ ?_
      · unfold ModelManager.pump
        split <;> rfl
      · have hten : m.toGo s.worker = 10 + m.crowd i := by rw [hputting, toGo_putting]
        omega
    · have hstep : m.step cfg (.worker b .put) = some (((m.changeJob i fun job =>
          { job with buffered := job.buffered + 1 }).resetIdle b).move b .waiting) := by
        rw [step_of_free hfree]
        simp only [workerStep, hs, hcancel, hfinishing, hjob, Option.bind_eq_bind,
          Option.bind_some, hroom, if_true, Bool.false_eq_true, if_false]
      have hs' : (((m.changeJob i fun job => { job with buffered := job.buffered + 1 }).resetIdle
          b).move b .waiting).slots[b]? = some { s with timer := true, worker := .waiting } := by
        rw [ModelManager.move, ModelManager.resetIdle, change_change, slots_change, if_pos rfl]
        exact congrArg _ hs
      refine nearer_of_goes h hpending hs hstays hmem hw he hstep hs' rfl rfl ⟨rfl, by simp⟩
        rfl rfl ?_
      have htwo : m.toGo s.worker = 2 + m.crowd i := by rw [hfinishing, toGo_finishing]
      have hzero : ∀ n : ModelManager, n.toGo .waiting = 0 := fun _ => rfl
      rw [htwo, hzero]
      omega
  · refine nearer_read h hpending hs (Or.inr ⟨hstays, hmem⟩) hfree hjob hroom fun n hless => ?_
    rcases hworker with hw' | hw'
    · rw [hw', toGo_putting, toGo_putting]
      omega
    · rw [hw', toGo_finishing, toGo_finishing]
      omega

/-- **There is always something that gets nearer.** A job the worker of its slot will
    get to is answered, or somebody can do something that gets nearer to it. -/
theorem next_step {b j : ℕ} (h : Awaits m b j) (hpending : m.isPending j = true) :
    Nearer cfg m b j := by
  rcases h.job with ⟨job, hjob, hslot, hanswers⟩
  have hunresolved : job.pending = true := by
    unfold isPending at hpending
    rwa [hjob] at hpending
  rcases hanswers hunresolved with ⟨s, hs, hgets⟩
  cases hbusy : m.busy with
  | true => exact nearer_of_busy h hpending hs hgets hbusy
  | false =>
      -- Nobody is in a call of its own, so the job waits in the queue.
      have hidle : s.worker.isCalling = false := by
        by_contra hc
        rw [Bool.not_eq_false] at hc
        rw [h.wired.busy.mpr ⟨b, s, hs, hc⟩] at hbusy
        exact absurd hbusy nofun
      have hmem : ¬ s.Leaving ∧ j ∈ ahead s.queue := by
        refine hgets.resolve_left fun hc => ?_
        rw [Worker.serving_of_not_calling hidle] at hc
        exact absurd hc nofun
      cases hworker : s.worker with
      | waiting => exact nearer_take h hpending hs hmem.1 hmem.2 hbusy hworker
      | calling i c =>
          rw [hworker] at hidle
          exact absurd hidle nofun
      | pulling i c => exact nearer_pulling h hpending hs hmem.1 hmem.2 hbusy hworker
      | putting i => exact nearer_put h hpending hs hmem.1 hmem.2 hbusy (Or.inl hworker)
      | finishing i cancelled =>
          cases cancelled with
          | false => exact nearer_put h hpending hs hmem.1 hmem.2 hbusy (Or.inr hworker)
          | true => exact absurd (Or.inr (Or.inr ⟨i, hworker⟩)) hmem.1
      | ended cancelled =>
          exact absurd (Or.inr (Or.inl (by rw [hworker]; rfl))) hmem.1

end ModelManager

open ModelManager

/-- **Which jobs can still be answered.** Take any state the manager reaches and a job
    that is unresolved there. If the worker of its slot is in the call for it, or will
    get to it, then workers, threads and readers can go on, without any task and
    without any failure, to where the job is answered. If not, nothing that anybody
    does answers it, as long as its caller does not give up. -/
theorem answerable_iff (cfg : Config) (m : ModelManager) (h : Run (step cfg) anyStep start m)
    (j : ℕ) (job : Job) (hjob : m.jobs[j]? = some job) (hpending : job.pending = true) :
    ((∃ s, m.slots[job.slot]? = some s ∧ s.Answers j) →
      ∃ u, Run (step cfg) (fun _ e _ => Unaided e) m u ∧ Answered u j) ∧
    ((∀ s, m.slots[job.slot]? = some s → ¬ s.Answers j) →
      ∀ u, Run (step cfg) (fun _ e _ => e ≠ .client j .giveUp) m u → ¬ Answered u j) := by
  have hinv : Wired m ∧ Placed m := by
    refine h.invariant (fun m => Wired m ∧ Placed m) ⟨wired_start, ?_⟩ ?_
    · exact fun b s j hs => absurd hs (by simp [start])
    · intro m e u hm _ hstep
      exact ⟨hm.1.step hstep, hm.2.step hstep⟩
  constructor
  · rintro ⟨s, hs, hanswers⟩
    have hawaits : Awaits m job.slot j := ⟨hinv.1, hinv.2, (buffers_bounded cfg m h).handles,
      job, hjob, rfl, fun _ => ⟨s, hs, hanswers⟩⟩
    refine exists_run_of_measure (fun t => Awaits t job.slot j) (fun t => Answered t j)
      (fun t => t.distance job.slot j) (fun t ht hnot => ?_) hawaits
    have hstill : t.isPending j = true := by
      rcases ht.job with ⟨job', hjob', _⟩
      unfold isPending
      rw [hjob']
      by_contra hdone
      exact hnot ⟨job', hjob', by simpa using hdone⟩
    have hnearer : Nearer cfg t job.slot j := next_step ht hstill
    rcases hnearer with ⟨e, u, he, hstep, hu, hless⟩
    exact ⟨e, u, he, hstep, hu, hless⟩
  · intro hnone u hrun
    have hboth : Passed u j ∧ Placed u := by
      refine hrun.invariant (fun t => Passed t j ∧ Placed t) ?_ ?_
      · exact ⟨⟨job, hjob, hpending, hnone⟩, hinv.2⟩
      · intro t e u ht he hstep
        exact ⟨ht.1.step ht.2 he hstep, ht.2.step hstep⟩
    exact hboth.1.not_answered

/-- The same on a run: while a stream is being pumped, one job waits ahead of the stop
    of an operator and one behind it. -/
theorem answerable_iff_sample :
    ∃ m, (∃ u, Run (step ⟨1, 2048, 8⟩) (fun _ e _ => Unaided e) m u ∧ Answered u 1) ∧
      ∀ u, Run (step ⟨1, 2048, 8⟩) (fun _ e _ => e ≠ .client 2 .giveUp) m u → ¬ Answered u 2 := by
  have hplay : ((play (step ⟨1, 2048, 8⟩) start
      [.task 0 (.request (.sample none (some (.chat, true)))), .task 0 (.acquire true),
        .worker 0 .take, .worker 0 (.answer true),
        .task 1 (.request (.sample none (some (.chat, false)))),
        .task 2 (.forceUnload "default" "llama"), .task 2 .put,
        .task 3 (.request (.sample none (some (.chat, false))))]).any (fun m =>
          decide (m.jobs[1]?.map (fun job => (job.slot, job.pending)) = some (0, true) ∧
            m.jobs[2]?.map (fun job => (job.slot, job.pending)) = some (0, true) ∧
            m.slots[0]?.map (fun s => (s.queue, s.worker, s.cancelRequested)) =
              some ([.item 1, .stop, .item 2], .pulling 0 1, false)))) = true := by
    decide +kernel
  rcases (Option.any_eq_true _ _).mp hplay with ⟨m, hm, hend⟩
  rcases of_decide_eq_true hend with ⟨hfirst, hsecond, hslot⟩
  rcases Option.map_eq_some_iff.mp hfirst with ⟨job, hjob, hpair⟩
  rcases Option.map_eq_some_iff.mp hsecond with ⟨job', hjob', hpair'⟩
  rcases Option.map_eq_some_iff.mp hslot with ⟨s, hs, hdata⟩
  rcases Prod.mk.inj hpair with ⟨hat, hpending⟩
  rcases Prod.mk.inj hpair' with ⟨hat', hpending'⟩
  rcases Prod.mk.inj hdata with ⟨hqueue, hrest⟩
  rcases Prod.mk.inj hrest with ⟨hworker, hcancel⟩
  have hrun := run_of_play _ hm
  refine ⟨m, (answerable_iff ⟨1, 2048, 8⟩ m hrun 1 job hjob hpending).1 ⟨s, ?_, ?_⟩,
    (answerable_iff ⟨1, 2048, 8⟩ m hrun 2 job' hjob' hpending').2 fun s' hs' => ?_⟩
  · rw [hat]
    exact hs
  · refine Or.inr ⟨?_, by rw [hqueue]; decide⟩
    rintro (hreq | hended | ⟨i, hi⟩)
    · rw [hcancel] at hreq
      exact absurd hreq nofun
    · rw [hworker] at hended
      exact absurd hended nofun
    · rw [hworker] at hi
      exact absurd hi nofun
  · rw [hat', hs] at hs'
    rw [← Option.some.inj hs']
    rintro (hserving | ⟨_, hmem⟩)
    · rw [hworker] at hserving
      exact absurd hserving nofun
    · rw [hqueue] at hmem
      exact absurd hmem (by decide)

end Models

end SecureLlm