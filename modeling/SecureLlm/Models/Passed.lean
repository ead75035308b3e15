import SecureLlm.Models.Queues
import SecureLlm.Models.Wiring

/-!
# Jobs That Are Passed Over

There are jobs the worker of a slot will never get to: those behind a stop, and those
of a worker that has ended or is about to. A worker is about to end when it has been
asked to, or has been told to while it was at a stream, and nothing that happens later
changes that. Jobs that come later go to the end of the queue, so they help none that
is there already.

## Main definitions

* `Loaded.Leaving`: The worker ends before it takes anything else.
* `Loaded.Answers`: The worker will get to a job.
* `ModelManager.Urged`: A worker that is asked to end stays so.
* `ModelManager.Passed`: A job that is passed over.
* `ModelManager.Answered`: The future of a job is resolved.

## Theorems

* `ModelManager.not_answers_workerStep`, `ModelManager.not_answers_taskStep`: What
  workers and tasks do to a slot that will not get to a job.
* `ModelManager.pending_of_step`: Who resolves a job.
* `ModelManager.Passed.step`: What is passed over stays so.
-/

namespace SecureLlm

open Library Transition

namespace Models

/-- The worker has ended, or will before it takes anything else. -/
def Loaded.Leaving (s : Loaded) : Prop :=
  s.cancelRequested = true ∨ s.worker.isEnded = true ∨ ∃ j, s.worker = .finishing j true

/-- The worker is in the call for a job, or will get to it. -/
def Loaded.Answers (s : Loaded) (j : ℕ) : Prop :=
  s.worker.serving = some j ∨ ¬ s.Leaving ∧ j ∈ ahead s.queue

namespace ModelManager

variable {cfg : Config} {m u : ModelManager}

/-- A worker that has been asked to end stays so. -/
def Urged (m u : ModelManager) : Prop :=
  ∀ (b : ℕ) (s : Loaded), m.slots[b]? = some s → s.cancelRequested = true →
    ∃ s' : Loaded, u.slots[b]? = some s' ∧ s'.cancelRequested = true

namespace Urged

theorem of_slots (h : u.slots = m.slots) : Urged m u := fun b s hs hc =>
  ⟨s, by rw [h]; exact hs, hc⟩

theorem trans {n : ModelManager} (h : Urged m n) (h' : Urged n u) : Urged m u := by
  intro b s hs hc
  rcases h b s hs hc with ⟨s', hs', hc'⟩
  exact h' b s' hs' hc'

theorem change (b : ℕ) (f : Loaded → Loaded)
    (hf : ∀ s, s.cancelRequested = true → (f s).cancelRequested = true) :
    Urged m (m.change b f) := by
  intro i s hs hc
  rw [slots_change, hs]
  by_cases hbi : b = i
  · rw [if_pos hbi]
    exact ⟨f s, rfl, hf s hc⟩
  · rw [if_neg hbi]
    exact ⟨s, rfl, hc⟩

theorem same (b : ℕ) (f : Loaded → Loaded) (hf : ∀ s, (f s).cancelRequested = s.cancelRequested) :
    Urged m (m.change b f) := change b f fun s hc => (hf s).trans hc

theorem load (r : Request) : Urged m (m.load cfg r) := fun _ s hs hc =>
  ⟨s, (List.getElem?_append_left (List.getElem?_eq_some_iff.mp hs).1).trans hs, hc⟩

theorem submit (b : ℕ) (r : Request) : Urged m (m.submit cfg b r) := by
  unfold ModelManager.submit
  split
  · split
    · exact of_slots rfl
    · have hput : Urged m (m.change b fun s =>
          { s with queue := s.queue ++ [.item m.jobs.length] }) := same b _ fun _ => rfl
      exact hput
  · exact of_slots rfl

theorem beginUnload (k : ℕ) (key : String) (b : ℕ) (after : Then) :
    Urged m (m.beginUnload k key b after) := by
  have hchange : Urged m (m.change b fun s => { s with state := .unloading, timer := false }) :=
    same b _ fun _ => rfl
  exact hchange

theorem sweep (k : ℕ) (targets : List (String × ℕ)) : Urged m (m.sweep k targets) := by
  cases targets with
  | nil => exact of_slots rfl
  | cons e rest => exact beginUnload k e.1 e.2 (.next rest)

theorem fail (k : ℕ) (after : Then) : Urged m (m.fail k after) := by
  cases after <;> exact of_slots rfl

theorem loadOrEvict (k : ℕ) (r : Request) (loads : Bool) :
    Urged m (m.loadOrEvict cfg k r loads) := by
  unfold ModelManager.loadOrEvict
  split
  · split
    · exact of_slots rfl
    · exact beginUnload k _ _ _
  · split
    · exact (of_slots (u := m.leave k r) rfl).trans ((load r).trans (submit _ r))
    · exact of_slots rfl

theorem proceed (k : ℕ) (loads : Bool) (after : Then) :
    Urged m (m.proceed cfg k loads after) := by
  cases after with
  | load r => exact loadOrEvict k r loads
  | next rest => exact sweep k rest
  | stop => exact of_slots rfl

theorem cancelWorker (b : ℕ) : Urged m (m.cancelWorker b) :=
  change b _ fun s hc => by rw [hc]; rfl

theorem taskMove {k : ℕ} {e : TaskEvent} (h : TaskMove cfg m k e u) : Urged m u := by
  have hreset : ∀ (n : ModelManager) (b : ℕ), n.slots = m.slots → Urged m (n.resetIdle b) :=
    fun n b hn => (of_slots (u := n) hn).trans (same b _ fun _ => rfl)
  cases h with
  | found r b _ _ => 
      exact (hreset (m.setLoaded (m.loaded.moveToEnd r.cacheKey)) b rfl).trans (submit b r)
  | refound r b _ _ _ => exact (hreset (m.setWork k none) b rfl).trans (submit b r)
  | load r loads _ _ =>
      exact (of_slots (u := m.setLock r.cacheKey (some k)) rfl).trans (loadOrEvict k r loads)
  | forceUnload tenant modelId _ => exact sweep k _
  | shutdown _ => exact (of_slots (u := { m with closing := true }) rfl).trans (sweep k _)
  | fire b _ _ _ =>
      have hfired : Urged m (m.change b fun s => { s with timer := false }) := same b _ fun _ => rfl
      exact hfired
  | offload b s _ _ => exact beginUnload k s.cacheKey b .stop
  | put v after _ =>
      have hput : Urged m (m.change v.slot fun s => { s with queue := s.queue ++ [.stop] }) :=
        same v.slot _ fun _ => rfl
      exact hput
  | timeout v after _ => exact cancelWorker v.slot
  | close v after loads _ _ _ _ _ =>
      have hclose : Urged m (m.change v.slot fun s => { s with closed := true }) :=
        same v.slot _ fun _ => rfl
      have hclosed : Urged m (m.close v) := hclose
      exact hclosed.trans (proceed k loads after)
  | abort v after _ => exact fail k after
  | unput v after _ => exact fail k after
  | cancel v after _ => exact cancelWorker v.slot
  | _ => exact of_slots rfl

end Urged

/-- A worker takes only while it has not been asked to end. -/
theorem free_of_take {b : ℕ} {s : Loaded} (h : m.workerStep b .take = some u)
    (hs : m.slots[b]? = some s) : s.cancelRequested = false := by
  unfold ModelManager.workerStep at h
  rw [hs, Option.bind_eq_bind, Option.bind_some] at h
  by_contra hc
  rw [Bool.not_eq_false] at hc
  simp [hc] at h

/-- A job that is unresolved and that the worker of its slot will not get to. -/
def Passed (m : ModelManager) (j : ℕ) : Prop :=
  ∃ job : Job, m.jobs[j]? = some job ∧ job.pending = true ∧
    ∀ s, m.slots[job.slot]? = some s → ¬ s.Answers j

/-- What a step of its worker does to a slot that will not get to a job. -/
theorem not_answers_workerStep {b j : ℕ} {s s' : Loaded} {e : WorkerEvent} (h : ¬ s.Answers j)
    (hs : m.slots[b]? = some s) (hstep : m.workerStep b e = some u)
    (hs' : u.slots[b]? = some s') : ¬ s'.Answers j := by
  rcases workerMove_of_step hstep with ⟨s₀, hs₀, hmove⟩
  rw [hs] at hs₀
  rw [← Option.some.inj hs₀] at hmove
  have hserving : s.worker.serving ≠ some j := fun hc => h (Or.inl hc)
  have hleaving : s.Leaving ∨ j ∉ ahead s.queue := by
    by_contra hc
    rw [not_or, not_not] at hc
    exact h (Or.inr hc)
  have hself : ∀ {g : Loaded → Loaded}, u.slots = m.slots.modify b g → s' = g s := by
    intro g hslots
    rw [hslots, List.getElem?_modify, hs] at hs'
    simpa using hs'.symm
  -- A worker that goes on with its queue as it is, and still leaves if it did.
  have hgo : ∀ {g : Loaded → Loaded}, u.slots = m.slots.modify b g →
      (g s).worker.isCalling = false → (g s).queue = s.queue → (s.Leaving → (g s).Leaving) →
      ¬ s'.Answers j := by
    intro g hslots hw hqueue hleaves hanswers
    rw [hself hslots] at hanswers
    rcases hanswers with hat | ⟨hstays, hmem⟩
    · rw [Worker.serving_of_not_calling hw] at hat
      exact absurd hat nofun
    · rw [hqueue] at hmem
      exact hleaving.elim (fun hl => hstays (hleaves hl)) (fun hnot => hnot hmem)
  -- One that is at a stream nobody has ended leaves only if it has been asked to.
  have hasked : ∀ {t : Loaded}, s.worker.isEnded = false →
      (∀ i, s.worker ≠ .finishing i true) → t.cancelRequested = s.cancelRequested →
      s.Leaving → t.Leaving := by
    intro t hlive hwhole hsame hl
    rcases hl with hreq | hended | ⟨i, hi⟩
    · exact Or.inl (hsame.trans hreq)
    · rw [hlive] at hended
      exact absurd hended nofun
    · exact absurd hi (hwhole i)
  have htwice : ∀ f g : Loaded → Loaded,
      (m.slots.modify b f).modify b g = m.slots.modify b (g ∘ f) :=
    fun f g => List.modify_modify_eq _ _ _ _
  cases hmove with
  | leave rest hworker hqueue =>
      rw [hself rfl]
      rintro (hat | ⟨hstays, _⟩)
      · exact absurd hat nofun
      · exact hstays (Or.inr (Or.inl rfl))
  | begin i rest hworker hqueue =>
      -- The worker takes what is first, and it is not leaving.
      have hstays : ¬ s.Leaving := by
        rintro (hreq | hended | ⟨k, hk⟩)
        · rw [free_of_take hstep hs] at hreq
          exact absurd hreq nofun
        · rw [hworker] at hended
          exact absurd hended nofun
        · rw [hworker] at hk
          exact absurd hk nofun
      have hnot : j ∉ ahead s.queue := hleaving.resolve_left hstays
      rw [hqueue, ahead_item, List.mem_cons, not_or] at hnot
      rw [hself (g := fun s => { s with queue := rest, worker := .calling i m.calls.length }) rfl]
      rintro (hat | ⟨_, hmem⟩)
      · exact hnot.1 (Option.some.inj hat).symm
      · exact hnot.2 hmem
  | answer ok i c job hworker _ =>
      rcases answer_cases (m := (m.changeCall c (.ended .done)).setBusy false) b i job ok with
        ⟨g, more, hslots, _, _, hg⟩
      refine hgo hslots (hg s).1.2.2.1 (hg s).1.1 ?_
      exact hasked (by rw [hworker]; rfl) (by rw [hworker]; exact fun _ => nofun) (hg s).1.2.1
  | chunk i c slot hworker _ =>
      exact hgo (g := fun s => { s with worker := .putting i }) rfl rfl rfl
        (hasked (by rw [hworker]; rfl) (by rw [hworker]; exact fun _ => nofun) rfl)
  | last i c slot result hworker _ =>
      exact hgo (g := fun s => { s with worker := .finishing i false }) rfl rfl rfl
        (hasked (by rw [hworker]; rfl) (by rw [hworker]; exact fun _ => nofun) rfl)
  | put i job hworker _ =>
      rcases pump_cases
        (m := m.changeJob i fun job => { job with buffered := job.buffered + 1 }) b i
        job.cancelled with ⟨w, more, hslots, _, _, hw, _, _⟩
      exact hgo hslots hw rfl
        (hasked (by rw [hworker]; rfl) (by rw [hworker]; exact fun _ => nofun) rfl)
  | finish i cancelled hworker =>
      cases cancelled with
      | true => exact hgo (htwice _ _) rfl rfl fun _ => Or.inr (Or.inl rfl)
      | false =>
          refine hgo (htwice _ _) rfl rfl (hasked (by rw [hworker]; rfl) ?_ rfl)
          rw [hworker]
          exact fun _ hc => absurd (Worker.finishing.inj hc).2 Bool.false_ne_true
  | cease _ => exact hgo (htwice _ _) rfl rfl fun _ => Or.inr (Or.inl rfl)
  | unput i _ => exact hgo (htwice _ _) rfl rfl fun _ => Or.inr (Or.inr ⟨i, rfl⟩)
  | drop i c slot _ _ => exact hgo (htwice _ _) rfl rfl fun _ => Or.inr (Or.inr ⟨i, rfl⟩)
  | abandon i c _ _ => exact hgo (htwice _ _) rfl rfl fun _ => Or.inr (Or.inr ⟨i, rfl⟩)

/-- Nor does a task let the worker get to it: what it puts in the queue is new. -/
theorem not_answers_taskStep {k b j : ℕ} {s' : Loaded} {e : TaskEvent}
    (h : ∀ s, m.slots[b]? = some s → ¬ s.Answers j) (hj : j ∈ m.submitted b)
    (hstep : m.taskStep cfg k e = some u) (hs' : u.slots[b]? = some s') : ¬ s'.Answers j := by
  have hmove := taskMove_of_step hstep
  rcases conserves_taskMove (b := b) hmove with ⟨new, hqueue, hsubmitted⟩
  -- Nothing is submitted twice.
  have hnew : j ∉ new := by
    intro hmem
    have hnodup : (u.submitted b).Nodup := List.nodup_findIdxs
    rw [hsubmitted, List.nodup_append] at hnodup
    exact hnodup.2.2 j hj j hmem rfl
  rw [List.nil_append, queued_of_slot hs'] at hqueue
  rcases (tends_of_step hstep).kept b s' hs' with
    ⟨s, hs, hworker, _, more, hmore, _⟩ | ⟨hle, hworker, _⟩
  · rw [queued_of_slot hs, hmore, letters_append] at hqueue
    have hletters : letters more = new := List.append_cancel_left hqueue
    rintro (hat | ⟨hstays, hmem⟩)
    · exact h s hs (Or.inl (by rw [← hworker]; exact hat))
    · refine h s hs (Or.inr ⟨fun hleaving => hstays ?_, ?_⟩)
      · rcases hleaving with hreq | hended | ⟨i, hi⟩
        · rcases Urged.taskMove hmove b s hs hreq with ⟨s'', hs'', hreq'⟩
          rw [hs'] at hs''
          rw [Option.some.inj hs'']
          exact Or.inl hreq'
        · exact Or.inr (Or.inl (by rw [hworker]; exact hended))
        · exact Or.inr (Or.inr ⟨i, by rw [hworker]; exact hi⟩)
      · rw [hmore] at hmem
        exact (mem_ahead_append hmem).resolve_right (by rw [hletters]; exact hnew)
  · rw [queued_of_no_slot (List.getElem?_eq_none_iff.mpr hle), List.nil_append] at hqueue
    rintro (hat | ⟨_, hmem⟩)
    · rw [hworker] at hat
      exact absurd hat nofun
    · exact hnew (by rw [← hqueue]; exact mem_letters_of_mem_ahead hmem)

/-- Nobody but its own worker, in its call for it, and its caller resolve a job. -/
theorem pending_of_step {e : Event} {j : ℕ} {job : Job} (hplaced : Placed m)
    (hstep : m.step cfg e = some u) (hjob : m.jobs[j]? = some job) (hpending : job.pending = true)
    (he : e ≠ .client j .giveUp)
    (hserving : ∀ s, m.slots[job.slot]? = some s → s.worker.serving ≠ some j) :
    ∃ job' : Job, u.jobs[j]? = some job' ∧ job'.pending = true ∧ job'.slot = job.slot := by
  have hsame : u.jobs = m.jobs →
      ∃ job' : Job, u.jobs[j]? = some job' ∧ job'.pending = true ∧ job'.slot = job.slot :=
    fun hjobs => ⟨job, by rw [hjobs]; exact hjob, hpending, rfl⟩
  -- A change of one job, which leaves this one unresolved.
  have hchanged : ∀ (i : ℕ) (f : Job → Job), u.jobs = (m.changeJob i f).jobs →
      (∀ job, (f job).slot = job.slot) → (i = j → (f job).pending = true) →
      ∃ job' : Job, u.jobs[j]? = some job' ∧ job'.pending = true ∧ job'.slot = job.slot := by
    intro i f hjobs hslot hf
    rw [hjobs, jobs_changeJob, hjob]
    by_cases hij : i = j
    · rw [if_pos hij]
      exact ⟨f job, rfl, hf hij, hslot job⟩
    · rw [if_neg hij]
      exact ⟨job, rfl, hpending, rfl⟩
  have hon := hstep
  unfold ModelManager.step at hon
  split at hon
  · exact absurd hon nofun
  cases e with
  | worker b e =>
      rcases workerMove_of_step hon with ⟨s, hs, hmove⟩
      cases hmove with
      | answer ok i c job' hworker _ =>
          -- The job that is answered is one of this slot, and it is another.
          have hij : i ≠ j := by
            rintro rfl
            rcases hplaced b s i hs (Or.inr (by rw [hworker]; rfl)) with ⟨job₀, hjob₀, hslot⟩
            rw [hjob] at hjob₀
            rw [← Option.some.inj hjob₀] at hslot
            exact hserving s (by rw [hslot]; exact hs) (by rw [hworker]; rfl)
          refine hchanged i (fun job => { job with pending := false }) ?_ (fun _ => rfl)
            (fun hc => absurd hc hij)
          unfold ModelManager.answer
          split
          · split
            · unfold ModelManager.pump
              split <;> rfl
            · rfl
          · rfl
      | put i job' _ _ =>
          refine hchanged i (fun job => { job with buffered := job.buffered + 1 }) ?_ (fun _ => rfl)
            (fun _ => hpending)
          unfold ModelManager.pump
          split <;> rfl
      | finish i cancelled _ =>
          exact hchanged i (fun job => { job with buffered := job.buffered + 1 }) rfl (fun _ => rfl)
            (fun _ => hpending)
      | _ => exact hsame rfl
  | thread c e =>
      cases threadMove_of_step hon with
      | start _ _ => exact hsame rfl
      | stop _ _ _ => exact hsame rfl
  | client i e =>
      simp only [clientStep] at hon
      rcases Option.bind_eq_some_iff.mp hon with ⟨job₀, _, hon⟩
      cases e with
      | read =>
          dsimp only at hon
          split at hon
          · exact hchanged i _ (congrArg jobs (Option.some.inj hon).symm) (fun _ => rfl)
              (fun _ => hpending)
          · exact absurd hon (by simp)
      | cancel =>
          dsimp only at hon
          split at hon
          · exact hchanged i _ (congrArg jobs (Option.some.inj hon).symm) (fun _ => rfl)
              (fun _ => hpending)
          · exact absurd hon (by simp)
      | giveUp =>
          exact hchanged i _ (congrArg jobs (Option.some.inj hon).symm) (fun _ => rfl)
            (fun hij => absurd (by rw [hij]) he)
  | task k e =>
      rcases (tends_of_step hon).jobs with ⟨new, hjobs, _⟩
      refine ⟨job, ?_, hpending, rfl⟩
      rw [hjobs, List.getElem?_append_left (List.getElem?_eq_some_iff.mp hjob).1]
      exact hjob

/-- **What is passed over stays so**, as long as its caller does not give up. -/
theorem Passed.step {e : Event} {j : ℕ} (h : Passed m j) (hplaced : Placed m)
    (he : e ≠ .client j .giveUp) (hstep : m.step cfg e = some u) : Passed u j := by
  rcases h with ⟨job, hjob, hpending, hpassed⟩
  rcases pending_of_step hplaced hstep hjob hpending he
    (fun s hs hc => hpassed s hs (Or.inl hc)) with ⟨job', hjob', hpending', hslot⟩
  refine ⟨job', hjob', hpending', ?_⟩
  rw [hslot]
  have hon := hstep
  unfold ModelManager.step at hon
  split at hon
  · exact absurd hon nofun
  cases e with
  | worker b e =>
      intro s' hs'
      rcases workerMove_of_step hon with ⟨s, hs, hmove⟩
      by_cases hb : b = job.slot
      · rw [hb] at hon hs
        exact not_answers_workerStep (hpassed s hs) hs hon hs'
      · rcases slots_of_workerMove hmove with ⟨g, hslots, _⟩
        have hother : u.slots[job.slot]? = m.slots[job.slot]? := by
          rw [hslots, List.getElem?_modify]
          simp [hb]
        exact hpassed s' (hother.symm.trans hs')
  | thread c e =>
      cases threadMove_of_step hon with
      | start _ _ => exact hpassed
      | stop _ _ _ => exact hpassed
  | client i e =>
      cases clientMove_of_step hon with
      | change f _ => exact hpassed
  | task k e =>
      intro s' hs'
      refine not_answers_taskStep hpassed ?_ hon hs'
      rw [submitted, List.mem_findIdxs_iff_exists_getElem_pos]
      rcases List.getElem?_eq_some_iff.mp hjob with ⟨hlt, hget⟩
      exact ⟨hlt, by rw [hget]; exact decide_eq_true rfl⟩

/-- The future of a job is resolved. -/
def Answered (m : ModelManager) (j : ℕ) : Prop :=
  ∃ job : Job, m.jobs[j]? = some job ∧ job.pending = false

theorem Passed.not_answered {j : ℕ} (h : Passed m j) : ¬ Answered m j := by
  rcases h with ⟨job, hjob, hpending, _⟩
  rintro ⟨job', hjob', hdone⟩
  rw [hjob] at hjob'
  rw [← Option.some.inj hjob', hpending] at hdone
  exact absurd hdone nofun

end ModelManager

end Models

end SecureLlm
