import SecureLlm.Models.Steps

/-!
# What Tasks Do to Slots

A task never moves a worker. All it does to slots is to put jobs and stops at the
end of their queues, to load new ones, and to ask that a worker be cancelled,
which only an unload does that waits for the worker.

So whatever is true of a slot because of where its worker is and of what is first
in its queue stays true when a task takes a step.

## Main definitions

* `ModelManager.Posted`: Jobs that were submitted to a slot.
* `ModelManager.Tends`: What a task does to slots and jobs.
* `ModelManager.Begins`: A task that has not put a stop.
* `ModelManager.Cancels`: The workers a step asks to be cancelled.

## Theorems

* `ModelManager.tends_of_step`: A step of a task tends to the slots.
* `ModelManager.unload_of_step`: Unloads that wait have put their stop.
-/

namespace SecureLlm

open Library

namespace Models

namespace ModelManager

variable {cfg : Config} {m n u : ModelManager} {c : ℕ → Prop}

/-- All jobs among these letters were submitted to the slot. -/
def Posted (m : ModelManager) (b : ℕ) (letters : List (Mail ℕ)) : Prop :=
  ∀ j, .item j ∈ letters → ∃ job : Job, m.jobs[j]? = some job ∧ job.slot = b

/-- Jobs have been added, and each slot has its worker where it was and more in its
    queue, or is new. Only the workers of some slots are asked to end. -/
structure Tends (c : ℕ → Prop) (m u : ModelManager) : Prop where
  jobs : ∃ new : List Job, u.jobs = m.jobs ++ new ∧
    ∀ job ∈ new, job.pending = true ∧ job.cancelled = false ∧ job.buffered = 0
  calls : u.calls = m.calls
  length_le : m.slots.length ≤ u.slots.length
  kept : ∀ (b : ℕ) (s' : Loaded), u.slots[b]? = some s' →
    (∃ s : Loaded, m.slots[b]? = some s ∧ s'.worker = s.worker ∧
      (s'.cancelRequested = true → s.cancelRequested = true ∨ c b) ∧
      ∃ more, s'.queue = s.queue ++ more ∧ Posted u b more) ∨
    m.slots.length ≤ b ∧ s'.worker = .waiting ∧ s'.cancelRequested = false ∧ Posted u b s'.queue

/-- The workers a step of a task asks to be cancelled are those of unloads that
    wait for them. -/
def Cancels (m : ModelManager) (k : ℕ) (e : TaskEvent) (b : ℕ) : Prop :=
  (e = .timeout ∨ e = .cancel) ∧
    ∃ v after, m.work k = some (.unload v after) ∧ v.slot = b ∧ v.phase ≠ .putting

/-- Only this task has changed what it is at, and it has not put a stop. -/
def Begins (k : ℕ) (m u : ModelManager) : Prop :=
  ∃ w, u.work = Function.update m.work k w ∧
    ∀ v after, w = some (.unload v after) → v.phase = .putting

theorem posted_nil (b : ℕ) : Posted m b [] := fun _ hj => absurd hj List.not_mem_nil

theorem Posted.grow {b : ℕ} {letters : List (Mail ℕ)} (h : Posted m b letters)
    (hjobs : ∃ new, u.jobs = m.jobs ++ new) : Posted u b letters := by
  intro j hj
  rcases h j hj with ⟨job, hjob, hslot⟩
  rcases hjobs with ⟨new, hnew⟩
  refine ⟨job, ?_, hslot⟩
  rw [hnew, List.getElem?_append_left (List.getElem?_eq_some_iff.mp hjob).1]
  exact hjob

theorem Posted.append {b : ℕ} {letters more : List (Mail ℕ)} (h : Posted m b letters)
    (hmore : Posted m b more) : Posted m b (letters ++ more) := by
  intro j hj
  exact (List.mem_append.mp hj).elim (h j) (hmore j)

namespace Tends

theorem of_slots (hslots : u.slots = m.slots) (hjobs : u.jobs = m.jobs)
    (hcalls : u.calls = m.calls) : Tends c m u where
  jobs := ⟨[], by rw [hjobs, List.append_nil], nofun⟩
  calls := hcalls
  length_le := Nat.le_of_eq (congrArg List.length hslots.symm)
  kept b s' hs' := by
    rw [hslots] at hs'
    exact Or.inl ⟨s', hs', rfl, Or.inl, [], (List.append_nil _).symm, posted_nil b⟩

/-- One after the other, if the second cancels no worker. -/
theorem trans (h : Tends c m n) (h' : Tends (fun _ => False) n u) : Tends c m u where
  jobs := by
    rcases h.jobs with ⟨new, hnew, hfresh⟩
    rcases h'.jobs with ⟨new', hnew', hfresh'⟩
    refine ⟨new ++ new', by rw [hnew', hnew, List.append_assoc], fun job hjob => ?_⟩
    exact (List.mem_append.mp hjob).elim (hfresh job) (hfresh' job)
  calls := h'.calls.trans h.calls
  length_le := Nat.le_trans h.length_le h'.length_le
  kept b s'' hs'' := by
    have hgrow : ∃ new, u.jobs = n.jobs ++ new := h'.jobs.imp fun _ hnew => hnew.1
    rcases h'.kept b s'' hs'' with ⟨s', hs', hworker', hcancel', more', hqueue', hposted'⟩ | hnew
    · have hcancelled : s''.cancelRequested = true → s'.cancelRequested = true :=
        fun hr => (hcancel' hr).elim id False.elim
      rcases h.kept b s' hs' with
        ⟨s, hs, hworker, hcancel, more, hqueue, hposted⟩ | ⟨hlength, hw, hc, hp⟩
      · refine Or.inl ⟨s, hs, hworker'.trans hworker, fun hr => hcancel (hcancelled hr),
          more ++ more', ?_, (hposted.grow hgrow).append hposted'⟩
        rw [hqueue', hqueue, List.append_assoc]
      · refine Or.inr ⟨hlength, hworker'.trans hw, ?_, ?_⟩
        · by_contra hr
          rw [Bool.not_eq_false] at hr
          rw [hcancelled hr] at hc
          exact absurd hc nofun
        · rw [hqueue']
          exact (hp.grow hgrow).append hposted'
    · exact Or.inr ⟨Nat.le_trans h.length_le hnew.1, hnew.2⟩

/-- A slot changes, but not where its worker is, and a stop may be put last. -/
theorem change (b : ℕ) (f : Loaded → Loaded) (hworker : ∀ s, (f s).worker = s.worker)
    (hqueue : ∀ s, (f s).queue = s.queue ∨ (f s).queue = s.queue ++ [.stop])
    (hcancel : ∀ s, (f s).cancelRequested = true → s.cancelRequested = true ∨ c b) :
    Tends c m (m.change b f) where
  jobs := ⟨[], (List.append_nil _).symm, nofun⟩
  calls := rfl
  length_le := Nat.le_of_eq (List.length_modify _ _ _).symm
  kept i s' hs' := by
    refine Or.inl ?_
    rw [slots_change] at hs'
    by_cases hbi : b = i
    · rw [if_pos hbi] at hs'
      rcases Option.map_eq_some_iff.mp hs' with ⟨s, hs, rfl⟩
      rw [← hbi]
      refine ⟨s, by rw [hbi]; exact hs, hworker s, hcancel s, ?_⟩
      rcases hqueue s with hsame | hstop
      · exact ⟨[], by rw [hsame, List.append_nil], posted_nil b⟩
      · exact ⟨[.stop], hstop, fun j hj => absurd (List.mem_singleton.mp hj) nofun⟩
    · rw [if_neg hbi] at hs'
      exact ⟨s', hs', rfl, Or.inl, [], (List.append_nil _).symm, posted_nil i⟩

/-- A slot changes in nothing that matters to its worker. -/
theorem same (b : ℕ) (f : Loaded → Loaded)
    (hf : ∀ s, (f s).worker = s.worker ∧ (f s).queue = s.queue ∧
      (f s).cancelRequested = s.cancelRequested) : Tends c m (m.change b f) :=
  change b f (fun s => (hf s).1) (fun s => Or.inl (hf s).2.1)
    (fun s hr => Or.inl (by rw [← (hf s).2.2]; exact hr))

theorem setWork (k : ℕ) (w : Option Work) : Tends c m (m.setWork k w) := of_slots rfl rfl rfl

theorem resetIdle (b : ℕ) : Tends c m (m.resetIdle b) := same b _ fun _ => ⟨rfl, rfl, rfl⟩

theorem beginUnload (k : ℕ) (key : String) (b : ℕ) (after : Then) :
    Tends c m (m.beginUnload k key b after) := by
  have hmark : Tends c m (m.change b fun s => { s with state := .unloading, timer := false }) :=
    same b _ fun _ => ⟨rfl, rfl, rfl⟩
  exact hmark.trans (setWork k _)

theorem sweep (k : ℕ) (targets : List (String × ℕ)) : Tends c m (m.sweep k targets) := by
  cases targets with
  | nil => exact setWork k none
  | cons e rest => exact beginUnload k e.1 e.2 (.next rest)

theorem fail (k : ℕ) (after : Then) : Tends c m (m.fail k after) := by
  cases after with
  | load r => exact of_slots rfl rfl rfl
  | next rest => exact setWork k none
  | stop => exact setWork k none

theorem cancelWorker (b : ℕ) (hc : c b) : Tends c m (m.cancelWorker b) :=
  change b _ (fun _ => rfl) (fun _ => Or.inl rfl) (fun _ _ => Or.inr hc)

theorem load (r : Request) : Tends c m (m.load cfg r) where
  jobs := ⟨[], (List.append_nil _).symm, nofun⟩
  calls := rfl
  length_le := by
    rw [ModelManager.load, List.length_append]
    exact Nat.le_add_right _ _
  kept b s' hs' := by
    rcases getElem?_concat_cases hs' with hold | ⟨hb, rfl⟩
    · exact Or.inl ⟨s', hold, rfl, Or.inl, [], (List.append_nil _).symm, posted_nil b⟩
    · exact Or.inr ⟨Nat.le_of_eq hb.symm, rfl, rfl, posted_nil b⟩

/-- A job is submitted. -/
theorem submit (b : ℕ) (r : Request) : Tends c m (m.submit cfg b r) := by
  unfold ModelManager.submit
  split
  · rename_i kind stream s₀ _ _
    by_cases hfull : cfg.full s₀.queue = true
    · rw [if_pos hfull]
      exact of_slots rfl rfl rfl
    · rw [if_neg hfull]
      refine ⟨⟨[⟨b, kind, stream, true, false, 0⟩], rfl, fun job hjob => ?_⟩, rfl, ?_, ?_⟩
      · rw [List.mem_singleton.mp hjob]
        exact ⟨rfl, rfl, rfl⟩
      · exact Nat.le_of_eq (List.length_modify _ _ _).symm
      · intro i s' hs'
        refine Or.inl ?_
        have hs := (slots_change m b i _).symm.trans hs'
        by_cases hbi : b = i
        · rw [if_pos hbi] at hs
          rcases Option.map_eq_some_iff.mp hs with ⟨s, hold, rfl⟩
          refine ⟨s, hold, rfl, Or.inl, [.item m.jobs.length], rfl, fun j hj => ?_⟩
          have hnew : j = m.jobs.length := by simpa using hj
          rw [hnew, ← hbi]
          exact ⟨_, List.getElem?_concat_length, rfl⟩
        · rw [if_neg hbi] at hs
          exact ⟨s', hs, rfl, Or.inl, [], (List.append_nil _).symm, posted_nil i⟩
  · exact of_slots rfl rfl rfl

theorem loadOrEvict (k : ℕ) (r : Request) (loads : Bool) :
    Tends c m (m.loadOrEvict cfg k r loads) := by
  have hleave : Tends c m (m.leave k r) := of_slots rfl rfl rfl
  unfold ModelManager.loadOrEvict
  split
  · split
    · exact hleave
    · exact beginUnload k _ _ _
  · split
    · exact (hleave.trans (load r)).trans (submit _ r)
    · exact hleave

theorem proceed (k : ℕ) (loads : Bool) (after : Then) :
    Tends c m (m.proceed cfg k loads after) := by
  cases after with
  | load r => exact loadOrEvict k r loads
  | next rest => exact sweep k rest
  | stop => exact setWork k none

end Tends

/-- A wait that times out had begun. -/
theorem phase_of_timeout {k : ℕ} {v : Unload} {after : Then}
    (h : m.taskStep cfg k .timeout = some u) (hwork : m.work k = some (.unload v after)) :
    v.phase = .waiting := by
  unfold taskStep at h
  simp only [hwork] at h
  by_contra hne
  rw [if_neg hne] at h
  exact absurd h nofun

/-- An unload that is cancelled before it has put its stop is left at once. -/
theorem fail_of_cancel {k : ℕ} {v : Unload} {after : Then} (h : m.taskStep cfg k .cancel = some u)
    (hwork : m.work k = some (.unload v after)) (hphase : v.phase = .putting) :
    u = m.fail k after := by
  unfold taskStep at h
  simp only [hwork, hphase] at h
  exact (Option.some.inj h).symm

/-- **What a task does.** -/
theorem tends_of_step {k : ℕ} {e : TaskEvent} (h : m.taskStep cfg k e = some u) :
    Tends (Cancels m k e) m u := by
  cases taskMove_of_step h with
  | found r b _ _ =>
      have hmoved : Tends (Cancels m k (.request r)) m
          (m.setLoaded (m.loaded.moveToEnd r.cacheKey)) := .of_slots rfl rfl rfl
      exact (hmoved.trans (.resetIdle b)).trans (.submit b r)
  | wait r _ _ => exact .setWork k _
  | refound r b loads _ _ =>
      exact ((Tends.setWork k none).trans (.resetIdle b)).trans (.submit b r)
  | load r loads _ _ =>
      have hlock : Tends (Cancels m k (.acquire loads)) m (m.setLock r.cacheKey (some k)) :=
        .of_slots rfl rfl rfl
      exact hlock.trans (.loadOrEvict k r loads)
  | forceUnload tenant modelId _ => exact .sweep k _
  | shutdown _ =>
      have hclosing : Tends (Cancels m k .shutdown) m { m with closing := true } :=
        .of_slots rfl rfl rfl
      exact hclosing.trans (.sweep k _)
  | fire b s _ _ =>
      have hfired : Tends (Cancels m k (.fire b)) m
          (m.change b fun s => { s with timer := false }) := .same b _ fun _ => ⟨rfl, rfl, rfl⟩
      exact hfired.trans (.setWork k _)
  | skip b _ => exact .setWork k none
  | offload b s _ _ => exact .beginUnload k _ b .stop
  | put v after _ =>
      have hput : Tends (Cancels m k .put) m
          (m.change v.slot fun s => { s with queue := s.queue ++ [.stop] }) :=
        .change v.slot _ (fun _ => rfl) (fun _ => Or.inr rfl) (fun _ hr => Or.inl hr)
      exact hput.trans (.setWork k _)
  | timeout v after hwork =>
      -- These are the two ways to cancel a worker.
      have hc : Cancels m k .timeout v.slot :=
        ⟨Or.inl rfl, v, after, hwork, rfl, by rw [phase_of_timeout h hwork]; exact nofun⟩
      exact (Tends.cancelWorker v.slot hc).trans (.setWork k _)
  | close v after loads s cancelled _ _ _ =>
      have hchange : Tends (Cancels m k (.close loads)) m
          (m.change v.slot fun s => { s with closed := true }) :=
        .same v.slot _ fun _ => ⟨rfl, rfl, rfl⟩
      have hclosed : Tends (Cancels m k (.close loads)) m (m.close v) :=
        hchange.trans (.of_slots rfl rfl rfl)
      exact hclosed.trans (.proceed k loads after)
  | abort v after _ => exact .fail k after
  | unwait _ => exact .setWork k none
  | unput v after _ => exact .fail k after
  | cancel v after hwork =>
      -- A task at its put has no worker to cancel yet.
      by_cases hphase : v.phase = .putting
      · rw [fail_of_cancel h hwork hphase]
        exact .fail k after
      · have hc : Cancels m k .cancel v.slot := ⟨Or.inr rfl, v, after, hwork, rfl, hphase⟩
        exact (Tends.cancelWorker v.slot hc).trans (.setWork k _)

/-! ## What tasks are at -/

namespace Begins

theorem of_work {k : ℕ} {w : Option Work} (hwork : u.work = Function.update m.work k w)
    (hw : ∀ v after, w = some (.unload v after) → v.phase = .putting) : Begins k m u :=
  ⟨w, hwork, hw⟩

theorem leaves {k : ℕ} (hwork : u.work = Function.update m.work k none) : Begins k m u :=
  of_work hwork nofun

theorem beginUnload (k : ℕ) (key : String) (b : ℕ) (after : Then) :
    Begins k m (m.beginUnload k key b after) :=
  of_work rfl fun v after' hv => by
    rcases Work.unload.inj (Option.some.inj hv) with ⟨hv, _⟩
    rw [← hv]

theorem sweep (k : ℕ) (targets : List (String × ℕ)) : Begins k m (m.sweep k targets) := by
  cases targets with
  | nil => exact leaves rfl
  | cons e rest => exact beginUnload k e.1 e.2 (.next rest)

theorem fail (k : ℕ) (after : Then) : Begins k m (m.fail k after) := by
  cases after with
  | load r => exact leaves rfl
  | next rest => exact leaves rfl
  | stop => exact leaves rfl

theorem submit {k : ℕ} (h : Begins k m n) (b : ℕ) (r : Request) :
    Begins k m (n.submit cfg b r) := by
  unfold ModelManager.submit
  split
  · split
    · exact h
    · exact h
  · exact h

theorem loadOrEvict (k : ℕ) (r : Request) (loads : Bool) :
    Begins k m (m.loadOrEvict cfg k r loads) := by
  have hleave : Begins k m (m.leave k r) := leaves rfl
  unfold ModelManager.loadOrEvict
  split
  · split
    · exact hleave
    · exact beginUnload k _ _ _
  · split
    · have hload : Begins k m ((m.leave k r).load cfg r) := hleave
      exact hload.submit _ r
    · exact hleave

theorem proceed (k : ℕ) (loads : Bool) (after : Then) :
    Begins k m (m.proceed cfg k loads after) := by
  cases after with
  | load r => exact loadOrEvict k r loads
  | next rest => exact sweep k rest
  | stop => exact leaves rfl

end Begins

/-- **Unloads that wait.** An unload that has put its stop had done so before, or
    does so now. -/
theorem unload_of_step {k i : ℕ} {e : TaskEvent} {v : Unload} {after : Then}
    (h : m.taskStep cfg k e = some u) (hwork : u.work i = some (.unload v after))
    (hphase : v.phase ≠ .putting) :
    ∃ v', m.work i = some (.unload v' after) ∧ v'.slot = v.slot ∧
      (v'.phase ≠ .putting ∨ i = k ∧ e = .put) := by
  -- A task that begins something has not put a stop.
  have hbegins : Begins k m u → m.work i = some (.unload v after) := by
    rintro ⟨w, hu, hw⟩
    rw [hu, Function.update_apply] at hwork
    split at hwork
    · exact absurd (hw v after hwork) hphase
    · exact hwork
  have hsame : Begins k m u → ∃ v', m.work i = some (.unload v' after) ∧ v'.slot = v.slot ∧
      (v'.phase ≠ .putting ∨ i = k ∧ e = .put) :=
    fun hb => ⟨v, hbegins hb, rfl, Or.inl hphase⟩
  -- One that goes on is the same unload as before.
  have hon : ∀ (v₀ : Unload) (after₀ : Then) (phase : Phase),
      m.work k = some (.unload v₀ after₀) → v₀.phase ≠ .putting ∨ e = .put →
      u.work = Function.update m.work k (some (.unload { v₀ with phase } after₀)) →
      ∃ v', m.work i = some (.unload v' after) ∧ v'.slot = v.slot ∧
        (v'.phase ≠ .putting ∨ i = k ∧ e = .put) := by
    intro v₀ after₀ phase hold hput hu
    rw [hu, Function.update_apply] at hwork
    by_cases hik : i = k
    · rw [if_pos hik] at hwork
      rcases Work.unload.inj (Option.some.inj hwork) with ⟨hv, hafter⟩
      refine ⟨v₀, by rw [hik, hold, hafter], by rw [← hv], hput.imp id fun he => ⟨hik, he⟩⟩
    · rw [if_neg hik] at hwork
      exact ⟨v, hwork, rfl, Or.inl hphase⟩
  cases taskMove_of_step h with
  | found r b hfree _ =>
      refine hsame (Begins.submit ?_ b r)
      exact .leaves (Function.update_eq_self_iff.mpr hfree.symm).symm
  | wait r _ _ => exact hsame (.of_work rfl nofun)
  | refound r b loads _ _ => exact hsame (Begins.submit (.leaves rfl) b r)
  | load r loads _ _ =>
      have hlocked : Begins k (m.setLock r.cacheKey (some k))
          ((m.setLock r.cacheKey (some k)).loadOrEvict cfg k r loads) := .loadOrEvict k r loads
      exact hsame hlocked
  | forceUnload tenant modelId _ => exact hsame (.sweep k _)
  | shutdown _ =>
      have hclosing : Begins k { m with closing := true }
          ({ m with closing := true }.sweep k m.loaded.entries) := .sweep k _
      exact hsame hclosing
  | fire b s _ _ => exact hsame (.of_work rfl nofun)
  | skip b _ => exact hsame (.leaves rfl)
  | offload b s _ _ => exact hsame (.beginUnload k _ b .stop)
  | put v₀ after₀ hold => exact hon v₀ after₀ .waiting hold (Or.inr rfl) rfl
  | timeout v₀ after₀ hold =>
      refine hon v₀ after₀ .timedOut hold (Or.inl ?_) rfl
      rw [phase_of_timeout h hold]
      exact nofun
  | close v₀ after₀ loads s cancelled _ _ _ =>
      have hclosed : Begins k (m.close v₀) ((m.close v₀).proceed cfg k loads after₀) :=
        .proceed k loads after₀
      exact hsame hclosed
  | abort v₀ after₀ _ => exact hsame (.fail k after₀)
  | unwait _ => exact hsame (.leaves rfl)
  | unput v₀ after₀ _ => exact hsame (.fail k after₀)
  | cancel v₀ after₀ hold =>
      by_cases hput : v₀.phase = .putting
      · refine hsame ?_
        rw [fail_of_cancel h hold hput]
        exact .fail k after₀
      · exact hon v₀ after₀ .cancelled hold (Or.inl hput) rfl

end ModelManager

end Models

end SecureLlm
