import Mathlib.Data.List.Basic
import SecureLlm.Library.Recorded
import SecureLlm.Models.Offload

/-!
# The Queues of the Manager

A slot has one queue and one worker. Jobs go in at the end, stops too, and the
worker takes from the front. So the worker is given the jobs of its slot in the
order they were submitted, each of them once, and what it has not been given yet
is what the queue holds. This is so whatever the tasks do: what a task puts in a
queue besides jobs is a stop, and no queue is ever emptied but by its worker.

There are three bounds on what the manager keeps: the slots in its table, the
entries of a queue and the chunks a stream handle buffers.

## Main definitions

* `firstJob`: The job at the front of a queue.
* `ModelManager.takes`: The job a step takes from the queue of a slot.
* `ModelManager.queued`, `ModelManager.submitted`: The jobs in the queue of a
  slot, and those that were submitted to it.
* `ModelManager.worksAt`: The job the worker of a slot is at.
* `ModelManager.Conserves`: A queue before and after a step.
* `ModelManager.Within`: What is bounded.

## Theorems

* `ModelManager.conserves_step`: What a step does to a queue.
* `ModelManager.worksAt_step`: What a worker is at after a step.
* `jobs_taken_in_order`: A worker is given the jobs of its slot in order.
* `ModelManager.Within.step`, `buffers_bounded`: The bounds hold.
-/

namespace SecureLlm

open Library Transition

namespace Models

/-- The job at the front of a queue, if there is one. -/
def firstJob : List (Mail ℕ) → List ℕ
  | .item j :: _ => [j]
  | _ => []

namespace ModelManager

variable (cfg : Config) (m : ModelManager) (b : ℕ)

/-- The jobs in the queue of a slot. -/
def queued : List ℕ :=
  match m.slots[b]? with
  | none => []
  | some s => letters s.queue

/-- The jobs that were submitted to a slot, in that order. -/
def submitted : List ℕ := m.jobs.findIdxs fun job => decide (job.slot = b)

/-- The job the worker of a slot is at. -/
def worksAt : Option ℕ :=
  match m.slots[b]? with
  | none => none
  | some s => s.worker.job

/-- What a step takes from the queue of a slot: a job, if it is the worker's step
    and a job is first. -/
def takes (m : ModelManager) : Event → List ℕ
  | .worker i .take =>
    if i = b then
      match m.slots[b]? with
      | none => []
      | some s => firstJob s.queue
    else []
  | _ => []

variable {cfg m b} {u : ModelManager}

theorem queued_of_slot {s : Loaded} (hs : m.slots[b]? = some s) : m.queued b = letters s.queue := by
  unfold queued
  rw [hs]

theorem queued_of_no_slot (hs : m.slots[b]? = none) : m.queued b = [] := by
  unfold queued
  rw [hs]

theorem worksAt_of_slot {s : Loaded} (hs : m.slots[b]? = some s) : m.worksAt b = s.worker.job := by
  unfold worksAt
  rw [hs]

theorem takes_worker_of_ne {i : ℕ} (e : WorkerEvent) (hi : i ≠ b) :
    m.takes b (.worker i e) = [] := by
  cases e <;> first | rfl | exact if_neg hi

theorem takes_take {s : Loaded} (hs : m.slots[b]? = some s) :
    m.takes b (.worker b .take) = firstJob s.queue := by
  simp only [takes, if_true, hs]

/-- Slots of jobs are all that counts for what was submitted. -/
theorem submitted_congr (h : u.jobs.map Job.slot = m.jobs.map Job.slot) :
    u.submitted b = m.submitted b := by
  have hmap : ∀ n : ModelManager, n.submitted b =
      (n.jobs.map Job.slot).findIdxs fun slot => decide (slot = b) := fun n => by
    rw [List.findIdxs_map]
    rfl
  rw [hmap, hmap, h]

theorem submitted_changeJob (j : ℕ) (f : Job → Job) (hf : ∀ job, (f job).slot = job.slot) :
    (m.changeJob j f).submitted b = m.submitted b := by
  refine submitted_congr (List.ext_getElem? fun i => ?_)
  rw [List.getElem?_map, List.getElem?_map, jobs_changeJob]
  by_cases hji : j = i
  · rw [if_pos hji]
    cases m.jobs[i]? with
    | none => rfl
    | some job => exact congrArg some (hf job)
  · rw [if_neg hji]

theorem submitted_addJob (job : Job) (hlen : u.jobs = m.jobs ++ [job]) :
    u.submitted b = m.submitted b ++ if job.slot = b then [m.jobs.length] else [] := by
  unfold submitted
  rw [hlen, List.findIdxs_append, List.findIdxs_singleton, Nat.zero_add]
  simp only [decide_eq_true_eq]

/-! ## What steps do to a queue -/

/-- A step takes from the front of the queue of a slot and puts what is submitted
    at the end. -/
def Conserves (b : ℕ) (out : List ℕ) (m u : ModelManager) : Prop :=
  ∃ new, out ++ u.queued b = m.queued b ++ new ∧ u.submitted b = m.submitted b ++ new

theorem Conserves.of_same (hqueue : u.queued b = m.queued b)
    (hsubmitted : u.submitted b = m.submitted b) : Conserves b [] m u :=
  ⟨[], by rw [hqueue, List.nil_append, List.append_nil], by rw [hsubmitted, List.append_nil]⟩

/-- What is done after a step that leaves the queue alone. -/
theorem Conserves.after {n : ModelManager} {out : List ℕ} (h : Conserves b out n u)
    (hqueue : n.queued b = m.queued b) (hsubmitted : n.submitted b = m.submitted b) :
    Conserves b out m u := by
  unfold Conserves at h ⊢
  rw [hqueue, hsubmitted] at h
  exact h

theorem queued_change (i : ℕ) (f : Loaded → Loaded)
    (hf : ∀ s, letters (f s).queue = letters s.queue) : (m.change i f).queued b = m.queued b := by
  unfold queued
  rw [slots_change]
  by_cases hib : i = b
  · rw [if_pos hib]
    cases m.slots[b]? with
    | none => rfl
    | some s => exact hf s
  · rw [if_neg hib]

theorem queued_still (h : Still m u) : u.queued b = m.queued b := by
  cases hs : m.slots[b]? with
  | some s =>
      rcases h.kept b s hs with ⟨s', hs', hsame⟩
      rw [queued_of_slot hs, queued_of_slot hs', hsame.1]
  | none =>
      rw [queued_of_no_slot hs]
      cases hs' : u.slots[b]? with
      | none => exact queued_of_no_slot hs'
      | some s' =>
          -- The slot is new, and nothing has been put in its queue.
          rcases h.added b s' hs' with hlt | hfresh
          · rw [List.getElem?_eq_none_iff] at hs
            omega
          · rw [queued_of_slot hs', hfresh.1, letters_nil]

theorem submitted_still (h : Still m u) : u.submitted b = m.submitted b :=
  submitted_congr (by rw [h.jobs])

/-- A job that is submitted goes to the end of the queue of its slot. -/
theorem conserves_submit (i : ℕ) (r : Request) : Conserves b [] m (m.submit cfg i r) := by
  unfold ModelManager.submit
  split
  · rename_i kind stream s _ hs
    by_cases hfull : cfg.full s.queue = true
    · rw [if_pos hfull]
      exact .of_same rfl rfl
    · rw [if_neg hfull]
      refine ⟨if i = b then [m.jobs.length] else [], ?_,
        submitted_addJob ⟨i, kind, stream, true, false, 0⟩ rfl⟩
      have hslots : ∀ n : ModelManager, ∀ job, (n.addJob job).queued b = n.queued b :=
        fun _ _ => rfl
      rw [hslots, List.nil_append]
      by_cases hib : i = b
      · rw [if_pos hib, ← hib, queued_of_slot hs, queued_of_slot (by
          rw [slots_change, if_pos rfl, hs, Option.map_some])]
        simp
      · rw [if_neg hib, List.append_nil]
        unfold queued
        rw [slots_change, if_neg hib]
  · exact .of_same rfl rfl

theorem conserves_settles (h : Settles cfg m u) : Conserves b [] m u := by
  cases h with
  | still hstill => exact .of_same (queued_still hstill) (submitted_still hstill)
  | fresh i r hstill _ =>
      exact (conserves_submit i r).after (queued_still hstill) (submitted_still hstill)

/-- No task takes anything from a queue. -/
theorem conserves_taskMove {k : ℕ} {e : TaskEvent} (h : TaskMove cfg m k e u) :
    Conserves b [] m u := by
  cases acts_of_taskMove h with
  | submit i r hstill =>
      exact (conserves_submit i r).after (queued_still hstill) (submitted_still hstill)
  | settles hstill hu =>
      exact (conserves_settles hu).after (queued_still hstill) (submitted_still hstill)
  | put k v w =>
      have hput := queued_change (m := m) (b := b) v.slot
        (fun s => { s with queue := s.queue ++ [.stop] }) (by simp)
      exact .of_same hput rfl
  | close v s cancelled _ _ hu =>
      have hclose := queued_change (m := m) (b := b) v.slot (fun s => { s with closed := true })
        (fun _ => rfl)
      exact (conserves_settles hu).after hclose rfl

/-! ## What workers do to a queue -/

/-- What a worker changes besides its queue. -/
theorem queued_move (i : ℕ) (w : Worker) : (m.move i w).queued b = m.queued b :=
  queued_change i _ fun _ => rfl

theorem queued_pump (i j : ℕ) (cancelled : Bool) :
    (m.pump i j cancelled).queued b = m.queued b := by
  unfold ModelManager.pump
  split
  · exact queued_move i _
  · exact queued_move i _

theorem submitted_pump (i j : ℕ) (cancelled : Bool) :
    (m.pump i j cancelled).submitted b = m.submitted b := by
  unfold ModelManager.pump
  split <;> rfl

theorem conserves_answer (i j : ℕ) (job : Job) (ok : Bool) :
    Conserves b [] m (m.answer i j job ok) := by
  have hsubmitted : (m.changeJob j fun job => { job with pending := false }).submitted b =
      m.submitted b := submitted_changeJob j _ fun _ => rfl
  unfold ModelManager.answer
  split
  · split
    · exact .of_same (queued_pump i j _) ((submitted_pump i j _).trans hsubmitted)
    · exact .of_same ((queued_move i _).trans (queued_change i _ fun _ => rfl)) hsubmitted
  · exact .of_same (queued_move i _) hsubmitted

/-- A worker takes from the front of its own queue. -/
theorem conserves_workerMove {i : ℕ} {s : Loaded} {e : WorkerEvent} (hs : m.slots[i]? = some s)
    (h : m.WorkerMove i s e u) : Conserves b (m.takes b (.worker i e)) m u := by
  -- Only a take gives anything out.
  have htake : ∀ (rest : List (Mail ℕ)) (w : Worker), letters s.queue = firstJob s.queue ++
      letters rest → Conserves b (m.takes b (.worker i .take)) m
        (m.change i fun s => { s with queue := rest, worker := w }) := by
    intro rest w hqueue
    refine ⟨[], ?_, by rw [List.append_nil]; rfl⟩
    rw [List.append_nil]
    by_cases hib : i = b
    · rw [← hib, takes_take hs, queued_of_slot hs, hqueue, queued_of_slot (by
        rw [slots_change, if_pos rfl, hs, Option.map_some])]
    · rw [takes_worker_of_ne _ hib]
      unfold queued
      rw [slots_change, if_neg hib, List.nil_append]
  have hcleared : (m.change i fun s => { s with cancelRequested := false }).queued b = m.queued b :=
    queued_change i _ fun _ => rfl
  have hcount : ∀ j,
      (m.changeJob j fun job => { job with buffered := job.buffered + 1 }).submitted b
      = m.submitted b := fun j => submitted_changeJob j _ fun _ => rfl
  cases h with
  | leave rest _ hqueue => exact htake rest (.ended false) (by rw [hqueue]; rfl)
  | begin j rest _ hqueue => exact htake rest (.calling j m.calls.length) (by rw [hqueue]; rfl)
  | answer ok j c job _ _ =>
      exact (conserves_answer (m := (m.changeCall c (.ended .done)).setBusy false) i j job ok).after
        rfl rfl
  | chunk j c slot _ _ => exact .of_same (queued_move i _) rfl
  | last j c slot result _ _ => exact .of_same (queued_move i _) rfl
  | put j job _ _ => exact .of_same (queued_pump i j _) ((submitted_pump i j _).trans (hcount j))
  | finish j cancelled _ =>
      exact .of_same ((queued_move i _).trans (queued_change i _ fun _ => rfl)) (hcount j)
  | cease _ => exact .of_same ((queued_move i _).trans hcleared) rfl
  | unput j _ => exact .of_same ((queued_move i _).trans hcleared) rfl
  | drop j c slot _ _ => exact .of_same ((queued_move i _).trans hcleared) rfl
  | abandon j c _ _ => exact .of_same ((queued_move i _).trans hcleared) rfl

/-- **Each step conserves the jobs of a slot.** -/
theorem conserves_step {e : Event} (hstep : m.step cfg e = some u) :
    Conserves b (m.takes b e) m u := by
  cases move_of_step hstep with
  | worker i s e hs hmove => exact conserves_workerMove hs hmove
  | thread c e hmove =>
      cases hmove with
      | start _ _ => exact .of_same rfl rfl
      | stop _ _ _ => exact .of_same rfl rfl
  | client j e hmove =>
      cases hmove with
      | change f hf => exact .of_same rfl (submitted_changeJob j f fun job => (hf job).2)
  | task k e hmove => exact conserves_taskMove hmove

/-! ## What a worker is at -/

theorem worksAt_of_slots (h : u.slots = m.slots) : u.worksAt b = m.worksAt b := by
  unfold worksAt
  rw [h]

/-- The worker of a slot is at this job, if it is at any. -/
def KeepsTo (u : ModelManager) (b : ℕ) (job : Option ℕ) : Prop :=
  ∀ s, u.slots[b]? = some s → ∀ j, s.worker.job = some j → job = some j

theorem keepsTo_move {w : Worker} {job : Option ℕ} (hw : ∀ j, w.job = some j → job = some j) :
    KeepsTo (m.move b w) b job := by
  intro s hs j hj
  rw [ModelManager.move, slots_change, if_pos rfl] at hs
  rcases Option.map_eq_some_iff.mp hs with ⟨s₀, _, rfl⟩
  exact hw j hj

theorem keepsTo_pump (j : ℕ) (cancelled : Bool) : KeepsTo (m.pump b j cancelled) b (some j) := by
  unfold ModelManager.pump
  split
  · exact keepsTo_move fun _ => id
  · exact keepsTo_move fun _ => id

theorem keepsTo_answer (j : ℕ) (job : Job) (ok : Bool) :
    KeepsTo (m.answer b j job ok) b (some j) := by
  unfold ModelManager.answer
  split
  · split
    · exact keepsTo_pump j _
    · exact keepsTo_move nofun
  · exact keepsTo_move nofun

/-- A worker goes on with the job it is at, or lets go of it, unless it takes. -/
theorem keepsTo_workerMove {s : Loaded} {e : WorkerEvent} (h : m.WorkerMove b s e u)
    (he : e ≠ .take) : KeepsTo u b s.worker.job := by
  cases h with
  | leave rest _ _ => exact absurd rfl he
  | begin i rest _ _ => exact absurd rfl he
  | answer ok i c job hworker _ =>
      rw [hworker]
      exact keepsTo_answer i job ok
  | chunk i c slot hworker _ =>
      rw [hworker]
      exact keepsTo_move fun _ => id
  | last i c slot result hworker _ =>
      rw [hworker]
      exact keepsTo_move fun _ => id
  | put i job hworker _ =>
      rw [hworker]
      exact keepsTo_pump i _
  | finish i cancelled hworker =>
      refine keepsTo_move fun j hj => ?_
      split at hj
      · exact absurd hj nofun
      · exact absurd hj nofun
  | cease hworker => exact keepsTo_move nofun
  | unput i hworker =>
      rw [hworker]
      exact keepsTo_move fun _ => id
  | drop i c slot hworker _ =>
      rw [hworker]
      exact keepsTo_move fun _ => id
  | abandon i c hworker _ =>
      rw [hworker]
      exact keepsTo_move fun _ => id

/-- What a worker is at after a step, it was at before, or has just taken. -/
theorem worksAt_step {e : Event} (hstep : m.step cfg e = some u) {j : ℕ}
    (hj : u.worksAt b = some j) :
    (m.takes b e).getLast? = some j ∨ m.takes b e = [] ∧ m.worksAt b = some j := by
  have hsame : u.slots = m.slots → m.worksAt b = some j := fun hslots => by
    rw [← worksAt_of_slots hslots]
    exact hj
  have hon := hstep
  unfold ModelManager.step at hon
  split at hon
  · exact absurd hon nofun
  · cases move_of_step hstep with
    | worker i s e hs hmove =>
        by_cases hib : i = b
        · rw [hib] at hs hmove ⊢
          rcases slots_of_workerMove hmove with ⟨g, hslots, _⟩
          have hs' : u.slots[b]? = some (g s) := by
            rw [hslots, List.getElem?_modify, hs, Option.map_eq_map, Option.map_some, if_pos rfl]
          rw [worksAt_of_slot hs'] at hj
          by_cases htake : e = .take
          · -- A worker that takes is at what was first in its queue.
            rw [htake] at hmove ⊢
            rw [takes_take hs]
            cases hmove with
            | leave rest _ hqueue =>
                rw [slots_change, if_pos rfl, hs, Option.map_some] at hs'
                rw [← Option.some.inj hs'] at hj
                exact absurd hj nofun
            | begin k rest _ hqueue =>
                have hs'' := (slots_change m b b _).symm.trans hs'
                rw [if_pos rfl, hs, Option.map_some] at hs''
                rw [← Option.some.inj hs''] at hj
                rw [hqueue]
                exact Or.inl hj
          · refine Or.inr ⟨?_, ?_⟩
            · cases e <;> first | rfl | exact absurd rfl htake
            · rw [worksAt_of_slot hs]
              exact keepsTo_workerMove hmove htake (g s) hs' j hj
        · refine Or.inr ⟨takes_worker_of_ne e hib, ?_⟩
          rcases slots_of_workerMove hmove with ⟨g, hslots, _⟩
          have hother : u.slots[b]? = m.slots[b]? := by
            rw [hslots, List.getElem?_modify]
            simp [hib]
          unfold worksAt at hj ⊢
          rwa [hother] at hj
    | thread c e hmove =>
        cases hmove with
        | start _ _ => exact Or.inr ⟨rfl, hsame rfl⟩
        | stop _ _ _ => exact Or.inr ⟨rfl, hsame rfl⟩
    | client i e hmove =>
        cases hmove with
        | change f _ => exact Or.inr ⟨rfl, hsame rfl⟩
    | task k e _ =>
        refine Or.inr ⟨rfl, ?_⟩
        cases hs' : u.slots[b]? with
        | none =>
            unfold worksAt at hj
            rw [hs'] at hj
            exact absurd hj nofun
        | some s' =>
            rw [worksAt_of_slot hs'] at hj
            rcases (tends_of_step hon).kept b s' hs' with ⟨s, hs, hworker, _⟩ | ⟨_, hworker, _⟩
            · rw [worksAt_of_slot hs, ← hworker]
              exact hj
            · rw [hworker] at hj
              exact absurd hj nofun

end ModelManager

open ModelManager

/-- **Jobs are taken in order.** In every run, what the worker of a slot has taken
    from its queue, followed by the jobs the queue holds, is what was submitted to
    the slot, in that order; and the job the worker is at, if it is at any, is the
    one it took last. -/
theorem jobs_taken_in_order (cfg : Config) (b : ℕ) (r : Recorded ModelManager ℕ)
    (h : Run (record (step cfg) (takes b)) anyStep ⟨start, []⟩ r) :
    r.log ++ r.state.queued b = r.state.submitted b ∧
      ∀ j, r.state.worksAt b = some j → r.log.getLast? = some j := by
  constructor
  · refine log_append_queue (fun m => m.queued b) (fun m => m.submitted b) rfl ?_ h
    intro m e u hstep
    exact conserves_step hstep
  · refine getLast_of_recorded (fun m => m.worksAt b) (fun j hj => ?_) ?_ h
    · exact absurd hj (by simp [worksAt, start])
    · intro m e u hstep j hj
      exact worksAt_step hstep hj

/-- The same on a run: of two jobs that were submitted the worker has taken the first
    and is at it. -/
theorem jobs_taken_in_order_sample :
    ∃ r : Recorded ModelManager ℕ, r.log = [0] ∧ r.state.submitted 0 = [0, 1] ∧
      r.log ++ r.state.queued 0 = r.state.submitted 0 ∧
      ∀ j, r.state.worksAt 0 = some j → r.log.getLast? = some j := by
  have hplay : ((play (record (step ⟨1, 2048, 8⟩) (takes 0)) ⟨start, []⟩
      [.task 0 (.request (.sample none (some (.chat, true)))), .task 0 (.acquire true),
        .task 1 (.request (.sample none (some (.embed, false)))), .worker 0 .take]).any (fun r =>
          decide (r.log = [0] ∧ r.state.submitted 0 = [0, 1]))) = true := by
    decide +kernel
  rcases (Option.any_eq_true _ _).mp hplay with ⟨r, hr, hend⟩
  rcases of_decide_eq_true hend with ⟨hlog, hsubmitted⟩
  exact ⟨r, hlog, hsubmitted, jobs_taken_in_order ⟨1, 2048, 8⟩ 0 r (run_of_play _ hr)⟩

/-! ## What is bounded -/

/-- A queue is no longer than it may be. -/
def Config.Fits (cfg : Config) (queue : List (Mail ℕ)) : Prop :=
  0 < cfg.queueDepth → queue.length ≤ cfg.queueDepth

namespace ModelManager

variable {cfg : Config} {m u : ModelManager}

/-- No queue is longer than it may be. -/
def Shallow (cfg : Config) (m : ModelManager) : Prop :=
  ∀ (b : ℕ) (s : Loaded), m.slots[b]? = some s → cfg.Fits s.queue

/-- No stream handle buffers more than it may. -/
def Buffered (m : ModelManager) : Prop :=
  ∀ (j : ℕ) (job : Job), m.jobs[j]? = some job → job.buffered ≤ handleSize

/-- The table, the queues and the stream handles keep to their bounds. -/
structure Within (cfg : Config) (m : ModelManager) : Prop where
  loaded : m.loaded.entries.length ≤ cfg.maxLoaded
  queues : Shallow cfg m
  handles : Buffered m

/-- There is room for one more in a queue that is not full. -/
theorem fits_append {queue : List (Mail ℕ)} (hroom : cfg.full queue = false) (x : Mail ℕ) :
    cfg.Fits (queue ++ [x]) := by
  intro hdepth
  have hless : ¬ (0 < cfg.queueDepth ∧ cfg.queueDepth ≤ queue.length) :=
    of_decide_eq_false hroom
  rw [List.length_append, List.length_singleton]
  push_cast
  omega

theorem Shallow.change (h : Shallow cfg m) (b : ℕ) (f : Loaded → Loaded)
    (hf : ∀ s, m.slots[b]? = some s → cfg.Fits s.queue → cfg.Fits (f s).queue) :
    Shallow cfg (m.change b f) := by
  intro i s hs
  rw [slots_change] at hs
  by_cases hbi : b = i
  · rw [if_pos hbi] at hs
    rcases Option.map_eq_some_iff.mp hs with ⟨s₀, hs₀, rfl⟩
    exact hf s₀ (hbi ▸ hs₀) (h i s₀ hs₀)
  · rw [if_neg hbi] at hs
    exact h i s hs

theorem Shallow.still (h : Shallow cfg m) (hstill : Still m u) : Shallow cfg u := by
  intro b s' hs'
  rcases hstill.added b s' hs' with hlt | hfresh
  · rcases hstill.old hs' hlt with ⟨s, hs, hsame⟩
    rw [hsame.1]
    exact h b s hs
  · intro hdepth
    rw [hfresh.1, List.length_nil]
    exact Int.le_of_lt hdepth

/-- A job is submitted where there is room. -/
theorem Shallow.submit (h : Shallow cfg m) (b : ℕ) (r : Request) :
    Shallow cfg (m.submit cfg b r) := by
  unfold ModelManager.submit
  split
  · rename_i kind stream s _ hs
    cases hfull : cfg.full s.queue with
    | true =>
        rw [if_pos rfl]
        exact h
    | false =>
        rw [if_neg Bool.false_ne_true]
        have hput : Shallow cfg (m.change b fun s =>
            { s with queue := s.queue ++ [.item m.jobs.length] }) := by
          refine h.change b _ fun s' hs' _ => ?_
          rw [hs] at hs'
          rw [← Option.some.inj hs']
          exact fits_append hfull _
        exact hput
  · exact h

theorem Shallow.settles (h : Shallow cfg m) (hu : Settles cfg m u) : Shallow cfg u := by
  cases hu with
  | still hstill => exact h.still hstill
  | fresh b r hstill _ => exact (h.still hstill).submit b r

/-- A stop that goes in has found room. -/
theorem room_of_stop {k : ℕ} {v : Unload} {after : Then} (h : m.taskStep cfg k .put = some u)
    (hwork : m.work k = some (.unload v after)) :
    ∃ s : Loaded, m.slots[v.slot]? = some s ∧ cfg.full s.queue = false := by
  unfold ModelManager.taskStep at h
  simp only [hwork] at h
  rcases Option.bind_eq_some_iff.mp h with ⟨s, hs, h⟩
  refine ⟨s, hs, ?_⟩
  by_contra hfull
  rw [if_neg fun hc => hfull hc.2] at h
  exact absurd h (by simp)

theorem Shallow.close (h : Shallow cfg m) (v : Unload) : Shallow cfg (m.close v) := by
  have hclose : Shallow cfg (m.change v.slot fun s => { s with closed := true }) :=
    h.change v.slot _ fun _ _ => id
  exact hclose

/-- Tasks put jobs and stops in queues, and both where there is room. -/
theorem Shallow.taskStep (h : Shallow cfg m) {k : ℕ} {e : TaskEvent}
    (hstep : m.taskStep cfg k e = some u) : Shallow cfg u := by
  cases taskMove_of_step hstep with
  | found r b _ _ =>
      have hmoved : Still m (m.setLoaded (m.loaded.moveToEnd r.cacheKey)) :=
        .of_slots rfl rfl rfl rfl
      exact (h.still (hmoved.trans (.resetIdle b))).submit b r
  | refound r b _ _ _ => exact (h.still ((Still.setWork k none).trans (.resetIdle b))).submit b r
  | load r loads _ _ =>
      have hlock : Still m (m.setLock r.cacheKey (some k)) := .of_slots rfl rfl rfl rfl
      exact (h.still hlock).settles (settles_loadOrEvict k r loads)
  | close v after loads _ _ _ _ _ => exact (h.close v).settles (settles_proceed k loads after)
  | put v after hwork =>
      rcases room_of_stop hstep hwork with ⟨s, hs, hroom⟩
      have hput : Shallow cfg (m.change v.slot fun s => { s with queue := s.queue ++ [.stop] }) := by
        refine h.change v.slot _ fun s' hs' _ => ?_
        rw [hs] at hs'
        rw [← Option.some.inj hs']
        exact fits_append hroom .stop
      exact hput
  -- The others leave queues alone.
  | wait r _ _ => exact h.still (.setWork k _)
  | forceUnload tenant modelId _ => exact h.still (.sweep k _)
  | shutdown _ =>
      have hclosing : Still m { m with closing := true } := .of_slots rfl rfl rfl rfl
      exact h.still (hclosing.trans (.sweep k _))
  | fire b _ _ _ =>
      have hfired : Still m (m.change b fun s => { s with timer := false }) :=
        .change b _ fun _ => ⟨rfl, rfl, rfl⟩
      exact h.still (hfired.trans (.setWork k _))
  | skip b _ => exact h.still (.setWork k none)
  | offload b s _ _ => exact h.still (.beginUnload k s.cacheKey b .stop)
  | timeout v after _ => exact h.still ((Still.cancelWorker v.slot).trans (.setWork k _))
  | abort v after _ => exact h.still (.fail k after)
  | unwait _ => exact h.still (.setWork k none)
  | unput v after _ => exact h.still (.fail k after)
  | cancel v after _ => exact h.still ((Still.cancelWorker v.slot).trans (.setWork k _))

theorem Shallow.move (h : Shallow cfg m) (b : ℕ) (w : Worker) : Shallow cfg (m.move b w) :=
  h.change b _ fun _ _ => id

theorem Shallow.pump (h : Shallow cfg m) (b j : ℕ) (cancelled : Bool) :
    Shallow cfg (m.pump b j cancelled) := by
  unfold ModelManager.pump
  split
  · exact h.move b _
  · exact h.move b _

/-- A worker only takes. -/
theorem Shallow.workerMove (h : Shallow cfg m) {b : ℕ} {s : Loaded} {e : WorkerEvent}
    (hs : m.slots[b]? = some s) (hmove : m.WorkerMove b s e u) : Shallow cfg u := by
  have htake : ∀ (x : Mail ℕ) (rest : List (Mail ℕ)) (w : Worker), s.queue = x :: rest →
      Shallow cfg (m.change b fun s => { s with queue := rest, worker := w }) := by
    intro x rest w hqueue
    refine h.change b _ fun s' hs' hfits hdepth => ?_
    rw [hs] at hs'
    rw [← Option.some.inj hs', hqueue] at hfits
    have hle := hfits hdepth
    rw [List.length_cons] at hle
    push_cast at hle
    dsimp only
    omega
  have hcleared : Shallow cfg (m.change b fun s => { s with cancelRequested := false }) :=
    h.change b _ fun _ _ => id
  cases hmove with
  | leave rest _ hqueue => exact htake _ rest (.ended false) hqueue
  | begin j rest _ hqueue => exact htake _ rest (.calling j m.calls.length) hqueue
  | answer ok j c job _ _ =>
      have hresolved : Shallow cfg (((m.changeCall c (.ended .done)).setBusy false).changeJob j
        fun job => { job with pending := false }) := h
      unfold ModelManager.answer
      split
      · split
        · exact hresolved.pump b j job.cancelled
        · have hreset := hresolved.change b (fun s => { s with timer := true }) fun _ _ => id
          exact hreset.move b .waiting
      · exact hresolved.move b .waiting
  | chunk j c slot _ _ => exact h.move b _
  | last j c slot result _ _ => exact h.move b _
  | put j job _ _ =>
      have hput : Shallow cfg (m.changeJob j fun job =>
        { job with buffered := job.buffered + 1 }) := h
      exact hput.pump b j job.cancelled
  | finish j cancelled _ =>
      have hput : Shallow cfg (m.changeJob j fun job =>
        { job with buffered := job.buffered + 1 }) := h
      have hreset := hput.change b (fun s => { s with timer := true }) fun _ _ => id
      exact hreset.move b _
  | cease _ => exact hcleared.move b _
  | unput j _ => exact hcleared.move b _
  | drop j c slot _ _ =>
      have hdropped := hcleared.move b (.finishing j true)
      exact hdropped
  | abandon j c _ _ => exact hcleared.move b _

/-! ## Stream handles -/

theorem Buffered.changeJob (h : Buffered m) (j : ℕ) (f : Job → Job)
    (hf : ∀ job, m.jobs[j]? = some job → job.buffered ≤ handleSize →
      (f job).buffered ≤ handleSize) : Buffered (m.changeJob j f) := by
  intro i job hjob
  rw [jobs_changeJob] at hjob
  by_cases hji : j = i
  · rw [if_pos hji] at hjob
    rcases Option.map_eq_some_iff.mp hjob with ⟨job₀, hjob₀, rfl⟩
    exact hf job₀ (hji ▸ hjob₀) (h i job₀ hjob₀)
  · rw [if_neg hji] at hjob
    exact h i job hjob

/-- A chunk or an end mark that goes in has found room. -/
theorem Buffered.put (h : Buffered m) {b j : ℕ} {s : Loaded}
    (hstep : m.workerStep b .put = some u) (hs : m.slots[b]? = some s)
    (hat : s.worker = .putting j ∨ ∃ cancelled, s.worker = .finishing j cancelled) :
    Buffered (m.changeJob j fun job => { job with buffered := job.buffered + 1 }) := by
  rcases Serving.room_of_put hstep hs hat with ⟨job, hjob, hroom⟩
  refine h.changeJob j _ fun job' hjob' _ => ?_
  rw [hjob] at hjob'
  rw [← Option.some.inj hjob']
  exact hroom

theorem Buffered.workerStep (h : Buffered m) {b : ℕ} {e : WorkerEvent}
    (hstep : m.workerStep b e = some u) : Buffered u := by
  rcases workerMove_of_step hstep with ⟨s, hs, hmove⟩
  cases hmove with
  | answer ok j c job _ _ =>
      have hresolved : Buffered (m.changeJob j fun job => { job with pending := false }) :=
        h.changeJob j _ fun _ _ => id
      unfold ModelManager.answer
      split
      · split
        · unfold ModelManager.pump
          split
          · exact hresolved
          · exact hresolved
        · exact hresolved
      · exact hresolved
  | put j job hworker _ =>
      have hput := h.put hstep hs (Or.inl hworker)
      unfold ModelManager.pump
      split
      · exact hput
      · exact hput
  | finish j cancelled hworker => exact h.put hstep hs (Or.inr ⟨cancelled, hworker⟩)
  | _ => exact h

theorem Buffered.clientStep (h : Buffered m) {j : ℕ} {e : ClientEvent}
    (hstep : m.clientStep j e = some u) : Buffered u := by
  unfold ModelManager.clientStep at hstep
  rcases Option.bind_eq_some_iff.mp hstep with ⟨job, _, hstep⟩
  cases e with
  | read =>
      dsimp only at hstep
      split at hstep
      · rw [← Option.some.inj hstep]
        exact h.changeJob j _ fun _ _ hle => Nat.le_trans (Nat.sub_le _ _) hle
      · exact absurd hstep (by simp)
  | cancel =>
      dsimp only at hstep
      split at hstep
      · rw [← Option.some.inj hstep]
        exact h.changeJob j _ fun _ _ => id
      · exact absurd hstep (by simp)
  | giveUp =>
      rw [← Option.some.inj hstep]
      exact h.changeJob j _ fun _ _ => id

theorem Buffered.taskStep (h : Buffered m) {k : ℕ} {e : TaskEvent}
    (hstep : m.taskStep cfg k e = some u) : Buffered u := by
  rcases (tends_of_step hstep).jobs with ⟨new, hjobs, hfresh⟩
  intro j job hjob
  rw [hjobs] at hjob
  by_cases hlt : j < m.jobs.length
  · rw [List.getElem?_append_left hlt] at hjob
    exact h j job hjob
  · -- Nothing is buffered for a job that is new.
    rw [List.getElem?_append_right (Nat.le_of_not_lt hlt)] at hjob
    rw [(hfresh job (List.mem_of_getElem? hjob)).2.2]
    exact Nat.zero_le _

theorem Within.step {e : Event} (h : Within cfg m) (hfiled : Filed cfg u)
    (hstep : m.step cfg e = some u) : Within cfg u := by
  refine ⟨hfiled.bounded, ?_, ?_⟩
  all_goals
    unfold ModelManager.step at hstep
    split at hstep
    · exact absurd hstep nofun
  · cases e with
    | worker b e =>
        rcases workerMove_of_step hstep with ⟨s, hs, hmove⟩
        exact h.queues.workerMove hs hmove
    | thread c e =>
        cases threadMove_of_step hstep with
        | start _ _ => exact h.queues
        | stop _ _ _ => exact h.queues
    | client j e =>
        cases clientMove_of_step hstep with
        | change f _ => exact h.queues
    | task k e => exact h.queues.taskStep hstep
  · cases e with
    | worker b e => exact h.handles.workerStep hstep
    | thread c e =>
        cases threadMove_of_step hstep with
        | start _ _ => exact h.handles
        | stop _ _ _ => exact h.handles
    | client j e => exact h.handles.clientStep hstep
    | task k e => exact h.handles.taskStep hstep

end ModelManager

/-- **What the manager keeps is bounded.** In every state reached there are no more
    slots in the table than may be loaded, no queue is longer than its depth, where
    that is positive, and no stream handle buffers more than 64 items. -/
theorem buffers_bounded (cfg : Config) (m : ModelManager) (h : Run (step cfg) anyStep start m) :
    Within cfg m := by
  have hboth : Filed cfg m ∧ Within cfg m := by
    refine h.invariant (fun m => Filed cfg m ∧ Within cfg m) ?_ ?_
    · exact ⟨filed_start, ⟨filed_start.bounded, fun _ _ hs => absurd hs (by simp [start]),
        fun _ _ hjob => absurd hjob (by simp [start])⟩⟩
    · intro m e u hm _ hstep
      exact ⟨hm.1.step hstep, hm.2.step (hm.1.step hstep) hstep⟩
  exact hboth.2

/-- The same on a run that fills a queue of one: a second request finds it full. -/
theorem buffers_bounded_sample :
    ∃ m, m.jobs.length = 1 ∧ m.slots.map (fun s => s.queue.length) = [1] ∧
      Within ⟨1, 2048, 1⟩ m := by
  have hplay : ((play (step ⟨1, 2048, 1⟩) start
      [.task 0 (.request (.sample none (some (.chat, true)))), .task 0 (.acquire true),
        .task 1 (.request (.sample none (some (.embed, false))))]).any (fun m =>
          decide (m.jobs.length = 1 ∧ m.slots.map (fun s => s.queue.length) = [1]))) = true := by
    decide +kernel
  rcases (Option.any_eq_true _ _).mp hplay with ⟨m, hm, hend⟩
  rcases of_decide_eq_true hend with ⟨hjobs, hslots⟩
  exact ⟨m, hjobs, hslots, buffers_bounded ⟨1, 2048, 1⟩ m (run_of_play _ hm)⟩

end Models

end SecureLlm
