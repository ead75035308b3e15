import SecureLlm.Models.Steps

/-!
# Accepted Jobs

A job is accepted when `_submit` puts it in the queue of a slot. Its caller
waits for a future that nobody but the worker of the slot resolves. So a job is
lost when its future is unresolved and the worker neither executes it nor will
get to it: there is a stop ahead of it, or the worker has ended.

Unloading a slot takes several steps, and until the last of them the slot is in
the table, where a request finds it and puts its job behind the stop. And a
worker that is cancelled ends with the jobs in its queue as they are. These are
the only ways a job is lost.

## Main definitions

* `Loaded.mailbox`: A slot as a server with a queue of jobs.
* `ModelManager.NoneLost`: Every unresolved job is held by its slot.
* `ModelManager.Careful`: The steps that lose no job.

## Theorems

* `ModelManager.noneLost_submit_iff`: When the slot holds what is submitted.
* `ModelManager.noneLost_step_iff`: Which steps lose no job.
* `accepted_jobs_kept`: The runs of careful steps are the runs without loss.
* `accepted_job_lost`: A run that loses one.
-/

namespace SecureLlm

open Library

namespace Models

/-- A slot as a server with a queue of jobs. -/
def Loaded.mailbox (s : Loaded) : Mailbox ℕ := ⟨s.queue, s.worker.serving, s.worker.isEnded⟩

/-- A job that a slot still has something to do with. -/
def Loaded.Mentions (s : Loaded) (j : ℕ) : Prop := .item j ∈ s.queue ∨ s.worker.serving = some j

/-- Does an event end a worker as cancelled? -/
def Worker.dies : Worker → ModelManager.WorkerEvent → Bool
  | .waiting, .interrupt => true
  | .finishing _ _, .interrupt => true
  | .finishing _ true, .put => true
  | _, _ => false

theorem Loaded.SameWork.mailbox {s s' : Loaded} (h : s'.SameWork s) : s'.mailbox = s.mailbox := by
  unfold Loaded.mailbox
  rw [h.1, h.2.1]

theorem Loaded.Fresh.open {s : Loaded} (h : s.Fresh) : s.mailbox.Open := by
  unfold Mailbox.Open Loaded.mailbox
  rw [h.1, h.2.1]
  exact ⟨rfl, List.not_mem_nil⟩

theorem Loaded.Fresh.not_mentions {s : Loaded} (h : s.Fresh) (j : ℕ) : ¬ s.Mentions j := by
  unfold Loaded.Mentions
  rw [h.1, h.2.1]
  exact fun hmentions => hmentions.elim List.not_mem_nil nofun

/-- A worker that neither executes a job nor has ended may go on elsewhere. -/
theorem Loaded.holds_of_worker {s : Loaded} {j : ℕ} {w : Worker} (h : s.mailbox.Holds j)
    (hserving : s.worker.serving = none) (hended : w.isEnded = false) :
    ({ s with worker := w } : Loaded).mailbox.Holds j := by
  rcases h with hat | ⟨_, hmem⟩
  · have hat' : s.worker.serving = some j := hat
    rw [hserving] at hat'
    exact absurd hat' nofun
  · exact Or.inr ⟨hended, hmem⟩

namespace ModelManager

variable {cfg : Config} {m : ModelManager}

/-- Each job whose future is unresolved is being executed by the worker of its
    slot, or waits in the slot's queue ahead of any stop with the worker
    running. -/
def NoneLost (m : ModelManager) : Prop :=
  ∀ (j : ℕ) (job : Job), m.jobs[j]? = some job → job.pending = true →
    ∃ s : Loaded, m.slots[job.slot]? = some s ∧ s.mailbox.Holds j

/-- No job of a slot is unresolved. -/
def Resolved (m : ModelManager) (b : ℕ) : Prop :=
  ∀ (j : ℕ) (job : Job), m.jobs[j]? = some job → job.slot = b → job.pending = false

/-- If a job is put in the queue of this slot, then the worker is running and
    there is no stop in the queue. -/
def Admits (cfg : Config) (m : ModelManager) (b : ℕ) (r : Request) : Prop :=
  ∀ s : Loaded, m.slots[b]? = some s → r.job ≠ none → cfg.full s.queue = false → s.mailbox.Open

/-- A step that submits a job does so to a slot whose worker will get to it, and
    a step that ends a worker as cancelled leaves no job of its slot
    unresolved. -/
def Careful (cfg : Config) (m : ModelManager) : Event → Prop
  | .worker b e => ∀ s : Loaded, m.slots[b]? = some s → s.worker.dies e = true → Resolved m b
  | .task _ (.request r) => ∀ b, m.hit r = some b → Admits cfg m b r
  | .task k (.acquire _) => ∀ r b, m.work k = some (.acquire r) → m.hit r = some b →
      Admits cfg m b r
  | _ => True

/-- Only jobs that have been submitted are in queues and with workers. -/
def Issued (m : ModelManager) : Prop :=
  ∀ (b : ℕ) (s : Loaded) (j : ℕ), m.slots[b]? = some s → s.Mentions j → j < m.jobs.length

/-! ## What keeps jobs -/

theorem NoneLost.change (h : NoneLost m) (b : ℕ) (f : Loaded → Loaded)
    (hf : ∀ s j job, m.slots[b]? = some s → m.jobs[j]? = some job → job.pending = true →
      job.slot = b → s.mailbox.Holds j → (f s).mailbox.Holds j) :
    NoneLost (m.change b f) := by
  intro j job hjob hpending
  rcases h j job hjob hpending with ⟨s, hs, hholds⟩
  rw [slots_change, hs]
  by_cases hb : b = job.slot
  · rw [if_pos hb]
    exact ⟨f s, rfl, hf s j job (hb ▸ hs) hjob hpending hb.symm hholds⟩
  · rw [if_neg hb]
    exact ⟨s, rfl, hholds⟩

theorem NoneLost.changeJob (h : NoneLost m) (i : ℕ) (f : Job → Job)
    (hf : ∀ job, ((f job).pending = true → job.pending = true) ∧ (f job).slot = job.slot) :
    NoneLost (m.changeJob i f) := by
  intro j job hjob hpending
  rw [jobs_changeJob] at hjob
  by_cases hij : i = j
  · rw [if_pos hij] at hjob
    rcases Option.map_eq_some_iff.mp hjob with ⟨job₀, hjob₀, rfl⟩
    rw [(hf job₀).2]
    exact h j job₀ hjob₀ ((hf job₀).1 hpending)
  · rw [if_neg hij] at hjob
    exact h j job hjob hpending

/-- A worker that executes no job goes on to another place. -/
theorem NoneLost.move (h : NoneLost m) (b : ℕ) (w : Worker) (hended : w.isEnded = false)
    (hserving : ∀ s, m.slots[b]? = some s → s.worker.serving = none) : NoneLost (m.move b w) :=
  h.change b _ fun s _ _ hs _ _ _ hholds =>
    Loaded.holds_of_worker hholds (hserving s hs) hended

/-- **Ending a worker.** Nothing is lost exactly when no job of its slot is
    unresolved. -/
theorem noneLost_cease_iff (h : NoneLost m) {b : ℕ} {s : Loaded} (hs : m.slots[b]? = some s)
    (cancelled : Bool) : NoneLost (m.move b (.ended cancelled)) ↔ Resolved m b := by
  constructor
  · intro hu j job hjob hslot
    by_contra hpending
    rw [Bool.not_eq_false] at hpending
    rcases hu j job hjob hpending with ⟨s', hs', hholds⟩
    rw [ModelManager.move, slots_change, if_pos hslot.symm, hslot, hs, Option.map_some] at hs'
    rw [← Option.some.inj hs'] at hholds
    exact absurd hholds (s.mailbox.not_holds_cease j)
  · intro hdone
    refine h.change b _ fun s j job _ hjob hpending hslot _ => ?_
    rw [hdone j job hjob hslot] at hpending
    exact absurd hpending nofun

theorem resolved_changeJob_iff (i b : ℕ) (f : Job → Job)
    (hf : ∀ job, (f job).pending = job.pending ∧ (f job).slot = job.slot) :
    Resolved (m.changeJob i f) b ↔ Resolved m b := by
  constructor
  · intro h j job hjob hslot
    by_cases hij : i = j
    · have hjob' : (m.changeJob i f).jobs[j]? = some (f job) := by
        rw [jobs_changeJob, if_pos hij, hjob, Option.map_some]
      rw [← (hf job).1]
      exact h j (f job) hjob' ((hf job).2.trans hslot)
    · exact h j job (by rw [jobs_changeJob, if_neg hij]; exact hjob) hslot
  · intro h j job hjob hslot
    rw [jobs_changeJob] at hjob
    by_cases hij : i = j
    · rw [if_pos hij] at hjob
      rcases Option.map_eq_some_iff.mp hjob with ⟨job₀, hjob₀, rfl⟩
      rw [(hf job₀).1]
      exact h j job₀ hjob₀ ((hf job₀).2.symm.trans hslot)
    · rw [if_neg hij] at hjob
      exact h j job hjob hslot

/-- What tasks leave alone loses nothing. -/
theorem NoneLost.still (h : NoneLost m) {u : ModelManager} (hstill : Still m u) : NoneLost u := by
  intro j job hjob hpending
  rw [hstill.jobs] at hjob
  rcases h j job hjob hpending with ⟨s, hs, hholds⟩
  rcases hstill.kept job.slot s hs with ⟨s', hs', hsame⟩
  exact ⟨s', hs', by rw [hsame.mailbox]; exact hholds⟩

theorem Admits.congr {n : ModelManager} {b : ℕ} {r : Request} (h : Admits cfg m b r)
    (hslot : ∀ s, n.slots[b]? = some s →
      ∃ s₀, m.slots[b]? = some s₀ ∧ s₀.queue = s.queue ∧ s₀.worker = s.worker) :
    Admits cfg n b r := by
  intro s hs hjob hfull
  rcases hslot s hs with ⟨s₀, hs₀, hqueue, hworker⟩
  have hopen := h s₀ hs₀ hjob (by rw [hqueue]; exact hfull)
  unfold Loaded.mailbox at hopen ⊢
  rwa [hqueue, hworker] at hopen

/-- **Submitting.** The slot holds the job exactly when it admits it. -/
theorem noneLost_submit_iff (h : NoneLost m) (hissued : Issued m) (b : ℕ) (r : Request) :
    NoneLost (m.submit cfg b r) ↔ Admits cfg m b r := by
  unfold submit
  split
  · rename_i kind stream s hjob hs
    by_cases hfull : cfg.full s.queue = true
    · rw [if_pos hfull]
      refine iff_of_true h fun s' hs' _ hfree => ?_
      rw [hs] at hs'
      rw [← Option.some.inj hs', hfull] at hfree
      exact absurd hfree nofun
    · rw [if_neg hfull]
      have hpost :
          (m.change b fun s => { s with queue := s.queue ++ [.item m.jobs.length] }).slots[b]? =
            some { s with queue := s.queue ++ [.item m.jobs.length] } := by
        rw [slots_change, if_pos rfl, hs, Option.map_some]
      constructor
      · intro hu s' hs' _ _
        rw [hs] at hs'
        rw [← Option.some.inj hs']
        rcases hu m.jobs.length _ List.getElem?_concat_length rfl with ⟨s₁, hs₁, hholds⟩
        have heq : s₁ = { s with queue := s.queue ++ [.item m.jobs.length] } :=
          Option.some.inj (hs₁.symm.trans hpost)
        rw [heq] at hholds
        -- The number of the job is new, so only the post can have made it held.
        have hserving : s.mailbox.serving ≠ some m.jobs.length := fun hc =>
          Nat.lt_irrefl _ (hissued b s _ hs (Or.inr hc))
        have hnew : Mail.item m.jobs.length ∉ s.mailbox.queue := fun hc =>
          Nat.lt_irrefl _ (hissued b s _ hs (Or.inl hc))
        exact (Mailbox.holds_post_iff hserving hnew).mp hholds
      · intro hadmits
        have hopen : s.mailbox.Open :=
          hadmits s hs (by rw [hjob]; exact Option.some_ne_none _) (by simpa using hfull)
        have hkept : NoneLost (m.change b fun s =>
            { s with queue := s.queue ++ [.item m.jobs.length] }) :=
          h.change b _ fun s j job _ _ _ _ hholds => Mailbox.Holds.post hholds m.jobs.length
        intro j job hj hpending
        rcases getElem?_concat_cases hj with hold | ⟨hnew, rfl⟩
        · exact hkept j job hold hpending
        · exact ⟨_, hpost, hnew ▸ hopen.holds_post _⟩
  · rename_i hnone
    refine iff_of_true h fun s hs hjob _ => ?_
    rcases Option.ne_none_iff_exists'.mp hjob with ⟨⟨kind, stream⟩, hjob⟩
    exact absurd hs (hnone kind stream s hjob)

/-! ## Jobs are submitted before they are anywhere -/

theorem Issued.change (h : Issued m) (b : ℕ) (f : Loaded → Loaded)
    (hf : ∀ s j, m.slots[b]? = some s → (f s).Mentions j → s.Mentions j) :
    Issued (m.change b f) := by
  intro i s j hs hmentions
  rw [slots_change] at hs
  by_cases hbi : b = i
  · rw [if_pos hbi] at hs
    rcases Option.map_eq_some_iff.mp hs with ⟨s₀, hs₀, rfl⟩
    exact h i s₀ j hs₀ (hf s₀ j (hbi ▸ hs₀) hmentions)
  · rw [if_neg hbi] at hs
    exact h i s j hs hmentions

theorem Issued.changeJob (h : Issued m) (i : ℕ) (f : Job → Job) : Issued (m.changeJob i f) := by
  intro b s j hs hmentions
  have hlt : j < m.jobs.length := h b s j hs hmentions
  simpa [ModelManager.changeJob] using hlt

/-- A worker that goes on to where it executes no job. -/
theorem Issued.move (h : Issued m) (b : ℕ) (w : Worker) (hserving : w.serving = none) :
    Issued (m.move b w) := by
  refine h.change b _ fun s j _ hmentions => ?_
  rcases hmentions with hqueue | hat
  · exact Or.inl hqueue
  · have hat' : w.serving = some j := hat
    rw [hserving] at hat'
    exact absurd hat' nofun

theorem Issued.still (h : Issued m) {u : ModelManager} (hstill : Still m u) : Issued u := by
  intro b s' j hs' hmentions
  rw [hstill.jobs]
  rcases hstill.added b s' hs' with hlt | hfresh
  · rcases hstill.old hs' hlt with ⟨s, hs, hsame⟩
    unfold Loaded.Mentions at hmentions
    rw [hsame.1, hsame.2.1] at hmentions
    exact h b s j hs hmentions
  · exact absurd hmentions (hfresh.not_mentions j)

theorem Issued.submit (h : Issued m) (b : ℕ) (r : Request) : Issued (m.submit cfg b r) := by
  unfold ModelManager.submit
  split
  · rename_i kind stream s₀ _ _
    by_cases hfull : cfg.full s₀.queue = true
    · rw [if_pos hfull]
      exact h
    · rw [if_neg hfull]
      intro i s j hs hmentions
      have hlength : ((m.change b fun s =>
          { s with queue := s.queue ++ [.item m.jobs.length] }).addJob
          ⟨b, kind, stream, true, false, 0⟩).jobs.length = m.jobs.length + 1 := by
        simp [addJob, ModelManager.change]
      have hold : ∀ s, m.slots[i]? = some s → s.Mentions j → j < m.jobs.length + 1 :=
        fun s hs hm => Nat.lt_succ_of_lt (h i s j hs hm)
      rw [hlength]
      have hs' := (slots_change m b i _).symm.trans hs
      by_cases hbi : b = i
      · rw [if_pos hbi] at hs'
        rcases Option.map_eq_some_iff.mp hs' with ⟨s₁, hs₁, rfl⟩
        rcases hmentions with hqueue | hserving
        · rcases List.mem_append.mp hqueue with hmem | hnew
          · exact hold s₁ hs₁ (Or.inl hmem)
          · have heq : j = m.jobs.length := by simpa using hnew
            omega
        · exact hold s₁ hs₁ (Or.inr hserving)
      · rw [if_neg hbi] at hs'
        exact hold s hs' hmentions
  · exact h

theorem Issued.settles (h : Issued m) {u : ModelManager} (hu : Settles cfg m u) : Issued u := by
  cases hu with
  | still hstill => exact h.still hstill
  | fresh b r hstill _ => exact (h.still hstill).submit b r

theorem Issued.pump (h : Issued m) (b j : ℕ) (cancelled : Bool) :
    Issued (m.pump b j cancelled) := by
  unfold ModelManager.pump
  split
  · exact h.move b _ rfl
  · exact h.move b _ rfl

theorem Issued.answer (h : Issued m) (b j : ℕ) (job : Job) (ok : Bool) :
    Issued (m.answer b j job ok) := by
  have hresolved : Issued (m.changeJob j fun job => { job with pending := false }) :=
    h.changeJob j _
  unfold ModelManager.answer
  split
  · split
    · exact hresolved.pump b j job.cancelled
    · have hreset := hresolved.change b (fun s => { s with timer := true })
        (fun _ _ _ hmentions => hmentions)
      exact hreset.move b .waiting rfl
  · exact hresolved.move b .waiting rfl

theorem Issued.workerMove {b : ℕ} {s : Loaded} {e : WorkerEvent} {u : ModelManager}
    (h : Issued m) (hs : m.slots[b]? = some s) (hmove : m.WorkerMove b s e u) : Issued u := by
  have hcleared : Issued (m.change b fun s => { s with cancelRequested := false }) :=
    h.change b _ fun _ _ _ hmentions => hmentions
  cases hmove with
  -- A job taken from the queue was in it.
  | leave rest _ hqueue =>
      refine h.change b _ fun s' j hs' hmentions => ?_
      rw [hs] at hs'
      rw [← Option.some.inj hs']
      rcases hmentions with hmem | hserving
      · exact Or.inl (by rw [hqueue]; exact List.mem_cons_of_mem _ hmem)
      · exact absurd hserving nofun
  | begin i rest _ hqueue =>
      have hchange : Issued (m.change b fun s =>
          { s with queue := rest, worker := .calling i m.calls.length }) := by
        refine h.change b _ fun s' j hs' hmentions => ?_
        rw [hs] at hs'
        rw [← Option.some.inj hs']
        unfold Loaded.Mentions
        rw [hqueue]
        rcases hmentions with hmem | hserving
        · exact Or.inl (List.mem_cons_of_mem _ hmem)
        · have heq : i = j := Option.some.inj hserving
          rw [heq]
          exact Or.inl List.mem_cons_self
      exact hchange
  | answer ok j c job _ _ =>
      have hcall : Issued ((m.changeCall c (.ended .done)).setBusy false) := h
      exact hcall.answer b j job ok
  | chunk j c slot _ _ => exact h.move b _ rfl
  | last j c slot result _ _ => exact h.move b _ rfl
  | put j job _ _ => exact (h.changeJob j _).pump b j job.cancelled
  | finish j cancelled _ =>
      have hreset := (h.changeJob j fun job => { job with buffered := job.buffered + 1 }).change b
        (fun s => { s with timer := true }) (fun _ _ _ hmentions => hmentions)
      refine hreset.move b _ ?_
      cases cancelled <;> rfl
  | cease _ => exact hcleared.move b _ rfl
  | unput j _ => exact hcleared.move b _ rfl
  | drop j c slot _ _ =>
      have hmoved : Issued ((m.change b fun s => { s with cancelRequested := false }).move b
        (.finishing j true)) := hcleared.move b _ rfl
      exact hmoved
  | abandon j c _ _ => exact hcleared.move b _ rfl

theorem Issued.taskMove {k : ℕ} {e : TaskEvent} {u : ModelManager} (h : Issued m)
    (hmove : TaskMove cfg m k e u) : Issued u := by
  cases acts_of_taskMove hmove with
  | submit b r hstill => exact (h.still hstill).submit b r
  | settles hstill hu => exact (h.still hstill).settles hu
  -- The stop is no job.
  | put k v w =>
      have hput : Issued (m.change v.slot fun s => { s with queue := s.queue ++ [.stop] }) := by
        refine h.change v.slot _ fun s j _ hmentions => ?_
        rcases hmentions with hqueue | hserving
        · exact Or.inl (by simpa using hqueue)
        · exact Or.inr hserving
      exact hput
  | close v s cancelled _ _ hu =>
      have hclose : Issued (m.change v.slot fun s => { s with closed := true }) :=
        h.change v.slot _ fun _ _ _ hmentions => hmentions
      have hclosed : Issued (m.close v) := hclose
      exact hclosed.settles hu

/-! ## Which steps lose no job -/

/-- Making room and loading loses nothing: the slot that is loaded is open. -/
theorem NoneLost.settles (h : NoneLost m) (hissued : Issued m) {u : ModelManager}
    (hu : Settles cfg m u) : NoneLost u := by
  cases hu with
  | still hstill => exact h.still hstill
  | fresh b r hstill hfresh =>
      exact (noneLost_submit_iff (h.still hstill) (hissued.still hstill) b r).mpr
        fun s hs _ _ => (hfresh s hs).open

/-- A worker that executes no job goes on with a stream. -/
theorem NoneLost.pump (h : NoneLost m) (b j : ℕ) (cancelled : Bool)
    (hserving : ∀ s, m.slots[b]? = some s → s.worker.serving = none) :
    NoneLost (m.pump b j cancelled) := by
  unfold ModelManager.pump
  split
  · exact h.move b _ rfl hserving
  · exact h.move b _ rfl hserving

/-- The worker answers the job it executes, and no other was being executed. -/
theorem NoneLost.answer (h : NoneLost m) {b j c : ℕ} {s : Loaded} {job : Job}
    (hs : m.slots[b]? = some s) (hworker : s.worker = .calling j c) (hjob : m.jobs[j]? = some job)
    (ok : Bool) : NoneLost (m.answer b j job ok) := by
  have hresolved : NoneLost (m.changeJob j fun job => { job with pending := false }) :=
    h.changeJob j _ fun job => ⟨fun hc => absurd hc nofun, rfl⟩
  have hresolvedJob : (m.changeJob j fun job => { job with pending := false }).jobs[j]? =
      some { job with pending := false } := by
    rw [jobs_changeJob, if_pos rfl, hjob, Option.map_some]
  -- The other jobs of the slot wait in its queue, where they stay.
  have hmoved : ∀ (f : Loaded → Loaded), (∀ s, (f s).queue = s.queue) →
      (∀ s, (f s).worker.isEnded = false) →
      NoneLost ((m.changeJob j fun job => { job with pending := false }).change b f) := by
    intro f hqueue hended
    refine hresolved.change b f fun s' i job' hs' hjob' hpending _ hholds => ?_
    have hs'' : m.slots[b]? = some s' := hs'
    rw [hs] at hs''
    rw [← Option.some.inj hs''] at hholds ⊢
    rcases hholds with hat | ⟨_, hmem⟩
    · have heq : j = i := by
        simpa [Loaded.mailbox, hworker, Worker.serving] using hat
      rw [← heq, hresolvedJob] at hjob'
      rw [← Option.some.inj hjob'] at hpending
      exact absurd hpending nofun
    · exact Or.inr ⟨hended s, by simpa [Loaded.mailbox, hqueue s] using hmem⟩
  unfold ModelManager.answer
  split
  · split
    · unfold ModelManager.pump
      split
      · exact hmoved _ (fun _ => rfl) (fun _ => rfl)
      · exact hmoved _ (fun _ => rfl) (fun _ => rfl)
    · rw [ModelManager.move, ModelManager.resetIdle, change_change]
      exact hmoved _ (fun _ => rfl) (fun _ => rfl)
  · exact hmoved _ (fun _ => rfl) (fun _ => rfl)

/-- **The worker's steps.** They lose a job exactly when they end the worker as
    cancelled while a job of its slot is unresolved. -/
theorem noneLost_workerMove_iff {b : ℕ} {s : Loaded} {e : WorkerEvent} {u : ModelManager}
    (h : NoneLost m) (hs : m.slots[b]? = some s) (hmove : m.WorkerMove b s e u) :
    Careful cfg m (.worker b e) ↔ NoneLost u := by
  have honly : ∀ s', m.slots[b]? = some s' → s' = s := fun s' hs' =>
    Option.some.inj (hs'.symm.trans hs)
  have hcareful : Careful cfg m (.worker b e) ↔ (s.worker.dies e = true → Resolved m b) :=
    ⟨fun hc => hc s hs, fun hc s' hs' => by rw [honly s' hs']; exact hc⟩
  rw [hcareful]
  have hlives : s.worker.dies e = false → NoneLost u →
      ((s.worker.dies e = true → Resolved m b) ↔ NoneLost u) := by
    intro hdies hu
    refine iff_of_true (fun hc => ?_) hu
    rw [hdies] at hc
    exact absurd hc nofun
  have hcleared : NoneLost (m.change b fun s => { s with cancelRequested := false }) :=
    h.change b _ fun _ _ _ _ _ _ _ hholds => hholds
  have hclearedSlot : (m.change b fun s => { s with cancelRequested := false }).slots[b]? =
      some { s with cancelRequested := false } := by
    rw [slots_change, if_pos rfl, hs, Option.map_some]
  have hclearedServing : s.worker.serving = none →
      ∀ s', (m.change b fun s => { s with cancelRequested := false }).slots[b]? = some s' →
        s'.worker.serving = none := by
    intro hserving s' hs'
    rw [hclearedSlot] at hs'
    rw [← Option.some.inj hs']
    exact hserving
  cases hmove with
  | leave rest hworker hqueue =>
      -- Nothing waits ahead of the stop that is taken.
      refine hlives (by rw [hworker]; rfl) (h.change b _ fun s' j job hs' _ _ _ hholds => ?_)
      rw [honly s' hs'] at hholds
      simp [Mailbox.Holds, Loaded.mailbox, hworker, hqueue, Worker.serving] at hholds
  | begin i rest hworker hqueue =>
      have hchange : NoneLost (m.change b fun s =>
          { s with queue := rest, worker := .calling i m.calls.length }) := by
        refine h.change b _ fun s' j job hs' _ _ _ hholds => ?_
        rw [honly s' hs'] at hholds
        rcases hholds with hat | ⟨_, hmem⟩
        · simp [Loaded.mailbox, hworker, Worker.serving] at hat
        · have hmem' : j = i ∨ j ∈ ahead rest := by
            simpa [Loaded.mailbox, hqueue] using hmem
          rcases hmem' with rfl | hrest
          · exact Or.inl rfl
          · exact Or.inr ⟨rfl, hrest⟩
      exact hlives (by rw [hworker]; rfl) hchange
  | answer ok j c job hworker hjob =>
      have hcall : NoneLost ((m.changeCall c (.ended .done)).setBusy false) := h
      exact hlives (by rw [hworker]; rfl) (hcall.answer hs hworker hjob ok)
  | chunk j c slot hworker _ =>
      exact hlives (by rw [hworker]; rfl)
        (h.move b _ rfl fun s' hs' => by rw [honly s' hs', hworker]; rfl)
  | last j c slot result hworker _ =>
      exact hlives (by rw [hworker]; rfl)
        (h.move b _ rfl fun s' hs' => by rw [honly s' hs', hworker]; rfl)
  | put j job hworker _ =>
      have hput : NoneLost (m.changeJob j fun job => { job with buffered := job.buffered + 1 }) :=
        h.changeJob j _ fun job => ⟨id, rfl⟩
      exact hlives (by rw [hworker]; rfl)
        (hput.pump b j job.cancelled fun s' hs' => by rw [honly s' hs', hworker]; rfl)
  | finish j cancelled hworker =>
      have hput : NoneLost ((m.changeJob j fun job =>
          { job with buffered := job.buffered + 1 }).resetIdle b) :=
        (h.changeJob j (fun job => { job with buffered := job.buffered + 1 })
          fun job => ⟨id, rfl⟩).still (.resetIdle b)
      have hslot : ((m.changeJob j fun job =>
          { job with buffered := job.buffered + 1 }).resetIdle b).slots[b]? =
            some { s with timer := true } := by
        have hs' : (m.changeJob j fun job =>
          { job with buffered := job.buffered + 1 }).slots[b]? = some s := hs
        rw [ModelManager.resetIdle, slots_change, if_pos rfl, hs', Option.map_some]
      cases cancelled with
      | false =>
          refine hlives (by rw [hworker]; rfl) (hput.move b _ rfl fun s' hs' => ?_)
          rw [hslot] at hs'
          rw [← Option.some.inj hs']
          show s.worker.serving = none
          rw [hworker]
          rfl
      | true =>
          have hdies : s.worker.dies .put = true := by rw [hworker]; rfl
          have hresolved := resolved_changeJob_iff (m := m) j b
            (fun job => { job with buffered := job.buffered + 1 }) (fun job => ⟨rfl, rfl⟩)
          rw [forall_prop_of_true hdies]
          exact hresolved.symm.trans (noneLost_cease_iff hput hslot true).symm
  | cease hworker =>
      have hdies : s.worker.dies .interrupt = true := by
        rcases hworker with hworker | ⟨j, cancelled, hworker⟩ <;> rw [hworker] <;> rfl
      rw [forall_prop_of_true hdies]
      exact (noneLost_cease_iff hcleared hclearedSlot true).symm
  | unput j hworker =>
      exact hlives (by rw [hworker]; rfl)
        (hcleared.move b _ rfl (hclearedServing (by rw [hworker]; rfl)))
  | drop j c slot hworker _ =>
      have hmoved : NoneLost ((m.change b fun s => { s with cancelRequested := false }).move b
          (.finishing j true)) :=
        hcleared.move b _ rfl (hclearedServing (by rw [hworker]; rfl))
      exact hlives (by rw [hworker]; rfl) hmoved
  | abandon j c hworker _ =>
      exact hlives (by rw [hworker]; rfl)
        (hcleared.move b _ rfl (hclearedServing (by rw [hworker]; rfl)))

/-- **The steps of tasks.** They lose a job exactly when they submit one that its
    slot does not admit. -/
theorem noneLost_taskMove_iff {k : ℕ} {e : TaskEvent} {u : ModelManager} (h : NoneLost m)
    (hissued : Issued m) (hmove : TaskMove cfg m k e u) :
    Careful cfg m (.task k e) ↔ NoneLost u := by
  -- A slot that is found is as it was when its timer has been set.
  have hadmits : ∀ {n : ModelManager} (b : ℕ) (r : Request), Still m n →
      (n.slots = (m.resetIdle b).slots) →
        (NoneLost (n.submit cfg b r) ↔ Admits cfg m b r) := by
    intro n b r hstill hslots
    rw [noneLost_submit_iff (h.still hstill) (hissued.still hstill)]
    constructor
    · intro hc
      refine hc.congr fun s hs => ⟨{ s with timer := true }, ?_, rfl, rfl⟩
      rw [hslots, ModelManager.resetIdle, slots_change, if_pos rfl, hs, Option.map_some]
    · intro hc
      refine hc.congr fun s hs => ?_
      rw [hslots, ModelManager.resetIdle, slots_change, if_pos rfl] at hs
      rcases Option.map_eq_some_iff.mp hs with ⟨s₀, hs₀, rfl⟩
      exact ⟨s₀, hs₀, rfl, rfl⟩
  cases hmove with
  | found r b hwork hhit =>
      have hmoved : Still m (m.setLoaded (m.loaded.moveToEnd r.cacheKey)) :=
        .of_slots rfl rfl rfl rfl
      rw [hadmits b r (hmoved.trans (.resetIdle b)) rfl]
      exact ⟨fun hc => hc b hhit, fun hc b' hb' => by
        rw [hhit] at hb'
        rw [← Option.some.inj hb']
        exact hc⟩
  | wait r _ hhit =>
      refine iff_of_true (fun b hb => ?_) (h.still (.setWork k _))
      rw [hhit] at hb
      exact absurd hb nofun
  | refound r b loads hwork hhit =>
      rw [hadmits b r ((Still.setWork k none).trans (.resetIdle b)) rfl]
      constructor
      · intro hc
        exact hc r b hwork hhit
      · intro hc r' b' hwork' hhit'
        rw [hwork] at hwork'
        obtain rfl : r = r' := by simpa using hwork'
        rw [hhit] at hhit'
        rw [← Option.some.inj hhit']
        exact hc
  | load r loads hwork hhit =>
      have hlock : Still m (m.setLock r.cacheKey (some k)) := .of_slots rfl rfl rfl rfl
      refine iff_of_true (fun r' b' hwork' hhit' => ?_)
        ((h.still hlock).settles (hissued.still hlock) (settles_loadOrEvict k r loads))
      rw [hwork] at hwork'
      obtain rfl : r = r' := by simpa using hwork'
      rw [hhit] at hhit'
      exact absurd hhit' nofun
  | forceUnload tenant modelId _ => exact iff_of_true trivial (h.still (.sweep k _))
  | shutdown _ =>
      have hclosing : Still m { m with closing := true } := .of_slots rfl rfl rfl rfl
      exact iff_of_true trivial (h.still (hclosing.trans (.sweep k _)))
  | fire b s _ _ =>
      have hfired : Still m (m.change b fun s => { s with timer := false }) :=
        .change b _ fun _ => ⟨rfl, rfl, rfl⟩
      exact iff_of_true trivial (h.still (hfired.trans (.setWork k _)))
  | skip b _ => exact iff_of_true trivial (h.still (.setWork k none))
  | offload b s _ _ => exact iff_of_true trivial (h.still (.beginUnload k _ b .stop))
  | put u after _ =>
      have hput : NoneLost (m.change u.slot fun s => { s with queue := s.queue ++ [.stop] }) :=
        h.change u.slot _ fun _ _ _ _ _ _ _ hholds => Mailbox.Holds.halt hholds
      exact iff_of_true trivial hput
  | timeout u after _ =>
      exact iff_of_true trivial (h.still ((Still.cancelWorker u.slot).trans (.setWork k _)))
  | close u after loads s cancelled _ _ _ =>
      have hnone : NoneLost (m.change u.slot fun s => { s with closed := true }) :=
        h.change u.slot _ fun _ _ _ _ _ _ _ hholds => hholds
      have hclosed : Issued (m.change u.slot fun s => { s with closed := true }) :=
        hissued.change u.slot _ fun _ _ _ hmentions => hmentions
      have hnone' : NoneLost (m.close u) := hnone
      have hclosed' : Issued (m.close u) := hclosed
      exact iff_of_true trivial (hnone'.settles hclosed' (settles_proceed k loads after))
  | abort u after _ => exact iff_of_true trivial (h.still (.fail k after))
  | unwait _ => exact iff_of_true trivial (h.still (.setWork k none))
  | unput u after _ => exact iff_of_true trivial (h.still (.fail k after))
  | cancel u after _ =>
      exact iff_of_true trivial (h.still ((Still.cancelWorker u.slot).trans (.setWork k _)))

/-- **Which steps lose no job.** -/
theorem noneLost_step_iff {e : Event} {u : ModelManager} (h : NoneLost m) (hissued : Issued m)
    (hstep : m.step cfg e = some u) : Careful cfg m e ↔ NoneLost u := by
  cases move_of_step hstep with
  | worker b s e hs hmove => exact noneLost_workerMove_iff h hs hmove
  | thread c e hmove =>
      cases hmove with
      | start _ _ => exact iff_of_true trivial h
      | stop _ _ _ => exact iff_of_true trivial h
  | client j e hmove =>
      cases hmove with
      | change f hf => exact iff_of_true trivial (h.changeJob j f hf)
  | task k e hmove => exact noneLost_taskMove_iff h hissued hmove

theorem Issued.step {e : Event} {u : ModelManager} (h : Issued m) (hstep : m.step cfg e = some u) :
    Issued u := by
  cases move_of_step hstep with
  | worker b s e hs hmove => exact h.workerMove hs hmove
  | thread c e hmove =>
      cases hmove with
      | start _ _ => exact h
      | stop _ _ _ => exact h
  | client j e hmove =>
      cases hmove with
      | change f _ => exact h.changeJob j f
  | task k e hmove => exact h.taskMove hmove

end ModelManager

open Transition ModelManager

/-- **No accepted job is lost by careful steps.** The runs of the manager each of
    whose steps submits jobs only to slots that are not being unloaded, and ends
    no worker as cancelled while a job of its slot is unresolved, are those in
    each state of which every job that was submitted and is unresolved is being
    executed by the running worker of its slot, or waits in that slot's queue
    ahead of any stop. -/
theorem accepted_jobs_kept (cfg : Config) (m : ModelManager) :
    Run (step cfg) (fun m e _ => Careful cfg m e) start m ↔
      Run (step cfg) (fun _ _ u => NoneLost u) start m :=
  run_iff Issued NoneLost (Careful cfg) (fun _ _ _ hs => absurd hs nofun)
    (fun _ _ hjob => absurd hjob nofun) (fun _ _ _ hissued hstep => hissued.step hstep)
    (fun _ _ _ hissued h hstep => noneLost_step_iff h hissued hstep)

/-- A stream is being pumped when an operator unloads its model; a request finds
    the slot and submits behind the stop. The worker ends its stream and takes
    the stop, the slot is closed and out of the table, and the second future is
    never resolved. -/
theorem accepted_job_lost :
    ∃ m, Run (step ⟨1, 2048, 8⟩) anyStep start m ∧ ¬ NoneLost m ∧ m.loaded.entries = [] := by
  have hplay : ((play (step ⟨1, 2048, 8⟩) start
      [.task 0 (.request (.sample none (some (.chat, true)))), .task 0 (.acquire true),
        .worker 0 .take, .worker 0 (.answer true), .thread 1 .start,
        .task 1 (.forceUnload "default" "llama"), .task 1 .put,
        .task 2 (.request (.sample none (some (.chat, false)))),
        .thread 1 (.stop .done), .worker 0 .receive, .worker 0 .put, .worker 0 .take,
        .task 1 (.close true)]).any (fun m => decide (m.loaded.entries = [] ∧
          m.jobs[1]?.map (fun job => (job.slot, job.pending)) = some (0, true) ∧
          m.slots[0]?.map Loaded.worker = some (.ended false)))) = true := by
    decide +kernel
  rcases (Option.any_eq_true _ _).mp hplay with ⟨m, hm, hend⟩
  rcases of_decide_eq_true hend with ⟨hempty, hjobs, hslots⟩
  rcases Option.map_eq_some_iff.mp hjobs with ⟨job, hjob, hpending⟩
  rcases Option.map_eq_some_iff.mp hslots with ⟨s, hs, hworker⟩
  refine ⟨m, run_of_play _ hm, fun hnone => ?_, hempty⟩
  rcases Prod.mk.inj hpending with ⟨hslot, hpending⟩
  rcases hnone 1 job hjob hpending with ⟨s', hs', hholds⟩
  rw [hslot, hs] at hs'
  rw [← Option.some.inj hs'] at hholds
  simp [Mailbox.Holds, Loaded.mailbox, hworker, Worker.serving, Worker.isEnded] at hholds

end Models

end SecureLlm
