import SecureLlm.Models.Streams
import SecureLlm.Models.Tasks

/-!
# The Manager and its Streams

The manager counts what a stream handle buffers. Here each job has its handle, and
a step of the manager that has to do with a stream is a step of the handle too.

The two never disagree: a handle is where the worker of its slot is, it buffers as
many items as the manager counts, and whenever the manager can take a step so can
the handle. So the runs of the manager are the runs of both.

## Main definitions

* `Serving`: The manager and the handles of its jobs.
* `ModelManager.streamEvent`: What a step of the manager is for a stream.
* `Serving.step`: One step of both.
* `ModelManager.Placed`: Jobs are with the slots they were submitted to.
* `Serving.Carries`: The handles are as the manager says.

## Theorems

* `ModelManager.Placed.step`: Jobs stay with their slots.
* `Serving.exists_step`: A step of the manager is a step of both.
* `Serving.exists_run`: So is a run.
-/

namespace SecureLlm

open Library Transition

namespace Models

/-- The job whose stream a worker is at. -/
def Worker.pumped : Worker → Option ℕ
  | .pulling j _ => some j
  | .putting j => some j
  | .finishing j _ => some j
  | _ => none

/-- The job a worker is at. -/
def Worker.job : Worker → Option ℕ
  | .calling j _ => some j
  | w => w.pumped

theorem Worker.job_of_pumped {w : Worker} {j : ℕ} (h : w.pumped = some j) : w.job = some j := by
  cases w with
  | calling i c => exact absurd h nofun
  | _ => exact h

/-- Is the stream where the worker is? -/
def Worker.At : Worker → Stage → Prop
  | .pulling _ _, stage => stage = .pulling
  | .putting _, stage => ∃ chunk, stage = .putting chunk
  | .finishing _ _, stage => stage = .finishing
  | _, _ => True

/-- A job in the queue of a slot or with its worker. -/
def Loaded.Has (s : Loaded) (j : ℕ) : Prop := .item j ∈ s.queue ∨ s.worker.job = some j

namespace ModelManager

variable {cfg : Config} {m u : ModelManager}

/-- What the step of a worker is for a stream. -/
def workerStream (m : ModelManager) (w : Worker) : WorkerEvent → Option (ℕ × StreamEvent)
  | .receive =>
    match w with
    | .pulling j c =>
      match m.calls[c]? with
      | some ⟨_, .ended result⟩ => some (j, .receive result)
      | _ => none
    | _ => none
  | .put => w.pumped.map fun j => (j, .put)
  | .interrupt => w.pumped.map fun j => (j, .interrupt)
  | _ => none

/-- The stream a step has to do with, and what it does there. -/
def streamEvent (m : ModelManager) : Event → Option (ℕ × StreamEvent)
  | .worker b e => m.slots[b]?.bind fun s => m.workerStream s.worker e
  | .client j .read => some (j, .read)
  | .client j .cancel => some (j, .cancel)
  | _ => none

/-- Jobs are with the slots they were submitted to. -/
def Placed (m : ModelManager) : Prop :=
  ∀ (b : ℕ) (s : Loaded) (j : ℕ), m.slots[b]? = some s → s.Has j →
    ∃ job : Job, m.jobs[j]? = some job ∧ job.slot = b

/-! ## Jobs stay with their slots -/

theorem Placed.change (h : Placed m) (b : ℕ) (f : Loaded → Loaded)
    (hf : ∀ s j, m.slots[b]? = some s → (f s).Has j → s.Has j) : Placed (m.change b f) := by
  intro i s j hs hhas
  rw [slots_change] at hs
  by_cases hbi : b = i
  · rw [if_pos hbi] at hs
    rcases Option.map_eq_some_iff.mp hs with ⟨s₀, hs₀, rfl⟩
    exact h i s₀ j hs₀ (hf s₀ j (hbi ▸ hs₀) hhas)
  · rw [if_neg hbi] at hs
    exact h i s j hs hhas

theorem Placed.changeJob (h : Placed m) (i : ℕ) (f : Job → Job)
    (hf : ∀ job, (f job).slot = job.slot) : Placed (m.changeJob i f) := by
  intro b s j hs hhas
  rcases h b s j hs hhas with ⟨job, hjob, hslot⟩
  rw [jobs_changeJob, hjob]
  by_cases hij : i = j
  · rw [if_pos hij]
    exact ⟨f job, rfl, (hf job).trans hslot⟩
  · rw [if_neg hij]
    exact ⟨job, rfl, hslot⟩

/-- The worker of a slot goes on with the job it is at, or leaves it. -/
theorem Placed.move (h : Placed m) (b : ℕ) (w : Worker)
    (hw : ∀ s j, m.slots[b]? = some s → w.job = some j → s.worker.job = some j) :
    Placed (m.move b w) :=
  h.change b _ fun s j hs hhas => hhas.imp id (hw s j hs)

theorem Placed.tends {c : ℕ → Prop} (h : Placed m) (htends : Tends c m u) : Placed u := by
  have hgrow : ∃ new, u.jobs = m.jobs ++ new := htends.jobs.imp fun _ hnew => hnew.1
  intro b s' j hs' hhas
  rcases htends.kept b s' hs' with
    ⟨s, hs, hworker, _, more, hqueue, hposted⟩ | ⟨_, hworker, _, hposted⟩
  · have hold : Posted m b [.item j] → ∃ job : Job, u.jobs[j]? = some job ∧ job.slot = b :=
      fun hp => hp.grow hgrow j (List.mem_singleton.mpr rfl)
    have hhad : s.Has j → Posted m b [.item j] := by
      intro hj i hi
      obtain rfl : i = j := by simpa using hi
      exact h b s i hs hj
    rcases hhas with hmem | hat
    · rw [hqueue] at hmem
      rcases List.mem_append.mp hmem with hmem | hmem
      · exact hold (hhad (Or.inl hmem))
      · exact hposted j hmem
    · rw [hworker] at hat
      exact hold (hhad (Or.inr hat))
  · rcases hhas with hmem | hat
    · exact hposted j hmem
    · rw [hworker] at hat
      exact absurd hat nofun

theorem Placed.pump (h : Placed m) (b j : ℕ) (cancelled : Bool)
    (hat : ∀ s, m.slots[b]? = some s → s.worker.job = some j) :
    Placed (m.pump b j cancelled) := by
  have hsame : ∀ (w : Worker), w.job = some j → ∀ s i, m.slots[b]? = some s →
      w.job = some i → s.worker.job = some i := by
    intro w hw s i hs hi
    rw [← hi, hw]
    exact hat s hs
  unfold ModelManager.pump
  split
  · exact h.move b _ (hsame _ rfl)
  · exact h.move b _ (hsame _ rfl)

theorem Placed.answer (h : Placed m) (b j : ℕ) (job : Job) (ok : Bool)
    (hat : ∀ s, m.slots[b]? = some s → s.worker.job = some j) : Placed (m.answer b j job ok) := by
  have hresolved : Placed (m.changeJob j fun job => { job with pending := false }) :=
    h.changeJob j _ fun _ => rfl
  unfold ModelManager.answer
  split
  · split
    · exact hresolved.pump b j job.cancelled hat
    · have hreset := hresolved.change b (fun s => { s with timer := true }) (fun _ _ _ hhas => hhas)
      exact hreset.move b .waiting nofun
  · exact hresolved.move b .waiting nofun

theorem Placed.workerMove {b : ℕ} {s : Loaded} {e : WorkerEvent} (h : Placed m)
    (hs : m.slots[b]? = some s) (hmove : m.WorkerMove b s e u) : Placed u := by
  have honly : ∀ s', m.slots[b]? = some s' → s' = s := fun s' hs' =>
    Option.some.inj (hs'.symm.trans hs)
  -- A worker that goes on with the job it is at.
  have hat : ∀ {w : Worker} {j : ℕ}, s.worker.job = some j → w.job = some j →
      ∀ s' i, m.slots[b]? = some s' → w.job = some i → s'.worker.job = some i := by
    intro w j hj hw s' i hs' hi
    rw [honly s' hs', hj, ← hw, hi]
  have hcleared : Placed (m.change b fun s => { s with cancelRequested := false }) :=
    h.change b _ fun _ _ _ hhas => hhas
  have hclearedAt : ∀ {w : Worker} {j : ℕ}, s.worker.job = some j → w.job = some j →
      ∀ s' i, (m.change b fun s => { s with cancelRequested := false }).slots[b]? = some s' →
        w.job = some i → s'.worker.job = some i := by
    intro w j hj hw s' i hs' hi
    rw [slots_change, if_pos rfl, hs, Option.map_some] at hs'
    rw [← Option.some.inj hs']
    exact hat hj hw s i hs hi
  cases hmove with
  | leave rest _ hqueue =>
      refine h.change b _ fun s' j hs' hhas => ?_
      rw [honly s' hs']
      rcases hhas with hmem | hworker
      · exact Or.inl (by rw [hqueue]; exact List.mem_cons_of_mem _ hmem)
      · exact absurd hworker nofun
  | begin i rest _ hqueue =>
      have hchange : Placed (m.change b fun s =>
          { s with queue := rest, worker := .calling i m.calls.length }) := by
        refine h.change b _ fun s' j hs' hhas => Or.inl ?_
        rw [honly s' hs', hqueue]
        rcases hhas with hmem | hworker
        · exact List.mem_cons_of_mem _ hmem
        · have heq : i = j := Option.some.inj hworker
          rw [heq]
          exact List.mem_cons_self
      exact hchange
  | answer ok j c job hworker _ =>
      have hcall : Placed ((m.changeCall c (.ended .done)).setBusy false) := h
      exact hcall.answer b j job ok fun s' hs' => by rw [honly s' hs', hworker]; rfl
  | chunk j c slot hworker _ => exact h.move b _ (hat (by rw [hworker]; rfl) rfl)
  | last j c slot result hworker _ => exact h.move b _ (hat (by rw [hworker]; rfl) rfl)
  | put j job hworker _ =>
      have hput : Placed (m.changeJob j fun job => { job with buffered := job.buffered + 1 }) :=
        h.changeJob j _ fun _ => rfl
      exact hput.pump b j job.cancelled fun s' hs' => by rw [honly s' hs', hworker]; rfl
  | finish j cancelled _ =>
      have hreset := (h.changeJob j (fun job => { job with buffered := job.buffered + 1 })
        (fun _ => rfl)).change b (fun s => { s with timer := true }) (fun _ _ _ hhas => hhas)
      refine hreset.move b _ ?_
      cases cancelled
      · exact nofun
      · exact nofun
  | cease _ => exact hcleared.move b _ nofun
  | unput j hworker => exact hcleared.move b _ (hclearedAt (by rw [hworker]; rfl) rfl)
  | drop j c slot hworker _ =>
      have hmoved : Placed ((m.change b fun s => { s with cancelRequested := false }).move b
          (.finishing j true)) := hcleared.move b _ (hclearedAt (by rw [hworker]; rfl) rfl)
      exact hmoved
  | abandon j c hworker _ => exact hcleared.move b _ (hclearedAt (by rw [hworker]; rfl) rfl)

theorem Placed.step {e : Event} (h : Placed m) (hstep : m.step cfg e = some u) : Placed u := by
  have hon : m.step cfg e = some u := hstep
  unfold ModelManager.step at hon
  split at hon
  · exact absurd hon nofun
  · cases move_of_step hstep with
    | worker b s e hs hmove => exact h.workerMove hs hmove
    | thread c e hmove =>
        cases hmove with
        | start _ _ => exact h
        | stop _ _ _ => exact h
    | client j e hmove =>
        cases hmove with
        | change f hf => exact h.changeJob j f fun job => (hf job).2
    | task k e _ => exact h.tends (tends_of_step hon)

end ModelManager

/-- The manager, and the handle of each job. -/
structure Serving where
  manager : ModelManager
  streams : ℕ → StreamHandle

namespace Serving

/-- Nothing is loaded. -/
def start : Serving := ⟨.start, fun _ => .start⟩

variable (cfg : Config)

/-- One step of the manager, and of the handle it has to do with. -/
def step (s : Serving) (e : ModelManager.Event) : Option Serving := do
  let m ← s.manager.step cfg e
  match s.manager.streamEvent e with
  | none => some ⟨m, s.streams⟩
  | some (j, e') => do
    let stream ← (s.streams j).step handleSize e'
    some ⟨m, Function.update s.streams j stream⟩

/-- A handle is as the manager says of its job. -/
def Agrees (job : Job) (stream : StreamHandle) : Prop :=
  (job.pending = true → stream = .start) ∧ stream.queue.length = job.buffered ∧
    stream.cancelled = job.cancelled

/-- All handles are as the manager says: of the jobs, and of its workers. -/
structure Carries (s : Serving) : Prop where
  placed : s.manager.Placed
  orderly : ∀ j, (s.streams j).Orderly
  agrees : ∀ (j : ℕ) (job : Job), s.manager.jobs[j]? = some job → Agrees job (s.streams j)
  pumped : ∀ (b : ℕ) (slot : Loaded) (j : ℕ), s.manager.slots[b]? = some slot →
    slot.worker.pumped = some j → slot.worker.At (s.streams j).stage ∧
      ∃ job : Job, s.manager.jobs[j]? = some job ∧ job.pending = false
  unborn : ∀ j, s.manager.jobs.length ≤ j → s.streams j = .start

variable {cfg}

theorem carries_start : Carries start where
  placed _ _ _ hs := absurd hs nofun
  orderly _ := StreamHandle.orderly_start
  agrees _ _ hjob := absurd hjob nofun
  pumped _ _ _ hs := absurd hs nofun
  unborn _ _ := rfl

theorem agrees_new {job : Job} (h : job.pending = true ∧ job.cancelled = false ∧ job.buffered = 0) :
    Agrees job .start :=
  ⟨fun _ => rfl, h.2.2.symm, h.2.1.symm⟩

theorem step_quiet {s : Serving} {e : ModelManager.Event} {m : ModelManager}
    (hm : s.manager.step cfg e = some m) (he : s.manager.streamEvent e = none) :
    s.step cfg e = some ⟨m, s.streams⟩ := by
  unfold step
  rw [hm]
  simp only [Option.bind_eq_bind, Option.bind_some, he]

theorem step_stream {s : Serving} {e : ModelManager.Event} {m : ModelManager} {j : ℕ}
    {e' : StreamEvent} {stream : StreamHandle} (hm : s.manager.step cfg e = some m)
    (he : s.manager.streamEvent e = some (j, e'))
    (hstream : (s.streams j).step handleSize e' = some stream) :
    s.step cfg e = some ⟨m, Function.update s.streams j stream⟩ := by
  unfold step
  rw [hm]
  simp only [Option.bind_eq_bind, Option.bind_some, he, hstream]

/-- A step of both is one of the manager, and of a handle if it has to do with
    one. -/
theorem step_cases {s u : Serving} {e : ModelManager.Event} (h : s.step cfg e = some u) :
    s.manager.step cfg e = some u.manager ∧
      (s.manager.streamEvent e = none ∧ u.streams = s.streams ∨
        ∃ j e' stream, s.manager.streamEvent e = some (j, e') ∧
          (s.streams j).step handleSize e' = some stream ∧
          u.streams = Function.update s.streams j stream) := by
  unfold step at h
  rcases Option.bind_eq_some_iff.mp h with ⟨m, hm, h⟩
  cases hevent : s.manager.streamEvent e with
  | none =>
      simp only [hevent, Option.some.injEq] at h
      rw [← h]
      exact ⟨hm, Or.inl ⟨rfl, rfl⟩⟩
  | some je =>
      simp only [hevent, Option.bind_eq_bind, Option.bind_eq_some_iff, Option.some.injEq] at h
      rcases h with ⟨stream, hstream, hu⟩
      rw [← hu]
      exact ⟨hm, Or.inr ⟨je.1, je.2, stream, rfl, hstream, rfl⟩⟩

/-! ## The handles follow the manager -/

/-- The worker of a slot goes on with the job it is at, and the handle of the job
    goes with it. -/
theorem Carries.goes {s : Serving} (h : Carries s) {b j : ℕ} {slot : Loaded} {m : ModelManager}
    {w : Worker} {stream : StreamHandle} (g : Loaded → Loaded) (f : Job → Job)
    (hs : s.manager.slots[b]? = some slot) (hat : slot.worker.job = some j)
    (hplaced : m.Placed) (hslots : m.slots = s.manager.slots.modify b g)
    (hg : ∀ slot, (g slot).worker = w) (hjobs : m.jobs = s.manager.jobs.modify j f)
    (horderly : stream.Orderly) (hagrees : ∀ job, s.manager.jobs[j]? = some job →
      Agrees (f job) stream)
    (hw : w.pumped ≠ none → w.pumped = some j ∧ w.At stream.stage ∧
      ∀ job, s.manager.jobs[j]? = some job → (f job).pending = false) :
    Carries ⟨m, Function.update s.streams j stream⟩ := by
  rcases h.placed b slot j hs (Or.inr hat) with ⟨job, hjob, hslot⟩
  have hown : m.jobs[j]? = some (f job) := by
    rw [hjobs, List.getElem?_modify_eq, hjob]
    rfl
  have hothers : ∀ i, j ≠ i → m.jobs[i]? = s.manager.jobs[i]? := by
    intro i hji
    rw [hjobs, List.getElem?_modify_ne _ _ hji]
  refine ⟨hplaced, fun i => ?_, fun i job' hjob' => ?_, fun b' slot' i hs' hpumped => ?_,
    fun i hi => ?_⟩
  · show (Function.update s.streams j stream i).Orderly
    by_cases hij : i = j
    · rw [hij, Function.update_self]
      exact horderly
    · rw [Function.update_of_ne hij]
      exact h.orderly i
  · show Agrees job' (Function.update s.streams j stream i)
    by_cases hij : i = j
    · rw [hij] at hjob' ⊢
      rw [hown] at hjob'
      rw [← Option.some.inj hjob', Function.update_self]
      exact hagrees job hjob
    · rw [hothers i (Ne.symm hij)] at hjob'
      rw [Function.update_of_ne hij]
      exact h.agrees i job' hjob'
  · show slot'.worker.At (Function.update s.streams j stream i).stage ∧ _
    by_cases hbb : b = b'
    · -- The worker that goes on is at this job only.
      rw [← hbb, hslots, List.getElem?_modify_eq, hs] at hs'
      have hw' : slot'.worker = w := by
        rw [← Option.some.inj hs']
        exact hg slot
      rw [hw'] at hpumped ⊢
      rcases hw (by rw [hpumped]; exact Option.some_ne_none i) with ⟨hj, hstage, hpending⟩
      obtain rfl : i = j := Option.some.inj (hpumped.symm.trans hj)
      rw [Function.update_self]
      exact ⟨hstage, f job, hown, hpending job hjob⟩
    · rw [hslots, List.getElem?_modify_ne _ _ hbb] at hs'
      rcases h.pumped b' slot' i hs' hpumped with ⟨hstage, job', hjob', hpending⟩
      have hij : i ≠ j := by
        rintro rfl
        rcases h.placed b' slot' i hs' (Or.inr (Worker.job_of_pumped hpumped)) with
          ⟨job'', hjob'', hslot''⟩
        rw [hjob] at hjob''
        rw [← Option.some.inj hjob''] at hslot''
        exact hbb (hslot.symm.trans hslot'')
      rw [Function.update_of_ne hij]
      exact ⟨hstage, job', by rw [hothers i (Ne.symm hij)]; exact hjob', hpending⟩
  · show Function.update s.streams j stream i = .start
    have hlength : m.jobs.length = s.manager.jobs.length := by rw [hjobs, List.length_modify]
    have hij : i ≠ j := by
      rintro rfl
      have hlt := (List.getElem?_eq_some_iff.mp hown).1
      exact absurd hi (Nat.not_le.mpr hlt)
    rw [Function.update_of_ne hij]
    exact h.unborn i (by rw [← hlength]; exact hi)

/-- The worker of a slot goes on to where it is at no stream. -/
theorem Carries.rests {s : Serving} (h : Carries s) {b : ℕ} {m : ModelManager}
    (g : Loaded → Loaded) (hplaced : m.Placed) (hslots : m.slots = s.manager.slots.modify b g)
    (hg : ∀ slot, (g slot).worker.pumped = none) (hjobs : m.jobs = s.manager.jobs) :
    Carries ⟨m, s.streams⟩ := by
  refine ⟨hplaced, h.orderly, fun i job hjob => h.agrees i job (hjobs ▸ hjob),
    fun i slot j hs hpumped => ?_, fun i hi => h.unborn i (hjobs ▸ hi)⟩
  by_cases hbi : b = i
  · rw [← hbi, hslots, List.getElem?_modify_eq] at hs
    rcases Option.map_eq_some_iff.mp hs with ⟨slot₀, _, rfl⟩
    rw [hg slot₀] at hpumped
    exact absurd hpumped nofun
  · rw [hslots, List.getElem?_modify_ne _ _ hbi] at hs
    rw [hjobs]
    exact h.pumped i slot j hs hpumped

theorem Carries.tends {s : Serving} (h : Carries s) {m : ModelManager} {c : ℕ → Prop}
    (htends : s.manager.Tends c m) : Carries ⟨m, s.streams⟩ := by
  rcases htends.jobs with ⟨new, hnew, hfresh⟩
  refine ⟨h.placed.tends htends, h.orderly, fun i job hjob => ?_,
    fun b slot' j hs' hpumped => ?_, fun i hi => h.unborn i ?_⟩
  · rw [hnew] at hjob
    by_cases hlt : i < s.manager.jobs.length
    · rw [List.getElem?_append_left hlt] at hjob
      exact h.agrees i job hjob
    · have hle : s.manager.jobs.length ≤ i := Nat.not_lt.mp hlt
      rw [List.getElem?_append_right hle] at hjob
      rw [h.unborn i hle]
      exact agrees_new (hfresh job (List.mem_of_getElem? hjob))
  · rcases htends.kept b slot' hs' with ⟨slot, hs, hworker, _⟩ | ⟨_, hworker, _⟩
    · rw [hworker] at hpumped ⊢
      rcases h.pumped b slot j hs hpumped with ⟨hstage, job, hjob, hpending⟩
      refine ⟨hstage, job, ?_, hpending⟩
      rw [hnew, List.getElem?_append_left (List.getElem?_eq_some_iff.mp hjob).1]
      exact hjob
    · rw [hworker] at hpumped
      exact absurd hpumped nofun
  · rw [hnew, List.length_append] at hi
    exact Nat.le_of_add_right_le hi

/-- What `next` returned decides where the worker goes. -/
theorem receive_cases {m u : ModelManager} {b : ℕ} (h : m.workerStep b .receive = some u) :
    ∃ s j c i result, m.slots[b]? = some s ∧ s.worker = .pulling j c ∧
      m.calls[c]? = some ⟨i, .ended result⟩ ∧
      u = m.move b (if result = .chunk then .putting j else .finishing j false) := by
  unfold ModelManager.workerStep at h
  rcases Option.bind_eq_some_iff.mp h with ⟨s, hs, h⟩
  cases hc : s.cancelRequested <;> cases hw : s.worker <;> simp only [hc, hw, reduceCtorEq] at h
  rename_i j c
  split at h
  · rename_i i hcall
    exact ⟨s, j, c, i, .chunk, hs, hw, hcall, by rw [if_pos rfl, ← Option.some.inj h]⟩
  · rename_i i result hne hcall
    refine ⟨s, j, c, i, result, hs, hw, hcall, ?_⟩
    rw [if_neg fun hchunk => hne hchunk, ← Option.some.inj h]
  · exact absurd h nofun

/-- A put that goes through has found room. -/
theorem room_of_put {m u : ModelManager} {b j : ℕ} {s : Loaded}
    (h : m.workerStep b .put = some u) (hs : m.slots[b]? = some s)
    (hat : s.worker = .putting j ∨ ∃ cancelled, s.worker = .finishing j cancelled) :
    ∃ job : Job, m.jobs[j]? = some job ∧ job.buffered < handleSize := by
  unfold ModelManager.workerStep at h
  rw [hs, Option.bind_eq_bind, Option.bind_some] at h
  rcases hat with hworker | ⟨cancelled, hworker⟩
  all_goals
    cases hc : s.cancelRequested <;> simp only [hc, hworker, reduceCtorEq] at h
    rcases Option.bind_eq_some_iff.mp h with ⟨job, hjob, h⟩
    refine ⟨job, hjob, ?_⟩
    by_contra hfull
    rw [if_neg hfull] at h
    exact absurd h nofun

theorem not_full {job : Job} {stream : StreamHandle} (h : Agrees job stream)
    (hroom : job.buffered < handleSize) : ¬ stream.full handleSize = true := by
  rw [StreamHandle.full_iff, h.2.1]
  omega

/-- A handle whose job has been answered. -/
theorem agrees_answered {job : Job} {stream : StreamHandle} (hpending : job.pending = false)
    (hlength : stream.queue.length = job.buffered) (hcancelled : stream.cancelled = job.cancelled) :
    Agrees job stream := by
  refine ⟨fun hp => ?_, hlength, hcancelled⟩
  rw [hpending] at hp
  exact absurd hp nofun

/-- The worker of a slot is at a stream. -/
theorem Carries.at_stream {s : Serving} (h : Carries s) {b j : ℕ} {slot : Loaded}
    (hs : s.manager.slots[b]? = some slot) (hpumped : slot.worker.pumped = some j) :
    slot.worker.job = some j ∧ slot.worker.At (s.streams j).stage ∧
      ∃ job, s.manager.jobs[j]? = some job ∧ job.pending = false ∧ Agrees job (s.streams j) ∧
        ∀ job', s.manager.jobs[j]? = some job' → job' = job := by
  rcases h.pumped b slot j hs hpumped with ⟨hstage, job, hjob, hpending⟩
  refine ⟨?_, hstage, job, hjob, hpending, h.agrees j job hjob, fun job' hjob' => ?_⟩
  · exact Worker.job_of_pumped hpumped
  · exact Option.some.inj (hjob'.symm.trans hjob)

/-- A step of a worker that is at a stream is a step of the handle. -/
theorem Carries.worker {s : Serving} {m : ModelManager} {b j : ℕ} {slot : Loaded}
    {e : ModelManager.WorkerEvent} {e' : StreamEvent} {w : Worker} {stream : StreamHandle}
    (h : Carries s) (hm : s.manager.step cfg (.worker b e) = some m)
    (hs : s.manager.slots[b]? = some slot) (hpumped : slot.worker.pumped = some j)
    (hevent : s.manager.workerStream slot.worker e = some (j, e')) (he' : e' ≠ .stop)
    (hstream : (s.streams j).step handleSize e' = some stream) (g : Loaded → Loaded) (f : Job → Job)
    (hslots : m.slots = s.manager.slots.modify b g) (hg : ∀ slot, (g slot).worker = w)
    (hjobs : m.jobs = s.manager.jobs.modify j f)
    (hagrees : ∀ job, job.pending = false → Agrees job (s.streams j) →
      (f job).pending = false ∧ Agrees (f job) stream)
    (hw : w.pumped ≠ none → w.pumped = some j ∧ w.At stream.stage) :
    ∃ streams, s.step cfg (.worker b e) = some ⟨m, streams⟩ ∧ Carries ⟨m, streams⟩ := by
  rcases h.at_stream hs hpumped with ⟨hat, _, job, hjob, hpending, hagreesJob, honly⟩
  have hevent' : s.manager.streamEvent (.worker b e) = some (j, e') := by
    rw [ModelManager.streamEvent, hs]
    exact hevent
  refine ⟨_, step_stream hm hevent' hstream, h.goes g f hs hat (h.placed.step hm) hslots hg hjobs
    ((h.orderly j).step he' hstream) (fun job' hjob' => ?_) fun hne => ?_⟩
  · rw [honly job' hjob']
    exact (hagrees job hpending hagreesJob).2
  · refine ⟨(hw hne).1, (hw hne).2, fun job' hjob' => ?_⟩
    rw [honly job' hjob']
    exact (hagrees job hpending hagreesJob).1

/-- The worker gets a chunk or the end. -/
theorem Carries.receive {s : Serving} {m : ModelManager} {b : ℕ} (h : Carries s)
    (hm : s.manager.step cfg (.worker b .receive) = some m)
    (hon : s.manager.workerStep b .receive = some m) :
    ∃ streams, s.step cfg (.worker b .receive) = some ⟨m, streams⟩ ∧ Carries ⟨m, streams⟩ := by
  rcases receive_cases hon with ⟨slot, j, c, i, result, hs, hworker, hcall, hu⟩
  have hpumped : slot.worker.pumped = some j := by rw [hworker]; rfl
  have hstage : (s.streams j).stage = .pulling := by
    have hat := (h.at_stream hs hpumped).2.1
    rw [hworker] at hat
    exact hat
  have hevent : s.manager.workerStream slot.worker .receive = some (j, .receive result) := by
    simp only [ModelManager.workerStream, hworker, hcall]
  have hjobs : m.jobs = s.manager.jobs.modify j id := by rw [hu, List.modify_id]; rfl
  by_cases hchunk : result = .chunk
  · rw [hchunk] at hevent hu
    rw [if_pos rfl] at hu
    have hstream : (s.streams j).step handleSize (.receive .chunk) = some { s.streams j with
        pulled := (s.streams j).pulled + 1, stage := .putting (s.streams j).pulled } := by
      simp only [StreamHandle.step, hstage]
    exact h.worker (w := .putting j) hm hs hpumped hevent (by simp) hstream _ id (by rw [hu]; rfl)
      (fun _ => rfl) hjobs (fun job hp ha => ⟨hp, agrees_answered hp ha.2.1 ha.2.2⟩)
      fun _ => ⟨rfl, _, rfl⟩
  · rw [if_neg hchunk] at hu
    have hstream : (s.streams j).step handleSize (.receive result) = some { s.streams j with
        stage := .finishing, outcome := some result } := by
      cases result with
      | chunk => exact absurd rfl hchunk
      | done => simp only [StreamHandle.step, hstage]
      | error => simp only [StreamHandle.step, hstage]
    exact h.worker (w := .finishing j false) hm hs hpumped hevent (by simp) hstream _ id
      (by rw [hu]; rfl) (fun _ => rfl) hjobs
      (fun job hp ha => ⟨hp, agrees_answered hp ha.2.1 ha.2.2⟩) fun _ => ⟨rfl, rfl⟩

/-- A worker that is cancelled at a stream goes to the put of the end mark, or
    leaves it there. -/
theorem Carries.interrupt {s : Serving} {m : ModelManager} {b j : ℕ} {slot : Loaded} {w : Worker}
    (h : Carries s) (hm : s.manager.step cfg (.worker b .interrupt) = some m)
    (hs : s.manager.slots[b]? = some slot) (hpumped : slot.worker.pumped = some j)
    (g : Loaded → Loaded) (hslots : m.slots = s.manager.slots.modify b g)
    (hg : ∀ slot, (g slot).worker = w) (hjobs : m.jobs = s.manager.jobs)
    (hw : w = .finishing j true ∧ (∀ cancelled, slot.worker ≠ .finishing j cancelled) ∨
      w.pumped = none ∧ ∃ cancelled, slot.worker = .finishing j cancelled) :
    ∃ streams, s.step cfg (.worker b .interrupt) = some ⟨m, streams⟩ ∧ Carries ⟨m, streams⟩ := by
  have hevent : s.manager.workerStream slot.worker .interrupt = some (j, .interrupt) := by
    rw [ModelManager.workerStream, hpumped, Option.map_some]
  have hat := (h.at_stream hs hpumped).2.1
  have hjobs' : m.jobs = s.manager.jobs.modify j id := by rw [hjobs, List.modify_id]
  -- Cancelled in its loop it goes on to the end mark; cancelled there it has ended.
  rcases hw with ⟨hw, hnot⟩ | ⟨hw, cancelled, hworker⟩
  · have hstream : (s.streams j).step handleSize .interrupt =
        some { s.streams j with stage := .finishing } := by
      cases hworker : slot.worker with
      | pulling i c =>
          rw [hworker] at hat
          have hstage : (s.streams j).stage = .pulling := hat
          simp only [StreamHandle.step, hstage]
      | putting i =>
          rw [hworker] at hat
          rcases hat with ⟨chunk, hstage⟩
          simp only [StreamHandle.step, hstage]
      | finishing i cancelled =>
          rw [hworker] at hpumped
          rw [Option.some.inj hpumped] at hworker
          exact absurd hworker (hnot cancelled)
      | _ =>
          rw [hworker] at hpumped
          cases hpumped
    exact h.worker (w := w) hm hs hpumped hevent (by simp) hstream g id hslots hg hjobs'
      (fun job hp ha => ⟨hp, agrees_answered hp ha.2.1 ha.2.2⟩)
      fun _ => by rw [hw]; exact ⟨rfl, rfl⟩
  · rw [hworker] at hat
    have hstage : (s.streams j).stage = .finishing := hat
    have hstream : (s.streams j).step handleSize .interrupt =
        some { s.streams j with stage := .over } := by
      simp only [StreamHandle.step, hstage]
    exact h.worker (w := w) hm hs hpumped hevent (by simp) hstream g id hslots hg hjobs'
      (fun job hp ha => ⟨hp, agrees_answered hp ha.2.1 ha.2.2⟩) fun hne => absurd hw hne

theorem workerStream_put {m : ModelManager} {w : Worker} {j : ℕ} (h : w.pumped = some j) :
    m.workerStream w .put = some (j, .put) := by
  rw [ModelManager.workerStream, h, Option.map_some]

/-- The worker puts a chunk, and looks whether the stream is cancelled. -/
theorem Carries.put {s : Serving} {m : ModelManager} {b j : ℕ} {slot : Loaded} {job : Job}
    (h : Carries s) (hm : s.manager.step cfg (.worker b .put) = some m)
    (hon : s.manager.workerStep b .put = some m) (hs : s.manager.slots[b]? = some slot)
    (hworker : slot.worker = .putting j) (hjob : s.manager.jobs[j]? = some job)
    (hu : m = (s.manager.changeJob j fun job => { job with buffered := job.buffered + 1 }).pump b j
      job.cancelled) :
    ∃ streams, s.step cfg (.worker b .put) = some ⟨m, streams⟩ ∧ Carries ⟨m, streams⟩ := by
  have hpumped : slot.worker.pumped = some j := by rw [hworker]; rfl
  have hagrees := h.agrees j job hjob
  have hroom : ¬ (s.streams j).full handleSize = true := by
    rcases room_of_put hon hs (Or.inl hworker) with ⟨job', hjob', hroom⟩
    rw [hjob] at hjob'
    rw [← Option.some.inj hjob'] at hroom
    exact not_full hagrees hroom
  have hat := (h.at_stream hs hpumped).2.1
  rw [hworker] at hat
  rcases hat with ⟨chunk, hstage⟩
  -- Handle and job are cancelled or not alike.
  have hgoes : ∀ (w : Worker), (w.pumped = some j ∧
      w.At (if job.cancelled then .finishing else .pulling)) →
      m.slots = s.manager.slots.modify b (fun slot => { slot with worker := w }) →
      m.jobs = s.manager.jobs.modify j (fun job => { job with buffered := job.buffered + 1 }) →
      ∃ streams, s.step cfg (.worker b .put) = some ⟨m, streams⟩ ∧ Carries ⟨m, streams⟩ := by
    intro w hw hslots hjobs
    refine h.worker (w := w) hm hs hpumped (workerStream_put hpumped) nofun
      (StreamHandle.step_put hroom hstage) _ _ hslots (fun _ => rfl) hjobs
      (fun job' hp ha => ⟨hp, agrees_answered hp ?_ ha.2.2⟩) fun _ => ⟨hw.1, ?_⟩
    · simp [StreamHandle.pump, ha.2.1]
    · simp only [StreamHandle.pump, hagrees.2.2]
      exact hw.2
  cases hcancelled : job.cancelled with
  | true =>
      rw [hcancelled] at hu
      rw [hu]
      rw [hu, hcancelled] at hgoes
      exact hgoes (.finishing j false) ⟨rfl, rfl⟩ rfl rfl
  | false =>
      rw [hcancelled] at hu
      rw [hu]
      rw [hu, hcancelled] at hgoes
      exact hgoes (.pulling j _) ⟨rfl, rfl⟩ rfl rfl

/-- The worker puts the end mark. -/
theorem Carries.finish {s : Serving} {m : ModelManager} {b j : ℕ} {slot : Loaded}
    {cancelled : Bool} (h : Carries s) (hm : s.manager.step cfg (.worker b .put) = some m)
    (hon : s.manager.workerStep b .put = some m) (hs : s.manager.slots[b]? = some slot)
    (hworker : slot.worker = .finishing j cancelled)
    (hu : m = ((s.manager.changeJob j fun job =>
      { job with buffered := job.buffered + 1 }).resetIdle b).move b
        (if cancelled then .ended true else .waiting)) :
    ∃ streams, s.step cfg (.worker b .put) = some ⟨m, streams⟩ ∧ Carries ⟨m, streams⟩ := by
  have hpumped : slot.worker.pumped = some j := by rw [hworker]; rfl
  rcases room_of_put hon hs (Or.inr ⟨cancelled, hworker⟩) with ⟨job, hjob, hroom⟩
  have hfree := not_full (h.agrees j job hjob) hroom
  have hstage : (s.streams j).stage = .finishing := by
    have hat := (h.at_stream hs hpumped).2.1
    rw [hworker] at hat
    exact hat
  have hstream : (s.streams j).step handleSize .put =
      some { s.streams j with queue := (s.streams j).queue ++ [.stop], stage := .over } := by
    unfold StreamHandle.step
    rw [if_neg hfree, hstage]
  refine h.worker (w := if cancelled then .ended true else .waiting) hm hs hpumped
    (workerStream_put hpumped) nofun hstream
    (fun slot => { slot with timer := true, worker := if cancelled then .ended true else .waiting })
    (fun job => { job with buffered := job.buffered + 1 }) ?_ (fun _ => rfl) (by rw [hu]; rfl)
    (fun job' hp ha => ⟨hp, agrees_answered hp ?_ ha.2.2⟩) fun hne => absurd ?_ hne
  · rw [hu, ModelManager.move, ModelManager.resetIdle, ModelManager.change_change]
    rfl
  · simp [ha.2.1]
  · cases cancelled <;> rfl

/-- The worker is back from a call, and begins with the stream if there is one. -/
theorem Carries.answer {s : Serving} {m n : ModelManager} {b j c : ℕ} {slot : Loaded} {job : Job}
    {ok : Bool} (h : Carries s) (hm : s.manager.step cfg (.worker b (.answer ok)) = some m)
    (hs : s.manager.slots[b]? = some slot) (hworker : slot.worker = .calling j c)
    (hjob : s.manager.jobs[j]? = some job) (hslots : n.slots = s.manager.slots)
    (hjobs : n.jobs = s.manager.jobs) (hu : m = n.answer b j job ok) :
    ∃ streams, s.step cfg (.worker b (.answer ok)) = some ⟨m, streams⟩ ∧ Carries ⟨m, streams⟩ := by
  have hquiet : s.manager.streamEvent (.worker b (.answer ok)) = none := by
    rw [ModelManager.streamEvent, hs]
    rfl
  have hat : slot.worker.job = some j := by rw [hworker]; rfl
  have hagrees := h.agrees j job hjob
  refine ⟨s.streams, step_quiet hm hquiet, ?_⟩
  have hgoes : ∀ (w : Worker) (g : Loaded → Loaded), (∀ slot, (g slot).worker = w) →
      m.slots = s.manager.slots.modify b g →
      m.jobs = s.manager.jobs.modify j (fun job => { job with pending := false }) →
      (w.pumped ≠ none → w.pumped = some j ∧ w.At (s.streams j).stage) →
      Carries ⟨m, s.streams⟩ := by
    intro w g hg hslots hjobs hw
    have hkept := h.goes (w := w) g _ hs hat (h.placed.step hm) hslots hg
      hjobs (h.orderly j) (fun job' hjob' => ?_) fun hne => ⟨(hw hne).1, (hw hne).2, fun _ _ => rfl⟩
    · rwa [Function.update_eq_self] at hkept
    · have ha := h.agrees j job' hjob'
      exact agrees_answered rfl ha.2.1 ha.2.2
  rw [hu] at hgoes ⊢
  unfold ModelManager.answer at hgoes ⊢
  by_cases hresolves : (ok && job.pending) = true
  · rw [if_pos hresolves] at hgoes ⊢
    -- The handle of a job that has not been answered is as it was made.
    have hstart : s.streams j = .start := by
      rw [Bool.and_eq_true] at hresolves
      exact hagrees.1 hresolves.2
    have hcancelled : job.cancelled = false := by
      rw [← hagrees.2.2, hstart]
      rfl
    by_cases hstreams : job.streams = true
    · rw [if_pos hstreams, hcancelled] at hgoes ⊢
      exact hgoes (.pulling j _) _ (fun _ => rfl) (by rw [← hslots]; rfl) (by rw [← hjobs]; rfl)
        fun _ => ⟨rfl, by rw [hstart]; rfl⟩
    · rw [if_neg hstreams] at hgoes ⊢
      refine hgoes .waiting (fun slot => { slot with timer := true, worker := .waiting })
        (fun _ => rfl) ?_ (by rw [← hjobs]; rfl) fun hne => absurd rfl hne
      rw [ModelManager.move, ModelManager.resetIdle, ModelManager.change_change, ← hslots]
      rfl
  · rw [if_neg hresolves] at hgoes ⊢
    exact hgoes .waiting _ (fun _ => rfl) (by rw [← hslots]; rfl) (by rw [← hjobs]; rfl)
      fun hne => absurd rfl hne

/-- A caller changes its job, and the handle goes with it. -/
theorem Carries.client {s : Serving} {j : ℕ} {job : Job} (h : Carries s)
    (hjob : s.manager.jobs[j]? = some job) (f : Job → Job) (hslot : ∀ job, (f job).slot = job.slot)
    (hpending : ∀ job, (f job).pending = true → job.pending = true) (stream : StreamHandle)
    (horderly : stream.Orderly) (hagrees : Agrees (f job) stream)
    (hstage : stream.stage = (s.streams j).stage) :
    Carries ⟨s.manager.changeJob j f, Function.update s.streams j stream⟩ := by
  refine ⟨h.placed.changeJob j f hslot, fun i => ?_, fun i job' hjob' => ?_,
    fun b slot i hs hpumped => ?_, fun i hi => ?_⟩
  · show (Function.update s.streams j stream i).Orderly
    by_cases hij : i = j
    · rw [hij, Function.update_self]
      exact horderly
    · rw [Function.update_of_ne hij]
      exact h.orderly i
  · show Agrees job' (Function.update s.streams j stream i)
    rw [ModelManager.jobs_changeJob] at hjob'
    by_cases hij : i = j
    · rw [hij, if_pos rfl, hjob] at hjob'
      rw [← Option.some.inj hjob', hij, Function.update_self]
      exact hagrees
    · rw [if_neg (Ne.symm hij)] at hjob'
      rw [Function.update_of_ne hij]
      exact h.agrees i job' hjob'
  · show slot.worker.At (Function.update s.streams j stream i).stage ∧ _
    rcases h.pumped b slot i hs hpumped with ⟨hat, job', hjob', hdone⟩
    -- The worker is where the stage says, and the client does not change the stage.
    have hstages : (Function.update s.streams j stream i).stage = (s.streams i).stage := by
      by_cases hij : i = j
      · rw [hij, Function.update_self, hstage]
      · rw [Function.update_of_ne hij]
    rw [hstages]
    refine ⟨hat, ?_⟩
    rw [ModelManager.jobs_changeJob, hjob']
    by_cases hji : j = i
    · rw [if_pos hji]
      refine ⟨f job', rfl, ?_⟩
      by_contra hp
      rw [Bool.not_eq_false] at hp
      rw [hpending job' hp] at hdone
      exact absurd hdone nofun
    · rw [if_neg hji]
      exact ⟨job', rfl, hdone⟩
  · show Function.update s.streams j stream i = .start
    have hlength : (s.manager.changeJob j f).jobs.length = s.manager.jobs.length :=
      List.length_modify _ _ _
    have hi' : s.manager.jobs.length ≤ i := by rw [← hlength]; exact hi
    -- The stream is that of a job there is.
    have hij : i ≠ j := by
      rintro rfl
      exact absurd hi' (Nat.not_le.mpr (List.getElem?_eq_some_iff.mp hjob).1)
    rw [Function.update_of_ne hij]
    exact h.unborn i hi'

/-- What a caller does to its job it does to the handle. -/
theorem Carries.clientStep {s : Serving} {m : ModelManager} {j : ℕ} {e : ModelManager.ClientEvent}
    (h : Carries s) (hm : s.manager.step cfg (.client j e) = some m)
    (hon : s.manager.clientStep j e = some m) :
    ∃ streams, s.step cfg (.client j e) = some ⟨m, streams⟩ ∧ Carries ⟨m, streams⟩ := by
  unfold ModelManager.clientStep at hon
  rcases Option.bind_eq_some_iff.mp hon with ⟨job, hjob, hon⟩
  have hagrees := h.agrees j job hjob
  cases e with
  | read =>
      dsimp only at hon
      split at hon
      · rename_i hbuffered
        have hne : (s.streams j).queue ≠ [] := by
          intro hnil
          rw [← hagrees.2.1, hnil] at hbuffered
          exact Nat.lt_irrefl 0 hbuffered
        rcases List.exists_cons_of_ne_nil hne with ⟨x, rest, hqueue⟩
        have hreading : (s.streams j).reading = true := by
          by_contra hr
          exact hne ((h.orderly j).reads (by simpa using hr)).2
        have hstream : (s.streams j).step handleSize .read =
            some { s.streams j with
              queue := rest
              taken := (s.streams j).taken ++ [x]
              reading := decide (x ≠ .stop) } := by
          simp only [StreamHandle.step, hreading, hqueue]
        -- A handle that buffers something is not as it was made.
        have hpending : job.pending = false := by
          by_contra hp
          rw [Bool.not_eq_false] at hp
          rw [hagrees.1 hp] at hne
          exact hne rfl
        refine ⟨_, step_stream hm rfl hstream, ?_⟩
        rw [← Option.some.inj hon]
        have horderly := (h.orderly j).step (e := .read) (by simp) hstream
        refine h.client hjob (fun job => { job with buffered := job.buffered - 1 })
          (fun _ => rfl) (fun _ => id) _ horderly (agrees_answered hpending ?_ hagrees.2.2) rfl
        show rest.length = job.buffered - 1
        rw [← hagrees.2.1, hqueue, List.length_cons, Nat.add_sub_cancel]
      · cases hon
  | cancel =>
      dsimp only at hon
      split at hon
      · rename_i hcancels
        have hpending : job.pending = false := by
          rw [Bool.and_eq_true, Bool.not_eq_true'] at hcancels
          exact hcancels.2
        have hstream : (s.streams j).step handleSize .cancel =
            some { s.streams j with cancelled := true } := rfl
        refine ⟨_, step_stream hm rfl hstream, ?_⟩
        rw [← Option.some.inj hon]
        have horderly := (h.orderly j).step (e := .cancel) (by simp) hstream
        exact h.client hjob (fun job => { job with cancelled := true }) (fun _ => rfl)
          (fun _ => id) _ horderly (agrees_answered hpending hagrees.2.1 rfl) rfl
      · cases hon
  | giveUp =>
      refine ⟨_, step_quiet hm rfl, ?_⟩
      rw [← Option.some.inj hon]
      have hkept := h.client hjob (fun job => { job with pending := false }) (fun _ => rfl)
        (fun _ hp => absurd hp Bool.false_ne_true) (s.streams j) (h.orderly j)
        (agrees_answered rfl hagrees.2.1 hagrees.2.2) rfl
      rwa [Function.update_eq_self] at hkept

/-- What a worker does. -/
theorem Carries.workerStep {s : Serving} {m : ModelManager} {b : ℕ} {e : ModelManager.WorkerEvent}
    (h : Carries s) (hm : s.manager.step cfg (.worker b e) = some m)
    (hon : s.manager.workerStep b e = some m) :
    ∃ streams, s.step cfg (.worker b e) = some ⟨m, streams⟩ ∧ Carries ⟨m, streams⟩ := by
  rcases ModelManager.workerMove_of_step hon with ⟨slot, hs, hmove⟩
  have hplaced := h.placed.step hm
  have hquiet : s.manager.workerStream slot.worker e = none →
      s.manager.streamEvent (.worker b e) = none := by
    intro hnone
    rw [ModelManager.streamEvent, hs]
    exact hnone
  cases hmove with
  -- Between two jobs no stream has a part in what the worker does.
  | leave rest hworker hqueue =>
      refine ⟨_, step_quiet hm (hquiet rfl), ?_⟩
      exact h.rests _ hplaced rfl (fun _ => rfl) rfl
  | begin j rest hworker hqueue =>
      refine ⟨_, step_quiet hm (hquiet rfl), ?_⟩
      exact h.rests (fun slot => { slot with
        queue := rest, worker := .calling j s.manager.calls.length }) hplaced rfl (fun _ => rfl) rfl
  | answer ok j c job hworker hjob =>
      exact h.answer (n := (s.manager.changeCall c (.ended .done)).setBusy false) hm hs hworker hjob
        rfl rfl rfl
  | chunk j c i hworker hcall => exact h.receive hm hon
  | last j c i result hworker hcall => exact h.receive hm hon
  | put j job hworker hjob => exact h.put hm hon hs hworker hjob rfl
  | finish j cancelled hworker => exact h.finish hm hon hs hworker rfl
  | cease hworker =>
      have hslots : ((s.manager.change b fun slot => { slot with cancelRequested := false }).move b
          (.ended true)).slots = s.manager.slots.modify b (fun slot =>
            { slot with cancelRequested := false, worker := .ended true }) := by
        rw [ModelManager.move, ModelManager.change_change]
        rfl
      rcases hworker with hworker | ⟨j, cancelled, hworker⟩
      -- A worker that waits for a job has no stream to end.
      · refine ⟨_, step_quiet hm (hquiet (by rw [hworker]; rfl)), ?_⟩
        exact h.rests _ hplaced hslots (fun _ => rfl) rfl
      · exact h.interrupt hm hs (by rw [hworker]; rfl) _ hslots (fun _ => rfl) rfl
          (Or.inr ⟨rfl, cancelled, hworker⟩)
  | unput j hworker =>
      refine h.interrupt hm hs (by rw [hworker]; rfl)
        (fun slot => { slot with cancelRequested := false, worker := .finishing j true }) ?_
        (fun _ => rfl) rfl (Or.inl ⟨rfl, fun cancelled => by rw [hworker]; exact nofun⟩)
      rw [ModelManager.move, ModelManager.change_change]
      rfl
  | drop j c i hworker hcall =>
      refine h.interrupt hm hs (by rw [hworker]; rfl)
        (fun slot => { slot with cancelRequested := false, worker := .finishing j true }) ?_
        (fun _ => rfl) rfl (Or.inl ⟨rfl, fun cancelled => by rw [hworker]; exact nofun⟩)
      show (s.manager.slots.modify b _).modify b _ = _
      rw [List.modify_modify_eq]
      rfl
  | abandon j c hworker hcall =>
      refine h.interrupt hm hs (by rw [hworker]; rfl)
        (fun slot => { slot with cancelRequested := false, worker := .finishing j true }) ?_
        (fun _ => rfl) rfl (Or.inl ⟨rfl, fun cancelled => by rw [hworker]; exact nofun⟩)
      rw [ModelManager.move, ModelManager.change_change]
      rfl

/-- **Handles keep up.** Whatever step the manager takes, the handles take it
    too. -/
theorem exists_step {s : Serving} {e : ModelManager.Event} {m : ModelManager} (h : Carries s)
    (hm : s.manager.step cfg e = some m) :
    ∃ streams, s.step cfg e = some ⟨m, streams⟩ ∧ Carries ⟨m, streams⟩ := by
  have hon := hm
  unfold ModelManager.step at hon
  split at hon
  · exact absurd hon nofun
  · cases e with
    | worker b e => exact h.workerStep hm hon
    | client j e => exact h.clientStep hm hon
    | thread c e =>
        refine ⟨_, step_quiet hm rfl, ?_⟩
        have hsame : m.slots = s.manager.slots ∧ m.jobs = s.manager.jobs := by
          cases ModelManager.threadMove_of_step hon with
          | start _ _ => exact ⟨rfl, rfl⟩
          | stop _ _ _ => exact ⟨rfl, rfl⟩
        refine ⟨h.placed.step hm, h.orderly, ?_, ?_, ?_⟩
        · dsimp only
          rw [hsame.2]
          exact h.agrees
        · dsimp only
          rw [hsame.1, hsame.2]
          exact h.pumped
        · dsimp only
          rw [hsame.2]
          exact h.unborn
    | task k e => exact ⟨_, step_quiet hm rfl, h.tends (ModelManager.tends_of_step hon)⟩

/-- **The runs of the manager are the runs of both.** -/
theorem exists_run {m : ModelManager} (h : Run (ModelManager.step cfg) anyStep .start m) :
    ∃ streams, Run (step cfg) anyStep start ⟨m, streams⟩ ∧ Carries ⟨m, streams⟩ := by
  induction h with
  | start => exact ⟨_, .start, carries_start⟩
  | tail t u e _ _ hstep ih =>
      rcases ih with ⟨streams, hrun, hcarries⟩
      rcases exists_step hcarries hstep with ⟨streams', hstep', hcarries'⟩
      exact ⟨streams', .tail _ _ e hrun trivial hstep', hcarries'⟩

end Serving

end Models

end SecureLlm
