import SecureLlm.Models.Serving
import SecureLlm.Models.Slots

/-!
# Idle Offload

A slot has a timer that is set when the slot is loaded, when a request finds it
and when a job ends. When it fires, the slot is unloaded: it gets a stop, and if
its worker has not returned by the end of a wait, the worker is cancelled. Nobody
looks whether the worker is at a job.

As long as an offload finds the slot without jobs, the stop is the next letter the
worker takes, and its cancellation comes too late to matter. Then a stream that no
other unload interrupts hands on all chunks. If the slot has a job, the worker may
be cancelled in the middle of a stream, and the consumer is told that this is its
end.

## Main definitions

* `StreamHandle.Whole`: All chunks of a generator that ended, and the end mark.
* `StreamHandle.Flows`: What a handle has got that nothing interrupts.
* `Loaded.Idle`, `Loaded.Done`: A slot without jobs, and one that is left to end.
* `ModelManager.OffloadsIdle`: An offload finds its slot idle.
* `ModelManager.Interrupts`: Another unload cancels the worker of a slot.

## Theorems

* `StreamHandle.Flows.step`: A handle flows on.
* `ModelManager.done_step`: A slot that is left to end does no more jobs.
* `idle_offload_spares_jobs`: Offloads of idle slots cut no stream short.
* `idle_offload_truncates`: An offload that does.
-/

namespace SecureLlm

open Library Transition

namespace Models

namespace StreamHandle

variable {maxsize : ℤ} {s u : StreamHandle}

/-- The first chunks. -/
def chunks (n : ℕ) : List (Mail ℕ) := (List.range n).map .item

/-- What the worker has put: what the consumer has got and what the queue holds. -/
def sent (s : StreamHandle) : List (Mail ℕ) := s.taken ++ s.queue

/-- All chunks that `next` returned have been put in their order, it returned no
    more, and after them came the end mark. -/
def Whole (s : StreamHandle) : Prop := s.sent = chunks s.pulled ++ [.stop] ∧ s.outcome ≠ none

/-- The worker has put all chunks but the one it has in hand. It comes to the end
    when the generator ends or the consumer cancels. -/
def Flows (s : StreamHandle) : Prop :=
  match s.stage with
  | .pulling => s.sent = chunks s.pulled
  | .putting chunk => s.pulled = chunk + 1 ∧ s.sent = chunks chunk
  | .finishing => s.sent = chunks s.pulled ∧ (s.cancelled = true ∨ s.outcome ≠ none)
  | .over => s.sent = chunks s.pulled ++ [.stop] ∧ (s.cancelled = true ∨ s.outcome ≠ none)

theorem flows_start : start.Flows := rfl

theorem chunks_succ (n : ℕ) : chunks (n + 1) = chunks n ++ [.item n] := by
  unfold chunks
  rw [List.range_succ, List.map_append, List.map_singleton]

/-- A handle flows on, whatever its consumer does, as long as its worker is not
    cancelled. -/
theorem Flows.step {e : StreamEvent} (h : s.Flows) (he : e ≠ .interrupt)
    (hstep : s.step maxsize e = some u) : u.Flows := by
  unfold Flows at h
  cases move_of_step hstep with
  | chunk hstage =>
      simp only [hstage] at h
      exact ⟨rfl, h⟩
  | last result hstage hend =>
      simp only [hstage] at h
      exact ⟨h, Or.inr (Option.some_ne_none result)⟩
  | put chunk hstage hroom =>
      simp only [hstage] at h
      have hsent : s.taken ++ (s.queue ++ [.item chunk]) = chunks s.pulled := by
        rw [h.1, chunks_succ, ← h.2, sent, List.append_assoc]
      -- The worker goes on to the next chunk, or to the end if it is to stop.
      unfold Flows pump
      cases hcancelled : s.cancelled with
      | true => exact ⟨hsent, Or.inl rfl⟩
      | false => exact hsent
  | finish hstage hroom =>
      simp only [hstage] at h
      refine ⟨?_, h.2⟩
      show s.taken ++ (s.queue ++ [.stop]) = _
      rw [← List.append_assoc, ← sent, h.1]
  | interrupt hstage => exact absurd rfl he
  | cease hstage => exact absurd rfl he
  | read x rest hreading hqueue =>
      have hsent : (s.taken ++ [x]) ++ rest = s.sent := by
        rw [sent, hqueue, List.append_assoc, List.singleton_append]
      unfold Flows sent
      dsimp only
      rw [hsent]
      exact h
  | stop hreading => exact h
  | cancel =>
      unfold Flows
      cases hstage : s.stage with
      | pulling =>
          simp only [hstage] at h
          exact h
      | putting chunk =>
          simp only [hstage] at h
          exact h
      | finishing =>
          simp only [hstage] at h
          exact ⟨h.1, Or.inl rfl⟩
      | «over» =>
          simp only [hstage] at h
          exact ⟨h.1, Or.inl rfl⟩

/-- A stream that is over and was not cancelled is whole. -/
theorem Flows.whole (h : s.Flows) (hover : s.stage = .over) (hcancelled : s.cancelled = false) :
    s.Whole := by
  unfold Flows at h
  simp only [hover, hcancelled, Bool.false_eq_true, false_or] at h
  exact h

end StreamHandle

/-! ## Slots that are offloaded -/

/-- No job is executing or queued. -/
def Loaded.Idle (s : Loaded) : Prop := ∀ j, ¬ s.Has j

/-- The worker has ended, or a stop is the next thing it takes. -/
def Loaded.Done (s : Loaded) : Prop :=
  s.worker.isEnded = true ∨ s.worker = .waiting ∧ ∃ rest, s.queue = .stop :: rest

/-- A worker that is done is at no job. -/
theorem Loaded.Done.job {s : Loaded} (h : s.Done) : s.worker.job = none := by
  rcases h with hended | ⟨hworker, _⟩
  · cases hworker : s.worker with
    | ended cancelled => rfl
    | _ =>
        rw [hworker] at hended
        exact absurd hended nofun
  · rw [hworker]
    rfl

theorem Loaded.Done.pumped {s : Loaded} (h : s.Done) : s.worker.pumped = none := by
  by_contra hne
  rcases Option.ne_none_iff_exists'.mp hne with ⟨j, hj⟩
  have hjob := Worker.job_of_pumped hj
  rw [h.job] at hjob
  exact absurd hjob nofun

/-- A slot without jobs is done when a stop is put in its queue. -/
theorem Loaded.Idle.done {s : Loaded} (h : s.Idle) :
    ({ s with queue := s.queue ++ [.stop] } : Loaded).Done := by
  have hjob : s.worker.job = none := by
    by_contra hne
    rcases Option.ne_none_iff_exists'.mp hne with ⟨j, hj⟩
    exact h j (Or.inr hj)
  cases hworker : s.worker with
  | waiting =>
      refine Or.inr ⟨rfl, ?_⟩
      cases hqueue : s.queue with
      | nil => exact ⟨[], rfl⟩
      | cons x rest =>
          cases x with
          | item j => exact absurd (Or.inl (by rw [hqueue]; exact List.mem_cons_self)) (h j)
          | stop => exact ⟨rest ++ [.stop], rfl⟩
  | ended cancelled => exact Or.inl rfl
  | _ =>
      rw [hworker] at hjob
      exact absurd hjob nofun

namespace ModelManager

variable {cfg : Config} {m u : ModelManager}

/-- An offload that goes on, and one that puts its stop, finds its slot without
    jobs. -/
def OffloadsIdle (m : ModelManager) : Event → Prop
  | .task k .idle => ∀ b s, m.work k = some (.idle b) → m.slots[b]? = some s →
      m.closing = false → s.state = .loaded → s.Idle
  | .task k .put => ∀ v s, m.work k = some (.unload v .stop) → m.slots[v.slot]? = some s → s.Idle
  | _ => True

/-- An eviction, a forced unload or a shutdown cancels the worker of the slot it
    waits for. -/
def Interrupts (m : ModelManager) (b : ℕ) : Event → Prop
  | .task k e => (e = .timeout ∨ e = .cancel) ∧ ∃ v after,
      m.work k = some (.unload v after) ∧ v.slot = b ∧ v.phase ≠ .putting ∧ after ≠ .stop
  | _ => False

/-- Where an offload has put its stop, the slot is done. -/
def Offloads (m : ModelManager) : Prop :=
  ∀ k v s, m.work k = some (.unload v .stop) → v.phase ≠ .putting → m.slots[v.slot]? = some s →
    s.Done

/-- A worker that is asked to end is done. -/
def Calm (m : ModelManager) (b : ℕ) : Prop :=
  ∀ s, m.slots[b]? = some s → s.cancelRequested = true → s.Done

/-- A worker changes no slot but its own, and does not ask itself to end. -/
theorem slots_of_workerMove {b : ℕ} {s : Loaded} {e : WorkerEvent} (h : m.WorkerMove b s e u) :
    ∃ g, u.slots = m.slots.modify b g ∧
      ∀ s, (g s).cancelRequested = true → s.cancelRequested = true := by
  -- The places the worker goes to one after the other.
  have htwice : ∀ f g : Loaded → Loaded,
      (m.slots.modify b f).modify b g = m.slots.modify b (g ∘ f) :=
    fun f g => List.modify_modify_eq _ _ _ _
  cases h with
  | leave rest _ _ => exact ⟨_, rfl, fun _ => id⟩
  | begin j rest _ _ =>
      exact ⟨fun s => { s with queue := rest, worker := .calling j m.calls.length }, rfl,
        fun _ => id⟩
  | answer ok j c job _ _ =>
      unfold ModelManager.answer
      split
      · split
        · unfold ModelManager.pump
          split
          · exact ⟨_, rfl, fun _ => id⟩
          · exact ⟨_, rfl, fun _ => id⟩
        · exact ⟨_, htwice _ _, fun _ => id⟩
      · exact ⟨_, rfl, fun _ => id⟩
  | chunk j c slot _ _ => exact ⟨_, rfl, fun _ => id⟩
  | last j c slot result _ _ => exact ⟨_, rfl, fun _ => id⟩
  | put j job _ _ =>
      unfold ModelManager.pump
      split
      · exact ⟨_, rfl, fun _ => id⟩
      · exact ⟨_, rfl, fun _ => id⟩
  | finish j cancelled _ => exact ⟨_, htwice _ _, fun _ => id⟩
  | cease _ => exact ⟨_, htwice _ _, fun _ hr => absurd hr nofun⟩
  | unput j _ => exact ⟨_, htwice _ _, fun _ hr => absurd hr nofun⟩
  | drop j c slot _ _ => exact ⟨_, htwice _ _, fun _ hr => absurd hr nofun⟩
  | abandon j c _ _ => exact ⟨_, htwice _ _, fun _ hr => absurd hr nofun⟩

/-- The worker of a slot that is done ends, if it does anything. -/
theorem done_of_workerMove {b : ℕ} {s s' : Loaded} {e : WorkerEvent} (hdone : s.Done)
    (hs : m.slots[b]? = some s) (h : m.WorkerMove b s e u) (hs' : u.slots[b]? = some s') :
    s'.Done := by
  -- It is at no job.
  have hrest : ∀ {w : Worker} {j : ℕ}, s.worker = w → w.job = some j → s'.Done := by
    intro w j hworker hjob
    rw [← hworker, hdone.job] at hjob
    exact absurd hjob nofun
  cases h with
  | leave rest _ _ =>
      rw [slots_change, if_pos rfl, hs, Option.map_some] at hs'
      rw [← Option.some.inj hs']
      exact Or.inl rfl
  | begin j rest hworker hqueue =>
      rcases hdone with hended | ⟨_, rest', hstop⟩
      · rw [hworker] at hended
        exact absurd hended nofun
      · rw [hqueue] at hstop
        exact absurd (List.cons.inj hstop).1 nofun
  | answer ok j c job hworker _ => exact hrest hworker rfl
  | chunk j c slot hworker _ => exact hrest hworker rfl
  | last j c slot result hworker _ => exact hrest hworker rfl
  | put j job hworker _ => exact hrest hworker rfl
  | finish j cancelled hworker => exact hrest hworker rfl
  | cease hworker =>
      rw [ModelManager.move, change_change, slots_change, if_pos rfl, hs, Option.map_some] at hs'
      rw [← Option.some.inj hs']
      exact Or.inl rfl
  | unput j hworker => exact hrest hworker rfl
  | drop j c slot hworker _ => exact hrest hworker rfl
  | abandon j c hworker _ => exact hrest hworker rfl

/-- More in its queue does not change that a slot is done. -/
theorem done_of_append {s s' : Loaded} {more : List (Mail ℕ)} (hdone : s.Done)
    (hworker : s'.worker = s.worker) (hqueue : s'.queue = s.queue ++ more) : s'.Done := by
  unfold Loaded.Done
  rw [hworker, hqueue]
  refine hdone.imp id fun hstop => ⟨hstop.1, ?_⟩
  rcases hstop.2 with ⟨rest, hrest⟩
  exact ⟨rest ++ more, by rw [hrest, List.cons_append]⟩

/-- **A slot that is done stays so.** -/
theorem done_step {e : Event} {b : ℕ} {s s' : Loaded} (hdone : s.Done)
    (hs : m.slots[b]? = some s) (hstep : m.step cfg e = some u) (hs' : u.slots[b]? = some s') :
    s'.Done := by
  have hsame : u.slots = m.slots → s'.Done := by
    intro hslots
    rw [hslots, hs] at hs'
    rw [← Option.some.inj hs']
    exact hdone
  have hon := hstep
  unfold ModelManager.step at hon
  split at hon
  · exact absurd hon nofun
  · cases move_of_step hstep with
    | worker i slot e hslot hmove =>
        by_cases hib : i = b
        · rw [hib] at hslot hmove
          rw [hs] at hslot
          rw [← Option.some.inj hslot] at hmove
          exact done_of_workerMove hdone hs hmove hs'
        · rcases slots_of_workerMove hmove with ⟨g, hg, _⟩
          rw [hg, List.getElem?_modify_ne _ _ hib, hs] at hs'
          rw [← Option.some.inj hs']
          exact hdone
    | thread c e hmove =>
        cases hmove with
        | start _ _ => exact hsame rfl
        | stop _ _ _ => exact hsame rfl
    | client j e hmove =>
        cases hmove with
        | change f _ => exact hsame rfl
    | task k e _ =>
        rcases (tends_of_step hon).kept b s' hs' with
          ⟨s₀, hs₀, hworker, _, more, hqueue, _⟩ | ⟨hlength, _⟩
        · rw [hs] at hs₀
          rw [← Option.some.inj hs₀] at hworker hqueue
          exact done_of_append hdone hworker hqueue
        · exact absurd (List.getElem?_eq_some_iff.mp hs).1 (Nat.not_lt.mpr hlength)

/-- A worker that is interrupted had been asked to end. -/
theorem requested_of_interrupt {b : ℕ} {s : Loaded} (h : m.workerStep b .interrupt = some u)
    (hs : m.slots[b]? = some s) : s.cancelRequested = true := by
  unfold workerStep at h
  rw [hs, Option.bind_eq_bind, Option.bind_some] at h
  by_contra hc
  rw [Bool.not_eq_true] at hc
  cases hw : s.worker <;> simp only [hc, hw, reduceCtorEq] at h

/-- **What offloads wait for.** If offloads put their stops in the queues of idle
    slots only, the slots they have put them in are done. -/
theorem Offloads.step {e : Event} (h : Offloads m) (hfiled : Filed cfg m)
    (hidle : OffloadsIdle m e) (hstep : m.step cfg e = some u) : Offloads u := by
  intro k v s' hwork hphase hs'
  have hon := hstep
  unfold ModelManager.step at hon
  split at hon
  · exact absurd hon nofun
  -- The unload was there before, and may have put its stop just now.
  have hbefore : ∃ v', m.work k = some (.unload v' .stop) ∧ v'.slot = v.slot ∧
      (v'.phase ≠ .putting ∨ e = .task k .put) := by
    have hsame : u.work = m.work → ∃ v', m.work k = some (.unload v' .stop) ∧ v'.slot = v.slot ∧
        (v'.phase ≠ .putting ∨ e = .task k .put) :=
      fun hu => ⟨v, by rw [← hu]; exact hwork, rfl, Or.inl hphase⟩
    cases move_of_step hstep with
    | worker i slot e _ hmove => exact hsame (roster_workerMove hmove).2
    | thread c e hmove =>
        cases hmove with
        | start _ _ => exact hsame rfl
        | stop _ _ _ => exact hsame rfl
    | client j e hmove =>
        cases hmove with
        | change f _ => exact hsame rfl
    | task i e _ =>
        rcases unload_of_step hon hwork hphase with ⟨v', hwork', hslot, hor⟩
        refine ⟨v', hwork', hslot, hor.imp id fun hput => ?_⟩
        rw [hput.1, hput.2]
  rcases hbefore with ⟨v', hwork', hslot, hor⟩
  have hexists : ∃ s, m.slots[v.slot]? = some s := by
    rcases (hfiled.sound k _ hwork').1 with ⟨a, hobject⟩
    rcases getElem?_roster.mp hobject with ⟨s, hs, _⟩
    exact ⟨s, by rw [← hslot]; exact hs⟩
  rcases hexists with ⟨s, hs⟩
  rcases hor with hput | rfl
  · exact done_step (h k v' s hwork' hput (by rw [hslot]; exact hs)) hs hstep hs'
  · have hslotIdle : s.Idle := hidle v' s hwork' (by rw [hslot]; exact hs)
    cases taskMove_of_step hon with
    | put v₀ after₀ hold =>
        rw [hold] at hwork'
        rcases Work.unload.inj (Option.some.inj hwork') with ⟨hv, _⟩
        rw [hv, hslot] at hs'
        have hs'' := (slots_change m v.slot v.slot _).symm.trans hs'
        rw [if_pos rfl, hs, Option.map_some] at hs''
        rw [← Option.some.inj hs'']
        exact hslotIdle.done

/-- **What workers are asked.** If only offloads cancel the worker of a slot, it
    is done when it is asked to end. -/
theorem Calm.step {e : Event} {b : ℕ} (h : Calm m b) (hoff : Offloads m)
    (hinterrupts : ¬ Interrupts m b e) (hstep : m.step cfg e = some u) : Calm u b := by
  intro s' hs' hreq
  have hsame : u.slots = m.slots → s'.Done := fun hu => h s' (by rw [← hu]; exact hs') hreq
  have hon := hstep
  unfold ModelManager.step at hon
  split at hon
  · exact absurd hon nofun
  · cases move_of_step hstep with
    | worker i slot e hslot hmove =>
        rcases slots_of_workerMove hmove with ⟨g, hg, hkeeps⟩
        by_cases hib : i = b
        · have hs₁ := hs'
          rw [hg, hib, List.getElem?_modify_eq] at hs₁
          rcases Option.map_eq_some_iff.mp hs₁ with ⟨s, hs, heq⟩
          rw [← heq] at hreq
          exact done_step (h s hs (hkeeps s hreq)) hs hstep hs'
        · rw [hg, List.getElem?_modify_ne _ _ hib] at hs'
          exact h s' hs' hreq
    | thread c e hmove =>
        cases hmove with
        | start _ _ => exact hsame rfl
        | stop _ _ _ => exact hsame rfl
    | client j e hmove =>
        cases hmove with
        | change f _ => exact hsame rfl
    | task k e _ =>
        rcases (tends_of_step hon).kept b s' hs' with
          ⟨s, hs, hworker, hcancel, more, hqueue, _⟩ | ⟨_, _, hfree, _⟩
        · refine done_of_append ?_ hworker hqueue
          rcases hcancel hreq with hold | ⟨hevent, v, after, hwork, hslot, hphase⟩
          · exact h s hs hold
          · by_cases hafter : after = .stop
            · rw [hafter] at hwork
              exact hoff k v s hwork hphase (by rw [hslot]; exact hs)
            · exact absurd ⟨hevent, v, after, hwork, hslot, hphase, hafter⟩ hinterrupts
        · rw [hfree] at hreq
          exact absurd hreq nofun

/-- A worker changes at most one job, and not its slot. -/
theorem jobs_of_workerMove {b : ℕ} {s : Loaded} {e : WorkerEvent} (h : m.WorkerMove b s e u) :
    ∃ i f, u.jobs = m.jobs.modify i f ∧ ∀ job : Job, (f job).slot = job.slot := by
  have hnone : u.jobs = m.jobs → ∃ i f, u.jobs = m.jobs.modify i f ∧
      ∀ job : Job, (f job).slot = job.slot :=
    fun hu => ⟨0, id, by rw [hu, List.modify_id], fun _ => rfl⟩
  cases h with
  | answer ok j c job _ _ =>
      refine ⟨j, fun job => { job with pending := false }, ?_, fun _ => rfl⟩
      unfold ModelManager.answer
      split
      · split
        · unfold ModelManager.pump
          split
          · rfl
          · rfl
        · rfl
      · rfl
  | put j job _ _ =>
      refine ⟨j, fun job => { job with buffered := job.buffered + 1 }, ?_, fun _ => rfl⟩
      unfold ModelManager.pump
      split
      · rfl
      · rfl
  | finish j cancelled _ =>
      exact ⟨j, fun job => { job with buffered := job.buffered + 1 }, rfl, fun _ => rfl⟩
  | _ => exact hnone rfl

/-- Jobs keep their slots, and only tasks add to them. -/
theorem job_of_step {e : Event} {j : ℕ} {job : Job} (hstep : m.step cfg e = some u)
    (hjob : u.jobs[j]? = some job) :
    (∃ job₀ : Job, m.jobs[j]? = some job₀ ∧ job₀.slot = job.slot) ∨
      m.jobs.length ≤ j ∧ m.streamEvent e = none := by
  have hmodified : ∀ (i : ℕ) (f : Job → Job), u.jobs = m.jobs.modify i f →
      (∀ job : Job, (f job).slot = job.slot) →
      ∃ job₀ : Job, m.jobs[j]? = some job₀ ∧ job₀.slot = job.slot := by
    intro i f hu hf
    rw [hu, List.getElem?_modify] at hjob
    rcases Option.map_eq_some_iff.mp hjob with ⟨job₀, hjob₀, rfl⟩
    refine ⟨job₀, hjob₀, ?_⟩
    split
    · exact (hf job₀).symm
    · rfl
  have hon := hstep
  unfold ModelManager.step at hon
  split at hon
  · exact absurd hon nofun
  · cases move_of_step hstep with
    | worker b slot e _ hmove =>
        rcases jobs_of_workerMove hmove with ⟨i, f, hu, hf⟩
        exact Or.inl (hmodified i f hu hf)
    | thread c e hmove =>
        cases hmove with
        | start _ _ => exact Or.inl ⟨job, hjob, rfl⟩
        | stop _ _ _ => exact Or.inl ⟨job, hjob, rfl⟩
    | client i e hmove =>
        cases hmove with
        | change f hf => exact Or.inl (hmodified i f rfl fun job => (hf job).2)
    | task k e _ =>
        rcases (tends_of_step hon).jobs with ⟨new, hnew, _⟩
        by_cases hlt : j < m.jobs.length
        · rw [hnew, List.getElem?_append_left hlt] at hjob
          exact Or.inl ⟨job, hjob, rfl⟩
        · exact Or.inr ⟨Nat.not_lt.mp hlt, rfl⟩

end ModelManager

/-! ## Streams that are not cut short -/

namespace Serving

variable {cfg : Config}

/-- Offloads have found their slots idle, and nothing else has interrupted this
    slot: its streams flow. -/
structure Spared (cfg : Config) (b : ℕ) (s : Serving) : Prop where
  carries : Carries s
  filed : s.manager.Filed cfg
  offloads : s.manager.Offloads
  calm : s.manager.Calm b
  flows : ∀ (j : ℕ) (job : Job), s.manager.jobs[j]? = some job → job.slot = b →
    (s.streams j).Flows

theorem spared_start (b : ℕ) : Spared cfg b start where
  carries := carries_start
  filed := ModelManager.filed_start
  offloads _ _ _ hwork := absurd hwork nofun
  calm _ hs := absurd hs nofun
  flows _ _ hjob := absurd hjob nofun

/-- Only a worker that is asked to end interrupts a stream. -/
theorem Spared.not_interrupt {b j : ℕ} {s : Serving} {e : ModelManager.Event} {e' : StreamEvent}
    {m : ModelManager} {job : Job} (h : Spared cfg b s) (hstep : s.manager.step cfg e = some m)
    (hevent : s.manager.streamEvent e = some (j, e')) (hjob : s.manager.jobs[j]? = some job)
    (hslot : job.slot = b) : e' ≠ .interrupt := by
  rintro rfl
  cases e with
  | thread c e => cases hevent
  | task k e => cases hevent
  | client i e => cases e <;> cases hevent
  | worker i e =>
      rcases Option.bind_eq_some_iff.mp hevent with ⟨slot, hs, hstream⟩
      cases e with
      | interrupt =>
          rcases Option.map_eq_some_iff.mp hstream with ⟨j', hpumped, heq⟩
          rw [(Prod.mk.inj heq).1] at hpumped
          -- The worker is that of the slot of the job.
          rcases h.carries.placed i slot j hs (Or.inr (Worker.job_of_pumped hpumped)) with
            ⟨job', hjob', hslot'⟩
          rw [hjob] at hjob'
          rw [← Option.some.inj hjob', hslot] at hslot'
          rw [← hslot'] at hs hstep
          have hon := hstep
          unfold ModelManager.step at hon
          split at hon
          · cases hon
          · have hdone := h.calm slot hs (ModelManager.requested_of_interrupt hon hs)
            rw [hdone.pumped] at hpumped
            cases hpumped
      | take => cases hstream
      | answer ok => cases hstream
      | put =>
          rcases Option.map_eq_some_iff.mp hstream with ⟨_, _, heq⟩
          cases (Prod.mk.inj heq).2
      | receive =>
          simp only [ModelManager.workerStream] at hstream
          split at hstream
          · split at hstream
            · cases (Prod.mk.inj (Option.some.inj hstream)).2
            · cases hstream
          · cases hstream

theorem Spared.step {b : ℕ} {s u : Serving} {e : ModelManager.Event} (h : Spared cfg b s)
    (hidle : s.manager.OffloadsIdle e) (hinterrupts : ¬ s.manager.Interrupts b e)
    (hstep : s.step cfg e = some u) : Spared cfg b u := by
  rcases step_cases hstep with ⟨hm, hstreams⟩
  have hcarries : Carries u := by
    rcases exists_step h.carries hm with ⟨streams, hstep', hcarries⟩
    rw [hstep] at hstep'
    rw [Option.some.inj hstep']
    exact hcarries
  refine ⟨hcarries, h.filed.step hm, h.offloads.step h.filed hidle hm,
    h.calm.step h.offloads hinterrupts hm, fun j job hjob hslot => ?_⟩
  rcases ModelManager.job_of_step hm hjob with ⟨job₀, hjob₀, hslot₀⟩ | ⟨hnew, hquiet⟩
  · have hflows := h.flows j job₀ hjob₀ (hslot₀.trans hslot)
    rcases hstreams with ⟨_, hsame⟩ | ⟨i, e', stream, hevent, hstream, hupdate⟩
    · rw [hsame]
      exact hflows
    · rw [hupdate, Function.update_apply]
      by_cases hji : j = i
      · rw [if_pos hji]
        rw [← hji] at hevent hstream
        exact hflows.step (h.not_interrupt hm hevent hjob₀ (hslot₀.trans hslot)) hstream
      · rw [if_neg hji]
        exact hflows
  · rcases hstreams with ⟨_, hsame⟩ | ⟨i, e', stream, hevent, _⟩
    · rw [hsame, h.carries.unborn j hnew]
      exact StreamHandle.flows_start
    · rw [hquiet] at hevent
      exact absurd hevent nofun

end Serving

open Serving

/-- **Offloads of idle slots spare all jobs.** In a run in which each offload finds
    its slot without jobs, the slots that offloads wait for are at no job and
    take a stop next. And where no other unload has cancelled the worker of a
    slot, the streams of this slot that have come to their end without being
    cancelled have handed on all chunks before it. -/
theorem idle_offload_spares_jobs (cfg : Config) (s : Serving) :
    (Run (step cfg) (fun t e _ => t.manager.OffloadsIdle e) start s → s.manager.Offloads) ∧
      ∀ b, Run (step cfg) (fun t e _ => t.manager.OffloadsIdle e ∧ ¬ t.manager.Interrupts b e)
          start s →
        ∀ j job, s.manager.jobs[j]? = some job → job.slot = b → job.cancelled = false →
          (s.streams j).stage = .over → (s.streams j).Whole := by
  constructor
  · intro h
    have hboth : s.manager.Offloads ∧ s.manager.Filed cfg :=
      h.invariant (fun t => t.manager.Offloads ∧ t.manager.Filed cfg)
        ⟨fun _ _ _ hwork => absurd hwork nofun, ModelManager.filed_start⟩
        fun t e u ht hidle hstep => by
          have hm := (step_cases hstep).1
          exact ⟨ht.1.step ht.2 hidle hm, ht.2.step hm⟩
    exact hboth.1
  · intro b h j job hjob hslot hcancelled hover
    have hspared : Spared cfg b s := h.invariant (Spared cfg b) (spared_start b)
      fun t e u ht hok hstep => ht.step hok.1 hok.2 hstep
    refine (hspared.flows j job hjob hslot).whole hover ?_
    rw [(hspared.carries.agrees j job hjob).2.2]
    exact hcancelled

/-- A stream is being pumped when the timer of its slot fires. The offload waits
    for the worker until it times out, and cancels it. The generator goes on. -/
def offloadMidStream : List ModelManager.Event :=
  [.task 0 (.request (.sample none (some (.chat, true)))), .task 0 (.acquire true),
    .worker 0 .take, .worker 0 (.answer true), .thread 1 .start,
    .task 1 (.fire 0), .task 1 .idle, .task 1 .put, .task 1 .timeout,
    .worker 0 .interrupt, .worker 0 .put, .client 0 .read, .thread 1 (.stop .chunk)]

/-- The consumer, which reads on, gets the end mark as if the stream had come to its
    end, though the generator has a chunk for it. -/
theorem idle_offload_truncates :
    ∃ s, play (step ⟨1, 2048, 8⟩) start offloadMidStream = some s ∧
      (s.streams 0).taken = [.stop] ∧ (s.streams 0).cancelled = false ∧
      (s.streams 0).stage = .over ∧ ¬ (s.streams 0).Whole ∧
      s.manager.calls[1]? = some ⟨0, .ended .chunk⟩ := by
  have hplay : ((play (step ⟨1, 2048, 8⟩) start offloadMidStream).any fun s => decide
      ((s.streams 0).taken = [.stop] ∧ (s.streams 0).cancelled = false ∧
        (s.streams 0).stage = .over ∧ (s.streams 0).outcome = none ∧
        s.manager.calls[1]? = some ⟨0, .ended .chunk⟩)) = true := by
    decide +kernel
  rcases (Option.any_eq_true _ _).mp hplay with ⟨s, hs, hend⟩
  rcases of_decide_eq_true hend with ⟨htaken, hcancelled, hover, hnone, hcall⟩
  exact ⟨s, hs, htaken, hcancelled, hover, fun hwhole => hwhole.2 hnone, hcall⟩

end Models

end SecureLlm
