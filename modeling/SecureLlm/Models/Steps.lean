import SecureLlm.Library.Roster
import SecureLlm.Library.Transition
import SecureLlm.Models.Manager

/-!
# What the Steps of the Manager Do

Each step of a worker and of a task, with what it starts from and what it leads
to. The relations have one case for each way the step can go, so that a fact
about steps is proved by cases and the step functions are unfolded here only.

## Main definitions

* `ModelManager.WorkerMove`: The steps of the worker of a slot.
* `ModelManager.TaskMove`: The steps of a task.
* `ModelManager.ThreadMove`, `ModelManager.ClientMove`: Those of threads and of
  callers.
* `ModelManager.Move`: The steps of the manager.
* `ModelManager.Still`: Nothing has changed that matters to a worker.
* `ModelManager.Settles`: What tasks that load or unload lead to.
* `ModelManager.Acts`: What a task does to workers, jobs and calls.

## Theorems

* `ModelManager.move_of_step`: A step is one of these.
* `ModelManager.settles_loadOrEvict`, `ModelManager.settles_proceed`: Making room
  and going on after an unload.
* `ModelManager.acts_of_taskMove`: A step of a task.
* `ModelManager.slots_change`, `ModelManager.jobs_changeJob`,
  `ModelManager.calls_changeCall`: What a change changes.
-/

namespace SecureLlm

open Library

namespace Models

/-- Queue, worker and backend of a slot are as those of another. -/
def Loaded.SameWork (s' s : Loaded) : Prop :=
  s'.queue = s.queue ∧ s'.worker = s.worker ∧ s'.closed = s.closed

/-- A slot is as it is loaded. -/
def Loaded.Fresh (s : Loaded) : Prop := s.queue = [] ∧ s.worker = .waiting ∧ s.closed = false

theorem Loaded.SameWork.trans {s s' s'' : Loaded} (h : s''.SameWork s') (h' : s'.SameWork s) :
    s''.SameWork s := ⟨h.1.trans h'.1, h.2.1.trans h'.2.1, h.2.2.trans h'.2.2⟩

theorem Loaded.SameWork.fresh {s s' : Loaded} (h : s'.SameWork s) (hs : s.Fresh) : s'.Fresh :=
  ⟨h.1.trans hs.1, h.2.1.trans hs.2.1, h.2.2.trans hs.2.2⟩

namespace ModelManager

variable (cfg : Config) (m : ModelManager)

theorem slots_change (b i : ℕ) (f : Loaded → Loaded) :
    (m.change b f).slots[i]? = if b = i then m.slots[i]?.map f else m.slots[i]? := by
  simp only [change, List.getElem?_modify]
  by_cases hbi : b = i
  · simp [hbi]
  · simp [hbi]

theorem change_change (b : ℕ) (f g : Loaded → Loaded) :
    (m.change b f).change b g = m.change b (g ∘ f) := by
  simp only [change, List.modify_modify_eq]

theorem jobs_changeJob (j i : ℕ) (f : Job → Job) :
    (m.changeJob j f).jobs[i]? = if j = i then m.jobs[i]?.map f else m.jobs[i]? := by
  simp only [changeJob, List.getElem?_modify]
  by_cases hji : j = i
  · simp [hji]
  · simp [hji]

theorem calls_changeCall (c i : ℕ) (state : CallState) :
    (m.changeCall c state).calls[i]? =
      if c = i then m.calls[i]?.map (fun call => { call with state }) else m.calls[i]? := by
  simp only [changeCall, List.getElem?_modify]
  by_cases hci : c = i
  · simp [hci]
  · simp [hci]

/-- What the calls are after one of them changes. -/
theorem calls_changeCall_cases {c i b b' : ℕ} {old state state' : CallState}
    (hcall : m.calls[c]? = some ⟨b, old⟩)
    (h : (m.changeCall c state).calls[i]? = some ⟨b', state'⟩) :
    i = c ∧ b' = b ∧ state' = state ∨ i ≠ c ∧ m.calls[i]? = some ⟨b', state'⟩ := by
  rw [calls_changeCall] at h
  by_cases hci : c = i
  · rw [if_pos hci, ← hci, hcall, Option.map_some] at h
    rcases Call.mk.inj (Option.some.inj h) with ⟨hb, hstate⟩
    exact Or.inl ⟨hci.symm, hb.symm, hstate.symm⟩
  · rw [if_neg hci] at h
    exact Or.inr ⟨Ne.symm hci, h⟩

/-- The steps of the worker of a slot that is as `s`. -/
inductive WorkerMove (b : ℕ) (s : Loaded) : WorkerEvent → ModelManager → Prop where
  | leave (rest : List (Mail ℕ)) (hworker : s.worker = .waiting)
      (hqueue : s.queue = .stop :: rest) :
      WorkerMove b s .take (m.change b fun s => { s with queue := rest, worker := .ended false })
  | begin (j : ℕ) (rest : List (Mail ℕ)) (hworker : s.worker = .waiting)
      (hqueue : s.queue = .item j :: rest) :
      WorkerMove b s .take ((((m.change b fun s =>
        { s with queue := rest, worker := .calling j m.calls.length }).addCall b .running).note
          (.began b)).setBusy true)
  | answer (ok : Bool) (j c : ℕ) (job : Job) (hworker : s.worker = .calling j c)
      (hjob : m.jobs[j]? = some job) :
      WorkerMove b s (.answer ok)
        (((m.changeCall c (.ended .done)).setBusy false).answer b j job ok)
  | chunk (j c slot : ℕ) (hworker : s.worker = .pulling j c)
      (hcall : m.calls[c]? = some ⟨slot, .ended .chunk⟩) :
      WorkerMove b s .receive (m.move b (.putting j))
  | last (j c slot : ℕ) (result : Pulled) (hworker : s.worker = .pulling j c)
      (hcall : m.calls[c]? = some ⟨slot, .ended result⟩) :
      WorkerMove b s .receive (m.move b (.finishing j false))
  | put (j : ℕ) (job : Job) (hworker : s.worker = .putting j) (hjob : m.jobs[j]? = some job) :
      WorkerMove b s .put ((m.changeJob j fun job =>
        { job with buffered := job.buffered + 1 }).pump b j job.cancelled)
  | finish (j : ℕ) (cancelled : Bool) (hworker : s.worker = .finishing j cancelled) :
      WorkerMove b s .put (((m.changeJob j fun job =>
        { job with buffered := job.buffered + 1 }).resetIdle b).move b
          (if cancelled then .ended true else .waiting))
  | cease (hworker : s.worker = .waiting ∨ ∃ j cancelled, s.worker = .finishing j cancelled) :
      WorkerMove b s .interrupt
        ((m.change b fun s => { s with cancelRequested := false }).move b (.ended true))
  | unput (j : ℕ) (hworker : s.worker = .putting j) :
      WorkerMove b s .interrupt
        ((m.change b fun s => { s with cancelRequested := false }).move b (.finishing j true))
  | drop (j c slot : ℕ) (hworker : s.worker = .pulling j c)
      (hcall : m.calls[c]? = some ⟨slot, .queued⟩) :
      WorkerMove b s .interrupt (((m.change b fun s =>
        { s with cancelRequested := false }).changeCall c .dropped).move b (.finishing j true))
  | abandon (j c : ℕ) (hworker : s.worker = .pulling j c)
      (hcall : ∀ slot, m.calls[c]? ≠ some ⟨slot, .queued⟩) :
      WorkerMove b s .interrupt
        ((m.change b fun s => { s with cancelRequested := false }).move b (.finishing j true))

variable {cfg m}

theorem workerMove_of_step {b : ℕ} {e : WorkerEvent} {u : ModelManager}
    (h : m.workerStep b e = some u) :
    ∃ s, m.slots[b]? = some s ∧ m.WorkerMove b s e u := by
  unfold workerStep at h
  rcases Option.bind_eq_some_iff.mp h with ⟨s, hs, h⟩
  refine ⟨s, hs, ?_⟩
  cases e with
  | take =>
      cases hc : s.cancelRequested <;> cases hw : s.worker <;> simp only [hc, hw, reduceCtorEq] at h
      -- A worker that waits takes the stop, or a job that it then begins.
      cases hq : s.queue with
      | nil => rw [hq] at h; exact absurd h nofun
      | cons x rest =>
          cases x with
          | stop =>
              rw [hq] at h
              rw [← Option.some.inj h]
              exact .leave rest hw hq
          | item j =>
              rw [hq] at h
              rw [← Option.some.inj h]
              exact .begin j rest hw hq
  | answer ok =>
      cases hw : s.worker <;> simp only [hw, reduceCtorEq] at h
      rcases Option.bind_eq_some_iff.mp h with ⟨job, hjob, h⟩
      rw [← Option.some.inj h]
      exact .answer ok _ _ job hw hjob
  | receive =>
      cases hc : s.cancelRequested <;> cases hw : s.worker <;> simp only [hc, hw, reduceCtorEq] at h
      rename_i j c
      split at h
      · rename_i slot hcall
        rw [← Option.some.inj h]
        exact .chunk j c slot hw hcall
      · rename_i slot result _ hcall
        rw [← Option.some.inj h]
        exact .last j c slot result hw hcall
      · exact absurd h nofun
  | put =>
      cases hc : s.cancelRequested <;> cases hw : s.worker <;> simp only [hc, hw, reduceCtorEq] at h
      · rcases Option.bind_eq_some_iff.mp h with ⟨job, hjob, h⟩
        split at h
        · rw [← Option.some.inj h]
          exact .put _ job hw hjob
        · exact absurd h nofun
      · rcases Option.bind_eq_some_iff.mp h with ⟨job, hjob, h⟩
        split at h
        · rw [← Option.some.inj h]
          exact .finish _ _ hw
        · exact absurd h nofun
  | interrupt =>
      cases hc : s.cancelRequested <;> cases hw : s.worker <;> simp only [hc, hw, reduceCtorEq] at h
      · rw [← Option.some.inj h]
        exact .cease (Or.inl hw)
      · rename_i j c
        split at h
        · rename_i slot hcall
          rw [← Option.some.inj h]
          exact .drop j c slot hw hcall
        · rename_i hcall
          rw [← Option.some.inj h]
          exact .abandon j c hw hcall
      · rw [← Option.some.inj h]
        exact .unput _ hw
      · rw [← Option.some.inj h]
        exact .cease (Or.inr ⟨_, _, hw⟩)

/-- The steps of a task. -/
inductive TaskMove (cfg : Config) (m : ModelManager) (k : ℕ) : TaskEvent → ModelManager → Prop where
  | found (r : Request) (b : ℕ) (hwork : m.work k = none) (hhit : m.hit r = some b) :
      TaskMove cfg m k (.request r)
        (((m.setLoaded (m.loaded.moveToEnd r.cacheKey)).resetIdle b).submit cfg b r)
  | wait (r : Request) (hwork : m.work k = none) (hhit : m.hit r = none) :
      TaskMove cfg m k (.request r) (m.setWork k (some (.acquire r)))
  | refound (r : Request) (b : ℕ) (loads : Bool) (hwork : m.work k = some (.acquire r))
      (hhit : m.hit r = some b) :
      TaskMove cfg m k (.acquire loads) (((m.setWork k none).resetIdle b).submit cfg b r)
  | load (r : Request) (loads : Bool) (hwork : m.work k = some (.acquire r))
      (hhit : m.hit r = none) :
      TaskMove cfg m k (.acquire loads)
        ((m.setLock r.cacheKey (some k)).loadOrEvict cfg k r loads)
  | forceUnload (tenant modelId : String) (hwork : m.work k = none) :
      TaskMove cfg m k (.forceUnload tenant modelId) (m.sweep k (m.targets tenant modelId))
  | shutdown (hwork : m.work k = none) :
      TaskMove cfg m k .shutdown ({ m with closing := true }.sweep k m.loaded.entries)
  | fire (b : ℕ) (s : Loaded) (hwork : m.work k = none) (hslot : m.slots[b]? = some s) :
      TaskMove cfg m k (.fire b)
        ((m.change b fun s => { s with timer := false }).setWork k (some (.idle b)))
  | skip (b : ℕ) (hwork : m.work k = some (.idle b)) :
      TaskMove cfg m k .idle (m.setWork k none)
  | offload (b : ℕ) (s : Loaded) (hwork : m.work k = some (.idle b))
      (hslot : m.slots[b]? = some s) :
      TaskMove cfg m k .idle (m.beginUnload k s.cacheKey b .stop)
  | put (u : Unload) (after : Then) (hwork : m.work k = some (.unload u after)) :
      TaskMove cfg m k .put
        ((m.change u.slot fun s => { s with queue := s.queue ++ [.stop] }).setWork k
          (some (.unload { u with phase := .waiting } after)))
  | timeout (u : Unload) (after : Then) (hwork : m.work k = some (.unload u after)) :
      TaskMove cfg m k .timeout
        ((m.cancelWorker u.slot).setWork k (some (.unload { u with phase := .timedOut } after)))
  | close (u : Unload) (after : Then) (loads : Bool) (s : Loaded) (cancelled : Bool)
      (hwork : m.work k = some (.unload u after)) (hslot : m.slots[u.slot]? = some s)
      (hworker : s.worker = .ended cancelled) :
      TaskMove cfg m k (.close loads) ((m.close u).proceed cfg k loads after)
  | abort (u : Unload) (after : Then) (hwork : m.work k = some (.unload u after)) :
      TaskMove cfg m k .abort (m.fail k after)
  | unwait (hwork : m.work k ≠ none) : TaskMove cfg m k .cancel (m.setWork k none)
  | unput (u : Unload) (after : Then) (hwork : m.work k = some (.unload u after)) :
      TaskMove cfg m k .cancel (m.fail k after)
  | cancel (u : Unload) (after : Then) (hwork : m.work k = some (.unload u after)) :
      TaskMove cfg m k .cancel
        ((m.cancelWorker u.slot).setWork k (some (.unload { u with phase := .cancelled } after)))

theorem taskMove_of_step {k : ℕ} {e : TaskEvent} {u : ModelManager}
    (h : m.taskStep cfg k e = some u) : TaskMove cfg m k e u := by
  unfold taskStep at h
  cases hwork : m.work k with
  | none =>
      cases e with
      | request r =>
          cases hhit : m.hit r with
          | none =>
              simp only [hwork, hhit, Option.some.injEq] at h
              rw [← h]
              exact .wait r hwork hhit
          | some b =>
              simp only [hwork, hhit, Option.some.injEq] at h
              rw [← h]
              exact .found r b hwork hhit
      | forceUnload tenant modelId =>
          simp only [hwork, Option.some.injEq] at h
          rw [← h]
          exact .forceUnload tenant modelId hwork
      | shutdown =>
          simp only [hwork, Option.some.injEq] at h
          rw [← h]
          exact .shutdown hwork
      | fire b =>
          simp only [hwork] at h
          rcases Option.bind_eq_some_iff.mp h with ⟨s, hs, h⟩
          split at h
          · rw [← Option.some.inj h]
            exact .fire b s hwork hs
          · exact absurd h (by simp)
      | _ => simp only [hwork, reduceCtorEq] at h
  | some w =>
      cases w with
      | acquire r =>
          cases e with
          -- With the lock, the table is looked up once more.
          | acquire loads =>
              simp only [hwork] at h
              cases hlock : m.loadLocks r.cacheKey with
              | some k' => simp only [hlock, reduceCtorEq] at h
              | none =>
                  cases hhit : m.hit r with
                  | none =>
                      simp only [hlock, hhit, Option.some.injEq] at h
                      rw [← h]
                      exact .load r loads hwork hhit
                  | some b =>
                      simp only [hlock, hhit, Option.some.injEq] at h
                      rw [← h]
                      exact .refound r b loads hwork hhit
          | cancel =>
              simp only [hwork, Option.some.injEq] at h
              rw [← h]
              exact .unwait (by rw [hwork]; exact Option.some_ne_none _)
          | _ => simp only [hwork, reduceCtorEq] at h
      | idle b =>
          cases e with
          -- What was unloaded in the meantime is skipped.
          | idle =>
              simp only [hwork] at h
              rcases Option.bind_eq_some_iff.mp h with ⟨s, hs, h⟩
              split at h
              · rw [← Option.some.inj h]
                exact .skip b hwork
              · rw [← Option.some.inj h]
                exact .offload b s hwork hs
          | cancel =>
              simp only [hwork, Option.some.injEq] at h
              rw [← h]
              exact .unwait (by rw [hwork]; exact Option.some_ne_none _)
          | _ => simp only [hwork, reduceCtorEq] at h
      | unload u after =>
          cases e with
          | put =>
              simp only [hwork] at h
              rcases Option.bind_eq_some_iff.mp h with ⟨s, _, h⟩
              split at h
              · rw [← Option.some.inj h]
                exact .put u after hwork
              · exact absurd h (by simp)
          | timeout =>
              simp only [hwork] at h
              split at h
              · rw [← Option.some.inj h]
                exact .timeout u after hwork
              · exact absurd h (by simp)
          -- The wait is over once the worker has ended, and depends on how.
          | close loads =>
              simp only [hwork] at h
              rcases Option.bind_eq_some_iff.mp h with ⟨s, hs, h⟩
              split at h
              · rename_i cancelled hworker
                split at h
                · rw [← Option.some.inj h]
                  exact .close u after loads s cancelled hwork hs hworker
                · exact absurd h (by simp)
              · exact absurd h (by simp)
          | abort =>
              simp only [hwork] at h
              rcases Option.bind_eq_some_iff.mp h with ⟨s, _, h⟩
              split at h
              · split at h
                · rw [← Option.some.inj h]
                  exact .abort u after hwork
                · exact absurd h (by simp)
              · exact absurd h (by simp)
          | cancel =>
              simp only [hwork] at h
              split at h
              · rw [← Option.some.inj h]
                exact .unput u after hwork
              · exact absurd h (by simp)
              · rw [← Option.some.inj h]
                exact .cancel u after hwork
          | _ => simp only [hwork, reduceCtorEq] at h

/-- The steps of a thread. -/
inductive ThreadMove (m : ModelManager) (c : ℕ) : ThreadEvent → ModelManager → Prop where
  | start (slot : ℕ) (hcall : m.calls[c]? = some ⟨slot, .queued⟩) :
      ThreadMove m c .start ((m.changeCall c .running).note (.began slot))
  | stop (slot : ℕ) (result : Pulled) (hcall : m.calls[c]? = some ⟨slot, .running⟩) :
      ThreadMove m c (.stop result) (m.changeCall c (.ended result))

theorem threadMove_of_step {c : ℕ} {e : ThreadEvent} {u : ModelManager}
    (h : m.threadStep c e = some u) : ThreadMove m c e u := by
  unfold threadStep at h
  rcases Option.bind_eq_some_iff.mp h with ⟨⟨slot, state⟩, hcall, h⟩
  cases e with
  | start =>
      cases state <;> simp only [reduceCtorEq] at h
      rw [← Option.some.inj h]
      exact .start slot hcall
  | stop result =>
      cases state <;> simp only [reduceCtorEq] at h
      rw [← Option.some.inj h]
      exact .stop slot result hcall

/-- The steps of a caller. None of them makes a future unresolved. -/
inductive ClientMove (m : ModelManager) (j : ℕ) : ClientEvent → ModelManager → Prop where
  | change {e : ClientEvent} (f : Job → Job)
      (hf : ∀ job, ((f job).pending = true → job.pending = true) ∧ (f job).slot = job.slot) :
      ClientMove m j e (m.changeJob j f)

theorem clientMove_of_step {j : ℕ} {e : ClientEvent} {u : ModelManager}
    (h : m.clientStep j e = some u) : ClientMove m j e u := by
  unfold clientStep at h
  rcases Option.bind_eq_some_iff.mp h with ⟨job, _, h⟩
  cases e with
  | read =>
      dsimp only at h
      split at h
      · rw [← Option.some.inj h]
        exact .change _ fun job => ⟨id, rfl⟩
      · exact absurd h (by simp)
  | cancel =>
      dsimp only at h
      split at h
      · rw [← Option.some.inj h]
        exact .change _ fun job => ⟨id, rfl⟩
      · exact absurd h (by simp)
  | giveUp =>
      rw [← Option.some.inj h]
      exact .change _ fun job => ⟨fun hc => absurd hc nofun, rfl⟩

/-- The steps of the manager. -/
inductive Move (cfg : Config) (m : ModelManager) : Event → ModelManager → Prop where
  | worker {u : ModelManager} (b : ℕ) (s : Loaded) (e : WorkerEvent) (hs : m.slots[b]? = some s)
      (hmove : m.WorkerMove b s e u) : Move cfg m (.worker b e) u
  | thread {u : ModelManager} (c : ℕ) (e : ThreadEvent) (hmove : ThreadMove m c e u) :
      Move cfg m (.thread c e) u
  | client {u : ModelManager} (j : ℕ) (e : ClientEvent) (hmove : ClientMove m j e u) :
      Move cfg m (.client j e) u
  | task {u : ModelManager} (k : ℕ) (e : TaskEvent) (hmove : TaskMove cfg m k e u) :
      Move cfg m (.task k e) u

theorem move_of_step {e : Event} {u : ModelManager} (h : m.step cfg e = some u) :
    Move cfg m e u := by
  unfold step at h
  split at h
  · exact absurd h nofun
  · cases e with
    | worker b e =>
        rcases workerMove_of_step h with ⟨s, hs, hmove⟩
        exact .worker b s e hs hmove
    | thread c e => exact .thread c e (threadMove_of_step h)
    | client j e => exact .client j e (clientMove_of_step h)
    | task k e => exact .task k e (taskMove_of_step h)

/-! ## What tasks leave alone -/

/-- No job, no call and no closed slot has changed, and no queue or worker; new
    slots are as they are loaded. -/
structure Still (m u : ModelManager) : Prop where
  jobs : u.jobs = m.jobs
  calls : u.calls = m.calls
  history : u.history = m.history
  kept : ∀ (b : ℕ) (s : Loaded), m.slots[b]? = some s →
    ∃ s' : Loaded, u.slots[b]? = some s' ∧ s'.SameWork s
  added : ∀ (b : ℕ) (s' : Loaded), u.slots[b]? = some s' → b < m.slots.length ∨ s'.Fresh

namespace Still

variable {u : ModelManager}

theorem of_slots (hslots : u.slots = m.slots) (hjobs : u.jobs = m.jobs)
    (hcalls : u.calls = m.calls) (hhistory : u.history = m.history) : Still m u where
  jobs := hjobs
  calls := hcalls
  history := hhistory
  kept _ s hs := ⟨s, by rw [hslots]; exact hs, rfl, rfl, rfl⟩
  added _ _ hs := Or.inl (by rw [hslots] at hs; exact (List.getElem?_eq_some_iff.mp hs).1)

/-- A slot that was there before. -/
theorem old (h : Still m u) {b : ℕ} {s' : Loaded} (hs' : u.slots[b]? = some s')
    (hlt : b < m.slots.length) : ∃ s : Loaded, m.slots[b]? = some s ∧ s'.SameWork s := by
  rcases h.kept b _ (List.getElem?_eq_getElem hlt) with ⟨s'', hs'', hsame⟩
  rw [hs'] at hs''
  rw [Option.some.inj hs'']
  exact ⟨_, List.getElem?_eq_getElem hlt, hsame⟩

theorem length_le (h : Still m u) : m.slots.length ≤ u.slots.length := by
  by_contra hlt
  rw [Nat.not_le] at hlt
  rcases h.kept _ _ (List.getElem?_eq_getElem hlt) with ⟨s', hs', _⟩
  exact Nat.lt_irrefl _ (List.getElem?_eq_some_iff.mp hs').1

theorem trans {v : ModelManager} (h : Still m u) (h' : Still u v) : Still m v where
  jobs := h'.jobs.trans h.jobs
  calls := h'.calls.trans h.calls
  history := h'.history.trans h.history
  kept b s hs := by
    rcases h.kept b s hs with ⟨s', hs', hsame⟩
    rcases h'.kept b s' hs' with ⟨s'', hs'', hsame'⟩
    exact ⟨s'', hs'', hsame'.trans hsame⟩
  added b s'' hs'' := by
    rcases h'.added b s'' hs'' with hlt | hnew
    · -- A slot that was there in between has not changed since.
      rcases h'.old hs'' hlt with ⟨s', hs', hsame⟩
      rcases h.added b s' hs' with hold | hfresh
      · exact Or.inl hold
      · exact Or.inr (hsame.fresh hfresh)
    · exact Or.inr hnew

theorem change (b : ℕ) (f : Loaded → Loaded) (hf : ∀ s, (f s).SameWork s) :
    Still m (m.change b f) where
  jobs := rfl
  calls := rfl
  history := rfl
  kept i s hs := by
    rw [slots_change, hs]
    by_cases hbi : b = i
    · rw [if_pos hbi]
      exact ⟨f s, rfl, hf s⟩
    · rw [if_neg hbi]
      exact ⟨s, rfl, rfl, rfl, rfl⟩
  added i s' hs' := by
    have hlt := (List.getElem?_eq_some_iff.mp hs').1
    rw [ModelManager.change, List.length_modify] at hlt
    exact Or.inl hlt

theorem load (r : Request) : Still m (m.load cfg r) where
  jobs := rfl
  calls := rfl
  history := rfl
  kept b s hs :=
    ⟨s, (List.getElem?_append_left (List.getElem?_eq_some_iff.mp hs).1).trans hs, rfl, rfl, rfl⟩
  added b s' hs' := by
    rcases getElem?_concat_cases hs' with hold | ⟨_, rfl⟩
    · exact Or.inl (List.getElem?_eq_some_iff.mp hold).1
    · exact Or.inr ⟨rfl, rfl, rfl⟩

theorem setWork (k : ℕ) (x : Option Work) : Still m (m.setWork k x) := of_slots rfl rfl rfl rfl

theorem leave (k : ℕ) (r : Request) : Still m (m.leave k r) := of_slots rfl rfl rfl rfl

theorem resetIdle (b : ℕ) : Still m (m.resetIdle b) := change b _ fun _ => ⟨rfl, rfl, rfl⟩

theorem cancelWorker (b : ℕ) : Still m (m.cancelWorker b) := change b _ fun _ => ⟨rfl, rfl, rfl⟩

theorem beginUnload (k : ℕ) (key : String) (b : ℕ) (after : Then) :
    Still m (m.beginUnload k key b after) := by
  have hchange : Still m (m.change b fun s => { s with state := .unloading, timer := false }) :=
    change b _ fun _ => ⟨rfl, rfl, rfl⟩
  exact hchange.trans (setWork k _)

theorem sweep (k : ℕ) (targets : List (String × ℕ)) : Still m (m.sweep k targets) := by
  cases targets with
  | nil => exact setWork k none
  | cons e rest => exact beginUnload k e.1 e.2 (.next rest)

theorem fail (k : ℕ) (after : Then) : Still m (m.fail k after) := by
  cases after with
  | load r => exact leave k r
  | next rest => exact setWork k none
  | stop => exact setWork k none

end Still

/-- What making room and unloading the next target lead to: nothing that matters
    to a worker, or a job for a slot that has just been loaded. -/
inductive Settles (cfg : Config) (m : ModelManager) : ModelManager → Prop where
  | still {u : ModelManager} (h : Still m u) : Settles cfg m u
  | fresh {n : ModelManager} (b : ℕ) (r : Request) (h : Still m n)
      (hfresh : ∀ s : Loaded, n.slots[b]? = some s → s.Fresh) : Settles cfg m (n.submit cfg b r)

theorem settles_loadOrEvict (k : ℕ) (r : Request) (loads : Bool) :
    Settles cfg m (m.loadOrEvict cfg k r loads) := by
  unfold loadOrEvict
  split
  · split
    · exact .still (.leave k r)
    · exact .still (.beginUnload k _ _ _)
  · split
    · refine .fresh _ r ((Still.leave k r).trans (.load r)) fun s hs => ?_
      have hnew := (List.getElem?_concat_length (l := m.slots)).symm.trans hs
      rw [← Option.some.inj hnew]
      exact ⟨rfl, rfl, rfl⟩
    · exact .still (.leave k r)

theorem settles_proceed (k : ℕ) (loads : Bool) (after : Then) :
    Settles cfg m (m.proceed cfg k loads after) := by
  cases after with
  | load r => exact settles_loadOrEvict k r loads
  | next rest => exact .still (.sweep k rest)
  | stop => exact .still (.setWork k none)

/-- What a task does, as far as workers, jobs and calls go: a job for a slot that it has
    found, what making room leads to, a stop, or the same after a backend is closed. -/
inductive Acts (cfg : Config) (m : ModelManager) : ModelManager → Prop where
  | submit {n : ModelManager} (b : ℕ) (r : Request) (h : Still m n) :
      Acts cfg m (n.submit cfg b r)
  | settles {n u : ModelManager} (h : Still m n) (hu : Settles cfg n u) : Acts cfg m u
  | put (k : ℕ) (v : Unload) (w : Option Work) :
      Acts cfg m ((m.change v.slot fun s => { s with queue := s.queue ++ [.stop] }).setWork k w)
  | close {u : ModelManager} (v : Unload) (s : Loaded) (cancelled : Bool)
      (hslot : m.slots[v.slot]? = some s) (hworker : s.worker = .ended cancelled)
      (hu : Settles cfg (m.close v) u) : Acts cfg m u

theorem Still.acts {u : ModelManager} (h : Still m u) : Acts cfg m u :=
  .settles (.of_slots rfl rfl rfl rfl) (.still h)

theorem acts_of_taskMove {k : ℕ} {e : TaskEvent} {u : ModelManager} (h : TaskMove cfg m k e u) :
    Acts cfg m u := by
  cases h with
  | found r b _ _ =>
      have hmoved : Still m (m.setLoaded (m.loaded.moveToEnd r.cacheKey)) :=
        .of_slots rfl rfl rfl rfl
      exact .submit b r (hmoved.trans (.resetIdle b))
  | wait r _ _ => exact (Still.setWork k _).acts
  | refound r b loads _ _ => exact .submit b r ((Still.setWork k none).trans (.resetIdle b))
  | load r loads _ _ =>
      have hlock : Still m (m.setLock r.cacheKey (some k)) := .of_slots rfl rfl rfl rfl
      exact .settles hlock (settles_loadOrEvict k r loads)
  | forceUnload tenant modelId _ => exact (Still.sweep k _).acts
  | shutdown _ =>
      have hclosing : Still m { m with closing := true } := .of_slots rfl rfl rfl rfl
      exact (hclosing.trans (.sweep k _)).acts
  | fire b s _ _ =>
      have hfired : Still m (m.change b fun s => { s with timer := false }) :=
        .change b _ fun _ => ⟨rfl, rfl, rfl⟩
      exact (hfired.trans (.setWork k _)).acts
  | skip b _ => exact (Still.setWork k none).acts
  | offload b s _ _ => exact (Still.beginUnload k _ b .stop).acts
  | put v after _ => exact .put k v _
  | timeout v after _ => exact ((Still.cancelWorker v.slot).trans (.setWork k _)).acts
  | close v after loads s cancelled _ hslot hworker =>
      exact .close v s cancelled hslot hworker (settles_proceed k loads after)
  | abort v after _ => exact (Still.fail k after).acts
  | unwait _ => exact (Still.setWork k none).acts
  | unput v after _ => exact (Still.fail k after).acts
  | cancel v after _ => exact ((Still.cancelWorker v.slot).trans (.setWork k _)).acts

end ModelManager

end Models

end SecureLlm
