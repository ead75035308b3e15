import Mathlib.Data.Int.Notation
import SecureLlm.Library.Mailbox
import SecureLlm.Library.Transition
import SecureLlm.Models.Manager

/-!
# Stream Handles

The worker hands the chunks of a stream to its consumer through a bounded queue.
It asks a thread for the next chunk, puts the chunk in the queue, looks whether
the consumer has cancelled, and asks again; in the end it puts an end mark. A put
to a full queue waits until the consumer reads.

A consumer that has cancelled and stopped reading makes no more room. Before it
notices, the worker puts the chunk it has in hand, and the end mark after that.
So it gets away exactly if there is room for both, or for the end mark where it
has no chunk to put.

## Main definitions

* `StreamHandle`: A handle, and where its worker and its consumer are.
* `StreamHandle.step`: One step of either.
* `StreamHandle.Blocked`: The worker waits in a put.
* `StreamHandle.Gone`: The consumer has cancelled and stopped reading.
* `StreamHandle.Frees`: However the worker goes on, it is never blocked.
* `StreamHandle.owed`: How many puts the worker still makes for a consumer that has
  cancelled.

## Theorems

* `StreamHandle.frees_iff`: When the worker gets away.
* `leaving_frees_worker`: The runs in which consumers that leave free the worker.
* `leaving_blocks_worker`: A run in which one does not.
-/

namespace SecureLlm

open Library Transition

namespace Models

/-- Where the worker is with a stream. Chunks are numbered as they come. -/
inductive Stage where
  /-- At `to_thread(next, generator)`. -/
  | pulling
  /-- At the put of a chunk. -/
  | putting (chunk : ℕ)
  /-- At the put of the end mark. -/
  | finishing
  /-- The worker has left the stream. -/
  | over
  deriving DecidableEq

/-- Is the worker at a put? -/
def Stage.puts : Stage → Bool
  | .putting _ => true
  | .finishing => true
  | _ => false

/-- A stream: the queue of the handle, with a stop as the end mark, what the
    consumer has got of it, how many chunks `next` has returned and how the
    generator has ended, if it has, where the worker is, the cancel event, and
    whether the consumer reads. The handle has an error if the generator ended in
    one. -/
structure StreamHandle where
  queue : List (Mail ℕ)
  taken : List (Mail ℕ)
  pulled : ℕ
  outcome : Option Pulled
  stage : Stage
  cancelled : Bool
  reading : Bool
  deriving DecidableEq

/-- What the worker or the consumer of a stream does. -/
inductive StreamEvent where
  /-- The worker gets what `next` returned or raised in the thread. -/
  | receive (result : Pulled)
  /-- Its put goes through. -/
  | put
  /-- It is cancelled itself. -/
  | interrupt
  /-- The consumer gets the next item. -/
  | read
  /-- It stops reading. -/
  | stop
  /-- It calls `cancel`. -/
  | cancel

def StreamEvent.ofWorker : StreamEvent → Bool
  | .receive _ => true
  | .put => true
  | .interrupt => true
  | _ => false

namespace StreamHandle

/-- The worker is about to ask for the first chunk. -/
def start : StreamHandle := ⟨[], [], 0, none, .pulling, false, true⟩

variable (maxsize : ℤ) (gen : ℕ → Pulled) (s : StreamHandle)

/-- `queue.full()`. A size that is not positive is no bound. -/
def full : Bool := decide (0 < maxsize ∧ maxsize ≤ s.queue.length)

/-- The head of the loop over the generator. -/
def pump : StreamHandle := { s with stage := if s.cancelled then .finishing else .pulling }

/-- One step of the worker or of the consumer. -/
def step : StreamEvent → Option StreamHandle
  | .receive result =>
    match s.stage, result with
    | .pulling, .chunk => some { s with pulled := s.pulled + 1, stage := .putting s.pulled }
    | .pulling, .done => some { s with stage := .finishing, outcome := some .done }
    | .pulling, .error => some { s with stage := .finishing, outcome := some .error }
    | _, _ => none
  | .put =>
    if s.full maxsize then none
    else match s.stage with
      | .putting chunk => some (pump { s with queue := s.queue ++ [.item chunk] })
      | .finishing => some { s with queue := s.queue ++ [.stop], stage := .over }
      | _ => none
  | .interrupt =>
    match s.stage with
    | .pulling => some { s with stage := .finishing }
    | .putting _ => some { s with stage := .finishing }
    | .finishing => some { s with stage := .over }
    | .over => none
  | .read =>
    match s.reading, s.queue with
    | true, x :: rest =>
      -- The end mark ends the iteration.
      some { s with queue := rest, taken := s.taken ++ [x], reading := decide (x ≠ .stop) }
    | _, _ => none
  | .stop => if s.reading then some { s with reading := false } else none
  | .cancel => some { s with cancelled := true }

/-- The generator returns what it has to. -/
def Follows : StreamEvent → Prop
  | .receive result => result = gen s.pulled
  | _ => True

/-- The worker waits in a put for room in the queue. -/
def Blocked : Prop := s.stage.puts = true ∧ s.full maxsize = true

/-- The consumer has cancelled and no longer reads. -/
def Gone : Prop := s.cancelled = true ∧ s.reading = false

/-- However the worker goes on, it is never blocked. -/
def Frees : Prop :=
  ∀ u, Run (step maxsize) (fun t e _ => e.ofWorker = true ∧ Follows gen t e) s u →
    ¬ u.Blocked maxsize

/-- How many puts the worker still makes for a consumer that has cancelled. -/
def owed : ℕ :=
  match s.stage with
  | .pulling => if gen s.pulled = .chunk then 2 else 1
  | .putting _ => 2
  | .finishing => 1
  | .over => 0

/-- There is room in the queue for all of them. -/
def Fits : Prop := maxsize ≤ 0 ∨ s.owed gen ≤ maxsize.toNat - s.queue.length

/-- A consumer that has done one of the two does the other: it cancels and stops
    reading. -/
def Leaves : StreamEvent → Prop
  | .cancel => s.cancelled = false ∧ s.reading = false
  | .stop => s.cancelled = true ∧ s.reading = true
  | _ => False

variable {maxsize gen s}

theorem full_iff : s.full maxsize = true ↔ 0 < maxsize ∧ maxsize.toNat ≤ s.queue.length := by
  unfold full
  rw [decide_eq_true_eq]
  omega

/-- The steps of a stream. -/
inductive Move (maxsize : ℤ) (s : StreamHandle) : StreamEvent → StreamHandle → Prop where
  | chunk (hstage : s.stage = .pulling) :
      Move maxsize s (.receive .chunk)
        { s with pulled := s.pulled + 1, stage := .putting s.pulled }
  | last (result : Pulled) (hstage : s.stage = .pulling) (hend : result ≠ .chunk) :
      Move maxsize s (.receive result) { s with stage := .finishing, outcome := some result }
  | put (chunk : ℕ) (hstage : s.stage = .putting chunk) (hroom : ¬ s.full maxsize = true) :
      Move maxsize s .put (pump { s with queue := s.queue ++ [.item chunk] })
  | finish (hstage : s.stage = .finishing) (hroom : ¬ s.full maxsize = true) :
      Move maxsize s .put { s with queue := s.queue ++ [.stop], stage := .over }
  | interrupt (hstage : s.stage = .pulling ∨ ∃ chunk, s.stage = .putting chunk) :
      Move maxsize s .interrupt { s with stage := .finishing }
  | cease (hstage : s.stage = .finishing) : Move maxsize s .interrupt { s with stage := .over }
  | read (x : Mail ℕ) (rest : List (Mail ℕ)) (hreading : s.reading = true)
      (hqueue : s.queue = x :: rest) :
      Move maxsize s .read
        { s with queue := rest, taken := s.taken ++ [x], reading := decide (x ≠ .stop) }
  | stop (hreading : s.reading = true) : Move maxsize s .stop { s with reading := false }
  | cancel : Move maxsize s .cancel { s with cancelled := true }

theorem move_of_step {e : StreamEvent} {u : StreamHandle} (h : s.step maxsize e = some u) :
    s.Move maxsize e u := by
  unfold step at h
  cases e with
  | receive result =>
      cases hstage : s.stage with
      | pulling =>
          -- A chunk is put next; the end and an error both lead to the end mark.
          cases result <;> simp only [hstage, Option.some.injEq] at h <;> rw [← h]
          · exact .chunk hstage
          · exact .last .done hstage nofun
          · exact .last .error hstage nofun
      | _ => simp only [hstage, reduceCtorEq] at h
  | put =>
      by_cases hfull : s.full maxsize = true
      · simp only [if_pos hfull, reduceCtorEq] at h
      · cases hstage : s.stage <;>
          simp only [if_neg hfull, hstage, Option.some.injEq, reduceCtorEq] at h
        · rw [← h]
          exact .put _ hstage hfull
        · rw [← h]
          exact .finish hstage hfull
  | interrupt =>
      cases hstage : s.stage <;> simp only [hstage, Option.some.injEq, reduceCtorEq] at h
      all_goals rw [← h]
      · exact .interrupt (Or.inl hstage)
      · exact .interrupt (Or.inr ⟨_, hstage⟩)
      · exact .cease hstage
  | read =>
      cases hreading : s.reading <;> cases hqueue : s.queue <;>
        simp only [hreading, hqueue, Option.some.injEq, reduceCtorEq] at h
      rw [← h]
      exact .read _ _ hreading hqueue
  | stop =>
      by_cases hreading : s.reading = true
      · simp only [if_pos hreading, Option.some.injEq] at h
        rw [← h]
        exact .stop hreading
      · simp only [if_neg hreading, reduceCtorEq] at h
  | cancel =>
      rw [← Option.some.inj h]
      exact .cancel

/-- A put to a queue that is not full goes through. -/
theorem step_put (h : ¬ s.full maxsize = true) {chunk : ℕ} (hstage : s.stage = .putting chunk) :
    s.step maxsize .put = some (pump { s with queue := s.queue ++ [.item chunk] }) := by
  unfold step
  rw [if_neg h, hstage]

theorem Frees.not_full (h : s.Frees maxsize gen) (hputs : s.stage.puts = true) :
    ¬ s.full maxsize = true :=
  fun hfull => h s .start ⟨hputs, hfull⟩

/-- The worker is free after each step it takes. -/
theorem Frees.step {e : StreamEvent} {u : StreamHandle} (h : s.Frees maxsize gen)
    (he : e.ofWorker = true) (hfollows : s.Follows gen e) (hstep : s.step maxsize e = some u) :
    u.Frees maxsize gen := by
  intro v hrun
  exact h v (Run.trans (.tail s u e .start ⟨he, hfollows⟩ hstep) hrun)

/-! ## Room -/

/-- The worker makes the puts it owes, and no others. -/
theorem Fits.step {e : StreamEvent} {u : StreamHandle} (hcancelled : s.cancelled = true)
    (h : s.Fits maxsize gen) (he : e.ofWorker = true) (hfollows : s.Follows gen e)
    (hstep : s.step maxsize e = some u) : u.cancelled = true ∧ u.Fits maxsize gen := by
  unfold Fits owed at h ⊢
  cases move_of_step hstep with
  | chunk hstage =>
      have hgen : Pulled.chunk = gen s.pulled := hfollows
      rw [hstage, ← hgen] at h
      exact ⟨hcancelled, h⟩
  | last result hstage hend =>
      have hgen : result = gen s.pulled := hfollows
      simp only [hstage, ← hgen, if_neg hend] at h
      exact ⟨hcancelled, h⟩
  | put chunk hstage hroom =>
      -- The worker sees that the consumer has cancelled.
      simp only [hstage] at h
      simp only [pump, hcancelled, if_true, List.length_append, List.length_singleton, true_and]
      omega
  | finish hstage hroom => exact ⟨hcancelled, Or.inr (Nat.zero_le _)⟩
  | interrupt hstage =>
      refine ⟨hcancelled, h.imp id fun hroom => Nat.le_trans ?_ hroom⟩
      rcases hstage with hstage | ⟨chunk, hstage⟩
      · simp only [hstage]
        split <;> omega
      · simp only [hstage]
        exact Nat.le_succ 1
  | cease hstage => exact ⟨hcancelled, Or.inr (Nat.zero_le _)⟩
  | read => exact absurd he nofun
  | stop => exact absurd he nofun
  | cancel => exact absurd he nofun

theorem Fits.not_blocked (h : s.Fits maxsize gen) : ¬ s.Blocked maxsize := by
  rintro ⟨hputs, hfull⟩
  rw [full_iff] at hfull
  unfold Fits owed at h
  cases hstage : s.stage with
  | putting chunk =>
      simp only [hstage] at h
      omega
  | finishing =>
      simp only [hstage] at h
      omega
  | _ =>
      rw [hstage] at hputs
      exact absurd hputs nofun

/-- At the put of the end mark the worker needs room for one. -/
theorem Frees.fits_finishing (h : s.Frees maxsize gen) (hstage : s.stage = .finishing) :
    s.Fits maxsize gen := by
  have hroom := h.not_full (by rw [hstage]; rfl)
  rw [full_iff] at hroom
  unfold Fits owed
  simp only [hstage]
  omega

/-- At the put of a chunk it needs room for two. -/
theorem Frees.fits_putting (h : s.Frees maxsize gen) (hcancelled : s.cancelled = true) {chunk : ℕ}
    (hstage : s.stage = .putting chunk) : s.Fits maxsize gen := by
  have hroom := h.not_full (by rw [hstage]; rfl)
  have hnext := (h.step (e := .put) rfl trivial (step_put hroom hstage)).not_full
    (by simp only [pump, hcancelled, if_true]; rfl)
  rw [full_iff] at hroom hnext
  simp only [pump, List.length_append, List.length_singleton] at hnext
  unfold Fits owed
  simp only [hstage]
  omega

/-- **When the worker gets away.** Once the consumer has cancelled, the worker is
    never blocked exactly if there is room for what it owes. -/
theorem frees_iff (hcancelled : s.cancelled = true) :
    s.Frees maxsize gen ↔ s.Fits maxsize gen := by
  constructor
  · intro h
    cases hstage : s.stage with
    | «over» => exact Or.inr (by simp only [owed, hstage, Nat.zero_le])
    | finishing => exact h.fits_finishing hstage
    | putting chunk => exact h.fits_putting hcancelled hstage
    | pulling =>
        -- What is asked for may be a chunk or the end.
        cases hgen : gen s.pulled with
        | chunk =>
            have hnext : s.step maxsize (.receive .chunk) =
                some { s with pulled := s.pulled + 1, stage := .putting s.pulled } := by
              simp only [step, hstage]
            have hfits := (h.step rfl (e := .receive _) hgen.symm hnext).fits_putting hcancelled rfl
            simpa only [Fits, owed, hstage, hgen, if_true] using hfits
        | done =>
            have hnext : s.step maxsize (.receive .done) =
                some { s with stage := .finishing, outcome := some .done } := by
              simp only [step, hstage]
            have hfits := (h.step rfl (e := .receive _) hgen.symm hnext).fits_finishing rfl
            simpa only [Fits, owed, hstage, hgen, reduceCtorEq, if_false] using hfits
        | error =>
            have hnext : s.step maxsize (.receive .error) =
                some { s with stage := .finishing, outcome := some .error } := by
              simp only [step, hstage]
            have hfits := (h.step rfl (e := .receive _) hgen.symm hnext).fits_finishing rfl
            simpa only [Fits, owed, hstage, hgen, reduceCtorEq, if_false] using hfits
  · intro h u hrun
    have hkept : u.cancelled = true ∧ u.Fits maxsize gen :=
      Run.invariant (fun t => t.cancelled = true ∧ t.Fits maxsize gen) ⟨hcancelled, h⟩
        (fun _ _ _ ht hok hstep => Fits.step ht.1 ht.2 hok.1 hok.2 hstep) hrun
    exact hkept.2.not_blocked

/-! ## Leaving -/

/-- There is no end mark in the queue before the worker has left the stream. -/
def Marked (s : StreamHandle) : Prop := .stop ∈ s.queue → s.stage = .over

theorem Marked.step {e : StreamEvent} {u : StreamHandle} (h : s.Marked)
    (hstep : s.step maxsize e = some u) : u.Marked := by
  intro hmem
  cases move_of_step hstep with
  | chunk hstage => exact absurd (hstage.symm.trans (h hmem)) nofun
  | last result hstage hend => exact absurd (hstage.symm.trans (h hmem)) nofun
  | put chunk hstage hroom =>
      have hold : Mail.stop ∈ s.queue := by simpa [pump] using hmem
      exact absurd (hstage.symm.trans (h hold)) nofun
  | finish hstage hroom => rfl
  | interrupt hstage =>
      rcases hstage with hstage | ⟨chunk, hstage⟩
      · exact absurd (hstage.symm.trans (h hmem)) nofun
      · exact absurd (hstage.symm.trans (h hmem)) nofun
  | cease hstage => rfl
  | read x rest hreading hqueue =>
      refine h ?_
      rw [hqueue]
      exact List.mem_cons_of_mem x hmem
  | stop hreading => exact h hmem
  | cancel => exact h hmem

/-- **A step of a stream.** A step after which a consumer that has left frees the
    worker is one by which no consumer leaves, or one that finds room. -/
theorem leaves_fits_iff {e : StreamEvent} {u : StreamHandle} (hmarked : s.Marked)
    (h : s.Gone → s.Frees maxsize gen) (hfollows : s.Follows gen e)
    (hstep : s.step maxsize e = some u) :
    (s.Leaves e → s.Fits maxsize gen) ↔ (u.Gone → u.Frees maxsize gen) := by
  -- What the worker does while the consumer is gone, it does freely.
  have hworker : e.ofWorker = true → (u.Gone → s.Gone) → (u.Gone → u.Frees maxsize gen) :=
    fun he hgone hu => (h (hgone hu)).step he hfollows hstep
  cases move_of_step hstep with
  | chunk hstage => exact iff_of_true nofun (hworker rfl id)
  | last result hstage hend => exact iff_of_true nofun (hworker rfl id)
  | put chunk hstage hroom => exact iff_of_true nofun (hworker rfl id)
  | finish hstage hroom => exact iff_of_true nofun (hworker rfl id)
  | interrupt hstage => exact iff_of_true nofun (hworker rfl id)
  | cease hstage => exact iff_of_true nofun (hworker rfl id)
  | read x rest hreading hqueue =>
      refine iff_of_true nofun fun hu => (frees_iff hu.1).mpr (Or.inr ?_)
      -- A consumer that stops here has got the end mark.
      have hx : x = .stop := by simpa using hu.2
      have hover : s.stage = .over := hmarked (by rw [hqueue, hx]; exact List.mem_cons_self)
      simp only [owed, hover, Nat.zero_le]
  | stop hreading =>
      constructor
      · intro hfits hu
        exact (frees_iff hu.1).mpr (hfits ⟨hu.1, hreading⟩)
      · intro hu hleaves
        exact (frees_iff (s := { s with reading := false }) hleaves.1).mp (hu ⟨hleaves.1, rfl⟩)
  | cancel =>
      constructor
      · intro hfits hu
        by_cases hcancelled : s.cancelled = true
        · exact (frees_iff rfl).mpr ((frees_iff hcancelled).mp (h ⟨hcancelled, hu.2⟩))
        · exact (frees_iff rfl).mpr (hfits ⟨by simpa using hcancelled, hu.2⟩)
      · intro hu hleaves
        exact (frees_iff (s := { s with cancelled := true }) rfl).mp (hu ⟨rfl, hleaves.2⟩)

/-! ## A consumer that reads to the end -/

/-- The end mark is the last letter in the queue, and a consumer that does not
    read has got it. -/
structure Orderly (s : StreamHandle) : Prop where
  marked : .stop ∈ s.queue →
    s.stage = .over ∧ ∃ letters, s.queue = letters ++ [.stop] ∧ .stop ∉ letters
  reads : s.reading = false → s.stage = .over ∧ s.queue = []

theorem orderly_start : start.Orderly := ⟨nofun, nofun⟩

/-- While the worker is at the stream the consumer reads, and there is no end
    mark. -/
theorem Orderly.open (h : s.Orderly) (hstage : s.stage ≠ .over) :
    s.reading = true ∧ .stop ∉ s.queue := by
  refine ⟨?_, fun hmem => hstage (h.marked hmem).1⟩
  by_contra hreading
  exact hstage (h.reads (by simpa using hreading)).1

theorem Orderly.of_open (hreading : s.reading = true) (hmem : .stop ∉ s.queue) : s.Orderly :=
  ⟨fun hstop => absurd hstop hmem, fun hr => absurd (hreading.symm.trans hr) nofun⟩

/-- As long as the consumer does not stop, this is so. -/
theorem Orderly.step {e : StreamEvent} {u : StreamHandle} (h : s.Orderly) (he : e ≠ .stop)
    (hstep : s.step maxsize e = some u) : u.Orderly := by
  cases move_of_step hstep with
  | chunk hstage =>
      rcases h.open (by rw [hstage]; exact nofun) with ⟨hreading, hmem⟩
      exact .of_open hreading hmem
  | last result hstage hend =>
      rcases h.open (by rw [hstage]; exact nofun) with ⟨hreading, hmem⟩
      exact .of_open hreading hmem
  | put chunk hstage hroom =>
      rcases h.open (by rw [hstage]; exact nofun) with ⟨hreading, hmem⟩
      exact .of_open hreading (by simpa [pump] using hmem)
  | finish hstage hroom =>
      rcases h.open (by rw [hstage]; exact nofun) with ⟨hreading, hmem⟩
      exact ⟨fun _ => ⟨rfl, s.queue, rfl, hmem⟩, fun hr => absurd (hreading.symm.trans hr) nofun⟩
  | interrupt hstage =>
      have hopen : s.stage ≠ .over := by
        rcases hstage with hstage | ⟨chunk, hstage⟩ <;> rw [hstage] <;> exact nofun
      exact .of_open (h.open hopen).1 (h.open hopen).2
  | cease hstage =>
      rcases h.open (by rw [hstage]; exact nofun) with ⟨hreading, hmem⟩
      exact .of_open hreading hmem
  | read x rest hreading hqueue =>
      by_cases hstop : .stop ∈ s.queue
      · rcases h.marked hstop with ⟨hover, letters, hletters, hmem⟩
        rw [hqueue] at hletters
        cases letters with
        | nil =>
            -- The consumer gets the end mark.
            rcases List.cons.inj hletters with ⟨_, hrest⟩
            rw [hrest]
            exact ⟨nofun, fun _ => ⟨hover, rfl⟩⟩
        | cons y letters =>
            rcases List.cons.inj hletters with ⟨hx, hrest⟩
            have hne : x ≠ .stop := by
              rw [hx]
              exact fun hy => hmem (by rw [← hy]; exact List.mem_cons_self)
            refine ⟨fun _ => ⟨hover, letters, hrest, fun hl => hmem (List.mem_cons_of_mem y hl)⟩,
              fun hr => ?_⟩
            exact absurd (of_decide_eq_false hr) (not_not.mpr hne)
      · rw [hqueue] at hstop
        rcases not_or.mp (fun hor => hstop (List.mem_cons.mpr hor)) with ⟨hx, hrest⟩
        exact .of_open (decide_eq_true (Ne.symm hx)) hrest
  | stop hreading => exact absurd rfl he
  | cancel => exact ⟨h.marked, h.reads⟩

end StreamHandle

open StreamHandle

/-- **Which consumers free the worker when they leave.** For every size of the
    queue and every generator, the runs in which each consumer that leaves finds
    room for what the worker still owes are those in each state of which a worker
    whose consumer has left is not blocked, however it goes on. -/
theorem leaving_frees_worker (maxsize : ℤ) (gen : ℕ → Pulled) (s : StreamHandle) :
    Run (step maxsize) (fun t e _ => Follows gen t e ∧ (t.Leaves e → t.Fits maxsize gen)) start s ↔
      Run (step maxsize) (fun t e u => Follows gen t e ∧ (u.Gone → u.Frees maxsize gen)) start s :=
  run_iff_steps Marked (fun u => u.Gone → u.Frees maxsize gen) _ _ nofun
    (fun hgone => absurd hgone.1 nofun) (fun _ _ _ hmarked hstep => hmarked.step hstep)
    (fun _ _ _ hok => hok.2)
    (fun _ _ _ hmarked h hstep =>
      and_congr_right fun hfollows => leaves_fits_iff hmarked h hfollows hstep)

/-- A generator has more chunks than the queue takes. The consumer stops reading
    and cancels when the queue is full and the worker has the next chunk in
    hand. -/
theorem leaving_blocks_worker :
    ∃ s, Run (step handleSize) (fun t e _ => Follows (fun _ => .chunk) t e) start s ∧
      s.Gone ∧ s.Blocked handleSize := by
  let events : List StreamEvent :=
    (List.replicate handleSize [.receive .chunk, .put]).flatten ++ [.receive .chunk, .stop, .cancel]
  have hplay : ((play (step handleSize) start events).any (fun s => decide
      (s.stage.puts = true ∧ s.full handleSize = true ∧ s.cancelled = true ∧
        s.reading = false))) = true := by
    decide +kernel
  rcases (Option.any_eq_true _ _).mp hplay with ⟨s, hs, hend⟩
  rcases of_decide_eq_true hend with ⟨hputs, hfull, hcancelled, hreading⟩
  refine ⟨s, run_of_play_of events (fun e he t _ => ?_) hs, ⟨hcancelled, hreading⟩, hputs, hfull⟩
  -- Nothing but chunks is received.
  have hreceive : ∀ result, e = .receive result → result = .chunk := by
    rintro result rfl
    have hmem : ¬ handleSize = 0 ∧ result = .chunk ∨ result = .chunk := by simpa [events] using he
    exact hmem.elim And.right id
  cases e with
  | receive result => exact hreceive result rfl
  | _ => trivial

end Models

end SecureLlm
