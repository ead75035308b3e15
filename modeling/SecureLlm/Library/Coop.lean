import Mathlib.Data.Nat.Notation

/-!
# Cooperative Tasks

Programs of a single-threaded event loop. A task runs alone until it asks an
outside service for something or waits for a condition; only there may another
task of the same loop run. Everything between two such points is atomic, and
the tasks share one state.

A task is the tree of what it may do next. `Coop.advance` walks the tree to the
next suspension, and what is left of the task there is a task again.

The second half is a program logic for tasks that share a state. A `Contract`
says which invariant every task keeps, which changes of the state a task
promises to stay within and which it puts up with from the others, what may be
asked of the service and what the service may answer. `Coop.Safe` says that a
task keeps its side whatever the others do at its suspensions, as long as they
keep theirs. `Safe.advance` is what makes it a statement about runs: a safe
task, run to its next suspension, has kept the contract and is safe there.

## Main definitions

* `Coop`: A cooperative task.
* `Coop.bind`, `Coop.tryFinally`: Sequencing, and cleaning up on both exits.
* `Coop.advance`: The run of a task to its next suspension.
* `Coop.play`: The run of a task to its end, in given surroundings.
* `Contract`: What tasks promise each other.
* `Coop.Safe`: A task that keeps a contract, with a postcondition.
* `Coop.Settled`: A suspended task that will keep it when it goes on.
* `Coop.Before`: What a task does before it asks for something, and after.
* `Coop.Ends`: A task that runs to its end without suspending.

## Theorems

* `Coop.advance_clock`: A run uses up readings of the clock.
* `Coop.advance_tryFinally`: Running a task with its cleanup.
* `Coop.advance_bind`, `Coop.advance_bind_fail`, `Coop.play_bind`: Running a
  sequence of two tasks.
* `Coop.play_of_advance`: The two runs of a task that does not suspend.
* `Coop.Safe.mono`: Weakening a postcondition.
* `Coop.Safe.bind`, `Coop.Safe.seq`: Sequencing safe tasks.
* `Coop.Safe.tryFinally`: Cleaning up after a safe task.
* `Coop.Settled.mono`: A suspended task stays safe while the others run.
* `Coop.Settled.call`: Answering a suspended task.
* `Coop.Safe.advance`: A safe task keeps its contract up to its next
  suspension.
* `Coop.Before.bind`, `Coop.Before.tryFinally`, `Coop.Before.advance`,
  `Coop.Ends.bind`, `Coop.Ends.tryFinally`, `Coop.Ends.advance`: Rules for the
  last two.
-/

namespace Library

/-- A task over a shared state `σ` that may ask a service for `κ`, be answered
    with `ρ`, read a clock showing `τ`, and end with a value or an error. -/
inductive Coop (σ κ : Type) (ρ : κ → Type) (τ ε α : Type) where
  | done (a : α)
  | fail (e : ε)
  /-- Read the clock. -/
  | now (next : τ → Coop σ κ ρ τ ε α)
  /-- Change the state and go on with what it was before the change. -/
  | step (upd : σ → σ) (next : σ → Coop σ κ ρ τ ε α)
  /-- Go on at once where the condition holds, else suspend until it does. -/
  | wait (ready : σ → Bool) (next : Coop σ κ ρ τ ε α)
  /-- Ask the service and suspend until it answers. -/
  | call (c : κ) (next : ρ c → Coop σ κ ρ τ ε α)

namespace Coop

variable {σ κ : Type} {ρ : κ → Type} {τ ε α β : Type}

/-- Sequencing: an error skips what follows. -/
def bind : Coop σ κ ρ τ ε α → (α → Coop σ κ ρ τ ε β) → Coop σ κ ρ τ ε β
  | done a, f => f a
  | fail e, _ => fail e
  | now next, f => now (fun t => (next t).bind f)
  | step upd next, f => step upd (fun s => (next s).bind f)
  | wait ready next, f => wait ready (next.bind f)
  | call c next, f => call c (fun r => (next r).bind f)

instance : Monad (Coop σ κ ρ τ ε) where
  pure := done
  bind := bind

/-- Run a task and then a cleanup, whether the task returns or raises. -/
def tryFinally : Coop σ κ ρ τ ε α → Coop σ κ ρ τ ε Unit → Coop σ κ ρ τ ε α
  | done a, fin => fin.bind (fun _ => done a)
  | fail e, fin => fin.bind (fun _ => fail e)
  | now next, fin => now (fun t => (next t).tryFinally fin)
  | step upd next, fin => step upd (fun s => (next s).tryFinally fin)
  | wait ready next, fin => wait ready (next.tryFinally fin)
  | call c next, fin => call c (fun r => (next r).tryFinally fin)

/-- The time. -/
def time : Coop σ κ ρ τ ε τ := now done

/-- Read something off the state. -/
def gets (f : σ → α) : Coop σ κ ρ τ ε α := step id (fun s => done (f s))

/-- Change the state. -/
def modify (upd : σ → σ) : Coop σ κ ρ τ ε Unit := step upd (fun _ => done ())

/-- Run a task to its next suspension: what it leaves the state as, what is
    left of the clock's readings, and what is left of the task. -/
def advance : Coop σ κ ρ τ ε α → (ℕ → τ) → σ → σ × (ℕ → τ) × Coop σ κ ρ τ ε α
  | done a, clock, s => (s, clock, done a)
  | fail e, clock, s => (s, clock, fail e)
  | now next, clock, s => (next (clock 0)).advance (fun n => clock (n + 1)) s
  | step upd next, clock, s => (next s).advance clock (upd s)
  | wait ready next, clock, s =>
    if ready s then next.advance clock s else (s, clock, wait ready next)
  | call c next, clock, s => (s, clock, call c next)

/-- A run leaves the clock as it was, less the readings it has made. -/
theorem advance_clock (p : Coop σ κ ρ τ ε α) (clock : ℕ → τ) (s : σ) :
    ∃ k, (p.advance clock s).2.1 = fun n => clock (n + k) := by
  induction p generalizing clock s with
  | done a => exact ⟨0, rfl⟩
  | fail e => exact ⟨0, rfl⟩
  | now next ih =>
      rcases ih (clock 0) (fun n => clock (n + 1)) s with ⟨k, hk⟩
      exact ⟨k + 1, hk⟩
  | step upd next ih => exact ih s clock (upd s)
  | wait ready next ih =>
      rw [advance]
      by_cases hready : ready s = true
      · rw [if_pos hready]
        exact ih clock s
      · rw [if_neg hready]
        exact ⟨0, rfl⟩
  | call c next ih => exact ⟨0, rfl⟩

/-- A task that is not left in its wait has found it over. -/
theorem advance_wait {ready : σ → Bool} {next p : Coop σ κ ρ τ ε α} {clock clock' : ℕ → τ}
    {s s' : σ} (h : (wait ready next).advance clock s = (s', clock', p))
    (hp : p ≠ wait ready next) :
    ready s = true ∧ next.advance clock s = (s', clock', p) := by
  rw [advance] at h
  by_cases hready : ready s = true
  · rw [if_pos hready] at h
    exact ⟨hready, h⟩
  · rw [if_neg hready, Prod.mk.injEq, Prod.mk.injEq] at h
    exact absurd h.2.2.symm hp

/-- Running a sequence of two tasks, the first of which comes to its end. -/
theorem advance_bind (p : Coop σ κ ρ τ ε α) (f : α → Coop σ κ ρ τ ε β) (clock clock' : ℕ → τ)
    (s s' : σ) (a : α) (h : p.advance clock s = (s', clock', done a)) :
    (p.bind f).advance clock s = (f a).advance clock' s' := by
  induction p generalizing clock s with
  | done b =>
      simp only [advance, Prod.mk.injEq, done.injEq] at h
      rw [bind, h.1, h.2.1, h.2.2]
  | fail e =>
      simp only [advance, Prod.mk.injEq, reduceCtorEq, and_false] at h
  | now next ih => exact ih _ _ _ h
  | step upd next ih => exact ih _ _ _ h
  | wait ready next ih =>
      obtain ⟨hready, hnext⟩ := advance_wait h (by simp)
      rw [bind, advance, if_pos hready]
      exact ih _ _ hnext
  | call c next ih => simp only [advance, Prod.mk.injEq, reduceCtorEq, and_false] at h

/-- The cleanup runs where a task has come to its end. -/
theorem advance_tryFinally (p : Coop σ κ ρ τ ε α) (fin : Coop σ κ ρ τ ε Unit)
    (clock clock' : ℕ → τ) (s s' : σ) (a : α) (h : p.advance clock s = (s', clock', done a)) :
    (p.tryFinally fin).advance clock s = (fin.bind (fun _ => done a)).advance clock' s' := by
  induction p generalizing clock s with
  | done b =>
      simp only [advance, Prod.mk.injEq, done.injEq] at h
      rw [tryFinally, h.1, h.2.1, h.2.2]
  | fail e => simp only [advance, Prod.mk.injEq, reduceCtorEq, and_false] at h
  | now next ih => exact ih _ _ _ h
  | step upd next ih => exact ih _ _ _ h
  | wait ready next ih =>
      obtain ⟨hready, hnext⟩ := advance_wait h (by simp)
      rw [tryFinally, advance, if_pos hready]
      exact ih _ _ hnext
  | call c next ih => simp only [advance, Prod.mk.injEq, reduceCtorEq, and_false] at h

/-- Running a sequence of two tasks, the first of which raises. -/
theorem advance_bind_fail (p : Coop σ κ ρ τ ε α) (f : α → Coop σ κ ρ τ ε β) (clock clock' : ℕ → τ)
    (s s' : σ) (e : ε) (h : p.advance clock s = (s', clock', fail e)) :
    (p.bind f).advance clock s = (s', clock', fail e) := by
  induction p generalizing clock s with
  | done a => simp only [advance, Prod.mk.injEq, reduceCtorEq, and_false] at h
  | fail e' =>
      simp only [advance, Prod.mk.injEq, fail.injEq] at h
      rw [bind, advance, h.1, h.2.1, h.2.2]
  | now next ih => exact ih _ _ _ h
  | step upd next ih => exact ih _ _ _ h
  | wait ready next ih =>
      obtain ⟨hready, hnext⟩ := advance_wait h (by simp)
      rw [bind, advance, if_pos hready]
      exact ih _ _ hnext
  | call c next ih => simp only [advance, Prod.mk.injEq, reduceCtorEq, and_false] at h

/-- What a task meets when it runs to its end: what the clock shows, the state it
    is woken in, and the state it is answered in with the answer. -/
structure Surroundings (σ κ : Type) (ρ : κ → Type) (τ : Type) where
  clock : ℕ → τ
  wake : ℕ → σ → σ
  answer : ℕ → (c : κ) → σ → σ × ρ c

/-- Run a task to its end. The number counts what it has asked its surroundings
    for. -/
def play (w : Surroundings σ κ ρ τ) : Coop σ κ ρ τ ε α → ℕ → σ → ℕ × σ × Except ε α
  | done a, n, s => (n, s, .ok a)
  | fail e, n, s => (n, s, .error e)
  | now next, n, s => (next (w.clock n)).play w (n + 1) s
  | step upd next, n, s => (next s).play w n (upd s)
  | wait ready next, n, s =>
    if ready s then next.play w n s else next.play w (n + 1) (w.wake n s)
  | call c next, n, s => (next (w.answer n c s).2).play w (n + 1) (w.answer n c s).1

/-- A sequence of two tasks runs the second where the first returns. -/
theorem play_bind (w : Surroundings σ κ ρ τ) (p : Coop σ κ ρ τ ε α) (f : α → Coop σ κ ρ τ ε β)
    (n : ℕ) (s : σ) :
    (p.bind f).play w n s =
      match p.play w n s with
      | (n', s', .ok a) => (f a).play w n' s'
      | (n', s', .error e) => (n', s', .error e) := by
  induction p generalizing n s with
  | done a => rfl
  | fail e => rfl
  | now next ih => exact ih _ _ _
  | step upd next ih => exact ih _ _ _
  | wait ready next ih =>
      simp only [bind, play]
      by_cases hready : ready s = true
      · rw [if_pos hready, if_pos hready]
        exact ih _ _
      · rw [if_neg hready, if_neg hready]
        exact ih _ _
  | call c next ih => exact ih _ _ _

/-- A task that comes to its end without suspending ends there in any
    surroundings with the same clock. -/
theorem play_of_advance (w : Surroundings σ κ ρ τ) (p : Coop σ κ ρ τ ε α) (n : ℕ) (s s' : σ)
    (clock' : ℕ → τ) (a : α)
    (h : p.advance (fun k => w.clock (n + k)) s = (s', clock', done a)) :
    ∃ n', p.play w n s = (n', s', .ok a) := by
  induction p generalizing n s with
  | done b =>
      simp only [advance, Prod.mk.injEq, done.injEq] at h
      exact ⟨n, by rw [play, h.1, h.2.2]⟩
  | fail e => simp only [advance, Prod.mk.injEq, reduceCtorEq, and_false] at h
  | now next ih =>
      refine ih _ (n + 1) s ?_
      rw [← h, advance]
      simp only [Nat.add_zero, Nat.add_assoc, Nat.add_comm 1]
  | step upd next ih => exact ih _ _ _ h
  | wait ready next ih =>
      obtain ⟨hready, hnext⟩ := advance_wait h (by simp)
      rw [play, if_pos hready]
      exact ih _ _ hnext
  | call c next ih => simp only [advance, Prod.mk.injEq, reduceCtorEq, and_false] at h

end Coop

/-- What a task and the others of its loop promise each other: an invariant of
    the shared state, the changes the others stay within, the changes the task
    itself stays within, what it may ask of the service, and what the service
    may answer. -/
structure Contract (σ κ : Type) (ρ : κ → Type) where
  inv : σ → Prop
  rely : σ → σ → Prop
  guar : σ → σ → Prop
  perm : σ → κ → Prop
  reply : (c : κ) → ρ c → Prop
  rely_trans : ∀ s t u, rely s t → rely t u → rely s u
  guar_refl : ∀ s, guar s s
  guar_trans : ∀ s t u, guar s t → guar t u → guar s u
  guar_rely : ∀ s t, guar s t → rely s t
  perm_stable : ∀ s t c, rely s t → perm s c → perm t c

namespace Coop

variable {σ κ : Type} {ρ : κ → Type} {τ ε α β : Type} (C : Contract σ κ ρ)

/-- The task keeps the contract from a state on and, where it returns, ends
    with its postcondition. At a suspension the other tasks may have taken the
    state anywhere the contract lets them. -/
def Safe (post : α → σ → Prop) : Coop σ κ ρ τ ε α → σ → Prop
  | done a, s => post a s
  | fail _, _ => True
  | now next, s => ∀ t, (next t).Safe post s
  | step upd next, s => C.inv (upd s) ∧ C.guar s (upd s) ∧ (next s).Safe post (upd s)
  | wait ready next, s => ∀ t, C.inv t → C.rely s t → ready t = true → next.Safe post t
  | call c next, s => C.perm s c ∧
      ∀ t r, C.inv t → C.rely s t → C.reply c r → (next r).Safe post t

theorem rely_refl (s : σ) : C.rely s s := C.guar_rely s s (C.guar_refl s)

/-- A postcondition may be weakened, knowing how the state got to its end. -/
theorem Safe.mono (post post' : α → σ → Prop) (p : Coop σ κ ρ τ ε α) (s : σ)
    (hpost : ∀ a t, C.inv t → C.rely s t → post a t → post' a t) (hinv : C.inv s)
    (h : p.Safe C post s) : p.Safe C post' s := by
  induction p generalizing s with
  | done a => exact hpost a s hinv (rely_refl C s) h
  | fail e => trivial
  | now next ih => exact fun t => ih t s hpost hinv (h t)
  | step upd next ih =>
      refine ⟨h.1, h.2.1, ih s (upd s) (fun a t ht hg => ?_) h.1 h.2.2⟩
      exact hpost a t ht (C.rely_trans _ _ _ (C.guar_rely _ _ h.2.1) hg)
  | wait ready next ih =>
      intro t ht hg hready
      refine ih t (fun a u hu hgu => ?_) ht (h t ht hg hready)
      exact hpost a u hu (C.rely_trans _ _ _ hg hgu)
  | call c next ih =>
      refine ⟨h.1, fun t r ht hg hr => ih r t (fun a u hu hgu => ?_) ht (h.2 t r ht hg hr)⟩
      exact hpost a u hu (C.rely_trans _ _ _ hg hgu)

theorem Safe.bind (post : β → σ → Prop) (p : Coop σ κ ρ τ ε α) (f : α → Coop σ κ ρ τ ε β) (s : σ)
    (h : p.Safe C (fun a t => (f a).Safe C post t) s) : (p.bind f).Safe C post s := by
  induction p generalizing s with
  | done a => exact h
  | fail e => trivial
  | now next ih => exact fun t => ih t s (h t)
  | step upd next ih => exact ⟨h.1, h.2.1, ih s (upd s) h.2.2⟩
  | wait ready next ih => exact fun t ht hg hready => ih t (h t ht hg hready)
  | call c next ih => exact ⟨h.1, fun t r ht hg hr => ih r t (h.2 t r ht hg hr)⟩

/-- Sequencing, where the second task needs no more than the invariant and the
    first one's postcondition wherever the first one ends. -/
theorem Safe.seq (mid : α → σ → Prop) (post : β → σ → Prop) (p : Coop σ κ ρ τ ε α)
    (f : α → Coop σ κ ρ τ ε β) (s : σ) (hinv : C.inv s) (hp : p.Safe C mid s)
    (hf : ∀ a t, C.inv t → C.rely s t → mid a t → (f a).Safe C post t) :
    (p.bind f).Safe C post s :=
  Safe.bind C post p f s (Safe.mono C mid _ p s hf hinv hp)

/-- The cleanup has to be safe wherever the task may raise, which is anywhere. -/
theorem Safe.tryFinally (post : α → σ → Prop) (p : Coop σ κ ρ τ ε α)
    (fin : Coop σ κ ρ τ ε Unit) (s : σ) (hinv : C.inv s)
    (hfail : ∀ t, C.inv t → fin.Safe C (fun _ _ => True) t)
    (h : p.Safe C (fun a t => C.inv t → fin.Safe C (fun _ u => post a u) t) s) :
    (p.tryFinally fin).Safe C post s := by
  induction p generalizing s with
  | done a => exact Safe.bind C _ _ _ _ (h hinv)
  | fail e => exact Safe.bind C _ _ _ _ (hfail s hinv)
  | now next ih => exact fun t => ih t s hinv (h t)
  | step upd next ih => exact ⟨h.1, h.2.1, ih s (upd s) h.1 h.2.2⟩
  | wait ready next ih => exact fun t ht hg hready => ih t ht (h t ht hg hready)
  | call c next ih => exact ⟨h.1, fun t r ht hg hr => ih r t ht (h.2 t r ht hg hr)⟩

/-- Reading the state and going on. -/
theorem Safe.gets_bind (post : β → σ → Prop) (g : σ → α) (f : α → Coop σ κ ρ τ ε β) (s : σ)
    (hinv : C.inv s) (h : (f (g s)).Safe C post s) : (Coop.bind (gets g) f).Safe C post s :=
  ⟨hinv, C.guar_refl s, h⟩

/-- Changing the state and going on. -/
theorem Safe.modify_bind (post : β → σ → Prop) (upd : σ → σ) (f : Unit → Coop σ κ ρ τ ε β) (s : σ)
    (hstep : C.inv (upd s) ∧ C.guar s (upd s)) (h : (f ()).Safe C post (upd s)) :
    (Coop.bind (modify upd) f).Safe C post s :=
  ⟨hstep.1, hstep.2, h⟩

/-- Suspended, or answered and not yet running: the state may still change
    under the contract before the task goes on. -/
def Settled (post : α → σ → Prop) (p : Coop σ κ ρ τ ε α) (s : σ) : Prop :=
  ∀ t, C.inv t → C.rely s t → p.Safe C post t

theorem Settled.mono (post : α → σ → Prop) (p : Coop σ κ ρ τ ε α) (s t : σ)
    (h : p.Settled C post s) (hg : C.rely s t) : p.Settled C post t :=
  fun u hu hgu => h u hu (C.rely_trans _ _ _ hg hgu)

/-- A suspended task has asked for what it may, and goes on safely with
    whatever it is answered. -/
theorem Settled.call (post : α → σ → Prop) (c : κ) (next : ρ c → Coop σ κ ρ τ ε α) (s : σ)
    (hinv : C.inv s) (h : (Coop.call c next).Settled C post s) :
    C.perm s c ∧ ∀ r, C.reply c r → (next r).Settled C post s :=
  ⟨(h s hinv (rely_refl C s)).1, fun r hr t ht hg =>
    (h s hinv (rely_refl C s)).2 t r ht hg hr⟩

/-- Running a safe task to its next suspension keeps the contract. Where it
    ends there its postcondition holds, and otherwise it stays safe while the
    others run. -/
theorem Safe.advance (post : α → σ → Prop) (p : Coop σ κ ρ τ ε α) (clock : ℕ → τ) (s : σ)
    (hinv : C.inv s) (h : p.Safe C post s) :
    C.inv (p.advance clock s).1 ∧ C.guar s (p.advance clock s).1 ∧
      ((∃ a, (p.advance clock s).2.2 = done a ∧ post a (p.advance clock s).1) ∨
        (∃ e, (p.advance clock s).2.2 = fail e) ∨
        (p.advance clock s).2.2.Settled C post (p.advance clock s).1) := by
  induction p generalizing clock s with
  | done a => exact ⟨hinv, C.guar_refl s, Or.inl ⟨a, rfl, h⟩⟩
  | fail e => exact ⟨hinv, C.guar_refl s, Or.inr (Or.inl ⟨e, rfl⟩)⟩
  | now next ih => exact ih _ _ s hinv (h _)
  | step upd next ih =>
      obtain ⟨hi, hg, hs⟩ := ih s clock (upd s) h.1 h.2.2
      exact ⟨hi, C.guar_trans _ _ _ h.2.1 hg, hs⟩
  | wait ready next ih =>
      rw [Coop.advance]
      by_cases hready : ready s = true
      · rw [if_pos hready]
        exact ih clock s hinv (h s hinv (rely_refl C s) hready)
      · rw [if_neg hready]
        refine ⟨hinv, C.guar_refl s, Or.inr (Or.inr fun t _ hg u hu hgu => ?_)⟩
        exact h u hu (C.rely_trans _ _ _ hg hgu)
  | call c next ih =>
      refine ⟨hinv, C.guar_refl s, Or.inr (Or.inr fun t _ hg => ?_)⟩
      exact ⟨C.perm_stable s t c hg h.1,
        fun u r hu hgu hr => h.2 u r hu (C.rely_trans _ _ _ hg hgu) hr⟩

/-- What a task does before it first asks the service for one of `S`, and what
    it is once that is answered: until then it returns values in `Q` only, and
    then what is left of it is in `R`. -/
def Before (S : κ → Prop) (Q : α → Prop) (R : Coop σ κ ρ τ ε α → Prop) : Coop σ κ ρ τ ε α → Prop
  | done a => Q a
  | fail _ => True
  | now next => ∀ t, (next t).Before S Q R
  | step _ next => ∀ s, (next s).Before S Q R
  | wait _ next => next.Before S Q R
  | call c next => (S c → ∀ r, R (next r)) ∧ (¬ S c → ∀ r, (next r).Before S Q R)

variable (S : κ → Prop)

theorem Before.bind (Q : β → Prop) (R : Coop σ κ ρ τ ε β → Prop) (p : Coop σ κ ρ τ ε α)
    (f : α → Coop σ κ ρ τ ε β)
    (h : p.Before S (fun a => (f a).Before S Q R) (fun q => R (q.bind f))) :
    (p.bind f).Before S Q R := by
  induction p with
  | done a => exact h
  | fail e => trivial
  | now next ih => exact fun t => ih t (h t)
  | step upd next ih => exact fun s => ih s (h s)
  | wait ready next ih => exact ih h
  | call c next ih => exact ⟨h.1, fun hc r => ih r (h.2 hc r)⟩

theorem Before.tryFinally (Q : α → Prop) (R : Coop σ κ ρ τ ε α → Prop) (p : Coop σ κ ρ τ ε α)
    (fin : Coop σ κ ρ τ ε Unit)
    (hfail : ∀ e, (fin.bind (fun _ => fail e) : Coop σ κ ρ τ ε α).Before S Q R)
    (h : p.Before S (fun a => (fin.bind (fun _ => done a)).Before S Q R)
      (fun q => R (q.tryFinally fin))) : (p.tryFinally fin).Before S Q R := by
  induction p with
  | done a => exact h
  | fail e => exact hfail e
  | now next ih => exact fun t => ih t (h t)
  | step upd next ih => exact fun s => ih s (h s)
  | wait ready next ih => exact ih h
  | call c next ih => exact ⟨h.1, fun hc r => ih r (h.2 hc r)⟩

/-- Running on does not ask the service for anything. -/
theorem Before.advance (Q : α → Prop) (R : Coop σ κ ρ τ ε α → Prop) (p : Coop σ κ ρ τ ε α)
    (clock : ℕ → τ) (s : σ) (h : p.Before S Q R) : (p.advance clock s).2.2.Before S Q R := by
  induction p generalizing clock s with
  | done a => exact h
  | fail e => trivial
  | now next ih => exact ih _ _ _ (h _)
  | step upd next ih => exact ih _ _ _ (h _)
  | wait ready next ih =>
      rw [Coop.advance]
      by_cases hready : ready s = true
      · rw [if_pos hready]
        exact ih _ _ h
      · rw [if_neg hready]
        exact h
  | call c next ih => exact h

/-- From the state the task runs to its end without suspending, whatever the
    clock shows, and leaves the state with a property on both exits. -/
def Ends (post : σ → Prop) : Coop σ κ ρ τ ε α → σ → Prop
  | done _, s => post s
  | fail _, s => post s
  | now next, s => ∀ t, (next t).Ends post s
  | step upd next, s => (next s).Ends post (upd s)
  | wait ready next, s => ready s = true ∧ next.Ends post s
  | call _ _, _ => False

theorem Ends.bind (post : σ → Prop) (p : Coop σ κ ρ τ ε α) (f : α → Coop σ κ ρ τ ε β) (s : σ)
    (h : p.Ends post s) (hf : ∀ a t, post t → (f a).Ends post t) : (p.bind f).Ends post s := by
  induction p generalizing s with
  | done a => exact hf a s h
  | fail e => exact h
  | now next ih => exact fun t => ih t s (h t)
  | step upd next ih => exact ih s (upd s) h
  | wait ready next ih => exact ⟨h.1, ih s h.2⟩
  | call c next ih => exact h

-- The property at the end of the cleanup may differ from the one it starts with.
theorem Ends.tryFinally (mid post : σ → Prop) (p : Coop σ κ ρ τ ε α) (fin : Coop σ κ ρ τ ε Unit)
    (s : σ) (h : p.Ends mid s)
    (hfin : ∀ (q : Coop σ κ ρ τ ε α), (∀ t, post t → q.Ends post t) → ∀ t, mid t →
      (fin.bind (fun _ => q)).Ends post t) : (p.tryFinally fin).Ends post s := by
  induction p generalizing s with
  | done a => exact hfin (done a) (fun _ ht => ht) s h
  | fail e => exact hfin (fail e) (fun _ ht => ht) s h
  | now next ih => exact fun t => ih t s (h t)
  | step upd next ih => exact ih s (upd s) h
  | wait ready next ih => exact ⟨h.1, ih s h.2⟩
  | call c next ih => exact h

theorem Ends.advance (post : σ → Prop) (p : Coop σ κ ρ τ ε α) (clock : ℕ → τ) (s : σ)
    (h : p.Ends post s) :
    post (p.advance clock s).1 ∧ ((∃ a, (p.advance clock s).2.2 = done a) ∨
      ∃ e, (p.advance clock s).2.2 = fail e) := by
  induction p generalizing clock s with
  | done a => exact ⟨h, Or.inl ⟨a, rfl⟩⟩
  | fail e => exact ⟨h, Or.inr ⟨e, rfl⟩⟩
  | now next ih => exact ih _ _ s (h _)
  | step upd next ih => exact ih s clock (upd s) h
  | wait ready next ih =>
      rw [Coop.advance, if_pos h.1]
      exact ih clock s h.2
  | call c next ih => exact h.elim

end Coop

end Library
