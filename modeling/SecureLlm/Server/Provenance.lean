import SecureLlm.Server.FleetInvariant

/-!
# Where Session Objects and Records Come From

A session object read back from Redis was read from a record that some put had
serialized, and Redis holds nothing else. What was serialized is in the history
of the instance that did it, and histories only grow, so it is enough to know
the histories at the end of a run.

What a put writes is the session as it is at that moment, and a session object
only evolves. So the records of one object rise, and stay above the record the
object was read from. Records of different objects have nothing to do with each
other: two instances that hold copies of one session overwrite each other's
progress.

## Main definitions

* `Fleet.Written`: The sessions serialized in a run so far.
* `Discipline.provenance`: Objects read back were read from written sessions.
* `Process.storedFor`: The sessions serialized for an object.

## Theorems

* `Fleet.invariant_provenance`: Every run keeps the discipline.
* `Process.Consistent.newer_of_made`: The making of an object is the first note
  on it.
* `persisted_state_monotone`: The records of one object never go back.
* `persisted_state_goes_back`: Those of a session on two instances do.
-/

namespace SecureLlm

open Library

/-- An object read back was read from a session that was written. -/
def Discipline.provenance (written : Session → Prop) : Discipline where
  kind _ := True
  written := written
  noted n := n.kind = .hydrated → ∃ s, written s ∧ n.session = s.rehydrated
  kind_evolves _ _ _ _ := trivial
  kind_rehydrated _ _ := trivial
  noted_created _ _ _ := nofun
  noted_hydrated _ s h _ := ⟨s, h, rfl⟩
  noted_stored _ _ _ := nofun

namespace Process

variable {D : Discipline} {p : Process}

-- The history is newest first: what stands behind a note came before it.
theorem Consistent.after_of_older (h : p.Consistent D) (newer older : List Note) (n m : Note)
    (hsplit : p.history = newer ++ n :: older) (hm : m ∈ older) : n.After m := by
  have hordered := h.ordered
  rw [hsplit, List.pairwise_append] at hordered
  exact List.rel_of_pairwise_cons hordered.2.1 hm

-- And what stands in front of it came after.
theorem Consistent.after_of_newer (h : p.Consistent D) (newer older : List Note) (n m : Note)
    (hsplit : p.history = newer ++ n :: older) (hm : m ∈ newer) : m.After n := by
  have hordered := h.ordered
  rw [hsplit, List.pairwise_append] at hordered
  exact hordered.2.2 m hm n List.mem_cons_self

/-- The first note on an object is about its making, so every other one on it
    is newer. -/
theorem Consistent.newer_of_made (h : p.Consistent D) (made b : Note) (hmade : made ∈ p.history)
    (hkind : made.kind = .created ∨ made.kind = .hydrated) (hb : b ∈ p.history)
    (href : b.ref = made.ref) (hne : b ≠ made) : b.After made := by
  rcases List.append_of_mem hmade with ⟨newer, older, hsplit⟩
  have hmem := hb
  rw [hsplit, List.mem_append, List.mem_cons] at hmem
  rcases hmem with hnewer | rfl | holder
  · exact h.after_of_newer newer older made b hsplit hnewer
  · exact absurd rfl hne
  · -- An older note on the object would make the first one not its making.
    rcases h.after_of_older newer older made b hsplit holder href.symm with
      ⟨hcreated, hhydrated, -⟩
    rcases hkind with hk | hk
    · exact absurd hk hcreated
    · exact absurd hk hhydrated

/-- The sessions serialized for an object, newest first. -/
def storedFor (p : Process) (r : Ref) : List Session :=
  p.history.filterMap fun n =>
    match n.kind with
    | .stored => if n.ref = r then some n.session else none
    | _ => none

theorem mem_storedFor (n : Note) (r : Ref) (s : Session)
    (h : (match n.kind with
      | .stored => if n.ref = r then some n.session else none
      | _ => none) = some s) : n.ref = r ∧ n.kind = .stored ∧ n.session = s := by
  cases hkind : n.kind with
  | stored =>
      simp only [hkind] at h
      by_cases hr : n.ref = r
      · rw [if_pos hr, Option.some.injEq] at h
        exact ⟨hr, rfl, h⟩
      · rw [if_neg hr] at h
        exact absurd h nofun
  | created => simp only [hkind, reduceCtorEq] at h
  | hydrated => simp only [hkind, reduceCtorEq] at h
  | sealed d => simp only [hkind, reduceCtorEq] at h

theorem storedFor_of_mem (n : Note) (hn : n ∈ p.history) (hkind : n.kind = .stored) :
    n.session ∈ p.storedFor n.ref := by
  refine List.mem_filterMap.mpr ⟨n, hn, ?_⟩
  simp only [hkind, if_true]

/-- What is serialized for an object only evolves. -/
theorem Consistent.storedFor (h : p.Consistent D) (r : Ref) :
    (p.storedFor r).Pairwise (fun newer older => older.Evolves newer) := by
  refine List.Pairwise.filterMap _ (fun newer older hafter x hx y hy => ?_) h.ordered
  rcases mem_storedFor newer r x hx with ⟨hnewer, -, rfl⟩
  rcases mem_storedFor older r y hy with ⟨holder, -, rfl⟩
  exact (hafter (hnewer.trans holder.symm)).2.2.1

end Process

namespace Fleet

variable {ι : Type} [DecidableEq ι]

/-- The session was serialized somewhere in the fleet. -/
def Written (f : Fleet ι) (s : Session) : Prop := ∃ i r, s ∈ (f.proc i).storedFor r

-- Induction on the run, with the histories at its end kept fixed.
theorem invariant_of_history (aead : Aead) (manager : SessionManager)
    (hstore : ∀ T : Terms, T.remote = true → LawfulStore T manager.store)
    (ok : Fleet ι → Event ι → Prop) (f g : Fleet ι) (hrun : Run aead manager ok start f)
    (hhistory : ∀ i, (f.proc i).history ⊆ (g.proc i).history) :
    f.Invariant (.provenance g.Written) unrestricted := by
  induction hrun with
  | refl => exact invariant_start _ _
  | tail u v e hrun he hstep ih =>
      have hgrows := (hrun.invariant aead manager hstore ok u).grows aead manager v e
        (allows_anything manager u e) hstep
      have hu : ∀ i, (u.proc i).history ⊆ (g.proc i).history := fun i =>
        List.Subset.trans (hgrows i).history.subset (hhistory i)
      refine (ih hu).step aead manager hstore v e ?_ hstep
      refine ⟨fun _ _ _ _ => ⟨fun h => h, fun _ => trivial⟩, fun _ _ _ => nofun, ?_,
        fun _ _ _ _ _ _ _ _ _ _ _ h => h⟩
      exact fun i n hn hkind => ⟨i, n.ref, Process.storedFor_of_mem n (hu i hn) hkind⟩

/-- In every run what is read back, and what Redis holds, was serialized in it. -/
theorem invariant_provenance (aead : Aead) (manager : SessionManager)
    (hstore : ∀ T : Terms, T.remote = true → LawfulStore T manager.store)
    (ok : Fleet ι → Event ι → Prop) (f : Fleet ι) (hrun : Run aead manager ok start f) :
    f.Invariant (.provenance f.Written) unrestricted :=
  invariant_of_history aead manager hstore ok f f hrun (fun _ => List.Subset.refl _)

end Fleet

/-- **What is persisted of a session object never goes back.** In every run of a
    fleet over Redis, the watermark and the counter that the puts of one session
    object write never decrease, in the order in which the puts serialize it,
    and never fall below those of the record the object was read from. Redis
    holds nothing but what some put has serialized. -/
theorem persisted_state_monotone {ι : Type} [DecidableEq ι] (aead : Aead) (ttl maxLife floor : ℤ)
    (f : Fleet ι)
    (hrun : Fleet.Run aead ⟨ttl, maxLife, RedisStore.store floor⟩ Fleet.Anything Fleet.start f) :
    (∀ i r, ((f.proc i).storedFor r).Pairwise (fun newer older =>
      older.replay.high ≤ newer.replay.high ∧ older.s2cCounter ≤ newer.s2cCounter)) ∧
    (∀ i, ∀ n ∈ (f.proc i).history, n.kind = .hydrated →
      (∃ s, f.Written s ∧ n.session = s.rehydrated) ∧
        ∀ s ∈ (f.proc i).storedFor n.ref, n.session.replay.high ≤ s.replay.high ∧
          n.session.s2cCounter ≤ s.s2cCounter) ∧
    (∀ name value, f.redis name = some value →
      ∃ s, f.Written s ∧ value = serialize s ∧ name = redisKey s.sessionId) := by
  have hinv := Fleet.invariant_provenance aead _ (fun T hT => redis_lawful T hT floor) _ f hrun
  refine ⟨fun i r => ?_, fun i n hn hkind => ⟨?_, fun s hs => ?_⟩, fun name value hvalue => ?_⟩
  · exact ((hinv.procs i).1.storedFor r).imp (fun hev => ⟨hev.high, hev.s2cCounter⟩)
  · exact ((hinv.procs i).1.notes n hn).2.2 hkind
  · rcases List.mem_filterMap.mp hs with ⟨m, hm, heq⟩
    rcases Process.mem_storedFor m n.ref s heq with ⟨href, hstored, rfl⟩
    have hne : m ≠ n := fun hc => absurd (hstored.symm.trans ((congrArg Note.kind hc).trans hkind))
      nofun
    have hev := ((hinv.procs i).1.newer_of_made n m hn (Or.inr hkind) hm href hne href).2.2.1
    exact ⟨hev.high, hev.s2cCounter⟩
  · rcases hinv.redis name value hvalue with ⟨s, hwritten, hserialize, hname, -⟩
    exact ⟨s, hwritten, hserialize, hname⟩

/-- Instance A makes the session and accepts counter 1, B reads it back and
    accepts 2, and A accepts 5. -/
def twoCopies : List (Event Bool) :=
  Event.whole 0 false (.create .sample) 1 ++ Event.whole 1 false (.sample 1) 1 ++
    Event.whole 2 true (.sample 2) 2 ++ Event.whole 3 false (.sample 5) 1

/-- Then B accepts counter 3 with its own copy, and the watermark in Redis goes
    back from 5 to 3. -/
theorem persisted_state_goes_back :
    ∃ f g : Fleet Bool,
      Fleet.Run .sample ⟨900, 3600, RedisStore.store 60⟩ Fleet.Anything Fleet.start f ∧
      Fleet.Run .sample ⟨900, 3600, RedisStore.store 60⟩ Fleet.Anything f g ∧
      (f.redis (redisKey SessionMaterial.sample.sessionId)).map Record.replayHigh = some 5 ∧
      (g.redis (redisKey SessionMaterial.sample.sessionId)).map Record.replayHigh = some 3 := by
  rcases Fleet.exists_run .sample ⟨900, 3600, RedisStore.store 60⟩ (fun _ _ => true) Fleet.start
    twoCopies (fun f =>
      (f.redis (redisKey SessionMaterial.sample.sessionId)).map Record.replayHigh = some 5 ∧
      (f.steps .sample ⟨900, 3600, RedisStore.store 60⟩ (fun _ _ => true)
        (Event.whole 4 true (.sample 3) 1)).any (fun g => decide
          ((g.redis (redisKey SessionMaterial.sample.sessionId)).map Record.replayHigh = some 3)))
    (by decide +kernel) with ⟨f, hf, h5, hsteps⟩
  rcases Fleet.exists_run _ _ _ f _ _ hsteps with ⟨g, hg, h3⟩
  exact ⟨f, g, hf.mono _ _ (fun _ _ _ => trivial), hg.mono _ _ (fun _ _ _ => trivial), h5, h3⟩

theorem persisted_state_monotone_sample :
    ∃ f : Fleet Bool,
      Fleet.Run .sample ⟨900, 3600, RedisStore.store 60⟩ Fleet.Anything Fleet.start f ∧
      ((f.proc false).storedFor 0).map (fun s => s.replay.high) = [5, 1, 0] ∧
      ((f.proc true).storedFor 0).map (fun s => s.replay.high) = [2] ∧
      ∀ i r, ((f.proc i).storedFor r).Pairwise (fun newer older =>
        older.replay.high ≤ newer.replay.high ∧ older.s2cCounter ≤ newer.s2cCounter) := by
  rcases Fleet.exists_run .sample ⟨900, 3600, RedisStore.store 60⟩ (fun _ _ => true) Fleet.start
    twoCopies (fun f => ((f.proc false).storedFor 0).map (fun s => s.replay.high) = [5, 1, 0] ∧
      ((f.proc true).storedFor 0).map (fun s => s.replay.high) = [2])
    (by decide +kernel) with ⟨f, hf, hA, hB⟩
  have hrun := hf.mono _ Fleet.Anything (fun _ _ _ => trivial)
  exact ⟨f, hrun, hA, hB, (persisted_state_monotone .sample 900 3600 60 f hrun).1⟩

end SecureLlm
