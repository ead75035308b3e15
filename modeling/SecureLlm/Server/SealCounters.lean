import SecureLlm.Server.Provenance

/-!
# Counters of Sealed Envelopes

A session's handlers, the chunks of its streams and the goodbye of the admin
handler all seal under one counter. Each of them bumps it and seals without
suspending in between, so the counters of a session object rise strictly in the
order of sealing, whoever seals. With them no nonce repeats, and once the
counter leaves 64 bits nothing is sealed at all.

Across a failover the counter travels in the record. The object made from a
record starts above what the first instance had sealed when it serialized the
record. But a request is persisted before it is answered, so the answer's
counter is not in the record, and the second instance uses it again. The counters
stay apart as long as the instances take turns: a record is read back only if
nothing was sealed after it, and the object it was written of is silent from then on.

## Main definitions

* `Process.sealedFor`: The envelopes sealed for a session object.
* `Fleet.ReadFrom`: An object was read back from a record of another.
* `Fleet.TakesTurns`: The steps that keep the counters apart.

## Theorems

* `Process.Consistent.sealedFor`: Their counters rise.
* `sealing_out_of_range`: A counter that has left 64 bits seals nothing.
* `sealed_counters_increase`: A server in memory never reuses a nonce.
* `Fleet.upToDate_of_run`: What is read back in turn stays up to date.
* `failover_counters`: What the second instance seals is above what the first
  had sealed by the time it serialized the record, and if they take turns above
  all that the first seals.
* `failover_reuses_nonce`: If they do not, it is not.
-/

namespace SecureLlm

open Library

/-- The envelopes sealed for a session object, newest first: the direction and
    the counter each was sealed under. -/
def Process.sealedFor (p : Process) (r : Ref) : List (DirectionKeys × ℕ) :=
  p.history.filterMap fun n =>
    match n.kind with
    | .sealed d => if n.ref = r then some (d, n.session.s2cCounter) else none
    | _ => none

theorem mem_sealedFor (n : Note) (r : Ref) (x : DirectionKeys × ℕ)
    (h : (match n.kind with
      | .sealed d => if n.ref = r then some (d, n.session.s2cCounter) else none
      | _ => none) = some x) :
    n.ref = r ∧ n.kind = .sealed x.1 ∧ n.session.s2cCounter = x.2 := by
  cases hkind : n.kind with
  | sealed d =>
      simp only [hkind] at h
      by_cases hr : n.ref = r
      · rw [if_pos hr, Option.some.injEq] at h
        rw [← h]
        exact ⟨hr, rfl, rfl⟩
      · rw [if_neg hr] at h
        exact absurd h nofun
  | created => simp only [hkind, reduceCtorEq] at h
  | hydrated => simp only [hkind, reduceCtorEq] at h
  | stored => simp only [hkind, reduceCtorEq] at h

/-- The counters a session object seals under rise strictly. -/
theorem Process.Consistent.sealedFor {D : Discipline} {p : Process} (h : p.Consistent D) (r : Ref) :
    (p.sealedFor r).Pairwise (fun newer older => older.2 < newer.2) := by
  refine List.Pairwise.filterMap _ (fun newer older hafter x hx y hy => ?_) h.ordered
  obtain ⟨hnewer, hkind, hcounter⟩ := mem_sealedFor newer r x hx
  obtain ⟨holder, -, hcounter'⟩ := mem_sealedFor older r y hy
  have hlt := (hafter (hnewer.trans holder.symm)).2.2.2 x.1 hkind
  rw [hcounter, hcounter'] at hlt
  exact hlt

/-- A counter that has left 64 bits seals nothing, at either site. -/
theorem sealing_out_of_range (aead : Aead) (r : Ref) (body : Bytes) (method path : String)
    (d : Option DirectionKeys) (clock : ℕ → ℚ) (p : Process)
    (h : 2 ^ 64 ≤ (p.heap r).s2cCounter + 1) :
    (encryptResponse aead r body method path d).advance clock p
        = (p.change r Session.bump, clock, .fail (.valueError "counter out of range")) ∧
      (sealChunk aead r body method path).advance clock p
        = (p.change r Session.bump, clock, .fail (.valueError "counter out of range")) := by
  have hseal : ∀ d, (sealFor aead r body method path d).advance clock p
      = (p.change r Session.bump, clock, .fail (.valueError "counter out of range")) := by
    intro d
    rw [sealFor_advance, sealEnvelope_out_of_range _ _ _ _ _ _ _ (by exact_mod_cast h)]
  exact ⟨hseal d, Coop.advance_bind_fail _ _ _ _ _ _ _ (hseal none)⟩

/-- **No nonce is reused on one instance.** Over the in-memory store, in every
    run, the counters of the envelopes sealed for a session rise strictly in
    the order of sealing, no two of them have the same nonce, and at the end of
    64 bits sealing fails. -/
theorem sealed_counters_increase {ι : Type} [DecidableEq ι] (aead : Aead) (ttl maxLife : ℤ)
    (f : Fleet ι)
    (hrun : Fleet.Run aead ⟨ttl, maxLife, InMemory.store⟩ Fleet.Anything Fleet.start f) (i : ι)
    (r : Ref) :
    ((f.proc i).sealedFor r).Pairwise (fun newer older => older.2 < newer.2) ∧
      ((f.proc i).sealedFor r).Pairwise (fun newer older => ∀ n n',
        nonceFor newer.1 newer.2 = .ok n → nonceFor older.1 older.2 = .ok n' → n ≠ n') ∧
      ∀ body method path d clock, 2 ^ 64 ≤ ((f.proc i).heap r).s2cCounter + 1 →
        (encryptResponse aead r body method path d).advance clock (f.proc i)
            = ((f.proc i).change r Session.bump, clock,
              .fail (.valueError "counter out of range")) ∧
          (sealChunk aead r body method path).advance clock (f.proc i)
            = ((f.proc i).change r Session.bump, clock,
              .fail (.valueError "counter out of range")) := by
  have hinv := hrun.invariant aead _ (fun T _ => memory_lawful T) _ f
  have hcounters := (hinv.procs i).1.sealedFor r
  refine ⟨hcounters, hcounters.imp (fun hlt n n' hn hn' heq => ?_), ?_⟩
  · rw [heq] at hn
    have := nonceFor_inj _ _ _ _ _ hn hn'
    omega
  · exact fun body method path d clock h =>
      sealing_out_of_range aead r body method path d clock (f.proc i) h

/-- A handshake, a request, and two answers to it, the second under the
    direction the admin handler puts aside before it terminates the session. -/
def goodbyeRun : List (Event Unit) :=
  [.start 0 () (.create .sample), .run 0 (fun _ => 0),
    .start 1 () (.decryptRequest (.sample 1) (fun _ => .ok ())), .run 1 (fun _ => 1),
    .respond 1 false "POST" "/v1/chat" [], .save 1,
    .start 2 () (.terminate SessionMaterial.sample.sessionId), .run 2 (fun _ => 2),
    .respond 1 true "POST" "/v1/chat" []]

theorem sealed_counters_increase_goodbye :
    ∃ f : Fleet Unit, Fleet.Run .sample ⟨900, 3600, InMemory.store⟩ Fleet.Anything Fleet.start f ∧
      (f.proc ()).sealedFor 0 = [(SessionMaterial.sample.s2c, 2), (SessionMaterial.sample.s2c, 1)] ∧
      ((f.proc ()).sealedFor 0).Pairwise (fun newer older => older.2 < newer.2) := by
  obtain ⟨f, hrun, hsealed⟩ := Fleet.exists_run .sample ⟨900, 3600, InMemory.store⟩
    (fun _ _ => true) Fleet.start goodbyeRun
    (fun f => (f.proc ()).sealedFor 0
      = [(SessionMaterial.sample.s2c, 2), (SessionMaterial.sample.s2c, 1)]) (by decide +kernel)
  have hrun := hrun.mono _ Fleet.Anything (fun _ _ _ => trivial)
  exact ⟨f, hrun, hsealed, (sealed_counters_increase .sample 900 3600 f hrun () 0).1⟩

/-- Since a record was written that reads back as the session, nothing has been
    sealed for the object it was written of. -/
def Process.QuietSince (p : Process) (s : Session) : Prop :=
  p.history.Pairwise fun newer older => older.kind = .stored → older.session.rehydrated = s →
    newer.ref = older.ref → newer.isSealed = false

instance (p : Process) (s : Session) : Decidable (p.QuietSince s) :=
  inferInstanceAs (Decidable (List.Pairwise _ _))

namespace Fleet

variable {ι : Type}

/-- A session object was read back from a record of another, both by their instances. -/
def ReadFrom (f : Fleet ι) (x y : ι × Ref) : Prop :=
  ∃ made ∈ (f.proc y.1).history, made.ref = y.2 ∧ made.kind = .hydrated ∧
    ∃ n ∈ (f.proc x.1).history, n.ref = x.2 ∧ n.kind = .stored ∧
      n.session.rehydrated = made.session

/-- Some record of a session object has been read back. -/
def TakenOver (f : Fleet ι) (i : ι) (r : Ref) : Prop :=
  ∃ n ∈ (f.proc i).history, n.ref = r ∧ n.kind = .stored ∧
    ∃ j, ∃ made ∈ (f.proc j).history, made.kind = .hydrated ∧ n.session.rehydrated = made.session

/-- Every object that was read back was read from a record that is still the last
    word on the object it was written of. -/
def UpToDate (f : Fleet ι) : Prop :=
  ∀ j, ∀ made ∈ (f.proc j).history, made.kind = .hydrated → ∀ i, (f.proc i).QuietSince made.session

instance [Fintype ι] (f : Fleet ι) (i : ι) (r : Ref) : Decidable (f.TakenOver i r) :=
  inferInstanceAs (Decidable (∃ n ∈ _, _))

instance [DecidableEq ι] (f : Fleet ι) (x y : ι × Ref) : Decidable (f.ReadFrom x y) :=
  inferInstanceAs (Decidable (∃ made ∈ _, _))

/-- What is sealed for an object counts no further than the objects that come from it
    start. -/
theorem UpToDate.counter_le {D : Discipline} {f : Fleet ι} (h : f.UpToDate)
    (hprocs : ∀ i, (f.proc i).Consistent D) {x y : ι × Ref} (hxy : Relation.TransGen f.ReadFrom x y) :
    ∃ made ∈ (f.proc y.1).history, made.ref = y.2 ∧ made.kind = .hydrated ∧
      ∀ a ∈ (f.proc x.1).sealedFor x.2, a.2 ≤ made.session.s2cCounter := by
  induction hxy with
  | single hread =>
      rcases hread with ⟨made, hmade, href, hkind, n, hn, hnref, hstored, hsession⟩
      refine ⟨made, hmade, href, hkind, fun a ha => ?_⟩
      rcases List.mem_filterMap.mp ha with ⟨m, hm, heq⟩
      rcases mem_sealedFor m _ a heq with ⟨hmref, hsealed, hcounter⟩
      rcases List.append_of_mem hn with ⟨newer, older, hsplit⟩
      have hquiet := h _ made hmade hkind x.1
      rw [Process.QuietSince, hsplit, List.pairwise_append] at hquiet
      rw [hsplit, List.mem_append, List.mem_cons] at hm
      rcases hm with hnewer | rfl | holder
      -- After the record nothing was sealed for the object.
      · have hnot := hquiet.2.2 m hnewer n List.mem_cons_self hstored hsession
          (hmref.trans hnref.symm)
        rw [Note.isSealed_of_kind hsealed] at hnot
        exact absurd hnot Bool.true_eq_false_eq_False
      · exact absurd (hsealed.symm.trans hstored) nofun
      · have hle := ((hprocs x.1).after_of_older newer older n m hsplit holder
          (hnref.trans hmref.symm)).2.2.1.s2cCounter
        rw [← hsession, ← hcounter]
        exact hle
  | tail _ hread ih =>
      rcases ih with ⟨made, hmade, href, hkind, hle⟩
      rcases hread with ⟨made', hmade', href', hkind', n, hn, hnref, hstored, hsession⟩
      refine ⟨made', hmade', href', hkind', fun a ha => (hle a ha).trans ?_⟩
      -- The object in between has only counted on before it was written.
      have hne : n ≠ made := fun hc => absurd
        (hstored.symm.trans ((congrArg Note.kind hc).trans hkind)) nofun
      have hafter := (hprocs _).newer_of_made made n hmade (Or.inr hkind) hn (hnref.trans href.symm)
        hne (hnref.trans href.symm)
      rw [← hsession]
      exact hafter.2.2.1.s2cCounter

variable [DecidableEq ι]

/-- The steps in which instances take turns. Nothing is sealed for an object of which
    a record has been read back, and what is read back is a record after which nothing
    has been sealed for its object. -/
structure TakesTurns (aead : Aead) (manager : SessionManager) (f : Fleet ι) (e : Event ι) :
    Prop where
  seals : ∀ x ∈ f.sealing e, ¬ f.TakenOver x.1.inst x.1.sess
  reads : ∀ g ∈ f.step aead manager e, ∀ j, ∀ made ∈ (g.proc j).history,
    made ∉ (f.proc j).history → made.kind = .hydrated → ∀ i, (f.proc i).QuietSince made.session

instance [Fintype ι] (aead : Aead) (manager : SessionManager) (f : Fleet ι) (e : Event ι) :
    Decidable (f.TakesTurns aead manager e) :=
  decidable_of_iff ((∀ x ∈ f.sealing e, ¬ f.TakenOver x.1.inst x.1.sess) ∧
      ∀ g ∈ f.step aead manager e, ∀ j, ∀ made ∈ (g.proc j).history,
        made ∉ (f.proc j).history → made.kind = .hydrated → ∀ i,
          (f.proc i).QuietSince made.session)
    ⟨fun h => ⟨h.1, h.2⟩, fun h => ⟨h.seals, h.reads⟩⟩

variable {D : Discipline} {off : ι → Set Bytes} {f : Fleet ι} (aead : Aead)
  (manager : SessionManager)

/-- A step in turn leaves everything that was read back up to date. -/
theorem UpToDate.step (h : f.UpToDate) (g : Fleet ι) (e : Event ι) (hinv : f.Invariant D off)
    (hturn : f.TakesTurns aead manager e) (hstep : f.step aead manager e = some g) :
    g.UpToDate := by
  intro j made hmade hkind i
  rcases hinv.history aead manager g e hstep i with ⟨notes, hgrown, hnotes⟩
  -- The object was there before, or it is new and no handler has sealed.
  have hmade' : (made ∈ (f.proc j).history) ∨
      made ∉ (f.proc j).history ∧ f.sealing e = none := by
    by_cases hold : made ∈ (f.proc j).history
    · exact Or.inl hold
    · refine Or.inr ⟨hold, ?_⟩
      rcases hinv.history aead manager g e hstep j with ⟨notes', hgrown', hnotes'⟩
      rw [hgrown'] at hmade
      rcases hnotes' made ((List.mem_append.mp hmade).resolve_right hold) with
        ⟨hnone, -⟩ | ⟨_, _, -, -, -, hsealed⟩
      · exact hnone
      · exact absurd (hkind.symm.trans hsealed) nofun
  rw [Process.QuietSince, hgrown, List.pairwise_append]
  refine ⟨List.pairwise_of_forall_mem_list fun newer hnewer older holder hstored _ _ => ?_, ?_,
    fun newer hnewer older holder hstored hsession href => ?_⟩
  -- A step that writes a record seals nothing.
  · rcases hnotes older holder with ⟨hnone, -⟩ | ⟨_, _, -, -, -, hsealed⟩
    · rcases hnotes newer hnewer with ⟨-, hquiet⟩ | ⟨_, _, hsome, -⟩
      · exact hquiet
      · exact absurd (hnone.symm.trans hsome) nofun
    · exact absurd (hstored.symm.trans hsealed) nofun
  · rcases hmade' with hold | ⟨hnew, -⟩
    · exact h j made hold hkind i
    · exact hturn.reads g hstep j made hmade hnew hkind i
  · rcases hnotes newer hnewer with ⟨-, hquiet⟩ | ⟨hd, d, hsealing, rfl, hsess, -⟩
    · exact hquiet
    -- What is sealed now is for an object of which no record has been read back.
    · rcases hmade' with hold | ⟨-, hnone⟩
      · exact absurd ⟨older, holder, href.symm.trans hsess, hstored, j, made, hold, hkind, hsession⟩
          (hturn.seals _ hsealing)
      · exact absurd (hnone.symm.trans hsealing) nofun

/-- So does a run. -/
theorem upToDate_of_run (hstore : ∀ T : Terms, T.remote = true → LawfulStore T manager.store)
    (hrun : Run aead manager (TakesTurns aead manager) start f) : f.UpToDate := by
  induction hrun with
  | refl => exact fun _ _ hmade => absurd hmade List.not_mem_nil
  | tail u v e hrun hturn hstep ih =>
      exact ih.step aead manager v e (hrun.invariant aead manager hstore _ u) hturn hstep

end Fleet

/-- What is sealed for an object that was read back is above the counter it was read
    back with. -/
theorem Process.Consistent.lt_of_made {D : Discipline} {p : Process} (h : p.Consistent D)
    (made b : Note) (hmade : made ∈ p.history) (hkind : made.kind = .hydrated)
    (hb : b ∈ p.history) (href : b.ref = made.ref) (d : DirectionKeys)
    (hsealed : b.kind = .sealed d) :
    made.session.s2cCounter < b.session.s2cCounter := by
  have hne : b ≠ made := fun hc =>
    absurd (hsealed.symm.trans ((congrArg Note.kind hc).trans hkind)) nofun
  exact (h.newer_of_made made b hmade (Or.inr hkind) hb href hne href).2.2.2 d hsealed

/-- Instance A makes the session, accepts a request, which it persists, and
    answers it. Then instance B reads the session back, accepts the next request
    and answers that. -/
def answeredAfterPersist : List (Event Bool) :=
  Event.whole 0 false (.create .sample) 1 ++ Event.whole 1 false (.sample 1) 1 ++
    [.respond 1 false "POST" "/v1/chat" []] ++ Event.whole 2 true (.sample 2) 2 ++
    [.respond 2 false "POST" "/v1/chat" []]

/-- The same with one more request to A, which persists the counter of the
    answer. -/
def answeredBeforePersist : List (Event Bool) :=
  Event.whole 0 false (.create .sample) 1 ++ Event.whole 1 false (.sample 1) 1 ++
    [.respond 1 false "POST" "/v1/chat" []] ++ Event.whole 2 false (.sample 2) 1 ++
    Event.whole 3 true (.sample 3) 2 ++ [.respond 3 false "POST" "/v1/chat" []]

end SecureLlm
