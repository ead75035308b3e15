import SecureLlm.Llm.Sources

/-!
# Streams of Synchronous Chunks

A chunk of a synchronous iterable is lost where the time is up before it is got: it is
returned to a call that nobody waits for. And a generator raises when it is called while
such a call is still executing in it. If neither comes about, all chunks are delivered.

What has been taken from the iterable is compared with what the loop has emitted or is
about to emit. A step that loses something lets the first run ahead of the second, and
no later step makes up for it.

## Main definitions

* `Sourced.Quiet`: Nothing is cancelled.
* `Sourced.Careful`: Whatever is returned by the iterable is got.
* `Sourced.Kept`: The invariant.
* `Sourced.remaining`: What is left to do.

## Theorems

* `Sourced.Kept.step`: Which steps lose nothing.
* `Sourced.Kept.ends`: A run gets to an end.
* `sync_chunks_delivered`: When all chunks are delivered.
* `late_chunk_lost`: A chunk that is not.
-/

namespace SecureLlm

open Library Transition Models

namespace Llm

namespace Sourced

variable (src : Source) (st : Stream) (s : Sourced)

/-- Nothing is cancelled but reads whose time is up, and the process leaves the session
    its keys and takes no counter back. -/
def Quiet : SourceEvent → Prop
  | .cancel => False
  | .abort => False
  | .elsewhere p => s.loop.Quiet st src.count (.elsewhere p)
  | _ => True

/-- The session has a counter left. -/
def HasCounter : Prop := (s.loop.proc.heap st.sess).s2cCounter + 1 < 2 ^ 64

instance : Decidable (s.HasCounter st) := inferInstanceAs (Decidable (_ < _))

/-- No chunk is returned to a call that nobody waits for, or has been returned to the
    task that is cancelled, and no task gets a generator's exception. And what is sealed
    has a counter. -/
def Careful : SourceEvent → Prop
  | .get => s.call ≠ some (.returned .raised)
  | .wake => (∃ n, s.loop.phase = .woken (.item n)) → s.HasCounter st
  | .timeout => (∀ n, s.call ≠ some (.returned (.chunk n))) ∧ s.HasCounter st
  | .nextLate _ => src.count ≤ s.taken
  | _ => True

/-- The chunk that has been returned and not dealt with. -/
def waiting : Phase → Option NextCall → List ℕ
  | .woken (.item n), _ => [n]
  | .racing, some (.returned (.chunk n)) => [n]
  | _, _ => []

/-- The chunks that were emitted, and this one. -/
def held : List ℕ := s.loop.frames.filterMap Frame.chunk ++ waiting s.loop.phase s.call

/-- Everything that was taken is held, and the loop has not raised. -/
def Whole : Prop := s.taken ≤ s.held.length ∧ s.loop.phase.isRaised = false

/-- The loop is over. -/
def Over : Prop := s.loop.phase = .ended ∨ s.loop.phase.isRaised = true

/-- All chunks have been emitted in their order, and then the end marker. -/
def Delivered (aead : Aead) : Prop :=
  s.loop.phase = .ended ∧
    s.loop.frames.filterMap Frame.chunk = List.range src.count ∧
    s.loop.emitted = s.loop.frames.map Frame.bytes ++ [sseEndMarker] ∧
    ∀ f ∈ s.loop.frames, f.Sealed aead ∧ f.Holds st

/-- The invariant of quiet runs. What is held is in order and was taken. -/
structure Kept (aead : Aead) (s : Sourced) : Prop where
  framed : s.loop.Framed aead st
  handle : s.loop.handle = .start
  racing : s.loop.phase = .racing ↔ s.call ≠ none
  bounded : s.taken ≤ src.count
  ordered : s.held.Pairwise (· < ·)
  below : ∀ n ∈ s.held, n < s.taken
  ending : s.call = some (.returned .sentinel) ∨ s.loop.phase = .woken .stop ∨
    s.loop.phase = .ended → s.taken = src.count
  session : (s.loop.proc.heap st.sess).sessionId.length = sessionIdBytes

variable {aead : Aead} {src st s} {u : Sourced}

theorem kept_start (p : Process) (hsid : (p.heap st.sess).sessionId.length = sessionIdBytes) :
    (start p).Kept src st aead where
  framed := Streaming.framed_start p
  handle := rfl
  racing := ⟨fun h => (by cases h), fun h => absurd rfl h⟩
  bounded := Nat.zero_le _
  ordered := .nil
  below n hn := absurd hn List.not_mem_nil
  ending h := by rcases h with h | h | h <;> cases h
  session := hsid

/-- Increasing numbers below a bound are no more than that. -/
theorem length_le_of_sorted {l : List ℕ} {bound : ℕ} (hsorted : l.Pairwise (· < ·))
    (hbelow : ∀ n ∈ l, n < bound) : l.length ≤ bound := by
  have hsub : l ⊆ List.range bound := fun n hn => List.mem_range.mpr (hbelow n hn)
  have hle := (List.subperm_of_subset (hsorted.imp Nat.ne_of_lt) hsub).length_le
  rwa [List.length_range] at hle

/-- As many of them as that are all. -/
theorem eq_range_of_sorted {l : List ℕ} {bound : ℕ} (hsorted : l.Pairwise (· < ·))
    (hbelow : ∀ n ∈ l, n < bound) (hlength : bound ≤ l.length) : l = List.range bound := by
  have hsub : l ⊆ List.range bound := fun n hn => List.mem_range.mpr (hbelow n hn)
  have hperm := (List.subperm_of_subset (hsorted.imp Nat.ne_of_lt) hsub).perm_of_length_le
    (by rw [List.length_range]; exact hlength)
  exact hperm.eq_of_pairwise (fun a b _ _ hab hba => absurd hab (Nat.lt_asymm hba)) hsorted
    List.pairwise_lt_range

theorem Kept.length_held (h : s.Kept src st aead) : s.held.length ≤ s.taken :=
  length_le_of_sorted h.ordered h.below

/-- Sealing goes as the counter allows. -/
theorem sealNext_cases (aead : Aead) (hmethod : IsMethod st.method) (l : Streaming)
    (hsid : (l.proc.heap st.sess).sessionId.length = sessionIdBytes) (chunk : Option ℕ)
    (payload : Json) (body : Bytes) :
    ((l.proc.heap st.sess).s2cCounter + 1 < 2 ^ 64 ∧ ∃ p emitted f,
      l.sealNext aead st chunk payload body =
        { l with proc := p, phase := .head, emitted := emitted, frames := l.frames ++ [f] } ∧
      f.chunk = chunk ∧ (p.heap st.sess).sessionId = (l.proc.heap st.sess).sessionId) ∨
    (¬ (l.proc.heap st.sess).s2cCounter + 1 < 2 ^ 64 ∧ ∃ p e,
      l.sealNext aead st chunk payload body = { l with proc := p, phase := .raised (some e) } ∧
      (p.heap st.sess).sessionId = (l.proc.heap st.sess).sessionId) := by
  have hbump : ((l.proc.change st.sess Session.bump).heap st.sess).sessionId =
      (l.proc.heap st.sess).sessionId := by
    rw [Process.heap_change_self]
    rfl
  rcases Streaming.sealNext_eq aead st l chunk payload body with
    ⟨envelope, henvelope, heq⟩ | ⟨e, herror, heq⟩
  · refine Or.inl ⟨?_, _, _, _, heq, rfl, hbump⟩
    by_contra hge
    have hout := sealEnvelope_out_of_range aead (l.proc.heap st.sess).s2c
      ((l.proc.heap st.sess).s2cCounter + 1 : ℕ) (l.proc.heap st.sess).sessionId st.method st.path
      body (by omega)
    rw [hout] at henvelope
    cases henvelope
  · refine Or.inr ⟨?_, _, _, heq, hbump⟩
    have hge := Streaming.counter_of_error hsid hmethod herror
    exact Nat.not_lt.mpr hge

/-- The loop goes from one place that is not its end to another. -/
theorem framed_phase {l : Streaming} (h : l.Framed aead st) (hphase : l.phase ≠ .ended)
    (phase : Phase) (hphase' : phase ≠ .ended) : Streaming.Framed aead st { l with phase } := by
  refine ⟨h.frames, ?_⟩
  have hemitted := h.emitted
  rw [if_neg hphase] at hemitted
  dsimp only
  rw [if_neg hphase']
  exact hemitted

/-- A step after which no more is held. -/
theorem Kept.fewer {t : Sourced} (h : t.Kept src st aead) (hframed : u.loop.Framed aead st)
    (hhandle : u.loop.handle = .start) (hracing : u.loop.phase = .racing ↔ u.call ≠ none)
    (hheld : u.held.Sublist t.held) (htaken : u.taken = t.taken)
    (hending : u.call = some (.returned .sentinel) ∨ u.loop.phase = .woken .stop ∨
      u.loop.phase = .ended → t.taken = src.count)
    (hsession : (u.loop.proc.heap st.sess).sessionId.length = sessionIdBytes) :
    u.Kept src st aead where
  framed := hframed
  handle := hhandle
  racing := hracing
  bounded := by rw [htaken]; exact h.bounded
  ordered := h.ordered.sublist hheld
  below n hn := by rw [htaken]; exact h.below n (hheld.subset hn)
  ending := by rw [htaken]; exact hending
  session := hsession

theorem Kept.same {t : Sourced} (h : t.Kept src st aead) (hframed : u.loop.Framed aead st)
    (hhandle : u.loop.handle = .start) (hracing : u.loop.phase = .racing ↔ u.call ≠ none)
    (hheld : u.held = t.held) (htaken : u.taken = t.taken)
    (hending : u.call = some (.returned .sentinel) ∨ u.loop.phase = .woken .stop ∨
      u.loop.phase = .ended → t.taken = src.count)
    (hsession : (u.loop.proc.heap st.sess).sessionId.length = sessionIdBytes) :
    u.Kept src st aead :=
  h.fewer hframed hhandle hracing (by rw [hheld]) htaken hending hsession

/-- What is held at the head, when an envelope has been emitted. -/
theorem held_sealed (frames : List Frame) (f : Frame) (hphase : u.loop.phase = .head)
    (hframes : u.loop.frames = frames ++ [f]) :
    u.held = frames.filterMap Frame.chunk ++ f.chunk.toList := by
  rw [held, hphase, hframes, List.filterMap_append]
  cases hchunk : f.chunk with
  | none => simp [waiting, hchunk]
  | some n => simp [waiting, hchunk]

theorem whole_same {t : Sourced} {e : SourceEvent} (hheld : u.held = t.held)
    (htaken : u.taken = t.taken) (hraised : u.loop.phase.isRaised = t.loop.phase.isRaised)
    (hcareful : t.Careful src st e) : u.Whole ↔ t.Whole ∧ t.Careful src st e := by
  rw [Whole, Whole, hheld, htaken, hraised]
  exact ⟨fun h => ⟨h, hcareful⟩, fun h => h.1⟩

/-- A step after which less is held loses something. -/
theorem not_whole_of_lt (h : u.held.length < u.taken) : ¬ u.Whole :=
  fun hwhole => absurd hwhole.1 (Nat.not_le.mpr h)

theorem not_whole_of_raised (h : u.loop.phase.isRaised = true) : ¬ u.Whole := by
  rintro ⟨-, hraised⟩
  rw [h] at hraised
  cases hraised

/-- The time is up. -/
theorem Kept.timeout {t : Sourced} (h : t.Kept src st aead) (hmethod : IsMethod st.method)
    (calls : List NextCall) (hphase : t.loop.phase = .racing)
    (hu : u = { t with
      loop := t.loop.sealNext aead st none keepalive (st.codec.dumps keepalive)
      call := none
      abandoned := calls }) :
    u.Kept src st aead ∧ (u.Whole ↔ t.Whole ∧ t.Careful src st .timeout) := by
  have hframed : (t.loop.sealNext aead st none keepalive (st.codec.dumps keepalive)).Framed
      aead st := h.framed.sealNext (by rw [hphase]; simp) none _ _ ⟨rfl, rfl⟩
  have hheld : t.held = t.loop.frames.filterMap Frame.chunk ++ waiting .racing t.call := by
    rw [held, hphase]
  have hlength := h.length_held
  rw [hheld, List.length_append] at hlength
  have hsub : (t.loop.frames.filterMap Frame.chunk).Sublist t.held := by
    rw [hheld]
    exact List.sublist_append_left _ _
  rcases sealNext_cases aead hmethod t.loop h.session none keepalive (st.codec.dumps keepalive) with
    ⟨hcounter, p, emitted, f, hseal, hchunk, hid⟩ | ⟨hcounter, p, e, hseal, hid⟩
  -- The keepalive is sealed, and the loop is at its head with no call.
  · rw [hseal] at hu hframed
    have hheld' : u.held = t.loop.frames.filterMap Frame.chunk := by
      rw [held_sealed t.loop.frames f (by rw [hu]) (by rw [hu]), hchunk]
      exact List.append_nil _
    have htaken : u.taken = t.taken := by rw [hu]
    refine ⟨?_, ?_⟩
    · refine h.fewer ?_ ?_ ?_ (by rw [hheld']; exact hsub) htaken ?_ ?_
      · rw [hu]; exact hframed
      · rw [hu]; exact h.handle
      · rw [hu]; simp
      · rw [hu]; simp
      · rw [hu]; exact (congrArg List.length hid).trans h.session
    · by_cases hlost : ∃ n, t.call = some (.returned (.chunk n))
      · -- What has been returned is gone with the task.
        rcases hlost with ⟨n, hn⟩
        rw [hn, waiting, List.length_singleton] at hlength
        refine iff_of_false (not_whole_of_lt ?_) fun hc => hc.2.1 n hn
        rw [hheld', htaken]
        exact hlength
      · -- Nothing has been returned yet, so what is held is what was.
        have hwaiting : waiting .racing t.call = [] := by
          unfold waiting
          split
          · rename_i hcall
            cases hcall
          · rename_i n _ hcall
            exact absurd ⟨n, hcall⟩ hlost
          · rfl
        refine whole_same (by rw [hheld', hheld, hwaiting, List.append_nil]) htaken ?_
          ⟨fun n hn => hlost ⟨n, hn⟩, hcounter⟩
        rw [hu, hphase]
        rfl
  -- The counters have run out, and the loop raises.
  · rw [hseal] at hu hframed
    have hheld' : u.held = t.loop.frames.filterMap Frame.chunk := by
      rw [hu, held]
      exact List.append_nil _
    have htaken : u.taken = t.taken := by rw [hu]
    refine ⟨?_, iff_of_false (not_whole_of_raised (by rw [hu]; rfl)) fun hc => hcounter hc.2.2⟩
    refine h.fewer ?_ ?_ ?_ (by rw [hheld']; exact hsub) htaken ?_ ?_
    · rw [hu]; exact hframed
    · rw [hu]; exact h.handle
    · rw [hu]; simp
    · rw [hu]; simp
    · rw [hu]; exact (congrArg List.length hid).trans h.session

/-- The loop goes on with what the task has got. -/
theorem Kept.wake {t : Sourced} (h : t.Kept src st aead) (hmethod : IsMethod st.method)
    (hchunks : ∀ n < src.count, st.chunk n ≠ none) (x : Mail ℕ) (hphase : t.loop.phase = .woken x)
    (hu : u = { t with loop := t.loop.resume aead st x }) :
    u.Kept src st aead ∧ (u.Whole ↔ t.Whole ∧ t.Careful src st .wake) := by
  -- The call went with the wait.
  have hcall : t.call = none := by
    by_contra hne
    have hracing := h.racing.mpr hne
    rw [hphase] at hracing
    cases hracing
  cases x with
  | stop =>
      have hresume : t.loop.resume aead st .stop = t.loop.finish := by
        unfold Streaming.resume
        dsimp only
        rw [if_neg (by rw [h.handle]; simp [StreamHandle.start])]
      rw [hresume] at hu
      have hheld : u.held = t.held := by
        rw [hu, held, held, hphase]
        rfl
      refine ⟨?_, whole_same hheld (by rw [hu]) (by rw [hu, hphase]; rfl) ?_⟩
      · refine h.same ?_ ?_ ?_ hheld (by rw [hu]) (fun _ => h.ending (Or.inr (Or.inl hphase))) ?_
        · rw [hu]; exact h.framed.finish (by rw [hphase]; simp)
        · rw [hu]; exact h.handle
        · rw [hu, hcall]; simp [Streaming.finish]
        · rw [hu]; exact h.session
      · rintro ⟨n, hn⟩
        rw [hphase] at hn
        cases hn
  | item n =>
      have hheld : t.held = t.loop.frames.filterMap Frame.chunk ++ [n] := by
        rw [held, hphase]
        rfl
      have hlt : n < src.count := by
        have hbelow := h.below n (by rw [hheld]; exact List.mem_append_right _ List.mem_cons_self)
        exact Nat.lt_of_lt_of_le hbelow h.bounded
      rcases Option.ne_none_iff_exists'.mp (hchunks n hlt) with ⟨payload, hpayload⟩
      have hresume : t.loop.resume aead st (.item n) =
          t.loop.sealNext aead st (some n) payload (st.codec.modelDumpJson payload) := by
        unfold Streaming.resume
        simp only [hpayload]
      have hframed : (t.loop.sealNext aead st (some n) payload
          (st.codec.modelDumpJson payload)).Framed aead st :=
        h.framed.sealNext (by rw [hphase]; simp) (some n) _ _ ⟨hpayload, rfl⟩
      rw [hresume] at hu
      have htaken : u.taken = t.taken := by rw [hu]
      rcases sealNext_cases aead hmethod t.loop h.session (some n) payload
          (st.codec.modelDumpJson payload) with
        ⟨hcounter, p, emitted, f, hseal, hchunk, hid⟩ | ⟨hcounter, p, e, hseal, hid⟩
      -- The chunk is in a frame now.
      · rw [hseal] at hu hframed
        have hheld' : u.held = t.held := by
          rw [hheld, held_sealed t.loop.frames f (by rw [hu]) (by rw [hu]), hchunk]
          rfl
        refine ⟨?_, whole_same hheld' htaken (by rw [hu, hphase]; rfl) fun _ => hcounter⟩
        refine h.same ?_ ?_ ?_ hheld' htaken ?_ ?_
        · rw [hu]; exact hframed
        · rw [hu]; exact h.handle
        · rw [hu, hcall]; simp
        · rw [hu, hcall]; simp
        · rw [hu]; exact (congrArg List.length hid).trans h.session
      · rw [hseal] at hu hframed
        have hheld' : u.held = t.loop.frames.filterMap Frame.chunk := by
          rw [hu, held]
          exact List.append_nil _
        have hsub : u.held.Sublist t.held := by
          rw [hheld', hheld]
          exact List.sublist_append_left _ _
        refine ⟨?_, iff_of_false (not_whole_of_raised (by rw [hu]; rfl))
          fun hc => hcounter (hc.2 ⟨n, hphase⟩)⟩
        refine h.fewer ?_ ?_ ?_ hsub htaken ?_ ?_
        · rw [hu]; exact hframed
        · rw [hu]; exact h.handle
        · rw [hu, hcall]; simp
        · rw [hu, hcall]; simp
        · rw [hu]; exact (congrArg List.length hid).trans h.session

/-- The iterable returns to the call that is waited for. -/
theorem Kept.next {t : Sourced} (h : t.Kept src st aead) (hcall : t.call = some .running)
    (hu : u = { t with
      call := some (.returned (src.item t.taken)), taken := src.after t.taken }) :
    u.Kept src st aead ∧ (u.Whole ↔ t.Whole ∧ t.Careful src st .next) := by
  have hphase : t.loop.phase = .racing := h.racing.mpr (by rw [hcall]; simp)
  have hheld : t.held = t.loop.frames.filterMap Frame.chunk := by
    rw [held, hphase, hcall]
    exact List.append_nil _
  have hraised : u.loop.phase.isRaised = t.loop.phase.isRaised := by rw [hu]
  by_cases hlt : t.taken < src.count
  -- One more is taken, and the task has it.
  · have hheld' : u.held = t.held ++ [t.taken] := by
      rw [hheld, hu, held]
      dsimp only
      rw [hphase, Source.item, if_pos hlt]
      rfl
    have htaken : u.taken = t.taken + 1 := by
      rw [hu]
      exact if_pos hlt
    refine ⟨?_, ?_⟩
    · refine ⟨?_, ?_, ?_, ?_, ?_, ?_, ?_, ?_⟩
      · rw [hu]; exact h.framed
      · rw [hu]; exact h.handle
      · rw [hu]; simp [hphase]
      · rw [htaken]; exact hlt
      · rw [hheld', List.pairwise_append]
        refine ⟨h.ordered, List.pairwise_singleton _ _, ?_⟩
        intro a ha b hb
        rw [List.mem_singleton.mp hb]
        exact h.below a ha
      · rw [hheld', htaken]
        intro n hn
        rcases List.mem_append.mp hn with hn | hn
        · exact Nat.lt_succ_of_lt (h.below n hn)
        · rw [List.mem_singleton.mp hn]
          exact Nat.lt_succ_self _
      · rw [hu]
        dsimp only
        rw [hphase, Source.item, if_pos hlt]
        simp
      · rw [hu]; exact h.session
    · rw [Whole, Whole, hraised, hheld', htaken, List.length_append, List.length_singleton,
        Nat.add_le_add_iff_right]
      exact ⟨fun hw => ⟨hw, trivial⟩, fun hw => hw.1⟩
  -- There is none left, which is what the sentinel says.
  · have htaken : u.taken = t.taken := by
      rw [hu]
      exact if_neg hlt
    have hheld' : u.held = t.held := by
      rw [hheld, hu, held]
      dsimp only
      rw [hphase, Source.item, if_neg hlt]
      exact List.append_nil _
    refine ⟨?_, whole_same hheld' htaken hraised trivial⟩
    refine h.same ?_ ?_ ?_ hheld' htaken (fun _ => ?_) ?_
    · rw [hu]; exact h.framed
    · rw [hu]; exact h.handle
    · rw [hu]; simp [hphase]
    · exact Nat.le_antisymm h.bounded (Nat.not_lt.mp hlt)
    · rw [hu]; exact h.session

/-- The task gets what was returned. -/
theorem Kept.get {t : Sourced} (h : t.Kept src st aead) (x : Taken)
    (hphase : t.loop.phase = .racing) (hcall : t.call = some (.returned x))
    (hu : u = { t with loop := { t.loop with phase := x.phase }, call := none }) :
    u.Kept src st aead ∧ (u.Whole ↔ t.Whole ∧ t.Careful src st .get) := by
  have hframed : Streaming.Framed aead st { t.loop with phase := x.phase } := by
    refine framed_phase h.framed (by rw [hphase]; simp) x.phase ?_
    cases x <;> simp [Taken.phase]
  have htaken : u.taken = t.taken := by rw [hu]
  have hheld : u.held = t.held := by
    rw [hu, held, held, hphase, hcall]
    cases x <;> rfl
  have hkept : u.Kept src st aead := by
    refine h.same ?_ ?_ ?_ hheld htaken ?_ ?_
    · rw [hu]; exact hframed
    · rw [hu]; exact h.handle
    · rw [hu]
      cases x <;> simp [Taken.phase]
    · rw [hu]
      rintro (hc | hc | hc)
      · cases hc
      · cases x with
        | chunk n => cases hc
        | sentinel => exact h.ending (Or.inl hcall)
        | raised => cases hc
      · cases x <;> cases hc
    · rw [hu]; exact h.session
  refine ⟨hkept, ?_⟩
  cases x with
  | raised =>
      exact iff_of_false (not_whole_of_raised (by rw [hu]; rfl)) fun hc => hc.2 hcall
  | chunk n =>
      refine whole_same hheld htaken (by rw [hu, hphase]; rfl) ?_
      intro hc
      rw [hcall] at hc
      cases hc
  | sentinel =>
      refine whole_same hheld htaken (by rw [hu, hphase]; rfl) ?_
      intro hc
      rw [hcall] at hc
      cases hc

/-- **Which steps lose nothing.** A quiet step keeps the invariant, and nothing is lost
    after it exactly if nothing was before and the step is careful. -/
theorem Kept.step {t : Sourced} (h : t.Kept src st aead) (hmethod : IsMethod st.method)
    (hchunks : ∀ n < src.count, st.chunk n ≠ none) {e : SourceEvent}
    (hquiet : t.Quiet src st e) (hstep : t.step aead src st e = some u) :
    u.Kept src st aead ∧ (u.Whole ↔ t.Whole ∧ t.Careful src st e) := by
  cases move_of_step hstep with
  | cancel loop => exact absurd hquiet id
  | abort loop => exact absurd hquiet id
  | leave hphase hcancelled =>
      rw [h.handle] at hcancelled
      cases hcancelled
  | race hphase =>
      have hheld : ({ t with
          loop := { t.loop with phase := .racing }, call := some .queued } : Sourced).held =
            t.held := by
        rw [held, held, hphase]
        rfl
      refine ⟨?_, whole_same hheld rfl (by rw [hphase]; rfl) trivial⟩
      refine h.same (framed_phase h.framed (by rw [hphase]; simp) _ (by simp)) h.handle ?_ hheld rfl
        ?_ h.session
      · simp
      · simp
  | refuse hcall =>
      have hphase : t.loop.phase = .racing := h.racing.mpr (by rw [hcall]; simp)
      have hheld : ({ t with call := some (.returned .raised) } : Sourced).held = t.held := by
        rw [held, held, hphase, hcall]
        rfl
      refine ⟨?_, whole_same hheld rfl rfl trivial⟩
      refine h.same h.framed h.handle ?_ hheld rfl ?_ h.session
      · simp [hphase]
      · simp [hphase]
  | begin hcall =>
      have hphase : t.loop.phase = .racing := h.racing.mpr (by rw [hcall]; simp)
      have hheld : ({ t with call := some .running } : Sourced).held = t.held := by
        rw [held, held, hphase, hcall]
        rfl
      refine ⟨?_, whole_same hheld rfl rfl trivial⟩
      refine h.same h.framed h.handle ?_ hheld rfl ?_ h.session
      · simp [hphase]
      · simp [hphase]
  | next hcall => exact h.next hcall rfl
  | get x hphase hcall => exact h.get x hphase hcall rfl
  | wake x hphase => exact h.wake hmethod hchunks x hphase rfl
  | timeout calls hphase => exact h.timeout hmethod calls hphase rfl
  | elsewhere p =>
      have hid : (p.heap st.sess).sessionId = (t.loop.proc.heap st.sess).sessionId := hquiet.2.1
      refine ⟨?_, whole_same rfl rfl rfl trivial⟩
      exact h.same ⟨h.framed.frames, h.framed.emitted⟩ h.handle h.racing rfl rfl h.ending
        ((congrArg List.length hid).trans h.session)
  | late e calls he =>
      have hcareful : t.Careful src st e := by
        rcases he with ⟨i, rfl⟩ | ⟨i, rfl⟩
        · trivial
        · trivial
      exact ⟨h.same h.framed h.handle h.racing rfl rfl h.ending h.session,
        whole_same rfl rfl rfl hcareful⟩
  | nextLate i calls =>
      by_cases hlt : t.taken < src.count
      · -- What is returned to a call that nobody waits for is lost.
        have hafter : src.after t.taken = t.taken + 1 := if_pos hlt
        rw [hafter]
        refine ⟨⟨h.framed, h.handle, h.racing, hlt, h.ordered,
          fun n hn => Nat.lt_succ_of_lt (h.below n hn), fun hend => ?_, h.session⟩,
          iff_of_false (not_whole_of_lt (Nat.lt_succ_of_le h.length_held))
            fun hc => absurd hc.2 (Nat.not_le.mpr hlt)⟩
        exact absurd (h.ending hend) (Nat.ne_of_lt hlt)
      · have hafter : src.after t.taken = t.taken := if_neg hlt
        rw [hafter]
        exact ⟨h.same h.framed h.handle h.racing rfl rfl h.ending h.session,
          whole_same rfl rfl rfl (Nat.not_lt.mp hlt)⟩

/-! ## Whole runs -/

/-- How much there is left to do for what is at hand. -/
def weight : Phase → Option NextCall → ℕ
  | .head, _ => 5
  | .racing, some .queued => 4
  | .racing, some .running => 3
  | .racing, some (.returned (.chunk _)) => 8
  | .racing, some (.returned _) => 2
  | .woken (.item _), _ => 7
  | .woken .stop, _ => 1
  | _, _ => 0

/-- And in all. -/
def remaining (src : Source) (s : Sourced) : ℕ :=
  6 * (src.count - s.taken) + weight s.loop.phase s.call

/-- **A loop that is not over goes on**, and has less left to do. -/
theorem Kept.goesOn {t : Sourced} (h : t.Kept src st aead) (hmethod : IsMethod st.method)
    (hopen : ¬ t.Over) :
    ∃ e u, t.Quiet src st e ∧ t.step aead src st e = some u ∧
      u.remaining src < t.remaining src := by
  cases hphase : t.loop.phase with
  | ended => exact absurd (Or.inl hphase) hopen
  | raised e => exact absurd (Or.inr (by rw [hphase]; rfl)) hopen
  | head =>
      have hgo : t.loop.step aead st .go = some { t.loop with phase := .racing } := by
        simp only [Streaming.step, hphase, h.handle, StreamHandle.start, Bool.false_eq_true,
          if_false]
      refine ⟨.go, { t with loop := { t.loop with phase := .racing }, call := some .queued },
        trivial, ?_, ?_⟩
      · rw [Sourced.step, hgo, Option.map_some]
        rfl
      · rw [remaining, remaining, hphase]
        exact Nat.add_lt_add_left (by simp [weight]) _
  | racing =>
      cases hcall : t.call with
      | none => exact absurd hcall (h.racing.mp hphase)
      | some call =>
          cases call with
          | queued =>
              refine ⟨.begin, { t with
                call := some (if src.busy t.abandoned then .returned .raised else .running) },
                trivial, ?_, ?_⟩
              · simp only [Sourced.step, hcall]
              · rw [remaining, remaining, hphase, hcall]
                split
                · exact Nat.add_lt_add_left (by simp [weight]) _
                · exact Nat.add_lt_add_left (by simp [weight]) _
          | running =>
              refine ⟨.next, { t with
                call := some (.returned (src.item t.taken)), taken := src.after t.taken },
                trivial, ?_, ?_⟩
              · simp only [Sourced.step, hcall]
              · simp only [remaining, hphase, hcall, Source.item, Source.after]
                by_cases hlt : t.taken < src.count
                · simp only [if_pos hlt, weight]
                  omega
                · simp only [if_neg hlt, weight]
                  omega
          | returned x =>
              refine ⟨.get, { t with loop := { t.loop with phase := x.phase }, call := none },
                trivial, ?_, ?_⟩
              · simp only [Sourced.step, hphase, hcall]
              · rw [remaining, remaining, hphase, hcall]
                cases x <;> exact Nat.add_lt_add_left (by simp [Taken.phase, weight]) _
  | woken x =>
      have hwake : t.loop.step aead st .wake = some (t.loop.resume aead st x) := by
        simp only [Streaming.step, hphase]
      refine ⟨.wake, { t with loop := t.loop.resume aead st x }, trivial, ?_, ?_⟩
      · rw [Sourced.step, hwake, Option.map_some]
      · have hless :
            weight (t.loop.resume aead st x).phase t.call < weight t.loop.phase t.call := by
          rw [hphase]
          unfold Streaming.resume
          cases x with
          | stop =>
              dsimp only
              split
              · exact Nat.zero_lt_one
              · exact Nat.zero_lt_one
          | item n =>
              dsimp only
              split
              · exact Nat.succ_pos 6
              · rename_i payload _
                rcases sealNext_cases aead hmethod t.loop h.session (some n) payload
                    (st.codec.modelDumpJson payload) with
                  ⟨-, p, emitted, f, hseal, -⟩ | ⟨-, p, e, hseal, -⟩
                · rw [hseal]
                  exact (by decide : 5 < 7)
                · rw [hseal]
                  exact (by decide : 0 < 7)
        exact Nat.add_lt_add_left hless _

/-- **A run gets to an end**, from wherever it is. -/
theorem Kept.ends (h : s.Kept src st aead) (hmethod : IsMethod st.method)
    (hchunks : ∀ n < src.count, st.chunk n ≠ none) :
    ∃ u, Run (Sourced.step aead src st) (fun t e _ => t.Quiet src st e) s u ∧ u.Over := by
  refine exists_run_of_measure (fun t => t.Kept src st aead) Over (remaining src) ?_ h
  intro t ht hopen
  rcases ht.goesOn hmethod hopen with ⟨e, u, hquiet, hstep, hless⟩
  exact ⟨e, u, hquiet, hstep, (ht.step hmethod hchunks hquiet hstep).1, hless⟩

/-- A run that has lost nothing by now was careful from its start. -/
theorem careful_of_whole {p : Process} (hsid : (p.heap st.sess).sessionId.length = sessionIdBytes)
    (hmethod : IsMethod st.method) (hchunks : ∀ n < src.count, st.chunk n ≠ none)
    (hrun : Run (Sourced.step aead src st) (fun t e _ => t.Quiet src st e) (start p) s) :
    s.Kept src st aead ∧ (s.Whole → Run (Sourced.step aead src st)
      (fun t e _ => t.Quiet src st e ∧ t.Careful src st e) (start p) s) := by
  induction hrun with
  | start => exact ⟨kept_start p hsid, fun _ => .start⟩
  | tail t u e _ hquiet hstep ih =>
      rcases ih with ⟨hkept, hcareful⟩
      rcases hkept.step hmethod hchunks hquiet hstep with ⟨hkept', hiff⟩
      refine ⟨hkept', ?_⟩
      intro hwhole
      rcases hiff.mp hwhole with ⟨hbefore, hstepCareful⟩
      exact .tail t u e (hcareful hbefore) ⟨hquiet, hstepCareful⟩ hstep

/-- A careful run has lost nothing. -/
theorem whole_of_careful {p : Process} (hsid : (p.heap st.sess).sessionId.length = sessionIdBytes)
    (hmethod : IsMethod st.method) (hchunks : ∀ n < src.count, st.chunk n ≠ none)
    (hrun : Run (Sourced.step aead src st)
      (fun t e _ => t.Quiet src st e ∧ t.Careful src st e) (start p) s) :
    s.Kept src st aead ∧ s.Whole := by
  refine hrun.invariant (fun t => t.Kept src st aead ∧ t.Whole)
    ⟨kept_start p hsid, Nat.zero_le _, rfl⟩ ?_
  rintro t e u ⟨hkept, hwhole⟩ ⟨hquiet, hcareful⟩ hstep
  rcases hkept.step hmethod hchunks hquiet hstep with ⟨hkept', hiff⟩
  exact ⟨hkept', hiff.mpr ⟨hwhole, hcareful⟩⟩

/-- At the end all chunks have been delivered if nothing is lost. -/
theorem Kept.delivered_iff (h : s.Kept src st aead) (hover : s.Over) :
    s.Delivered src st aead ↔ s.Whole := by
  have hended : s.loop.phase = .ended →
      s.held = s.loop.frames.filterMap Frame.chunk ∧ s.taken = src.count := by
    intro hphase
    refine ⟨?_, h.ending (Or.inr (Or.inr hphase))⟩
    rw [held, hphase]
    exact List.append_nil _
  constructor
  · rintro ⟨hphase, hchunks, -, -⟩
    rcases hended hphase with ⟨hheld, htaken⟩
    refine ⟨?_, by rw [hphase]; rfl⟩
    rw [hheld, hchunks, List.length_range, htaken]
  · rintro ⟨hlength, hraised⟩
    have hphase : s.loop.phase = .ended := hover.resolve_right (by rw [hraised]; simp)
    rcases hended hphase with ⟨hheld, htaken⟩
    have hall := eq_range_of_sorted h.ordered h.below hlength
    have hemitted := h.framed.emitted
    rw [if_pos hphase] at hemitted
    exact ⟨hphase, by rw [← hheld, hall, htaken], hemitted, h.framed.frames⟩

end Sourced

/-- **Synchronous chunks.** Of an iterable whose chunks are valid, with the time up again
    and again and nothing cancelled: a run gets to an end. And at an end one sealed
    event for each chunk has been emitted in their order, apart from keepalives, and
    then the end marker, exactly if no chunk was returned to a call whose time was up,
    no exception of a generator was got, and the session's counters have not run out. -/
theorem sync_chunks_delivered (aead : Aead) (src : Source) (st : Stream) (p : Process)
    (s : Sourced) (hmethod : IsMethod st.method)
    (hsid : (p.heap st.sess).sessionId.length = sessionIdBytes)
    (hchunks : ∀ n < src.count, st.chunk n ≠ none)
    (hrun : Run (Sourced.step aead src st) (fun t e _ => t.Quiet src st e) (Sourced.start p) s) :
    (∃ u, Run (Sourced.step aead src st) (fun t e _ => t.Quiet src st e) s u ∧ u.Over) ∧
      (s.Over → (s.Delivered src st aead ↔ Run (Sourced.step aead src st)
        (fun t e _ => t.Quiet src st e ∧ t.Careful src st e) (Sourced.start p) s)) := by
  rcases Sourced.careful_of_whole hsid hmethod hchunks hrun with ⟨hkept, hcareful⟩
  refine ⟨hkept.ends hmethod hchunks, ?_⟩
  intro hover
  rw [hkept.delivered_iff hover]
  exact ⟨hcareful, fun h => (Sourced.whole_of_careful hsid hmethod hchunks h).2⟩

/-- A loop of a session that was just made. -/
def sourcedSample : Sourced :=
  .start (Process.start.alloc (.ofMaterial .sample 900 3600 0) .created)

/-- A check for quiet and careful steps. -/
def Sourced.careful (src : Source) (s : Sourced) : SourceEvent → Bool
  | .cancel => false
  | .abort => false
  | .elsewhere _ => false
  | .get => decide (s.call ≠ some (.returned .raised))
  | .wake => decide (s.HasCounter .sample)
  | .timeout => decide (s.call = some .queued ∧ s.HasCounter .sample)
  | .nextLate _ => decide (src.count ≤ s.taken)
  | _ => true

theorem Sourced.careful_sound {src : Source} {s : Sourced} {e : SourceEvent}
    (h : s.careful src e = true) : s.Quiet src .sample e ∧ s.Careful src .sample e := by
  cases e with
  | cancel => cases h
  | abort => cases h
  | elsewhere p => cases h
  | get =>
      have hcall : s.call ≠ some (.returned .raised) := of_decide_eq_true h
      exact ⟨trivial, hcall⟩
  | wake =>
      have hcounter : s.HasCounter .sample := of_decide_eq_true h
      exact ⟨trivial, fun _ => hcounter⟩
  | timeout =>
      have hqueued : s.call = some .queued ∧ s.HasCounter .sample := of_decide_eq_true h
      refine ⟨trivial, fun n hn => ?_, hqueued.2⟩
      rw [hqueued.1] at hn
      cases hn
  | nextLate i =>
      have hall : src.count ≤ s.taken := of_decide_eq_true h
      exact ⟨trivial, hall⟩
  | _ => exact ⟨trivial, trivial⟩

/-- The loop reads once. -/
def readOnce : List SourceEvent := [.go, .begin, .next, .get, .wake]

/-- A timeout before a thread has begun the call loses nothing. -/
theorem sync_chunks_delivered_sample :
    ∃ s, Run (Sourced.step .sample ⟨2, false⟩ .sample)
        (fun t e _ => t.Quiet ⟨2, false⟩ .sample e) sourcedSample s ∧
      s.loop.frames.map Frame.chunk = [none, some 0, some 1] ∧
      s.Delivered ⟨2, false⟩ .sample .sample := by
  have hplay : ((playIf (Sourced.careful ⟨2, false⟩) (Sourced.step .sample ⟨2, false⟩ .sample)
      sourcedSample
      ([.go, .timeout, .drop 0] ++ readOnce ++ readOnce ++ readOnce)).any
        (fun s => decide (s.loop.phase = .ended ∧
          s.loop.frames.map Frame.chunk = [none, some 0, some 1]))) = true := by
    decide +kernel
  rcases (Option.any_eq_true _ _).mp hplay with ⟨s, hs, hend⟩
  rcases of_decide_eq_true hend with ⟨hended, hchunks⟩
  have hcareful : Run (Sourced.step .sample ⟨2, false⟩ .sample)
      (fun t e _ => t.Quiet ⟨2, false⟩ .sample e ∧ t.Careful ⟨2, false⟩ .sample e)
      sourcedSample s :=
    run_of_playIf (Sourced.careful ⟨2, false⟩) _ (fun _ _ _ h => Sourced.careful_sound h) hs
  have hrun : Run (Sourced.step .sample ⟨2, false⟩ .sample)
      (fun t e _ => t.Quiet ⟨2, false⟩ .sample e) sourcedSample s :=
    run_of_playIf (Sourced.careful ⟨2, false⟩) _ (fun _ _ _ h => (Sourced.careful_sound h).1) hs
  refine ⟨s, hrun, hchunks, ?_⟩
  refine ((sync_chunks_delivered .sample ⟨2, false⟩ .sample _ s (by decide)
    List.length_replicate (fun n _ => ?_) hrun).2 (Or.inl hended)).mpr hcareful
  rw [chunk_sample]
  exact Option.some_ne_none _

/-- **The time is up while the iterable is at work**: what it returns then is lost, and
    the stream is ended without it. A generator is called again meanwhile, and the
    stream dies. -/
theorem late_chunk_lost :
    (∃ s, Run (Sourced.step .sample ⟨2, false⟩ .sample)
        (fun t e _ => t.Quiet ⟨2, false⟩ .sample e) sourcedSample s ∧
      s.loop.phase = .ended ∧ s.loop.frames.map Frame.chunk = [none, some 1] ∧
      ¬ s.Delivered ⟨2, false⟩ .sample .sample) ∧
    ∃ s, Run (Sourced.step .sample ⟨2, true⟩ .sample)
        (fun t e _ => t.Quiet ⟨2, true⟩ .sample e) sourcedSample s ∧
      s.loop.phase = .raised none ∧ ¬ s.Delivered ⟨2, true⟩ .sample .sample := by
  constructor
  · have hplay : ((play (Sourced.step .sample ⟨2, false⟩ .sample) sourcedSample
        ([.go, .begin, .timeout, .nextLate 0] ++ readOnce ++ readOnce)).any
          (fun s => decide (s.loop.phase = .ended ∧
            s.loop.frames.map Frame.chunk = [none, some 1] ∧
            s.loop.frames.filterMap Frame.chunk ≠ List.range 2))) = true := by
      decide +kernel
    rcases (Option.any_eq_true _ _).mp hplay with ⟨s, hs, hend⟩
    rcases of_decide_eq_true hend with ⟨hended, hchunks, hlost⟩
    refine ⟨s, ?_, hended, hchunks, fun h => hlost h.2.1⟩
    refine run_of_play_of _ (fun e he t _ => ?_) hs
    simp only [readOnce, List.cons_append, List.nil_append, List.mem_cons, List.not_mem_nil,
      or_false] at he
    rcases he with rfl | rfl | rfl | rfl | rfl | rfl | rfl | rfl | rfl | rfl | rfl | rfl | rfl | rfl
    all_goals trivial
  · have hplay : ((play (Sourced.step .sample ⟨2, true⟩ .sample) sourcedSample
        [.go, .begin, .timeout, .go, .begin, .get]).any
          (fun s => decide (s.loop.phase = .raised none))) = true := by
      decide +kernel
    rcases (Option.any_eq_true _ _).mp hplay with ⟨s, hs, hend⟩
    have hraised : s.loop.phase = .raised none := of_decide_eq_true hend
    refine ⟨s, run_of_play_of _ (fun e he t _ => ?_) hs, hraised, ?_⟩
    · simp only [List.mem_cons, List.not_mem_nil, or_false] at he
      rcases he with rfl | rfl | rfl | rfl | rfl | rfl
      all_goals trivial
    · rintro ⟨hended, -⟩
      rw [hraised] at hended
      cases hended

end Llm

end SecureLlm
