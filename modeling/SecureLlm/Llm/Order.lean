import SecureLlm.Crypto.Binding
import SecureLlm.Llm.Streaming
import SecureLlm.Models.Offload

/-!
# Streams That Nothing Disturbs

A worker that puts all chunks of its generator in the queue, and a generator of
envelopes that gets them from there one after the other, with keepalives between.
A keepalive cancels a get that has not got anything, so nothing is lost with it.

As long as nothing is cancelled and the backend raises nothing, the envelopes are
for the chunks in their order, one for each, under rising counters. Only a session
that has run out of counters makes the generator raise. And however it has run, it
can go on to its end.

## Main definitions

* `chunksThenDone`: A generator with so many chunks.
* `Flowing`: A handle that nothing disturbs.
* `Streaming.Quiet`: A step that disturbs nothing.
* `Streaming.Steady`: The invariant.
* `Streaming.remaining`: What is left to do.

## Theorems

* `Flowing.step`, `Streaming.Steady.step`: Steps keep the invariants.
* `Streaming.Steady.chunks_ended`: What has been emitted at the end.
* `Streaming.Steady.ends`: A run gets to an end.
-/

namespace SecureLlm

open Library Transition Models

namespace Llm

/-- A generator that returns some chunks and then ends. -/
def chunksThenDone (count n : ℕ) : Pulled := if n < count then .chunk else .done

/-- A handle of such a generator that nothing disturbs. -/
structure Flowing (count : ℕ) (h : StreamHandle) : Prop where
  flows : h.Flows
  calm : h.cancelled = false
  pulled : h.pulled ≤ count
  outcome : h.outcome ≠ none → h.outcome = some .done ∧ h.pulled = count
  reading : h.reading = true ∨ .stop ∈ h.taken

/-- How much the worker of a handle has left to do. -/
def work (count : ℕ) (h : StreamHandle) : ℕ :=
  match h.stage with
  | .pulling => 2 * (count - h.pulled) + 2
  | .putting _ => 2 * (count - h.pulled) + 3
  | .finishing => 1
  | .over => 0

section Handles

variable {count : ℕ} {maxsize : ℤ} {h u : StreamHandle}

theorem flowing_start : Flowing count .start :=
  ⟨StreamHandle.flows_start, rfl, Nat.zero_le _, fun hne => absurd rfl hne, Or.inl rfl⟩

/-- The worker takes nothing. -/
theorem taken_of_ofWorker {e : StreamEvent} (he : e.ofWorker = true)
    (hstep : h.step maxsize e = some u) : u.taken = h.taken := by
  cases StreamHandle.move_of_step hstep with
  | read x rest hreading hqueue => exact absurd he nofun
  | stop hreading => exact absurd he nofun
  | cancel => exact absurd he nofun
  | _ => rfl

/-- What the worker and a consumer that reads do keeps a handle flowing. -/
theorem Flowing.step (hflowing : Flowing count h) {e : StreamEvent}
    (he : e = .read ∨ e.ofWorker = true ∧ e ≠ .interrupt)
    (hfollows : h.Follows (chunksThenDone count) e) (hstep : h.step maxsize e = some u) :
    Flowing count u := by
  have hflows : u.Flows := by
    refine hflowing.flows.step ?_ hstep
    rcases he with rfl | ⟨-, hne⟩
    · exact nofun
    · exact hne
  -- The generator returns a chunk only if there is one left, and ends only if not.
  cases StreamHandle.move_of_step hstep with
  | chunk hstage =>
      have hlt : h.pulled < count := by
        by_contra hge
        have hdone : Pulled.chunk = chunksThenDone count h.pulled := hfollows
        rw [chunksThenDone, if_neg hge] at hdone
        exact absurd hdone nofun
      refine ⟨hflows, hflowing.calm, hlt, fun hne => ?_, hflowing.reading⟩
      have hpulled := (hflowing.outcome hne).2
      omega
  | last result hstage hend =>
      have hresult : result = chunksThenDone count h.pulled := hfollows
      unfold chunksThenDone at hresult
      by_cases hlt : h.pulled < count
      · rw [if_pos hlt] at hresult
        exact absurd hresult hend
      · rw [if_neg hlt] at hresult
        refine ⟨hflows, hflowing.calm, hflowing.pulled, fun _ => ⟨congrArg some hresult, ?_⟩,
          hflowing.reading⟩
        have hle := hflowing.pulled
        show h.pulled = count
        omega
  | put chunk hstage hroom =>
      exact ⟨hflows, hflowing.calm, hflowing.pulled, hflowing.outcome, hflowing.reading⟩
  | finish hstage hroom =>
      exact ⟨hflows, hflowing.calm, hflowing.pulled, hflowing.outcome, hflowing.reading⟩
  -- Nobody cancels the worker.
  | interrupt hstage => exact absurd rfl (he.elim nofun And.right)
  | cease hstage => exact absurd rfl (he.elim nofun And.right)
  | read x rest hreading hqueue =>
      refine ⟨hflows, hflowing.calm, hflowing.pulled, hflowing.outcome, ?_⟩
      by_cases hx : x = .stop
      · exact Or.inr (List.mem_append_right _ (by rw [hx]; exact List.mem_singleton_self _))
      · exact Or.inl (decide_eq_true hx)
  | stop hreading => exact absurd he (by rintro (h | ⟨h, -⟩) <;> exact absurd h nofun)
  | cancel => exact absurd he (by rintro (h | ⟨h, -⟩) <;> exact absurd h nofun)

theorem ahead_chunks (n : ℕ) : ahead (StreamHandle.chunks n) = List.range n := by
  have hall := ahead_map_item_append (List.range n) []
  rw [List.append_nil, ahead_nil, List.append_nil] at hall
  exact hall

/-- No chunk is an end mark. -/
theorem stop_notMem_items (letters : List ℕ) : Mail.stop ∉ letters.map Mail.item := by
  intro hmem
  rcases List.mem_map.mp hmem with ⟨n, -, hn⟩
  exact absurd hn nofun

/-- What has been put: the first chunks, or all of them and the end mark. -/
theorem Flowing.sent (hflowing : Flowing count h) :
    (∃ k ≤ count, h.sent = StreamHandle.chunks k ∧ h.stage ≠ .over) ∨
      h.sent = StreamHandle.chunks count ++ [.stop] ∧ h.stage = .over ∧
        h.outcome = some .done := by
  have hflows := hflowing.flows
  unfold StreamHandle.Flows at hflows
  have hpulled := hflowing.pulled
  cases hstage : h.stage with
  | pulling =>
      rw [hstage] at hflows
      exact Or.inl ⟨h.pulled, hpulled, hflows, nofun⟩
  | putting chunk =>
      rw [hstage] at hflows
      exact Or.inl ⟨chunk, by omega, hflows.2, nofun⟩
  | finishing =>
      rw [hstage] at hflows
      exact Or.inl ⟨h.pulled, hpulled, hflows.1, nofun⟩
  | «over» =>
      simp only [hstage, hflowing.calm, Bool.false_eq_true, false_or] at hflows
      rcases hflowing.outcome hflows.2 with ⟨houtcome, hcount⟩
      rw [hcount] at hflows
      exact Or.inr ⟨hflows.1, rfl, houtcome⟩

theorem Flowing.ahead_sent (hflowing : Flowing count h) :
    ∃ k ≤ count, ahead h.sent = List.range k := by
  rcases hflowing.sent with ⟨k, hk, hsent, -⟩ | ⟨hsent, -, -⟩
  · exact ⟨k, hk, by rw [hsent, ahead_chunks]⟩
  · exact ⟨count, le_refl _, by rw [hsent, ahead_append_stop, ahead_chunks]⟩

/-- The end mark comes after all chunks. -/
theorem Flowing.of_stop (hflowing : Flowing count h) (hstop : .stop ∈ h.sent) :
    ahead h.sent = List.range count ∧ h.stage = .over ∧ h.outcome = some .done := by
  rcases hflowing.sent with ⟨k, -, hsent, -⟩ | ⟨hsent, hover, houtcome⟩
  · rw [hsent] at hstop
    exact absurd hstop (stop_notMem_items _)
  · exact ⟨by rw [hsent, ahead_append_stop, ahead_chunks], hover, houtcome⟩

theorem Flowing.length_sent (hflowing : Flowing count h) : h.sent.length ≤ count + 1 := by
  rcases hflowing.sent with ⟨k, hk, hsent, -⟩ | ⟨hsent, -, -⟩
  · rw [hsent, StreamHandle.chunks, List.length_map, List.length_range]
    omega
  · rw [hsent, List.length_append, StreamHandle.chunks, List.length_map, List.length_range]
    rfl

/-- A worker that is not at its end goes on if there is room. -/
theorem Flowing.proceeds (hflowing : Flowing count h) (hstage : h.stage ≠ .over)
    (hroom : ¬ h.full maxsize = true) :
    ∃ e u, e.ofWorker = true ∧ e ≠ .interrupt ∧ h.Follows (chunksThenDone count) e ∧
      h.step maxsize e = some u ∧ work count u < work count h := by
  cases hat : h.stage with
  | «over» => exact absurd hat hstage
  | pulling =>
      by_cases hlt : h.pulled < count
      · have hnext : h.step maxsize (.receive .chunk) =
            some { h with pulled := h.pulled + 1, stage := .putting h.pulled } := by
          simp only [StreamHandle.step, hat]
        refine ⟨.receive .chunk, _, rfl, by simp, ?_, hnext, ?_⟩
        · show Pulled.chunk = chunksThenDone count h.pulled
          rw [chunksThenDone, if_pos hlt]
        · simp only [work, hat]
          omega
      · have hnext : h.step maxsize (.receive .done) =
            some { h with stage := .finishing, outcome := some .done } := by
          simp only [StreamHandle.step, hat]
        refine ⟨.receive .done, _, rfl, by simp, ?_, hnext, ?_⟩
        · show Pulled.done = chunksThenDone count h.pulled
          rw [chunksThenDone, if_neg hlt]
        · simp only [work, hat]
          omega
  | putting chunk =>
      refine ⟨.put, _, rfl, by simp, trivial, StreamHandle.step_put hroom hat, ?_⟩
      simp only [work, hat, StreamHandle.pump, hflowing.calm]
      exact Nat.lt_succ_self _
  | finishing =>
      have hnext : h.step maxsize .put =
          some { h with queue := h.queue ++ [.stop], stage := .over } := by
        rw [StreamHandle.step, if_neg hroom, hat]
      refine ⟨.put, _, rfl, by simp, trivial, hnext, ?_⟩
      simp only [work, hat]
      exact Nat.zero_lt_one

end Handles

/-- The letters that the generator has got and not dealt with, or, at the end, the
    end mark. -/
def Phase.Pending : Phase → List (Mail ℕ) → Prop
  | .head, letters => letters = []
  | .racing, letters => letters = []
  | .woken x, letters => letters = [x]
  | .ended, letters => letters = [.stop]
  | .raised _, _ => True

/-- How much a generator has to do for the letter it is at. -/
def Phase.weight : Phase → ℕ
  | .head => 2
  | .racing => 1
  | .woken _ => 3
  | _ => 0

namespace Streaming

variable (aead : Aead) (st : Stream) (count : ℕ)

/-- A step that disturbs nothing: nothing is cancelled, the backend returns its chunks
    and ends, and the process leaves the session its keys and takes no counter
    back. -/
def Quiet (s : Streaming) : Event → Prop
  | .worker e => e ≠ .interrupt ∧ s.handle.Follows (chunksThenDone count) e
  | .cancel => False
  | .abort => False
  | .elsewhere p => (p.heap st.sess).s2c = (s.proc.heap st.sess).s2c ∧
      (p.heap st.sess).sessionId = (s.proc.heap st.sess).sessionId ∧
      (s.proc.heap st.sess).s2cCounter ≤ (p.heap st.sess).s2cCounter
  | _ => True

/-- The invariant of quiet runs, for a session with these keys and this id. -/
structure Steady (keys : DirectionKeys) (sid : Bytes) (s : Streaming) : Prop where
  handle : Flowing count s.handle
  taken : ∃ rest, s.handle.taken = (s.frames.filterMap Frame.chunk).map .item ++ rest ∧
    s.phase.Pending rest
  session : (s.proc.heap st.sess).s2c = keys ∧ (s.proc.heap st.sess).sessionId = sid
  frames : ∀ f ∈ s.frames, f.direction = keys ∧ f.sessionId = sid ∧
    f.counter ≤ (s.proc.heap st.sess).s2cCounter
  counters : (s.frames.map fun f => f.counter).Pairwise (· < ·)
  raised : s.phase.isRaised = true → 2 ^ 64 ≤ (s.proc.heap st.sess).s2cCounter

/-- What is left to do. -/
def remaining (s : Streaming) : ℕ :=
  work count s.handle + 3 * (count + 1 - s.handle.taken.length) + s.phase.weight

variable {aead st count} {keys : DirectionKeys} {sid : Bytes} {s u : Streaming}

theorem steady_start (p : Process) :
    (start p).Steady st count (p.heap st.sess).s2c (p.heap st.sess).sessionId where
  handle := flowing_start
  taken := ⟨[], rfl, rfl⟩
  session := ⟨rfl, rfl⟩
  frames := nofun
  counters := .nil
  raised := nofun

/-- Sealing fails only when the counters have run out. -/
theorem counter_of_error {counter : ℕ} {method path : String} {body : Bytes} {e : Exc}
    (hsid : sid.length = sessionIdBytes) (hmethod : IsMethod method)
    (h : sealEnvelope aead keys counter sid method path body = .error e) : 2 ^ 64 ≤ counter := by
  by_contra hlt
  rcases sealEnvelope_natCast aead keys sid hsid counter (Nat.lt_of_not_le hlt) method path hmethod
    body with ⟨nonce, aad, -, -, -, hseal⟩
  rw [hseal] at h
  exact absurd h nofun

/-- A payload is sealed for the letter at hand, or no letter is. -/
theorem Steady.sealNext (h : s.Steady st count keys sid) (hsid : sid.length = sessionIdBytes)
    (hmethod : IsMethod st.method) {chunk : Option ℕ} {payload : Json} {body : Bytes}
    (htaken : s.handle.taken =
      (s.frames.filterMap Frame.chunk ++ chunk.toList).map Mail.item) :
    (s.sealNext aead st chunk payload body).Steady st count keys sid := by
  have hbump : ∀ p : Process, (p.change st.sess Session.bump).heap st.sess =
      (p.heap st.sess).bump := fun p => Process.heap_change_self _ _ _
  rcases sealNext_eq aead st s chunk payload body with ⟨envelope, -, heq⟩ | ⟨e, herror, heq⟩
  · rw [heq]
    refine ⟨h.handle, ⟨[], ?_, rfl⟩, ?_, fun f hf => ?_, ?_, nofun⟩
    · rw [htaken, List.filterMap_append, List.append_nil]
      cases chunk <;> rfl
    · show ((s.proc.change st.sess Session.bump).heap st.sess).s2c = keys ∧
        ((s.proc.change st.sess Session.bump).heap st.sess).sessionId = sid
      rw [hbump]
      exact h.session
    · show f.direction = keys ∧ f.sessionId = sid ∧
        f.counter ≤ ((s.proc.change st.sess Session.bump).heap st.sess).s2cCounter
      rw [hbump]
      rcases List.mem_append.mp hf with hf | hf
      · rcases h.frames f hf with ⟨hdirection, hid, hle⟩
        exact ⟨hdirection, hid, Nat.le_succ_of_le hle⟩
      · rw [List.mem_singleton.mp hf]
        exact ⟨h.session.1, h.session.2, le_refl _⟩
    · -- The new counter is above all that were used.
      dsimp only
      rw [List.map_append, List.map_singleton, List.pairwise_append]
      refine ⟨h.counters, List.pairwise_singleton _ _, fun c hc d hd => ?_⟩
      rcases List.mem_map.mp hc with ⟨f, hf, rfl⟩
      rw [List.mem_singleton.mp hd]
      exact Nat.lt_succ_of_le (h.frames f hf).2.2
  · rw [heq]
    have hlimit : 2 ^ 64 ≤ (s.proc.heap st.sess).s2cCounter + 1 :=
      counter_of_error (by rw [h.session.2]; exact hsid) hmethod herror
    refine ⟨h.handle, ⟨chunk.toList.map .item, ?_, trivial⟩, ?_, fun f hf => ?_, h.counters,
      fun _ => ?_⟩
    · rw [htaken, List.map_append]
    · dsimp only
      rw [hbump]
      exact h.session
    · dsimp only
      rw [hbump]
      rcases h.frames f hf with ⟨hdirection, hid, hle⟩
      exact ⟨hdirection, hid, Nat.le_succ_of_le hle⟩
    · dsimp only
      rw [hbump]
      exact hlimit

/-- A letter with a chunk is one of the generator's. -/
theorem Steady.lt_of_woken (h : s.Steady st count keys sid) {n : ℕ}
    (hphase : s.phase = .woken (.item n)) : n < count := by
  rcases h.taken with ⟨rest, htaken, hpending⟩
  rw [hphase] at hpending
  rcases h.handle.ahead_sent with ⟨k, hk, hahead⟩
  have hrest : rest = [.item n] := hpending
  rw [StreamHandle.sent, htaken, hrest, List.append_assoc, ahead_map_item_append,
    List.singleton_append, ahead_item] at hahead
  have hmem : n ∈ List.range k := by
    rw [← hahead]
    exact List.mem_append_right _ List.mem_cons_self
  exact Nat.lt_of_lt_of_le (List.mem_range.mp hmem) hk

/-- **A quiet step keeps the invariant.** -/
theorem Steady.step (h : s.Steady st count keys sid) (hsid : sid.length = sessionIdBytes)
    (hmethod : IsMethod st.method) (hchunks : ∀ n < count, st.chunk n ≠ none) {e : Event}
    (hquiet : s.Quiet st count e) (hstep : s.step aead st e = some u) :
    u.Steady st count keys sid := by
  rcases h.taken with ⟨rest, htaken, hpending⟩
  cases move_of_step hstep with
  | handle e e' handle he hhandle =>
      rcases he with ⟨rfl, hworker⟩ | ⟨rfl, -⟩
      · refine ⟨h.handle.step (Or.inr ⟨hworker, hquiet.1⟩) hquiet.2 hhandle, ⟨rest, ?_, hpending⟩,
          h.session, h.frames, h.counters, h.raised⟩
        exact (taken_of_ofWorker hworker hhandle).trans htaken
      · exact absurd hquiet id
  | leave hphase hcancelled => exact absurd (h.handle.calm.symm.trans hcancelled) nofun
  | race hphase hcancelled =>
      rw [hphase] at hpending
      exact ⟨h.handle, ⟨rest, htaken, hpending⟩, h.session, h.frames, h.counters, nofun⟩
  | get handle x hphase hhandle hlast =>
      rw [hphase] at hpending
      have hrest : rest = [] := hpending
      refine ⟨h.handle.step (Or.inl rfl) trivial hhandle, ⟨[x], ?_, rfl⟩, h.session, h.frames,
        h.counters, nofun⟩
      show handle.taken = _
      rw [hlast, htaken, hrest, List.append_nil]
  | stop hphase houtcome =>
      rw [hphase] at hpending
      exact ⟨h.handle, ⟨rest, htaken, hpending⟩, h.session, h.frames, h.counters, nofun⟩
  | broken x hphase hx =>
      -- The backend has not raised, and the chunk is valid.
      rcases hx with ⟨-, houtcome⟩ | ⟨n, rfl, hnone⟩
      · have hdone := (h.handle.outcome (by rw [houtcome]; exact nofun)).1
        rw [houtcome] at hdone
        exact absurd hdone nofun
      · exact absurd hnone (hchunks n (h.lt_of_woken hphase))
  | chunk n payload hphase hpayload =>
      rw [hphase] at hpending
      have hrest : rest = [.item n] := hpending
      refine h.sealNext hsid hmethod ?_
      rw [htaken, hrest, List.map_append]
      rfl
  | timeout hphase =>
      -- The read that is cancelled has got nothing.
      rw [hphase] at hpending
      have hrest : rest = [] := hpending
      refine h.sealNext hsid hmethod ?_
      rw [htaken, hrest, List.append_nil, Option.toList_none, List.append_nil]
  | abort hphase => exact absurd hquiet id
  | elsewhere p =>
      rcases hquiet with ⟨hkeys, hid, hle⟩
      refine ⟨h.handle, ⟨rest, htaken, hpending⟩, ?_, fun f hf => ?_, h.counters, fun hraised => ?_⟩
      · exact ⟨hkeys.trans h.session.1, hid.trans h.session.2⟩
      · rcases h.frames f hf with ⟨hdirection, hfid, hcounter⟩
        exact ⟨hdirection, hfid, Nat.le_trans hcounter hle⟩
      · exact Nat.le_trans (h.raised hraised) hle

/-- What has been emitted is for the first chunks, in their order. -/
theorem Steady.chunks (h : s.Steady st count keys sid) :
    ∃ k ≤ count, s.frames.filterMap Frame.chunk = List.range k := by
  rcases h.taken with ⟨rest, htaken, -⟩
  rcases h.handle.ahead_sent with ⟨k, hk, hahead⟩
  rw [StreamHandle.sent, htaken, List.append_assoc, ahead_map_item_append] at hahead
  -- A prefix of a range is a range.
  have htake := congrArg (List.take (s.frames.filterMap Frame.chunk).length) hahead
  rw [List.take_left, List.take_range] at htake
  exact ⟨_, Nat.le_trans (Nat.min_le_right _ _) hk, htake⟩

/-- **What has been emitted at the end** is for all chunks. -/
theorem Steady.chunks_ended (h : s.Steady st count keys sid) (hended : s.phase = .ended) :
    s.frames.filterMap Frame.chunk = List.range count := by
  rcases h.taken with ⟨rest, htaken, hpending⟩
  rw [hended] at hpending
  have hrest : rest = [.stop] := hpending
  have hsent : s.handle.sent =
      (s.frames.filterMap Frame.chunk).map .item ++ .stop :: s.handle.queue := by
    rw [StreamHandle.sent, htaken, hrest, List.append_assoc, List.singleton_append]
  have hstop : .stop ∈ s.handle.sent := by
    rw [hsent]
    exact List.mem_append_right _ List.mem_cons_self
  have hahead := (h.handle.of_stop hstop).1
  rw [hsent, ahead_map_item_append, ahead_stop, List.append_nil] at hahead
  exact hahead

/-- A generator that waits is not at the end of its handle. -/
theorem Steady.next_of_racing (h : s.Steady st count keys sid) (hphase : s.phase = .racing) :
    ∃ e u, s.Quiet st count e ∧ s.step aead st e = some u ∧
      u.remaining count < s.remaining count := by
  rcases h.taken with ⟨rest, htaken, hpending⟩
  rw [hphase] at hpending
  have hrest : rest = [] := hpending
  rw [hrest, List.append_nil] at htaken
  have hlength := h.handle.length_sent
  cases hqueue : s.handle.queue with
  | nil =>
      -- The worker is not over: it would have put the end mark, which was not taken.
      have hover : s.handle.stage ≠ .over := by
        intro hover
        rcases h.handle.sent with ⟨-, -, -, hne⟩ | ⟨hsent, -, -⟩
        · exact hne hover
        · rw [StreamHandle.sent, hqueue, List.append_nil, htaken] at hsent
          refine stop_notMem_items (s.frames.filterMap Frame.chunk) ?_
          rw [hsent]
          exact List.mem_append_right _ (List.mem_singleton_self _)
      have hroom : ¬ s.handle.full st.maxsize = true := by
        rw [StreamHandle.full_iff, hqueue, List.length_nil]
        omega
      rcases h.handle.proceeds hover hroom with
        ⟨e, handle, hworker, hne, hfollows, hstep, hless⟩
      refine ⟨.worker e, { s with handle := handle }, ⟨hne, hfollows⟩, ?_, ?_⟩
      · rw [Streaming.step, if_pos hworker, hstep, Option.map_some]
      · unfold remaining
        dsimp only
        rw [taken_of_ofWorker hworker hstep]
        omega
  | cons x letters =>
      -- There is a letter, and nothing has stopped the reading.
      have hreading : s.handle.reading = true := by
        rcases h.handle.reading with hreading | hstop
        · exact hreading
        · rw [htaken] at hstop
          exact absurd hstop (stop_notMem_items _)
      refine ⟨.get, { s with
          handle := { s.handle with
            queue := letters, taken := s.handle.taken ++ [x], reading := decide (x ≠ .stop) }
          phase := .woken x }, trivial, ?_, ?_⟩
      · simp only [Streaming.step, hphase, StreamHandle.step, hreading, hqueue, Option.bind_some,
          List.getLast?_concat, Option.map_some]
      · rw [StreamHandle.sent, List.length_append, hqueue, List.length_cons] at hlength
        unfold remaining
        rw [hphase]
        simp only [List.length_append, List.length_singleton, Phase.weight, work]
        omega

/-- After sealing the generator is at the head of its loop, or has raised. -/
theorem remaining_sealNext (hphase : 2 < s.phase.weight) (chunk : Option ℕ) (payload : Json)
    (body : Bytes) :
    (s.sealNext aead st chunk payload body).remaining count < s.remaining count := by
  rcases sealNext_eq aead st s chunk payload body with ⟨envelope, -, heq⟩ | ⟨e, -, heq⟩
  · rw [heq]
    exact Nat.add_lt_add_left hphase _
  · rw [heq]
    exact Nat.add_lt_add_left (Nat.lt_of_le_of_lt (Nat.zero_le _) hphase) _

/-- **A generator that has not ended goes on**, and has less left to do. -/
theorem Steady.next (h : s.Steady st count keys sid)
    (hopen : ¬ (s.phase = .ended ∨ s.phase.isRaised = true)) :
    ∃ e u, s.Quiet st count e ∧ s.step aead st e = some u ∧
      u.remaining count < s.remaining count := by
  cases hphase : s.phase with
  | ended => exact absurd (Or.inl hphase) hopen
  | raised e => exact absurd (Or.inr (by rw [hphase]; rfl)) hopen
  | racing => exact h.next_of_racing hphase
  | head =>
      refine ⟨.go, { s with phase := .racing }, trivial, ?_, ?_⟩
      · simp only [Streaming.step, hphase, h.handle.calm, Bool.false_eq_true, if_false]
      · unfold remaining
        rw [hphase]
        exact Nat.add_lt_add_left (Nat.lt_succ_self 1) _
  | woken x =>
      -- However a delivered item ends, the iteration has less left to do.
      have hweight : 2 < s.phase.weight := by
        rw [hphase]
        exact Nat.lt_succ_self 2
      refine ⟨.wake, s.resume aead st x, trivial, by simp only [Streaming.step, hphase], ?_⟩
      have hless : ∀ phase : Phase, phase.weight = 0 → ∀ emitted,
          ({ s with phase := phase, emitted := emitted } : Streaming).remaining count <
            s.remaining count := by
        intro phase hzero emitted
        unfold remaining
        dsimp only
        rw [hzero]
        exact Nat.add_lt_add_left (Nat.lt_of_le_of_lt (Nat.zero_le _) hweight) _
      unfold resume
      cases x with
      | stop =>
          dsimp only
          split
          · exact hless (.raised none) rfl s.emitted
          · exact hless .ended rfl _
      | item n =>
          dsimp only
          split
          · exact hless (.raised none) rfl s.emitted
          · exact remaining_sealNext hweight _ _ _

/-- **A quiet run gets to an end**, from wherever it is. -/
theorem Steady.ends (h : s.Steady st count keys sid) (hsid : sid.length = sessionIdBytes)
    (hmethod : IsMethod st.method) (hchunks : ∀ n < count, st.chunk n ≠ none) :
    ∃ u, Run (Streaming.step aead st) (fun t e _ => t.Quiet st count e) s u ∧
      (u.phase = .ended ∨ u.phase.isRaised = true) := by
  refine exists_run_of_measure (fun t => t.Steady st count keys sid) _ (remaining count)
    (fun t ht hopen => ?_) h
  rcases ht.next hopen with ⟨e, u, hquiet, hstep, hless⟩
  exact ⟨e, u, hquiet, hstep, ht.step hsid hmethod hchunks hquiet hstep, hless⟩

end Streaming

end Llm

end SecureLlm
