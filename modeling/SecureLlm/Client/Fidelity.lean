import SecureLlm.Client.Integrity
import SecureLlm.Library.Lines
import SecureLlm.Llm.Order

/-!
# Streams From End to End

A stream that nothing disturbs, from the worker's chunks to what the client's
iteration yields. The generator emits one sealed event for each chunk in their
order, with sealed keepalives between, and the end marker. The bytes are lines of
plain text again, each event opens under the session's keys, and its counter is
one that the client has not seen.

Of the line reader it is assumed that it gives plain lines back, and of the JSON
parser that it reads what was dumped.

## Main definitions

* `Reads`: What is assumed of the JSON parser.

## Theorems

* `exists_lines`: Emitted events are lines that the client reads.
* `stream_fidelity`: What is emitted, and what it is read as.
-/

namespace SecureLlm

open Library Transition

namespace Client

open Llm ReplayClient

/-- What is assumed of the chunks and of the JSON parser: the chunks are valid and
    are read back as they were dumped, so are keepalives, and nothing is read from
    nothing. -/
structure Reads (loads : Bytes → Except Exc Json) (st : Stream) (count : ℕ) : Prop where
  chunks : ∀ n < count, ∃ payload, st.chunk n = some payload ∧
    loads (st.codec.modelDumpJson payload) = .ok payload
  keepalive : loads (st.codec.dumps keepalive) = .ok keepalive
  empty : ∀ value, loads [] ≠ .ok value

/-- What is read from something is its payload. -/
theorem Reads.parsePayload {loads : Bytes → Except Exc Json} {st : Stream} {count : ℕ}
    (h : Reads loads st count) {body : Bytes} {payload : Json} (hbody : loads body = .ok payload) :
    Client.parsePayload loads body = .ok payload := by
  have hne : body ≠ [] := by
    rintro rfl
    exact h.empty payload hbody
  unfold Client.parsePayload
  rw [if_neg (by simpa using hne), hbody]

/-- An emitted envelope is parsed to its payload. -/
theorem Reads.parse_frame {loads : Bytes → Except Exc Json} {st : Stream} {count : ℕ}
    (h : Reads loads st count) {f : Frame} (hholds : f.Holds st)
    (hchunk : ∀ n, f.chunk = some n → n < count) :
    Client.parsePayload loads f.body = .ok f.payload := by
  rcases hholds with ⟨-, -, hbody⟩
  cases hf : f.chunk with
  | none =>
      rw [hf] at hbody
      rw [hbody.1, hbody.2]
      exact h.parsePayload h.keepalive
  | some n =>
      rw [hf] at hbody
      rcases h.chunks n (hchunk n hf) with ⟨payload, hpayload, hread⟩
      rw [hbody.1, Option.some.injEq] at hpayload
      rw [hbody.2]
      rw [← hpayload] at hread
      exact h.parsePayload hread

/-- An event is a line and a blank one. -/
theorem sseEvent_eq (envelope : Bytes) : sseEvent envelope = textOf [eventLine envelope, ""] := by
  have hblank : utf8 "\n\n" = utf8 "\n" ++ utf8 "\n" := rfl
  rw [sseEvent, textOf, List.flatMap_cons, List.flatMap_singleton, eventLine, utf8_append,
    utf8_append, hblank, List.append_assoc, List.append_assoc, List.append_assoc]
  rfl

theorem plain_eventLine (envelope : Bytes) : ∀ c ∈ (eventLine envelope).toList, IsPlain c := by
  intro c hc
  rw [toList_eventLine] at hc
  -- A character of the field name or of the encoded text.
  have hprefix : c ∈ "data: ".toList ∨ c ∈ b64encodeChars envelope := List.mem_append.mp hc
  rcases hprefix with hmem | hmem
  · have hall : ("data: ".toList.all fun d => decide (IsPlain d)) = true := by decide
    exact of_decide_eq_true (List.all_eq_true.mp hall c hmem)
  · rcases isB64_of_mem envelope c hmem with ⟨hlow, hhigh, -⟩
    exact ⟨Nat.le_of_lt hlow, hhigh⟩

/-- **Emitted events are lines that the client reads**, for the session and the
    endpoint they were sealed for. -/
theorem exists_lines {aead : Aead} {outcome : HandshakeOutcome} {method path : String}
    (hmethod : IsMethod method) (frames : List Frame)
    (hframes : ∀ f ∈ frames, f.Sealed aead ∧ f.direction = outcome.s2c ∧
      f.sessionId = outcome.sessionId ∧ IsMethod f.method ∧ f.method.toUpper = method.toUpper ∧
      f.path = path) :
    ∃ lines, (∀ line ∈ lines, ∀ c ∈ line.toList, IsPlain c) ∧
      (frames.map Frame.bytes).flatten = textOf lines ∧
      ∀ tail, dataLines aead outcome method path (lines ++ tail) =
        frames.map (fun f => Line.ofIssued f.toIssued) ++
          dataLines aead outcome method path tail := by
  induction frames with
  | nil => exact ⟨[], nofun, rfl, fun _ => rfl⟩
  | cons f frames ih =>
      rcases ih fun g hg => hframes g (List.mem_cons_of_mem f hg) with
        ⟨lines, hplain, htext, hread⟩
      rcases hframes f List.mem_cons_self with
        ⟨⟨envelope, henvelope, hbytes⟩, hdirection, hid, hfmethod, hupper, hpath⟩
      rcases openEnvelope_of_sealEnvelope henvelope hfmethod hmethod.toUpper
        (by rw [hmethod.toUpper_toUpper, hupper]) with ⟨env, hcounter, hopen⟩
      rw [hdirection, hid, hpath] at hopen
      have hline := readLine_event hopen
      rw [hcounter] at hline
      refine ⟨eventLine envelope :: "" :: lines, ?_, ?_, fun tail => ?_⟩
      · rw [List.forall_mem_cons, List.forall_mem_cons]
        exact ⟨plain_eventLine envelope, nofun, hplain⟩
      · rw [List.map_cons, List.flatten_cons, htext, hbytes, sseEvent_eq]
        exact List.flatMap_append.symm
      · rw [List.cons_append, List.cons_append, dataLines_sealed _ hline,
          dataLines_skipped _ readLine_blank, hread tail]
        rfl

/-- **A stream from end to end.** A worker hands the chunks of a generator to
    `stream_chat_envelopes` through a queue of any size, reads are timed out again and
    again, and nothing is cancelled. Whatever the order of steps, what has been
    emitted is for the first chunks, and the run gets to an end. It raises only when
    the counters of the session have run out. At the end one sealed event for each
    chunk has been emitted in their order, apart from keepalives, and then the end
    marker; and the client, which reads these bytes on the same session with counters
    that it has not seen, yields their payloads in that order and does not raise. -/
theorem stream_fidelity (aead : Aead) (loads : Bytes → Except Exc Json)
    (iterLines : Bytes → List String) (st : Stream) (count : ℕ) (p : Process)
    (outcome : HandshakeOutcome) (method : String) (s : Streaming)
    (hreads : Reads loads st count) (hlines : SplitsLines iterLines)
    (hserver : IsMethod st.method) (hclient : IsMethod method)
    (hmethod : st.method.toUpper = method.toUpper)
    (hsession : (p.heap st.sess).s2c = outcome.s2c ∧
      (p.heap st.sess).sessionId = outcome.sessionId)
    (hsid : outcome.sessionId.length = sessionIdBytes)
    (hrun : Run (Streaming.step aead st) (fun t e _ => t.Quiet st count e)
      (Streaming.start p) s) :
    (∃ k ≤ count, s.frames.filterMap Frame.chunk = List.range k) ∧
      (∃ u, Run (Streaming.step aead st) (fun t e _ => t.Quiet st count e) s u ∧
        (u.phase = .ended ∨ u.phase.isRaised = true)) ∧
      (s.phase.isRaised = true → 2 ^ 64 ≤ (s.proc.heap st.sess).s2cCounter) ∧
      (s.phase = .ended →
        s.emitted = s.frames.map Frame.bytes ++ [sseEndMarker] ∧
        s.frames.filterMap Frame.chunk = List.range count ∧
        (∀ f ∈ s.frames, f.Sealed aead ∧ f.Holds st ∧ f.direction = outcome.s2c ∧
          f.sessionId = outcome.sessionId) ∧
        ∀ prior : List ℤ, (∀ f ∈ s.frames, (f.counter : ℤ) ∉ prior) →
          readLines aead loads outcome method st.path (checks prior).1
              (iterLines s.emitted.flatten) = (s.frames.map Frame.payload, none)) := by
  have hchunks : ∀ n < count, st.chunk n ≠ none := by
    intro n hn
    rcases hreads.chunks n hn with ⟨payload, hpayload, -⟩
    rw [hpayload]
    exact Option.some_ne_none payload
  -- The session's keys are those of the client when the stream begins, and stay so.
  have hstart : (Streaming.start p).Steady st count outcome.s2c outcome.sessionId := by
    rw [← hsession.1, ← hsession.2]
    exact Streaming.steady_start p
  have hsteady : s.Steady st count outcome.s2c outcome.sessionId :=
    Run.invariant (fun t => t.Steady st count outcome.s2c outcome.sessionId) hstart
      (fun t e u ht hquiet (hstep : Streaming.step aead st t e = some u) =>
        ht.step hsid hserver hchunks hquiet hstep) hrun
  have hframed := Streaming.framed_of_run hrun
  refine ⟨hsteady.chunks, hsteady.ends hsid hserver hchunks, hsteady.raised, fun hended => ?_⟩
  have hemitted := hframed.emitted
  rw [if_pos hended] at hemitted
  have hall := hsteady.chunks_ended hended
  have hown : ∀ f ∈ s.frames, f.Sealed aead ∧ f.Holds st ∧ f.direction = outcome.s2c ∧
      f.sessionId = outcome.sessionId := by
    intro f hf
    rcases hframed.frames f hf with ⟨hsealed, hholds⟩
    rcases hsteady.frames f hf with ⟨hdirection, hid, -⟩
    exact ⟨hsealed, hholds, hdirection, hid⟩
  have hkept : ∀ f ∈ s.frames, f.Sealed aead ∧ f.direction = outcome.s2c ∧
      f.sessionId = outcome.sessionId ∧ IsMethod f.method ∧ f.method.toUpper = method.toUpper ∧
      f.path = st.path := by
    intro f hf
    rcases hown f hf with ⟨hsealed, ⟨hfmethod, hfpath, -⟩, hdirection, hid⟩
    rw [hfmethod]
    exact ⟨hsealed, hdirection, hid, hserver, hmethod, hfpath⟩
  refine ⟨hemitted, hall, hown, fun prior hprior => ?_⟩
  rcases exists_lines hclient s.frames hkept with ⟨lines, hplain, htext, hread⟩
  -- The bytes are these lines and those of the end marker.
  have hsplit : iterLines s.emitted.flatten = lines ++ ["data: [DONE]", ""] := by
    have htail : s.emitted.flatten = textOf (lines ++ ["data: [DONE]", ""]) := by
      rw [hemitted, List.flatten_append, htext, textOf, textOf, List.flatMap_append]
      rfl
    rw [htail]
    refine hlines _ fun line hline => ?_
    rcases List.mem_append.mp hline with hline | hline
    · exact hplain line hline
    · have hall : (["data: [DONE]", ""].all fun l => l.toList.all fun c =>
          decide (IsPlain c)) = true := by decide
      intro c hc
      exact of_decide_eq_true (List.all_eq_true.mp (List.all_eq_true.mp hall line hline) c hc)
  -- They open, their counters are new, and their plaintexts parse.
  refine (readLines_ends_iff _ _ _ _ _ _ _ _).mpr
    ⟨s.frames.map fun f => (f.counter, f.body), ?_, ?_, ?_⟩
  · rw [hsplit, hread, dataLines_done _ readLine_marker, List.append_nil, List.map_map]
    rfl
  · rw [List.map_map]
    refine checkAll_of_nodup prior _ (fun c hc => ?_) (hsteady.counters.imp Nat.ne_of_lt)
    rcases List.mem_map.mp hc with ⟨f, hf, rfl⟩
    exact hprior f hf
  · rw [List.forall₂_map_left_iff, List.forall₂_map_right_iff, List.forall₂_same]
    intro f hf
    refine hreads.parse_frame (hown f hf).2.1 fun n hn => ?_
    have hmem : n ∈ s.frames.filterMap Frame.chunk := List.mem_filterMap.mpr ⟨f, hf, hn⟩
    rw [hall] at hmem
    exact List.mem_range.mp hmem

/-- What is assumed holds of one of the sample's chunks. -/
theorem reads_sample : Reads Llm.loadsSample .sample 1 where
  chunks n hn := by
    have hzero : n = 0 := by omega
    rw [hzero]
    exact ⟨chunkSample 0, chunk_sample 0, if_pos rfl⟩
  keepalive := by
    show Llm.loadsSample (Codec.sampleDumps keepalive) = _
    rw [Llm.loadsSample, if_neg (by decide), if_neg (by decide), if_pos rfl]
  empty value := by
    rw [Llm.loadsSample, if_neg (by decide), if_neg (by decide), if_neg (by decide)]
    intro hsame
    cases hsame

/-- A keepalive, a chunk and the end. -/
def streamedQuietly : List Llm.Event :=
  [.go, .timeout, .worker (.receive .chunk), .worker .put, .go, .get, .wake,
    .worker (.receive .done), .go, .timeout, .worker .put, .go, .get, .wake]

/-- A check for quiet steps. -/
def quiet (count : ℕ) (s : Streaming) : Llm.Event → Bool
  | .worker (.receive result) => decide (result = chunksThenDone count s.handle.pulled)
  | .worker .put => true
  | .go => true
  | .get => true
  | .wake => true
  | .timeout => true
  | _ => false

theorem quiet_sound {st : Stream} {count : ℕ} {s : Streaming} {e : Llm.Event}
    (h : quiet count s e = true) : s.Quiet st count e := by
  cases e with
  | worker e =>
      cases e with
      | receive result =>
          have hfollows : result = chunksThenDone count s.handle.pulled := of_decide_eq_true h
          exact ⟨nofun, hfollows⟩
      | put => exact ⟨nofun, trivial⟩
      | _ => exact absurd h nofun
  | go => trivial
  | get => trivial
  | wake => trivial
  | timeout => trivial
  | _ => exact absurd h nofun

/-- A stream of one chunk with keepalives before and after it. -/
theorem stream_fidelity_sample :
    ∃ s, Run (Streaming.step .sample .sample) (fun t e _ => t.Quiet .sample 1 e)
        (Streaming.start processSample) s ∧
      s.frames.map Frame.chunk = [none, some 0, none] ∧
      readLines .sample Llm.loadsSample (.sample 1) "POST" "/v1/chat/completions" .fresh
          (asciiLines [] s.emitted.flatten) = (s.frames.map Frame.payload, none) := by
  have hplay : ((playIf (quiet 1) (Streaming.step .sample .sample) (Streaming.start processSample)
      streamedQuietly).any (fun s => decide (s.phase = .ended ∧
        s.frames.map Frame.chunk = [none, some 0, none]))) = true := by
    decide +kernel
  rcases (Option.any_eq_true _ _).mp hplay with ⟨s, hs, hend⟩
  have hrun : Run (Streaming.step .sample .sample) (fun t e _ => t.Quiet .sample 1 e)
      (Streaming.start processSample) s :=
    run_of_playIf (quiet 1) streamedQuietly (fun _ _ _ h => quiet_sound h) hs
  rcases of_decide_eq_true hend with ⟨hended, hchunks⟩
  rcases stream_fidelity .sample Llm.loadsSample (asciiLines []) .sample 1 processSample (.sample 1)
    "POST" s reads_sample splitsLines_asciiLines isMethod_post isMethod_post rfl ⟨rfl, rfl⟩
    List.length_replicate hrun with ⟨-, -, -, hdelivered⟩
  exact ⟨s, hrun, hchunks, (hdelivered hended).2.2.2 [] nofun⟩

end Client

end SecureLlm
