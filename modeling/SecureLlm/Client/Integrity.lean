import SecureLlm.Client.Streams
import SecureLlm.Crypto.Binding
import SecureLlm.Llm.Streaming

/-!
# Streams Over a Network

A stream that is sealed is lines to the network, and the network may drop,
reorder, duplicate and make up lines. Each line stands for itself. What opens was
sealed by the server for the session and the endpoint, and the replay check lets
it through once. That is all: the end marker is plaintext, so is the end of the
body, nothing says which envelopes belong to a stream, and the replay check asks
for no order.

Of the network it is assumed that what opens under the session's key was sealed by
the server.

## Main definitions

* `lineBody`: The body that a line carries.
* `Opens`: What was made for an envelope.
* `Genuine`: What is assumed of a line.
* `For`: An envelope for a session and an endpoint.

## Theorems

* `issued_of_readLine`: A line that opens was sealed.
* `stream_yields_sealed`: What the iteration of a stream yields.
* `edited_streams_end`: Streams that are cut short, reordered and mixed.
-/

namespace SecureLlm

open Library Transition

namespace Client

open Llm ReplayClient

/-- The body that a line carries. -/
def lineBody (line : String) : Option Bytes :=
  b64decode true (strip (String.ofList (line.toList.drop 5)))

theorem lineBody_event (envelope : Bytes) : lineBody (eventLine envelope) = some envelope := by
  rw [lineBody, strip_eventLine, b64decode_b64encode]

/-- A line that opens carries a body that opens. -/
theorem openEnvelope_of_readLine {aead : Aead} {outcome : HandshakeOutcome} {method path : String}
    {line : String} {counter : ℕ} {plaintext : Bytes}
    (h : readLine aead outcome method path line = .sealed counter plaintext) :
    ∃ raw env, lineBody line = some raw ∧ env.counter = counter ∧
      SecureLlm.openEnvelope aead outcome.s2c outcome.sessionId method.toUpper path raw =
        .ok (env, plaintext) := by
  unfold readLine at h
  rw [Client.openEnvelope_eq] at h
  -- A blank line, a comment, another field, the end marker, bad base64 and a body
  -- that does not open give something else.
  split at h
  · exact absurd h nofun
  · split at h
    · exact absurd h nofun
    · split at h
      · exact absurd h nofun
      · dsimp only at h
        split at h
        · exact absurd h nofun
        · split at h
          · exact absurd h nofun
          · rename_i raw hraw
            split at h
            · exact absurd h nofun
            · rename_i env plaintext' hopen
              rcases Line.sealed.inj h with ⟨hcounter, hplaintext⟩
              exact ⟨raw, env, hraw, hcounter, by rw [hopen, hplaintext]⟩

/-- A ciphertext, with its key, nonce and additional data, was made for an
    envelope. -/
def Opens (aead : Aead) (x : Issued) (key nonce aad ciphertext : Bytes) : Prop :=
  key = x.direction.key ∧ nonceFor x.direction x.counter = .ok nonce ∧
    buildAad x.method x.path x.sessionId x.counter = .ok aad ∧
    ciphertext = aead.encrypt x.body aad nonce key

/-- What is assumed of a line: if it carries a body whose ciphertext decrypts under
    the session's key, that ciphertext was made for an envelope of the server. -/
def Genuine (aead : Aead) (issued : List Issued) (outcome : HandshakeOutcome)
    (method path line : String) : Prop :=
  ∀ raw env aad plaintext, lineBody line = some raw → unpackEnvelope raw = .ok env →
    buildAad method.toUpper path env.sessionId env.counter = .ok aad →
    aead.decrypt env.ciphertext aad env.nonce outcome.s2c.key = some plaintext →
    ∃ x ∈ issued, Opens aead x outcome.s2c.key env.nonce aad env.ciphertext

/-- An envelope is for a session and an endpoint. -/
def For (outcome : HandshakeOutcome) (method path : String) (x : Issued) : Prop :=
  x.direction.key = outcome.s2c.key ∧ x.sessionId = outcome.sessionId ∧
    x.method.toUpper = method.toUpper ∧ x.path = path

/-- An envelope as the line that it opens to. -/
def Line.ofIssued (x : Issued) : Line := .sealed x.counter x.body

section Genuine

variable {aead : Aead} {issued : List Issued} {outcome : HandshakeOutcome} {method path : String}

/-- **A line that opens was sealed**, for the session and the endpoint. -/
theorem issued_of_readLine {line : String} {counter : ℕ} {plaintext : Bytes}
    (hmethod : IsMethod method) (hpath : IsPath path)
    (hissued : ∀ x ∈ issued, IsMethod x.method ∧ IsPath x.path ∧
      ∃ envelope, x.envelope aead = .ok envelope)
    (hgenuine : Genuine aead issued outcome method path line)
    (h : readLine aead outcome method path line = .sealed counter plaintext) :
    ∃ x ∈ issued, For outcome method path x ∧ x.counter = counter ∧ x.body = plaintext := by
  rcases openEnvelope_of_readLine h with ⟨raw, env, hraw, rfl, hopen⟩
  rcases (openEnvelope_eq_ok_iff _ _ _ _ _ _ _ _).mp hopen with
    ⟨hunpack, hsid, aad, haad, hdecrypt⟩
  rw [← hsid] at haad
  rcases hgenuine raw env aad plaintext hraw hunpack haad hdecrypt with
    ⟨x, hx, hkey, hnonce, hmade, hciphertext⟩
  rcases hissued x hx with ⟨hxmethod, hxpath, envelope, henvelope⟩
  rcases opened_of_made hopen hmethod.toUpper hpath hxmethod hxpath
    (length_of_sealEnvelope henvelope) haad hnonce hmade hciphertext with
    ⟨hbody, hid, hcounter, hmethods, hpaths⟩
  rw [hmethod.toUpper_toUpper] at hmethods
  exact ⟨x, hx, ⟨hkey.symm, hid, hmethods, hpaths⟩, hcounter, hbody⟩

/-- The event of an envelope is genuine. -/
theorem genuine_event {x : Issued} {envelope : Bytes} (hx : x ∈ issued)
    (hmethod : IsMethod method) (hxmethod : IsMethod x.method) (hfor : For outcome method path x)
    (henvelope : x.envelope aead = .ok envelope) :
    Genuine aead issued outcome method path (eventLine envelope) := by
  intro raw env aad plaintext hraw hunpack haad _
  rw [lineBody_event, Option.some.injEq] at hraw
  rw [← hraw] at hunpack
  rcases unpackEnvelope_of_sealEnvelope henvelope with ⟨nonce, aad', hnonce, haad', hparsed⟩
  rw [hunpack, Except.ok.injEq] at hparsed
  subst hparsed
  -- The additional data of the endpoint is that of the envelope.
  rw [buildAad_congr method.toUpper x.method path x.sessionId _ hmethod.toUpper hxmethod
    (by rw [hmethod.toUpper_toUpper, hfor.2.2.1]), ← hfor.2.2.2, haad', Except.ok.injEq] at haad
  rw [← haad, ← hfor.1]
  exact ⟨x, hx, rfl, hnonce, haad', rfl⟩

/-- The end marker carries nothing. -/
theorem genuine_marker : Genuine aead issued outcome method path "data: [DONE]" := by
  intro raw env aad plaintext hraw
  have hnone : lineBody "data: [DONE]" = none := by decide +kernel
  rw [hnone] at hraw
  exact absurd hraw nofun

/-- A data line is one of the lines. -/
theorem exists_of_mem_dataLines {lines : List String} {data : Line}
    (h : data ∈ dataLines aead outcome method path lines) :
    ∃ line ∈ lines, readLine aead outcome method path line = data := by
  induction lines with
  | nil => exact absurd h List.not_mem_nil
  | cons line lines ih =>
      have hlater : data ∈ dataLines aead outcome method path lines →
          ∃ line' ∈ line :: lines, readLine aead outcome method path line' = data := by
        intro hmem
        rcases ih hmem with ⟨line', hline', heq⟩
        exact ⟨line', List.mem_cons_of_mem line hline', heq⟩
      unfold dataLines at h
      cases hline : readLine aead outcome method path line with
      | skipped =>
          rw [hline] at h
          exact hlater h
      | done =>
          rw [hline] at h
          exact absurd h List.not_mem_nil
      | _ =>
          rw [hline] at h
          rcases List.mem_cons.mp h with rfl | h
          · exact ⟨line, List.mem_cons_self, hline⟩
          · exact hlater h

/-- Lines that open, and were all sealed, are a list of envelopes. -/
theorem exists_issued (xs : List (ℕ × Bytes)) (P : Issued → Prop)
    (h : ∀ x ∈ xs, ∃ y ∈ issued, P y ∧ y.counter = x.1 ∧ y.body = x.2) :
    ∃ ys : List Issued, (∀ y ∈ ys, y ∈ issued ∧ P y) ∧
      ys.map (fun y => (y.counter, y.body)) = xs := by
  induction xs with
  | nil => exact ⟨[], nofun, rfl⟩
  | cons x xs ih =>
      rcases h x List.mem_cons_self with ⟨y, hy, hP, hcounter, hbody⟩
      rcases ih fun x' hx' => h x' (List.mem_cons_of_mem x hx') with ⟨ys, hys, rfl⟩
      refine ⟨y :: ys, ?_, ?_⟩
      · rintro z hz
        rcases List.mem_cons.mp hz with rfl | hz
        · exact ⟨hy, hP⟩
        · exact hys z hz
      · rw [List.map_cons, hcounter, hbody]

end Genuine

/-- **What the iteration of a stream yields.** Let a stream be sealed in any run of
    its generator, let the server have sealed other envelopes besides, and let the
    network bring the client any lines. If the iteration ends, the data lines up to
    the end marker or the end of the body are envelopes that the server has sealed
    for the session and the endpoint; the iteration has yielded their payloads in
    that order; and while the replay check has come across no more than 4096
    counters, no two of them, and none that was accepted before, have the same. -/
theorem stream_yields_sealed (aead : Aead) (loads : Bytes → Except Exc Json) (st : Stream)
    (p : Process) (s : Streaming)
    (hrun : Run (Streaming.step aead st) anyStep (Streaming.start p) s) (others : List Issued)
    (outcome : HandshakeOutcome) (method path : String) (prior : List ℤ) (lines : List String)
    (values : List Json) (hmethod : IsMethod method) (hpath : IsPath path)
    (hstream : IsMethod st.method ∧ IsPath st.path)
    (hothers : ∀ x ∈ others, IsMethod x.method ∧ IsPath x.path ∧
      ∃ envelope, x.envelope aead = .ok envelope)
    (hgenuine : ∀ line ∈ lines,
      Genuine aead (s.frames.map Frame.toIssued ++ others) outcome method path line)
    (h : readLines aead loads outcome method path (checks prior).1 lines = (values, none)) :
    ∃ xs : List Issued,
      (∀ x ∈ xs, x ∈ s.frames.map Frame.toIssued ++ others ∧ For outcome method path x) ∧
      dataLines aead outcome method path lines = xs.map Line.ofIssued ∧
      List.Forall₂ (fun x value => parsePayload loads x.body = .ok value) xs values ∧
      (prior.length + xs.length ≤ 4096 →
        (xs.map Issued.counter).Nodup ∧ ∀ x ∈ xs, (x.counter : ℤ) ∉ accepts prior) := by
  -- The envelopes of the stream and the others were all sealed.
  have hframed := Streaming.framed_of_run hrun
  have hissued : ∀ x ∈ s.frames.map Frame.toIssued ++ others, IsMethod x.method ∧
      IsPath x.path ∧ ∃ envelope, x.envelope aead = .ok envelope := by
    intro x hx
    rcases List.mem_append.mp hx with hx | hx
    · rcases List.mem_map.mp hx with ⟨f, hf, rfl⟩
      rcases hframed.frames f hf with ⟨⟨envelope, henvelope, -⟩, hm, hp, -⟩
      rw [hm, hp]
      exact ⟨hstream.1, hstream.2, envelope, henvelope⟩
    · exact hothers x hx
  rcases (readLines_ends_iff aead loads outcome method path _ lines values).mp h with
    ⟨pairs, hpairs, ⟨r, hr⟩, hvalues⟩
  have hsealed : ∀ x ∈ pairs, ∃ y ∈ s.frames.map Frame.toIssued ++ others,
      For outcome method path y ∧ y.counter = x.1 ∧ y.body = x.2 := by
    intro x hx
    have hmem : Line.ofOpened x ∈ dataLines aead outcome method path lines := by
      rw [hpairs]
      exact List.mem_map_of_mem hx
    rcases exists_of_mem_dataLines hmem with ⟨line, hline, hread⟩
    exact issued_of_readLine hmethod hpath hissued (hgenuine line hline) hread
  rcases exists_issued pairs _ hsealed with ⟨xs, hxs, rfl⟩
  -- Of the replay check only what it accepted is used, and that it has dropped nothing.
  refine ⟨xs, hxs, ?_, List.forall₂_map_left_iff.mp hvalues, fun hfew => ?_⟩
  · rw [hpairs, List.map_map]
    rfl
  · have hpassed := passed_of_checkAll hr
    have hcounters : (xs.map fun y => (y.counter, y.body)).map Prod.fst =
        xs.map Issued.counter := by
      rw [List.map_map]
      rfl
    have hnodup := nodup_passed (prior ++ (xs.map Issued.counter).map Nat.cast)
      (by rw [List.length_append, List.length_map, List.length_map]; exact hfew)
    rw [hcounters] at hpassed
    rw [hpassed, List.nodup_append, List.nodup_reverse] at hnodup
    rcases hnodup with ⟨hnew, -, hdisjoint⟩
    refine ⟨hnew.of_map _, fun x hx hmem => ?_⟩
    refine hdisjoint (x.counter : ℤ) ?_ (x.counter : ℤ) (List.mem_reverse.mp hmem) rfl
    rw [List.mem_reverse]
    exact List.mem_map_of_mem (List.mem_map_of_mem hx)

/-- A process with a session object of a handshake, to run the model on. -/
def processSample : Process :=
  Process.start.alloc { (default : Session) with
    sessionId := (HandshakeOutcome.sample 1).sessionId, s2c := (HandshakeOutcome.sample 1).s2c }
    .created

/-- What the server seals for the session on the chat endpoint. -/
def issuedSample (counter : ℕ) (payload : Json) : Issued where
  direction := (HandshakeOutcome.sample 1).s2c
  sessionId := (HandshakeOutcome.sample 1).sessionId
  counter := counter
  method := "POST"
  path := "/v1/chat/completions"
  body := Codec.sampleDumps payload

/-- It, as a line. -/
def lineSample (counter : ℕ) (payload : Json) : String :=
  eventLine (envelopeSample 1 counter (Codec.sampleDumps payload))

theorem isMethod_post : IsMethod "POST" := by decide

theorem for_issuedSample (counter : ℕ) (payload : Json) :
    For (.sample 1) "POST" "/v1/chat/completions" (issuedSample counter payload) :=
  ⟨rfl, rfl, rfl, rfl⟩

theorem envelope_issuedSample (counter : ℕ) (payload : Json) (h : counter < 2 ^ 64) :
    (issuedSample counter payload).envelope .sample =
      .ok (envelopeSample 1 counter (Codec.sampleDumps payload)) := by
  rcases sealEnvelope_natCast .sample (HandshakeOutcome.sample 1).s2c
    (HandshakeOutcome.sample 1).sessionId List.length_replicate counter h "POST"
    "/v1/chat/completions" isMethod_post (Codec.sampleDumps payload) with
    ⟨nonce, aad, -, -, -, hseal⟩
  unfold Issued.envelope envelopeSample
  dsimp only [issuedSample]
  rw [hseal]

theorem readLine_sample (counter : ℕ) (payload : Json) (h : counter < 2 ^ 64) :
    readLine .sample (.sample 1) "POST" "/v1/chat/completions" (lineSample counter payload) =
      .sealed counter (Codec.sampleDumps payload) := by
  rcases openEnvelope_of_sealEnvelope (envelope_issuedSample counter payload h) isMethod_post
    isMethod_post.toUpper isMethod_post.toUpper_toUpper with ⟨env, hcounter, hopen⟩
  have hread := readLine_event hopen
  rw [hcounter] at hread
  exact hread

/-- Two chunks and the end. -/
def streamedTwice : List Llm.Event :=
  [.worker (.receive .chunk), .worker .put, .go, .get, .wake, .worker (.receive .chunk),
    .worker .put, .go, .get, .wake, .worker (.receive .done), .worker .put, .go, .get, .wake]

theorem parse_chunkSample (n : ℕ) (h : n < 2) :
    parsePayload Llm.loadsSample (Codec.sampleDumps (chunkSample n)) = .ok (chunkSample n) := by
  have hn : n = 0 ∨ n = 1 := by omega
  rcases hn with rfl | rfl
  · rw [parsePayload, if_neg (by decide), Llm.loadsSample, if_pos rfl]
  · rw [parsePayload, if_neg (by decide), Llm.loadsSample, if_neg (by decide), if_pos rfl]

/-- Envelopes with chunks, under different counters, are read in any order. -/
theorem readLines_sample (xs : List (ℕ × ℕ)) (hnodup : (xs.map Prod.fst).Nodup)
    (hxs : ∀ x ∈ xs, x.1 < 2 ^ 64 ∧ x.2 < 2) :
    readLines .sample Llm.loadsSample (.sample 1) "POST" "/v1/chat/completions" .fresh
        (xs.map (fun x => lineSample x.1 (chunkSample x.2)) ++ ["data: [DONE]"]) =
      (xs.map fun x => chunkSample x.2, none) := by
  refine (readLines_ends_iff _ _ _ _ _ _ _ _).mpr
    ⟨xs.map fun x => (x.1, Codec.sampleDumps (chunkSample x.2)), ?_, ?_, ?_⟩
  · clear hnodup
    induction xs with
    | nil => exact dataLines_done _ readLine_marker
    | cons x xs ih =>
        rw [List.map_cons, List.cons_append, dataLines_sealed _
          (readLine_sample x.1 (chunkSample x.2) (hxs x List.mem_cons_self).1),
          ih fun y hy => hxs y (List.mem_cons_of_mem x hy)]
        rfl
  · rw [List.map_map]
    exact checkAll_of_nodup [] _ nofun hnodup
  · rw [List.forall₂_map_left_iff, List.forall₂_map_right_iff, List.forall₂_same]
    exact fun x hx => parse_chunkSample x.2 (hxs x hx).2

/-- A stream of two chunks is sealed. -/
theorem exists_streamedTwice :
    ∃ s f g, Run (Streaming.step .sample .sample) anyStep (Streaming.start processSample) s ∧
      s.phase = .ended ∧ s.frames = [f, g] ∧ f.toIssued = issuedSample 1 (chunkSample 0) ∧
      g.toIssued = issuedSample 2 (chunkSample 1) ∧ f.payload = chunkSample 0 ∧
      g.payload = chunkSample 1 := by
  have hplay : ((play (Streaming.step .sample .sample) (Streaming.start processSample)
      streamedTwice).any (fun s => decide (s.phase = .ended ∧ s.frames.map Frame.toIssued =
        [issuedSample 1 (chunkSample 0), issuedSample 2 (chunkSample 1)] ∧
        s.frames.map Frame.chunk = [some 0, some 1]))) = true := by
    decide +kernel
  rcases (Option.any_eq_true _ _).mp hplay with ⟨s, hs, hend⟩
  have hrun : Run (Streaming.step .sample .sample) anyStep (Streaming.start processSample) s :=
    run_of_play _ hs
  rcases of_decide_eq_true hend with ⟨hended, hframes, hchunks⟩
  have hframed := Streaming.framed_of_run hrun
  -- Payloads are not compared in the run: they follow from the chunks.
  have hpayload : ∀ f ∈ s.frames, ∀ n, f.chunk = some n → f.payload = chunkSample n := by
    intro f hf n hchunk
    have hholds := (hframed.frames f hf).2.2.2
    rw [hchunk] at hholds
    dsimp only at hholds
    rw [chunk_sample, Option.some.injEq] at hholds
    exact hholds.1.symm
  rcases List.map_eq_cons_iff.mp hframes with ⟨f, fs, hfs, hf, hrest⟩
  rcases List.map_eq_cons_iff.mp hrest with ⟨g, gs, rfl, hg, hnil⟩
  rw [List.map_eq_nil_iff.mp hnil] at hfs
  rw [hfs] at hchunks hpayload
  rcases List.cons.inj hchunks with ⟨hfchunk, hgchunks⟩
  exact ⟨s, f, g, hrun, hended, hfs, hf, hg, hpayload f List.mem_cons_self 0 hfchunk,
    hpayload g (List.mem_cons_of_mem f List.mem_cons_self) 1 (List.cons.inj hgchunks).1⟩

/-- A stream is delivered up to its end, and yields what was sealed. -/
theorem stream_yields_sealed_sample :
    ∃ s, Run (Streaming.step .sample .sample) anyStep (Streaming.start processSample) s ∧
      ∃ xs : List Issued, (∀ x ∈ xs, x ∈ s.frames.map Frame.toIssued ++ []) ∧
        List.Forall₂ (fun x value => parsePayload Llm.loadsSample x.body = .ok value) xs
          [chunkSample 0, chunkSample 1] := by
  rcases exists_streamedTwice with ⟨s, f, g, hrun, -, hframes, hf, hg, -, -⟩
  have hends := readLines_sample [(1, 0), (2, 1)] (by decide) (by decide)
  have hgenuine : ∀ line ∈ [lineSample 1 (chunkSample 0), lineSample 2 (chunkSample 1),
      "data: [DONE]"], Genuine .sample (s.frames.map Frame.toIssued ++ []) (.sample 1) "POST"
        "/v1/chat/completions" line := by
    rw [hframes, List.append_nil, List.map_cons, List.map_cons, List.map_nil, hf, hg]
    have hevent : ∀ (counter : ℕ) (payload : Json), counter < 2 ^ 64 →
        issuedSample counter payload ∈
          [issuedSample 1 (chunkSample 0), issuedSample 2 (chunkSample 1)] →
        Genuine .sample [issuedSample 1 (chunkSample 0), issuedSample 2 (chunkSample 1)]
          (.sample 1) "POST" "/v1/chat/completions" (lineSample counter payload) :=
      fun counter payload hcounter hmem => genuine_event hmem isMethod_post isMethod_post
        (for_issuedSample counter payload) (envelope_issuedSample counter payload hcounter)
    rw [List.forall_mem_cons, List.forall_mem_cons, List.forall_mem_singleton]
    exact ⟨hevent 1 _ (by decide) List.mem_cons_self,
      hevent 2 _ (by decide) (List.mem_cons_of_mem _ List.mem_cons_self), genuine_marker⟩
  rcases stream_yields_sealed .sample Llm.loadsSample .sample processSample s hrun [] (.sample 1)
    "POST" "/v1/chat/completions" [] _ _ isMethod_post rfl ⟨isMethod_post, rfl⟩ nofun hgenuine
    hends with ⟨xs, hxs, -, hvalues, -⟩
  exact ⟨s, hrun, xs, fun x hx => (hxs x hx).1, hvalues⟩

/-- A stream of two chunks is sealed. Its iteration ends when it is cut after the
    first chunk by an end marker, when its chunks come in the other order, and when
    another envelope for the endpoint is put behind them. -/
theorem edited_streams_end :
    ∃ s, Run (Streaming.step .sample .sample) anyStep (Streaming.start processSample) s ∧
      s.phase = .ended ∧
      s.frames.map Frame.bytes = [lineSample 1 (chunkSample 0), lineSample 2 (chunkSample 1)].map
        (fun line => utf8 (line ++ "\n\n")) ∧
      s.frames.map Frame.payload = [chunkSample 0, chunkSample 1] ∧
      readLines .sample Llm.loadsSample (.sample 1) "POST" "/v1/chat/completions" .fresh
          [lineSample 1 (chunkSample 0), "data: [DONE]"] = ([chunkSample 0], none) ∧
      readLines .sample Llm.loadsSample (.sample 1) "POST" "/v1/chat/completions" .fresh
          [lineSample 2 (chunkSample 1), lineSample 1 (chunkSample 0), "data: [DONE]"] =
        ([chunkSample 1, chunkSample 0], none) ∧
      readLines .sample Llm.loadsSample (.sample 1) "POST" "/v1/chat/completions" .fresh
          [lineSample 1 (chunkSample 0), lineSample 2 (chunkSample 1), lineSample 3 (chunkSample 0),
            "data: [DONE]"] =
        ([chunkSample 0, chunkSample 1, chunkSample 0], none) := by
  rcases exists_streamedTwice with ⟨s, f, g, hrun, hended, hframes, hf, hg, hfpayload, hgpayload⟩
  have hframed := Streaming.framed_of_run hrun
  have hbytes : ∀ f ∈ s.frames, ∀ counter payload, counter < 2 ^ 64 →
      f.toIssued = issuedSample counter payload →
      f.bytes = utf8 (lineSample counter payload ++ "\n\n") := by
    intro f hf counter payload hcounter heq
    rcases (hframed.frames f hf).1 with ⟨envelope, henvelope, hbytes⟩
    rw [heq, envelope_issuedSample counter payload hcounter] at henvelope
    rw [hbytes, ← Except.ok.inj henvelope, lineSample, utf8_append, eventLine, utf8_append]
    rfl
  rw [hframes] at hbytes
  refine ⟨s, hrun, hended, ?_, ?_, readLines_sample [(1, 0)] (by decide) (by decide),
    readLines_sample [(2, 1), (1, 0)] (by decide) (by decide),
    readLines_sample [(1, 0), (2, 1), (3, 0)] (by decide) (by decide)⟩
  · rw [hframes, List.map_cons, List.map_cons, List.map_nil,
      hbytes f List.mem_cons_self 1 _ (by decide) hf,
      hbytes g (List.mem_cons_of_mem f List.mem_cons_self) 2 _ (by decide) hg]
    rfl
  · rw [hframes, List.map_cons, List.map_cons, List.map_nil, hfpayload, hgpayload]

end Client

end SecureLlm
