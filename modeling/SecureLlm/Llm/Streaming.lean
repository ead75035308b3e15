import SecureLlm.Client.Errors
import SecureLlm.Models.Streams
import SecureLlm.Server.FleetStep

/-!
# Streams of Sealed Chunks

What `stream_chat_envelopes` does with the handle of a stream: it reads a chunk,
normalizes it, seals it under the session's next counter and emits it as a
server-sent event, and in the end it emits the end marker, in plaintext.

It reads in a task of its own and waits for that task only so long. When the time
is up it cancels the task, emits a keepalive, which is sealed like a chunk, and
begins to read anew. A task that has its letter by then is not cancelled. A get
that is cancelled takes no letter from the queue.

Meanwhile the worker goes on, and so does the process: other handlers seal for the
same session.

pydantic and the conversions of the language are parameters.

## Main definitions

* `Codec`: What is taken from outside.
* `llamaChunkToPydantic`: A chunk is normalized.
* `Stream`: What the generator is called with.
* `Issued`, `Frame`: An envelope that was sealed, and one that was emitted.
* `Streaming`, `Streaming.step`: The generator, with the handle and the process.

## Theorems

* `Streaming.move_of_step`: What a step can do.
* `Streaming.Framed.step`: What is emitted is sealed.
-/

namespace SecureLlm

open Library Transition Models

namespace Llm

/-- A dict. -/
abbrev Fields : Type := List (String × Json)

/-- What is taken from the language and from pydantic: `int`, the validation of a
    chunk, and the two ways to dump. -/
structure Codec where
  int : Json → Option ℤ
  modelValidate : Json → Option Json
  modelDumpJson : Json → Bytes
  dumps : Json → Bytes

/-- An entry of `out_choices`, if nothing raises. -/
def outChoice (codec : Codec) : Json → Option Json
  | .object choice =>
    match ((Json.field choice "delta").filter Json.truthy).getD (.object []) with
    | .object delta => do
      let index ← codec.int ((Json.field choice "index").getD (.number 0))
      return .object
        [("index", .number index),
          ("delta", .object [("role", (Json.field delta "role").getD .null),
            ("content", (Json.field delta "content").getD .null)]),
          ("finish_reason", (Json.field choice "finish_reason").getD .null)]
    | _ => none
  | _ => none

/-- `_llama_chunk_to_pydantic`, if nothing raises. -/
def llamaChunkToPydantic (codec : Codec) (raw : Fields) (model msgId : String) (created : ℤ) :
    Option Json := do
  let choices ← match (Json.field raw "choices").filter Json.truthy with
    | none => some []
    | some (.array choices) => some choices
    | some _ => none
  let outChoices ← choices.mapM (outChoice codec)
  let created ← codec.int ((Json.field raw "created").getD (.number created))
  codec.modelValidate (.object
    [("id", (Json.field raw "id").getD (.string msgId)),
      ("model", (Json.field raw "model").getD (.string model)),
      ("created", .number created),
      ("choices", .array outChoices)])

/-- What the generator is called with: the session, the dicts that the handle's
    chunks stand for, the size of its queue, the endpoint, and what goes into a
    chunk that lacks it. -/
structure Stream where
  codec : Codec
  sess : Ref
  raw : ℕ → Fields
  maxsize : ℤ
  method : String
  path : String
  model : String
  msgId : String
  created : ℤ

/-- The payload of a chunk. -/
def Stream.chunk (st : Stream) (n : ℕ) : Option Json :=
  llamaChunkToPydantic st.codec (st.raw n) st.model st.msgId st.created

/-- `{"keepalive": True}`. -/
def keepalive : Json := .object [("keepalive", .bool true)]

/-- The dump of the first or of another chunk without choices, and of a keepalive, to
    run the model on. -/
def Codec.sampleDumps : Json → Bytes
  | .object fields =>
    match Json.field fields "created" with
    | some (.number q) =>
      utf8 ("\x7b\"id\":\"chatcmpl-1\",\"model\":\"m\",\"created\":" ++
        (if q = 0 then "0" else "1") ++ ",\"choices\":[]\x7d")
    | _ => utf8 "\x7b\"keepalive\":true\x7d"
  | _ => []

/-- Conversion and dumping of these. -/
def Codec.sample : Codec where
  int
    | .number q => some q.floor
    | _ => none
  modelValidate := some
  modelDumpJson := Codec.sampleDumps
  dumps := Codec.sampleDumps

/-- A stream of such chunks on the chat endpoint. -/
def Stream.sample : Stream where
  codec := .sample
  sess := 0
  raw n := [("created", .number n)]
  maxsize := Models.handleSize
  method := "POST"
  path := "/v1/chat/completions"
  model := "m"
  msgId := "chatcmpl-1"
  created := 0

/-- The payload of one of them. -/
def chunkSample (n : ℕ) : Json :=
  .object [("id", .string "chatcmpl-1"), ("model", .string "m"), ("created", .number n),
    ("choices", .array [])]

theorem chunk_sample (n : ℕ) : Stream.sample.chunk n = some (chunkSample n) := by
  have hfloor : (n : ℚ).floor = n := Rat.floor_intCast n
  show some (Json.object [("id", .string "chatcmpl-1"), ("model", .string "m"),
    ("created", .number (((n : ℚ).floor : ℤ) : ℚ)), ("choices", .array [])]) = _
  rw [hfloor, Int.cast_natCast]
  rfl

/-- The parser on these texts. -/
def loadsSample (content : Bytes) : Except Exc Json :=
  if content = Codec.sampleDumps (chunkSample 0) then .ok (chunkSample 0)
  else if content = Codec.sampleDumps (chunkSample 1) then .ok (chunkSample 1)
  else if content = Codec.sampleDumps keepalive then .ok keepalive
  else .error (.valueError "Expecting value")

/-- `_SSE_END_MARKER`. -/
def sseEndMarker : Bytes := utf8 "data: [DONE]\n\n"

/-- An envelope as a server-sent event. -/
def sseEvent (envelope : Bytes) : Bytes :=
  utf8 "data: " ++ utf8 (b64encode envelope) ++ utf8 "\n\n"

/-- What an envelope of a server was sealed under, and its plaintext. -/
structure Issued where
  direction : DirectionKeys
  sessionId : Bytes
  counter : ℕ
  method : String
  path : String
  body : Bytes
  deriving DecidableEq

/-- The envelope. -/
def Issued.envelope (aead : Aead) (x : Issued) : Except Exc Bytes :=
  sealEnvelope aead x.direction x.counter x.sessionId x.method x.path x.body

/-- An envelope that was emitted: for which chunk, if it is not a keepalive, with
    what payload, and as what bytes. -/
structure Frame extends Issued where
  chunk : Option ℕ
  payload : Json
  bytes : Bytes

/-- Where the generator is. -/
inductive Phase where
  /-- At the head of its loop. -/
  | head
  /-- It waits for the task that reads, or for the time to be up. -/
  | racing
  /-- The task has got its letter. -/
  | woken (x : Mail ℕ)
  /-- The generator has emitted the end marker. -/
  | ended
  /-- It has raised: what sealing raised, or else what the handle did, or what the
      conversion of a chunk did. -/
  | raised (e : Option Exc)
  deriving DecidableEq

def Phase.isRaised : Phase → Bool
  | .raised _ => true
  | _ => false

/-- The handle, the process, the generator and, in their order, what it has emitted
    and which of that are envelopes. -/
structure Streaming where
  handle : StreamHandle
  proc : Process
  phase : Phase
  emitted : List Bytes
  frames : List Frame

/-- What happens. -/
inductive Event where
  /-- The worker of the handle goes on. -/
  | worker (e : StreamEvent)
  /-- Somebody calls `cancel` on the handle. -/
  | cancel
  /-- The generator looks at the cancel event and begins to read. -/
  | go
  /-- The task that reads gets a letter. -/
  | get
  /-- The generator goes on with the letter. -/
  | wake
  /-- The time is up. -/
  | timeout
  /-- The wait of the generator is cancelled. -/
  | abort
  /-- The process goes on elsewhere. -/
  | elsewhere (p : Process)

namespace Streaming

variable (aead : Aead) (st : Stream)

/-- The generator is called. -/
def start (p : Process) : Streaming := ⟨.start, p, .head, [], []⟩

variable (s : Streaming)

/-- `yield _SSE_END_MARKER`. -/
def finish : Streaming := { s with phase := .ended, emitted := s.emitted ++ [sseEndMarker] }

/-- `yield _seal_chunk(...)`. Sealing does not suspend and reads no clock. -/
def sealNext (chunk : Option ℕ) (payload : Json) (body : Bytes) : Streaming :=
  match (sealChunk aead st.sess body st.method st.path).advance (fun _ => 0) s.proc with
  | (p, _, .done bytes) =>
    let session := p.heap st.sess
    { s with
      proc := p
      phase := .head
      emitted := s.emitted ++ [bytes]
      frames := s.frames ++ [{
        direction := session.s2c, sessionId := session.sessionId, counter := session.s2cCounter,
        method := st.method, path := st.path, body, chunk, payload, bytes }] }
  | (p, _, .fail e) => { s with proc := p, phase := .raised (some e) }
  | _ => s

/-- What the generator does with a letter. -/
def resume : Mail ℕ → Streaming
  -- `__anext__` raises the worker's error, or else the loop breaks.
  | .stop =>
    if s.handle.outcome = some .error then { s with phase := .raised none } else s.finish
  | .item n =>
    match st.chunk n with
    | none => { s with phase := .raised none }
    | some payload => s.sealNext aead st (some n) payload (st.codec.modelDumpJson payload)

/-- One step. -/
def step : Event → Option Streaming
  | .worker e =>
    if e.ofWorker then (s.handle.step st.maxsize e).map fun h => { s with handle := h } else none
  | .cancel => (s.handle.step st.maxsize .cancel).map fun h => { s with handle := h }
  -- `while True`: `if cancel_event.is_set(): break`.
  | .go =>
    match s.phase with
    | .head => some (if s.handle.cancelled then s.finish else { s with phase := .racing })
    | _ => none
  | .get =>
    match s.phase with
    | .racing => (s.handle.step st.maxsize .read).bind fun h =>
        h.taken.getLast?.map fun x => { s with handle := h, phase := .woken x }
    | _ => none
  | .wake =>
    match s.phase with
    | .woken x => some (s.resume aead st x)
    | _ => none
  -- `chunk_task not in done`.
  | .timeout =>
    match s.phase with
    | .racing => some (s.sealNext aead st none keepalive (st.codec.dumps keepalive))
    | _ => none
  -- `except asyncio.CancelledError: break`.
  | .abort =>
    match s.phase with
    | .racing => some s.finish
    | _ => none
  | .elsewhere p => some { s with proc := p }

/-- The steps of a generator. -/
inductive Move : Event → Streaming → Prop where
  | handle (e : Event) (e' : StreamEvent) (h : StreamHandle)
      (he : e = .worker e' ∧ e'.ofWorker = true ∨ e = .cancel ∧ e' = .cancel)
      (hstep : s.handle.step st.maxsize e' = some h) : Move e { s with handle := h }
  | leave (hphase : s.phase = .head) (hcancelled : s.handle.cancelled = true) : Move .go s.finish
  | race (hphase : s.phase = .head) (hcancelled : s.handle.cancelled = false) :
      Move .go { s with phase := .racing }
  | get (h : StreamHandle) (x : Mail ℕ) (hphase : s.phase = .racing)
      (hstep : s.handle.step st.maxsize .read = some h) (hlast : h.taken = s.handle.taken ++ [x]) :
      Move .get { s with handle := h, phase := .woken x }
  | stop (hphase : s.phase = .woken .stop) (houtcome : s.handle.outcome ≠ some .error) :
      Move .wake s.finish
  | broken (x : Mail ℕ) (hphase : s.phase = .woken x)
      (hx : x = .stop ∧ s.handle.outcome = some .error ∨
        ∃ n, x = .item n ∧ st.chunk n = none) :
      Move .wake { s with phase := .raised none }
  | chunk (n : ℕ) (payload : Json) (hphase : s.phase = .woken (.item n))
      (hpayload : st.chunk n = some payload) :
      Move .wake (s.sealNext aead st (some n) payload (st.codec.modelDumpJson payload))
  | timeout (hphase : s.phase = .racing) :
      Move .timeout (s.sealNext aead st none keepalive (st.codec.dumps keepalive))
  | abort (hphase : s.phase = .racing) : Move .abort s.finish
  | elsewhere (p : Process) : Move (.elsewhere p) { s with proc := p }

/-- What sealing does: an envelope is emitted under the session's next counter, or
    nothing is sealed and the generator raises. -/
theorem sealNext_eq (chunk : Option ℕ) (payload : Json) (body : Bytes) :
    (∃ envelope, sealEnvelope aead (s.proc.heap st.sess).s2c
        ((s.proc.heap st.sess).s2cCounter + 1 : ℕ) (s.proc.heap st.sess).sessionId st.method
        st.path body = .ok envelope ∧
      s.sealNext aead st chunk payload body =
        { s with
          proc := (s.proc.change st.sess Session.bump).note st.sess
            (.sealed (s.proc.heap st.sess).s2c)
          phase := .head
          emitted := s.emitted ++ [sseEvent envelope]
          frames := s.frames ++ [{
            direction := (s.proc.heap st.sess).s2c, sessionId := (s.proc.heap st.sess).sessionId,
            counter := (s.proc.heap st.sess).s2cCounter + 1, method := st.method,
            path := st.path, body, chunk, payload, bytes := sseEvent envelope }] }) ∨
    (∃ e, sealEnvelope aead (s.proc.heap st.sess).s2c
        ((s.proc.heap st.sess).s2cCounter + 1 : ℕ) (s.proc.heap st.sess).sessionId st.method
        st.path body = .error e ∧
      s.sealNext aead st chunk payload body =
        { s with proc := s.proc.change st.sess Session.bump, phase := .raised (some e) }) := by
  have hheap : (s.proc.change st.sess Session.bump).heap st.sess = (s.proc.heap st.sess).bump :=
    Process.heap_change_self _ _ _
  -- A stream's chunk is sealed as an answer without a counter of its own is.
  have hfor := sealFor_advance aead st.sess body st.method st.path none (fun _ => 0) s.proc
  rw [Option.getD_none] at hfor
  unfold sealNext
  cases hseal : sealEnvelope aead (s.proc.heap st.sess).s2c
      ((s.proc.heap st.sess).s2cCounter + 1 : ℕ) (s.proc.heap st.sess).sessionId st.method
      st.path body with
  | ok envelope =>
      rw [hseal] at hfor
      rcases sealChunk_advance aead st.sess body st.method st.path (fun _ => 0) s.proc with
        ⟨envelope', hfor', hchunk⟩ | ⟨e, hfor', -⟩
      · rw [hfor] at hfor'
        have henvelope : envelope = envelope' :=
          Coop.done.inj (Prod.mk.inj (Prod.mk.inj hfor').2).2
        rw [hchunk, ← henvelope]
        refine Or.inl ⟨envelope, rfl, ?_⟩
        dsimp only [Process.note]
        rw [hheap]
        rfl
      · rw [hfor] at hfor'
        exact absurd (Prod.mk.inj (Prod.mk.inj hfor').2).2 nofun
  | error e =>
      rw [hseal] at hfor
      rcases sealChunk_advance aead st.sess body st.method st.path (fun _ => 0) s.proc with
        ⟨envelope, hfor', -⟩ | ⟨e', hfor', hchunk⟩
      · rw [hfor] at hfor'
        exact absurd (Prod.mk.inj (Prod.mk.inj hfor').2).2 nofun
      · rw [hfor] at hfor'
        have he : e = e' := Coop.fail.inj (Prod.mk.inj (Prod.mk.inj hfor').2).2
        rw [hchunk, ← he]
        exact Or.inr ⟨e, rfl, rfl⟩

variable {aead st s}

/-- What a step can do. -/
theorem move_of_step {e : Event} {u : Streaming} (h : s.step aead st e = some u) :
    s.Move aead st e u := by
  unfold step at h
  cases e with
  | worker e =>
      by_cases hworker : e.ofWorker = true
      · simp only [if_pos hworker, Option.map_eq_some_iff] at h
        rcases h with ⟨handle, hstep, rfl⟩
        exact .handle _ e handle (Or.inl ⟨rfl, hworker⟩) hstep
      · simp only [if_neg hworker, reduceCtorEq] at h
  | cancel =>
      rcases Option.map_eq_some_iff.mp h with ⟨handle, hstep, rfl⟩
      exact .handle _ .cancel handle (Or.inr ⟨rfl, rfl⟩) hstep
  | go =>
      cases hphase : s.phase <;> simp only [hphase, reduceCtorEq, Option.some.injEq] at h
      rw [← h]
      by_cases hcancelled : s.handle.cancelled = true
      · rw [if_pos hcancelled]
        exact .leave hphase hcancelled
      · rw [if_neg hcancelled]
        exact .race hphase (by simpa using hcancelled)
  | get =>
      cases hphase : s.phase <;> simp only [hphase, reduceCtorEq] at h
      rcases Option.bind_eq_some_iff.mp h with ⟨handle, hstep, h⟩
      rcases Option.map_eq_some_iff.mp h with ⟨x, hx, rfl⟩
      refine .get handle x hphase hstep ?_
      -- A read takes one letter.
      cases StreamHandle.move_of_step hstep with
      | read y rest hreading hqueue =>
          rw [List.getLast?_concat, Option.some.injEq] at hx
          rw [← hx]
  | wake =>
      cases hphase : s.phase <;> simp only [hphase, reduceCtorEq, Option.some.injEq] at h
      rename_i x
      rw [← h]
      unfold resume
      cases x with
      | stop =>
          by_cases houtcome : s.handle.outcome = some .error
          · simp only [if_pos houtcome]
            exact .broken .stop hphase (Or.inl ⟨rfl, houtcome⟩)
          · simp only [if_neg houtcome]
            exact .stop hphase houtcome
      | item n =>
          cases hchunk : st.chunk n with
          | none =>
              simp only [hchunk]
              exact .broken _ hphase (Or.inr ⟨n, rfl, hchunk⟩)
          | some payload =>
              simp only [hchunk]
              exact .chunk n payload hphase hchunk
  | timeout =>
      cases hphase : s.phase <;> simp only [hphase, reduceCtorEq, Option.some.injEq] at h
      rw [← h]
      exact .timeout hphase
  | abort =>
      cases hphase : s.phase <;> simp only [hphase, reduceCtorEq, Option.some.injEq] at h
      rw [← h]
      exact .abort hphase
  | elsewhere p =>
      rw [← Option.some.inj h]
      exact .elsewhere p

end Streaming

/-- An emitted envelope was sealed, and is emitted as an event. -/
def Frame.Sealed (aead : Aead) (f : Frame) : Prop :=
  ∃ envelope, f.envelope aead = .ok envelope ∧ f.bytes = sseEvent envelope

/-- It is for the stream's endpoint, and holds what it is to hold. -/
def Frame.Holds (st : Stream) (f : Frame) : Prop :=
  f.method = st.method ∧ f.path = st.path ∧
    match f.chunk with
    | some n => st.chunk n = some f.payload ∧ f.body = st.codec.modelDumpJson f.payload
    | none => f.payload = keepalive ∧ f.body = st.codec.dumps keepalive

namespace Streaming

variable {aead : Aead} {st : Stream} {s : Streaming}

/-- What is emitted is sealed envelopes, and at the end the end marker. -/
structure Framed (aead : Aead) (st : Stream) (s : Streaming) : Prop where
  frames : ∀ f ∈ s.frames, f.Sealed aead ∧ f.Holds st
  emitted : s.emitted = s.frames.map Frame.bytes ++
    if s.phase = .ended then [sseEndMarker] else []

theorem framed_start (p : Process) : (start p).Framed aead st := ⟨nofun, rfl⟩

theorem Framed.finish (h : s.Framed aead st) (hphase : s.phase ≠ .ended) :
    s.finish.Framed aead st := by
  refine ⟨h.frames, ?_⟩
  show s.emitted ++ [sseEndMarker] = _
  rw [h.emitted, if_neg hphase, List.append_nil]
  rfl

/-- A sealed payload is emitted. -/
theorem Framed.sealNext (h : s.Framed aead st) (hphase : s.phase ≠ .ended) (chunk : Option ℕ)
    (payload : Json) (body : Bytes)
    (hholds : match chunk with
      | some n => st.chunk n = some payload ∧ body = st.codec.modelDumpJson payload
      | none => payload = keepalive ∧ body = st.codec.dumps keepalive) :
    (s.sealNext aead st chunk payload body).Framed aead st := by
  have hemitted := h.emitted
  rw [if_neg hphase, List.append_nil] at hemitted
  rcases sealNext_eq aead st s chunk payload body with
    ⟨envelope, henvelope, heq⟩ | ⟨e, -, heq⟩
  · rw [heq]
    refine ⟨fun f hf => ?_, ?_⟩
    · rcases List.mem_append.mp hf with hf | hf
      · exact h.frames f hf
      · rw [List.mem_singleton.mp hf]
        exact ⟨⟨envelope, henvelope, rfl⟩, rfl, rfl, hholds⟩
    · show s.emitted ++ [sseEvent envelope] = (s.frames ++ [_]).map Frame.bytes ++ []
      rw [hemitted, List.map_append, List.append_nil]
      rfl
  · rw [heq]
    refine ⟨h.frames, ?_⟩
    show s.emitted = s.frames.map Frame.bytes ++ []
    rw [hemitted, List.append_nil]

/-- **What is emitted is sealed.** Whatever happens, the generator emits envelopes
    that hold chunks or keepalives, and at the end the end marker. -/
theorem Framed.step (h : s.Framed aead st) {e : Event} {u : Streaming}
    (hstep : s.step aead st e = some u) : u.Framed aead st := by
  have hemitted := h.emitted
  cases move_of_step hstep with
  | handle e e' handle he hhandle => exact ⟨h.frames, hemitted⟩
  | leave hphase hcancelled => exact h.finish (by rw [hphase]; exact nofun)
  | race hphase hcancelled =>
      rw [hphase] at hemitted
      exact ⟨h.frames, hemitted⟩
  | get handle x hphase hhandle hlast =>
      rw [hphase] at hemitted
      exact ⟨h.frames, hemitted⟩
  | stop hphase houtcome => exact h.finish (by rw [hphase]; exact nofun)
  | broken x hphase hx =>
      rw [hphase] at hemitted
      exact ⟨h.frames, hemitted⟩
  | chunk n payload hphase hpayload =>
      exact h.sealNext (by rw [hphase]; exact nofun) _ _ _ ⟨hpayload, rfl⟩
  | timeout hphase => exact h.sealNext (by rw [hphase]; exact nofun) _ _ _ ⟨rfl, rfl⟩
  | abort hphase => exact h.finish (by rw [hphase]; exact nofun)
  | elsewhere p => exact ⟨h.frames, hemitted⟩

/-- A stream that has run emits sealed envelopes. -/
theorem framed_of_run {p : Process} {ok : Streaming → Event → Streaming → Prop}
    (h : Run (step aead st) ok (start p) s) : s.Framed aead st :=
  Run.invariant (Framed aead st) (framed_start p)
    (fun _ _ _ ht _ (hstep : Streaming.step aead st _ _ = _) => ht.step hstep) h

end Streaming

end Llm

end SecureLlm
