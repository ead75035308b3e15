import SecureLlm.Client.Errors
import SecureLlm.Library.Transition

/-!
# Conversations

A conversation keeps the messages of a chat, so that each send shows the model the
turns before it. The user's message is put into the history before the request is
made, and stays there if the request fails. From then on the model sees a message
that nothing answers.

What validates the request and the response is an argument, and what the transport
makes of the request is part of the event.

## Main definitions

* `Conversation`, `Conversation.send`, `Conversation.clear`: As in the source.
* `Talk`, `Talk.step`: A conversation with the turns it has completed.
* `Talk.Recorded`: The history is that of the completed turns.
* `Talk.Answered`: A send gets an answer.

## Theorems

* `Conversation.send_error`, `Conversation.send_ok`: What a send leaves behind.
* `Talk.run_recorded_iff`: In which runs the history is that of the completed turns.
-/

namespace SecureLlm

open Library Transition

namespace Client

/-- A message: its role and its content. -/
structure Message where
  role : String
  content : String
  deriving DecidableEq

/-- Whatever a send raises. -/
inductive SendError where
  | raised (e : Raised)
  | validationError
  | typeError
  | indexError

-- What `ChatCompletionRequest` makes of the arguments, for the wire, and
-- `ChatCompletionResponse` of an answer, whose choices hold a message each.
variable (validate : String → List Message → List (String × Json) → Option Json)
  (parse : Json → Option (List Message))

/-- `create`, not streaming. A keyword that is given twice is no call at all. -/
def create (request : Json → Except Raised Json) (model : String) (messages : List Message)
    (kwargs : List (String × Json)) : Except SendError (List Message) :=
  if kwargs.any fun entry => entry.1 ∈ ["model", "messages", "stream"] then .error .typeError
  else
    match validate model messages kwargs with
    | none => .error .validationError
    | some payload =>
      match request payload with
      | .error e => .error (.raised e)
      | .ok data =>
        match parse data with
        | none => .error .validationError
        | some choices => .ok choices

variable {validate parse} in
/-- When it returns. -/
theorem create_eq_ok_iff {request : Json → Except Raised Json} {model : String}
    {messages choices : List Message} {kwargs : List (String × Json)} :
    create validate parse request model messages kwargs = .ok choices ↔
      (kwargs.any fun entry => entry.1 ∈ ["model", "messages", "stream"]) = false ∧
        ∃ payload data, validate model messages kwargs = some payload ∧
          request payload = .ok data ∧ parse data = some choices := by
  unfold create
  cases (kwargs.any fun entry => entry.1 ∈ ["model", "messages", "stream"]) with
  | true => simp
  | false =>
      cases hvalid : validate model messages kwargs with
      | none => simp
      | some payload =>
          cases hrequest : request payload with
          | error e => simp [hrequest]
          | ok data =>
              cases hparse : parse data with
              | none => simp [hrequest, hparse]
              | some choices' => simp [hrequest, hparse]

/-- `_Conversation`. -/
structure Conversation where
  model : String
  messages : List Message

namespace Conversation

/-- The system message, if there is one. -/
def systemMessages (system : Option String) : List Message :=
  ((system.filter (· ≠ "")).map fun content => ⟨"system", content⟩).toList

def new (model : String) (system : Option String) : Conversation :=
  ⟨model, systemMessages system⟩

/-- `send`. -/
def send (conv : Conversation) (request : Json → Except Raised Json) (content : String)
    (kwargs : List (String × Json)) : Conversation × Except SendError String :=
  let conv := { conv with messages := conv.messages ++ [⟨"user", content⟩] }
  match create validate parse request conv.model conv.messages kwargs with
  | .error e => (conv, .error e)
  -- `resp.choices[0].message.content`
  | .ok [] => (conv, .error .indexError)
  | .ok (choice :: _) =>
    let reply := choice.content
    ({ conv with messages := conv.messages ++ [⟨"assistant", reply⟩] }, .ok reply)

/-- `clear`. -/
def clear (conv : Conversation) : Conversation :=
  { conv with messages := conv.messages.filter fun m => m.role = "system" }

variable {validate parse} {conv : Conversation} {request : Json → Except Raised Json}
  {content : String} {kwargs : List (String × Json)}

/-- A send that raises leaves the user's message behind. -/
theorem send_error {e : SendError}
    (h : (conv.send validate parse request content kwargs).2 = .error e) :
    (conv.send validate parse request content kwargs).1.messages
      = conv.messages ++ [⟨"user", content⟩] := by
  unfold send at h ⊢
  dsimp only at h ⊢
  split
  · rfl
  · rfl
  · rename_i hcreate
    rw [hcreate] at h
    cases h

/-- One that returns leaves the turn. -/
theorem send_ok {reply : String}
    (h : (conv.send validate parse request content kwargs).2 = .ok reply) :
    (conv.send validate parse request content kwargs).1.messages
      = conv.messages ++ [⟨"user", content⟩, ⟨"assistant", reply⟩] := by
  unfold send at h ⊢
  dsimp only at h ⊢
  split
  · rename_i hcreate
    rw [hcreate] at h
    cases h
  · rename_i hcreate
    rw [hcreate] at h
    cases h
  · rename_i hcreate
    rw [hcreate] at h
    rw [← Except.ok.inj h, List.append_assoc, List.singleton_append]

end Conversation

/-- What is called on a conversation. A send comes with what the transport makes of
    its request. -/
inductive TalkEvent where
  | send (content : String) (kwargs : List (String × Json))
      (request : Json → Except Raised Json)
  | clear

/-- A conversation, with what each send since the last clear that returned was given
    and gave back. -/
structure Talk where
  conv : Conversation
  turns : List (String × String)

namespace Talk

def start (model : String) (system : Option String) : Talk := ⟨.new model system, []⟩

/-- A call on the conversation. What a send raises is caught, and the conversation
    goes on. -/
def step (t : Talk) : TalkEvent → Option Talk
  | .send content kwargs request =>
    match t.conv.send validate parse request content kwargs with
    | (conv, .error _) => some ⟨conv, t.turns⟩
    | (conv, .ok reply) => some ⟨conv, t.turns ++ [(content, reply)]⟩
  | .clear => some ⟨t.conv.clear, []⟩

/-- The messages of a turn. -/
def turnMessages (turn : String × String) : List Message :=
  [⟨"user", turn.1⟩, ⟨"assistant", turn.2⟩]

/-- The history is the system message and then the turns that were completed. -/
def Recorded (system : Option String) (t : Talk) : Prop :=
  t.conv.messages = Conversation.systemMessages system ++ t.turns.flatMap turnMessages

/-- What is sent is a request, and it gets an answer in which there is a choice. -/
def Answered (t : Talk) : TalkEvent → Prop
  | .send content kwargs request =>
    (kwargs.any fun entry => entry.1 ∈ ["model", "messages", "stream"]) = false ∧
      ∃ payload data choice rest,
        validate t.conv.model (t.conv.messages ++ [⟨"user", content⟩]) kwargs = some payload ∧
        request payload = .ok data ∧ parse data = some (choice :: rest)
  | .clear => True

variable {validate parse}

/-- The sends that are answered are those that return. -/
theorem answered_iff (t : Talk) (content : String) (kwargs : List (String × Json))
    (request : Json → Except Raised Json) :
    Answered validate parse t (.send content kwargs request) ↔
      ∃ reply, (t.conv.send validate parse request content kwargs).2 = .ok reply := by
  unfold Conversation.send
  dsimp only
  constructor
  · rintro ⟨hkwargs, payload, data, choice, rest, hvalid, hrequest, hparse⟩
    rw [create_eq_ok_iff.mpr ⟨hkwargs, payload, data, hvalid, hrequest, hparse⟩]
    exact ⟨_, rfl⟩
  · rintro ⟨reply, h⟩
    split at h
    · cases h
    · cases h
    · rename_i choice rest hcreate
      rcases create_eq_ok_iff.mp hcreate with ⟨hkwargs, payload, data, hvalid, hrequest, hparse⟩
      exact ⟨hkwargs, payload, data, choice, rest, hvalid, hrequest, hparse⟩

/-- A clear leaves the system message. -/
theorem clear_recorded {system : Option String} {t : Talk} (h : t.Recorded system) :
    t.conv.clear.messages = Conversation.systemMessages system := by
  rw [Conversation.clear]
  dsimp only
  rw [h, List.filter_append]
  have hsystem : (Conversation.systemMessages system).filter (fun m => m.role = "system")
      = Conversation.systemMessages system := by
    refine List.filter_eq_self.mpr fun m hm => ?_
    rw [Conversation.systemMessages, Option.mem_toList] at hm
    rcases Option.map_eq_some_iff.mp hm with ⟨content, -, rfl⟩
    rfl
  have hturns : (t.turns.flatMap turnMessages).filter (fun m => m.role = "system") = [] := by
    refine List.filter_eq_nil_iff.mpr fun m hm => ?_
    rcases List.mem_flatMap.mp hm with ⟨turn, -, hturn⟩
    rw [turnMessages, List.mem_cons, List.mem_singleton] at hturn
    rcases hturn with rfl | rfl
    · simp
    · simp
  rw [hsystem, hturns, List.append_nil]

theorem step_error {t : Talk} {content : String} {kwargs : List (String × Json)}
    {request : Json → Except Raised Json} {e : SendError}
    (h : (t.conv.send validate parse request content kwargs).2 = .error e) :
    t.step validate parse (.send content kwargs request)
      = some ⟨(t.conv.send validate parse request content kwargs).1, t.turns⟩ := by
  rw [step]
  split
  · rename_i hsend
    rw [hsend]
  · rename_i hsend
    rw [hsend] at h
    cases h

theorem step_ok {t : Talk} {content : String} {kwargs : List (String × Json)}
    {request : Json → Except Raised Json} {reply : String}
    (h : (t.conv.send validate parse request content kwargs).2 = .ok reply) :
    t.step validate parse (.send content kwargs request)
      = some ⟨(t.conv.send validate parse request content kwargs).1,
        t.turns ++ [(content, reply)]⟩ := by
  rw [step]
  split
  · rename_i hsend
    rw [hsend] at h
    cases h
  · rename_i hsend
    rw [hsend] at h ⊢
    rw [Except.ok.inj h]

/-- From a history of completed turns a step leads to one just when a send in it is
    answered. -/
theorem step_recorded_iff {system : Option String} {t u : Talk} {e : TalkEvent}
    (ht : t.Recorded system) (h : t.step validate parse e = some u) :
    t.Answered validate parse e ↔ u.Recorded system := by
  cases e with
  | clear =>
      refine iff_of_true trivial ?_
      rw [← Option.some.inj h, Recorded, clear_recorded ht]
      exact (List.append_nil _).symm
  | send content kwargs request =>
      rw [answered_iff]
      cases hresult : (t.conv.send validate parse request content kwargs).2 with
      | error e =>
          -- The turns are as before, and there is a message more.
          rw [step_error hresult] at h
          refine iff_of_false (by simp) ?_
          rw [← Option.some.inj h, Recorded]
          dsimp only
          rw [Conversation.send_error hresult, ht, List.append_assoc]
          simp
      | ok reply =>
          rw [step_ok hresult] at h
          refine iff_of_true ⟨reply, rfl⟩ ?_
          rw [← Option.some.inj h, Recorded]
          dsimp only
          rw [Conversation.send_ok hresult, ht, List.flatMap_append, List.flatMap_singleton,
            List.append_assoc]
          rfl

/-- **In which runs the history is that of the completed turns.** In those in which
    every send is answered. A send that is not raises, and leaves the user's message
    behind. -/
theorem run_recorded_iff (validate : String → List Message → List (String × Json) → Option Json)
    (parse : Json → Option (List Message)) (model : String) (system : Option String) (t : Talk) :
    (Run (step validate parse) (fun s e _ => s.Answered validate parse e) (start model system) t ↔
      Run (step validate parse) (fun _ _ u => u.Recorded system) (start model system) t) ∧
    ∀ (s : Talk) (content : String) (kwargs : List (String × Json))
      (request : Json → Except Raised Json),
      (s.Answered validate parse (.send content kwargs request) ↔
        ∀ e, (s.conv.send validate parse request content kwargs).2 = .error e →
          (s.conv.send validate parse request content kwargs).1 = s.conv) ∧
      (¬ s.Answered validate parse (.send content kwargs request) →
        (s.conv.send validate parse request content kwargs).1.messages
          = s.conv.messages ++ [⟨"user", content⟩]) := by
  constructor
  · refine run_iff (fun _ => True) (Recorded system) (fun s e => s.Answered validate parse e)
      trivial ?_ (fun _ _ _ _ _ => trivial) (fun _ _ _ _ hs h => step_recorded_iff hs h)
    rw [Recorded]
    exact (List.append_nil _).symm
  · intro s content kwargs request
    rw [answered_iff]
    cases hresult : (s.conv.send validate parse request content kwargs).2 with
    | error e =>
        have hmessages := Conversation.send_error hresult
        refine ⟨iff_of_false (by simp) ?_, fun _ => hmessages⟩
        intro hsame
        rw [hsame e rfl] at hmessages
        simp at hmessages
    | ok reply =>
        refine ⟨iff_of_true ⟨reply, rfl⟩ ?_, fun hno => absurd ⟨reply, rfl⟩ hno⟩
        intro e he
        cases he

/-- An answer that is read as one choice. -/
def parseSample : Json → Option (List Message)
  | .string text => some [⟨"assistant", text⟩]
  | _ => none

/-- The first request of a conversation fails, and the second one is answered. The
    first message is still there. -/
theorem not_recorded_after_error :
    ¬ ∀ t, Run (step (fun _ _ _ => some .null) parseSample) anyStep (start "m" none) t →
      Recorded none t := by
  intro h
  have hbad := h _ (run_of_play [.send "a" [] fun _ => .error (raiseError "" .rateLimited),
    .send "b" [] fun _ => .ok (.string "r")] rfl)
  exact absurd hbad (by unfold Recorded; decide)

end Talk

end Client

end SecureLlm
