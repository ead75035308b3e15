import Mathlib.Data.List.Forall2
import SecureLlm.Client.Calls

/-!
# Iterating a Stream

The loop of `stream_request` over the lines of the body. It ends when the body
does, or at the end marker, or when a line raises. Up to the end it yields one
payload for each data line, and a data line is an envelope that opens, is new to
the replay check, and holds JSON.

## Main definitions

* `readLines`: What the iteration yields and what it raises.
* `dataLines`: The lines it comes to that are not skipped.
* `eventLine`: The line of an event.

## Theorems

* `readLine_event`: An event with an envelope that opens is read.
* `readLines_ends_iff`: When it ends, and with what.
* `Shared.play_readLines`: A call of a transport reads its lines so.
-/

namespace SecureLlm

open Library Transition

namespace Client

variable (aead : Aead) (loads : Bytes → Except Exc Json) (outcome : HandshakeOutcome)
  (method path : String)

/-- What the iteration over the lines of a body yields, and what it raises, if it
    does not end. -/
def readLines : ReplayClient → List String → List Json × Option Raised
  | _, [] => ([], none)
  | replay, line :: lines =>
    match readLine aead outcome method path line with
    | .skipped => readLines replay lines
    | .done => ([], none)
    | .failed e => ([], some e)
    | .sealed counter plaintext =>
      match replay.check counter with
      | .error e => ([], some e)
      | .ok replay =>
        match parsePayload loads plaintext with
        | .error e => ([], some e)
        | .ok value =>
          let (values, raised) := readLines replay lines
          (value :: values, raised)

/-- The lines up to the end marker, but for those that are skipped. -/
def dataLines : List String → List Line
  | [] => []
  | line :: lines =>
    match readLine aead outcome method path line with
    | .skipped => dataLines lines
    | .done => []
    | data => data :: dataLines lines

/-- The line of an event. -/
def eventLine (envelope : Bytes) : String := "data: " ++ b64encode envelope

/-- No character of an encoded text is a blank. -/
theorem isSpace_of_isB64 {c : Char} (h : IsB64 c) : isSpace c = false := by
  unfold IsB64 at h
  unfold isSpace
  simp only [Bool.or_eq_false_iff, Bool.and_eq_false_iff, decide_eq_false_iff_not,
    beq_eq_false_iff_ne]
  omega

theorem toList_eventLine (envelope : Bytes) : (eventLine envelope).toList =
    'd' :: 'a' :: 't' :: 'a' :: ':' :: ' ' :: b64encodeChars envelope := by
  rw [eventLine, String.toList_append, b64encode, String.toList_ofList, String.toList_ofList]
  rfl

/-- The line of an event carries the text of its envelope. -/
theorem strip_eventLine (envelope : Bytes) :
    strip (String.ofList ((eventLine envelope).toList.drop 5)) = b64encode envelope := by
  rw [toList_eventLine]
  exact strip_blank_cons _ fun c hc => isSpace_of_isB64 (isB64_of_mem envelope c hc)

/-- An event with an envelope that opens is read. -/
theorem readLine_event {aead : Aead} {outcome : HandshakeOutcome} {method path : String}
    {envelope : Bytes} {env : Envelope} {plaintext : Bytes}
    (h : SecureLlm.openEnvelope aead outcome.s2c outcome.sessionId method.toUpper path envelope =
      .ok (env, plaintext)) :
    readLine aead outcome method path (eventLine envelope) = .sealed env.counter plaintext := by
  have hstart : ∀ start : String, startsWith (eventLine envelope) start =
      start.toList.isPrefixOf
        ('d' :: 'a' :: 't' :: 'a' :: ':' :: ' ' :: b64encodeChars envelope) := by
    intro start
    rw [startsWith, toList_eventLine]
  -- The end marker has a bracket.
  have hmarker : b64encode envelope ≠ "[DONE]" := by
    intro heq
    have hmem : '[' ∈ b64encodeChars envelope := by
      have hlist := congrArg String.toList heq
      rw [b64encode, String.toList_ofList] at hlist
      rw [hlist]
      decide
    exact (isB64_of_mem envelope '[' hmem).2.2 rfl
  unfold readLine
  -- The line is not blank, not a comment, and has the field name.
  rw [if_neg, if_neg, if_neg]
  · dsimp only
    rw [strip_eventLine, if_neg hmarker, b64decode_b64encode]
    dsimp only
    rw [Client.openEnvelope_eq, h]
  · rw [hstart]
    exact not_not.mpr rfl
  · rw [hstart]
    exact Bool.false_ne_true
  · intro heq
    have hlist := congrArg String.toList heq
    rw [toList_eventLine] at hlist
    cases hlist

theorem readLine_blank {aead : Aead} {outcome : HandshakeOutcome} {method path : String} :
    readLine aead outcome method path "" = .skipped := by
  rw [readLine, if_pos rfl]

theorem readLine_marker {aead : Aead} {outcome : HandshakeOutcome} {method path : String} :
    readLine aead outcome method path "data: [DONE]" = .done := by
  rw [readLine, if_neg (by decide), if_neg (by decide), if_neg (by decide)]
  exact if_pos (by decide)

section

variable {aead outcome method path} {line : String} (lines : List String)

theorem dataLines_sealed {counter : ℕ} {plaintext : Bytes}
    (h : readLine aead outcome method path line = .sealed counter plaintext) :
    dataLines aead outcome method path (line :: lines) =
      .sealed counter plaintext :: dataLines aead outcome method path lines := by
  rw [dataLines, h]

theorem dataLines_skipped (h : readLine aead outcome method path line = .skipped) :
    dataLines aead outcome method path (line :: lines) =
      dataLines aead outcome method path lines := by
  rw [dataLines, h]

theorem dataLines_done (h : readLine aead outcome method path line = .done) :
    dataLines aead outcome method path (line :: lines) = [] := by
  rw [dataLines, h]

end

/-- An envelope that opened, as a line. -/
def Line.ofOpened (x : ℕ × Bytes) : Line := .sealed x.1 x.2

/-- **When the iteration ends.** It ends exactly if the data lines are envelopes that
    open, whose counters the replay check accepts one after the other and whose
    plaintexts parse. It has then yielded their payloads. -/
theorem readLines_ends_iff (replay : ReplayClient) (lines : List String) (values : List Json) :
    readLines aead loads outcome method path replay lines = (values, none) ↔
      ∃ xs : List (ℕ × Bytes), dataLines aead outcome method path lines = xs.map Line.ofOpened ∧
        (∃ r, replay.checkAll (xs.map Prod.fst) = .ok r) ∧
        List.Forall₂ (fun x value => parsePayload loads x.2 = .ok value) xs values := by
  induction lines generalizing replay values with
  | nil =>
      constructor
      · intro h
        rw [← (Prod.mk.inj h).1]
        exact ⟨[], rfl, ⟨replay, rfl⟩, .nil⟩
      · rintro ⟨xs, hxs, -, hvalues⟩
        rw [List.map_eq_nil_iff.mp hxs.symm] at hvalues
        cases hvalues
        rfl
  | cons line lines ih =>
      unfold readLines dataLines
      cases hline : readLine aead outcome method path line with
      | skipped => exact ih replay values
      | done =>
          constructor
          · intro h
            rw [← (Prod.mk.inj h).1]
            exact ⟨[], rfl, ⟨replay, rfl⟩, .nil⟩
          · rintro ⟨xs, hxs, -, hvalues⟩
            rw [List.map_eq_nil_iff.mp hxs.symm] at hvalues
            cases hvalues
            rfl
      | failed e =>
          -- It raises, and the line is not an envelope that opens.
          refine iff_of_false (fun h => Option.some_ne_none e (Prod.mk.inj h).2) ?_
          rintro ⟨xs, hxs, -, -⟩
          cases xs with
          | nil => cases hxs
          | cons x xs => cases (List.cons.inj hxs).1
      | sealed counter plaintext =>
          dsimp only
          constructor
          · intro h
            cases hcheck : replay.check counter with
            | error e =>
                rw [hcheck] at h
                cases (Prod.mk.inj h).2
            | ok replay' =>
                rw [hcheck] at h
                cases hparse : parsePayload loads plaintext with
                | error e =>
                    rw [hparse] at h
                    cases (Prod.mk.inj h).2
                | ok value =>
                    rw [hparse] at h
                    rcases Prod.mk.inj h with ⟨hvalues, hraised⟩
                    -- What it raises later, it raises.
                    rcases (ih replay' _).mp (Prod.ext rfl hraised) with
                      ⟨xs, hxs, ⟨r, hr⟩, hrest⟩
                    refine ⟨(counter, plaintext) :: xs, ?_, ⟨r, ?_⟩, ?_⟩
                    · rw [hxs]
                      rfl
                    · rw [List.map_cons, ReplayClient.checkAll, hcheck]
                      exact hr
                    · rw [← hvalues]
                      exact .cons hparse hrest
          · rintro ⟨xs, hxs, ⟨r, hr⟩, hvalues⟩
            cases xs with
            | nil => cases hxs
            | cons x xs =>
                rcases List.cons.inj hxs with ⟨hx, hrest⟩
                rcases Line.sealed.inj hx with ⟨hcounter, hplaintext⟩
                cases hvalues with
                | cons hparse hforall =>
                    rw [List.map_cons, ReplayClient.checkAll, ← hcounter] at hr
                    rw [← hplaintext] at hparse
                    cases hcheck : replay.check counter with
                    | error e =>
                        rw [hcheck] at hr
                        cases hr
                    | ok replay' =>
                        rw [hcheck] at hr
                        rw [hparse]
                        dsimp only
                        rw [(ih replay' _).mpr ⟨xs, hrest, ⟨r, hr⟩, hforall⟩]

variable {aead loads}

/-- A call that reads a stream takes the lines in their order as far as the
    iteration goes, and then the end of the body, and has yielded what the
    iteration yields when it is over. -/
theorem Shared.play_readLines (lines : List String) {t : Shared} {i : ℕ} {c : Call} {s : ℕ}
    {state : SessionState} {replay : ReplayClient} (hcall : t.calls i = some c)
    (hphase : c.phase = .reading s) (hstate : t.sessions[s]? = some state)
    (hreplay : t.replays[t.replay]? = some replay) :
    ∃ es u c', es <+: lines.map (Event.line i) ++ [.finish i] ∧
      play (step aead loads) t es = some u ∧ u.calls i = some c' ∧
      c'.yielded = c.yielded ++
        (readLines aead loads state.outcome c.ask.method c.ask.path replay lines).1 ∧
      c'.phase = .over
        (match (readLines aead loads state.outcome c.ask.method c.ask.path replay lines).2 with
          | none => .ok none
          | some e => .error e) := by
  induction lines generalizing t c replay with
  | nil =>
      refine ⟨[.finish i], t.goto i c (.over (.ok none)), _, List.prefix_refl _, ?_,
        Function.update_self _ _ _, (List.append_nil _).symm, rfl⟩
      simp only [play, step, hcall, hphase, Option.bind_some]
  | cons line lines ih =>
      have hstep : t.step aead loads (.line i line) =
          some (t.readLine aead loads i c s state.outcome replay line) := by
        simp only [step, hcall, hphase, hstate, hreplay]
      -- An event that the call ends with.
      have hends : ∀ (v : Shared) (c' : Call) (values : List Json) (raised : Option Raised),
          t.readLine aead loads i c s state.outcome replay line = v → v.calls i = some c' →
          c'.yielded = c.yielded ++ values → c'.phase = .over (match raised with
            | none => .ok none
            | some e => .error e) →
          ∃ es u c', es <+: (line :: lines).map (Event.line i) ++ [.finish i] ∧
            play (step aead loads) t es = some u ∧ u.calls i = some c' ∧
            c'.yielded = c.yielded ++ values ∧ c'.phase = .over (match raised with
              | none => .ok none
              | some e => .error e) := by
        intro v c' values raised hv hcall' hyielded hover
        refine ⟨[.line i line], v, c', ?_, ?_, hcall', hyielded, hover⟩
        · exact List.cons_prefix_cons.mpr ⟨rfl, List.nil_prefix⟩
        · rw [play, hstep, hv]
          rfl
      -- An event after which it goes on.
      have hgoes : ∀ (v : Shared) (c' : Call) (replay' : ReplayClient),
          t.readLine aead loads i c s state.outcome replay line = v → v.calls i = some c' →
          c'.phase = .reading s → c'.ask = c.ask → v.sessions[s]? = some state →
          v.replays[v.replay]? = some replay' →
          ∃ es u c'', es <+: (line :: lines).map (Event.line i) ++ [.finish i] ∧
            play (step aead loads) t es = some u ∧ u.calls i = some c'' ∧
            c''.yielded = c'.yielded ++
              (readLines aead loads state.outcome c.ask.method c.ask.path replay' lines).1 ∧
            c''.phase = .over (match
              (readLines aead loads state.outcome c.ask.method c.ask.path replay' lines).2 with
              | none => .ok none
              | some e => .error e) := by
        intro v c' replay' hv hcall' hphase' hask hstate' hreplay'
        rcases ih hcall' hphase' hstate' hreplay' with ⟨es, u, c'', hes, hplay, hrest⟩
        rw [hask] at hrest
        refine ⟨.line i line :: es, u, c'', List.cons_prefix_cons.mpr ⟨rfl, hes⟩, ?_, hrest⟩
        rw [play, hstep, hv]
        exact hplay
      unfold readLines
      unfold Shared.readLine at hends hgoes
      cases hline : Client.readLine aead state.outcome c.ask.method c.ask.path line with
      | skipped =>
          rw [hline] at hgoes
          exact hgoes t c replay rfl hcall hphase rfl hstate hreplay
      | done =>
          rw [hline] at hends
          exact hends _ _ [] none rfl (Function.update_self _ _ _) (List.append_nil _).symm rfl
      | failed e =>
          rw [hline] at hends
          exact hends _ _ [] (some e) rfl (Function.update_self _ _ _) (List.append_nil _).symm rfl
      | sealed counter plaintext =>
          rw [hline] at hends hgoes
          dsimp only at hends hgoes ⊢
          unfold Shared.check at hends hgoes
          cases hcheck : replay.check counter with
          | error e =>
              rw [hcheck] at hends
              exact hends _ _ [] (some e) rfl (Function.update_self _ _ _)
                (List.append_nil _).symm rfl
          | ok replay' =>
              rw [hcheck] at hends hgoes
              dsimp only at hends hgoes ⊢
              cases hparse : parsePayload loads plaintext with
              | error e =>
                  rw [hparse] at hends
                  exact hends _ _ [] (some e) rfl (Function.update_self _ _ _)
                    (List.append_nil _).symm rfl
              | ok value =>
                  rw [hparse] at hgoes
                  -- The check that the call has left is the transport's.
                  rcases hgoes _ _ replay' rfl (Function.update_self _ _ _) rfl rfl hstate
                    (List.getElem?_set_self (List.getElem?_eq_some_iff.mp hreplay).1) with
                    ⟨es, u, c', hes, hplay, hc', hyielded, hover⟩
                  refine ⟨es, u, c', hes, hplay, hc', ?_, hover⟩
                  rw [hyielded, List.append_assoc]
                  rfl

end Client

end SecureLlm
