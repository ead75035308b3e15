import SecureLlm.Observability.Status

/-!
# Debug Endpoints

The endpoints under `/v1/debug` that show what the server recorded. `logs`
filters the ring log by the fingerprint of a session that is not an admin's.
`status` takes the last entries of the same log as they are.

So what a session without the admin scope gets from `logs` is its own, and what
it gets from `status` is its own only as long as nobody else leaves an entry.

## Main definitions

* `LogQuery`, `ErrorQuery`: What a client asks for.
* `debugStatus`, `debugLogs`, `debugErrors`: The payloads.
* `DebugRequest.entries`: The log entries in a response.
* `DebugRequest.OwnOnly`: When there are none of others in it.

## Theorems

* `debug_entries_own_iff`: When a session without the admin scope gets only
  entries of its own.
* `status_shows_foreign_entry`: The entry of another client in `status`.
-/

namespace SecureLlm

open Library

/-- The query of `logs`. -/
structure LogQuery where
  limit : ℕ := 200
  level : Option String := none
  component : Option String := none
  since : Option ℚ := none
  bounds : 1 ≤ limit ∧ limit ≤ 2000

/-- The query of `errors`. -/
structure ErrorQuery where
  limit : ℕ := 50
  bounds : 1 ≤ limit ∧ limit ≤ 500

/-- The arguments of `tail` for a query. -/
def LogQuery.filter (q : LogQuery) (fp : Option String) : LogFilter where
  limit := q.limit
  level := q.level
  component := q.component
  since := q.since
  clientFingerprint := fp

section

variable {limits : Limits} (lower : String → String) (state : AppState limits) (session : Session)

/-- `/v1/debug/status`. -/
def debugStatus : DebugStatus := state.debugStatus lower

/-- `/v1/debug/logs`. -/
def debugLogs (q : LogQuery) : List LogEntry :=
  let fp := if "admin" ∈ session.scopes then none else some session.clientFingerprint
  state.ring.tail lower (q.filter fp)

/-- `/v1/debug/errors`. -/
def debugErrors (q : ErrorQuery) : List ErrorSummary :=
  (state.errors.recent q.limit).map (·.summary)

/-- An endpoint that shows log entries. -/
inductive DebugRequest where
  | status
  | logs (q : LogQuery)

/-- The log entries in the response. -/
def DebugRequest.entries : DebugRequest → List LogEntry
  | .status => (debugStatus lower state).recentLogs
  | .logs q => debugLogs lower state session q

/-- The entry is one of the session's client. -/
def OwnEntry (e : LogEntry) : Prop :=
  e.fields.get? "client_fp" = some (.text session.clientFingerprint)

/-- Of `status` the last fifty entries are the client's own. Of `logs` they are
    without condition, unless the fingerprint is the empty string, which filters
    nothing. -/
def DebugRequest.OwnOnly : DebugRequest → Prop
  | .status => ∀ e ∈ state.ring.buf.rtake 50, OwnEntry session e
  | .logs q => session.clientFingerprint ≠ "" ∨
      ∀ e ∈ (q.filter none).shows lower state.ring.buf, OwnEntry session e

variable {lower state session}

/-- What a fingerprint that is not empty lets through is the client's own. -/
theorem ownEntry_of_admits {f : LogFilter} {e : LogEntry} (hfp : session.clientFingerprint ≠ "")
    (hf : f.clientFingerprint = some session.clientFingerprint) (h : f.admits lower e) :
    OwnEntry session e := by
  have hgiven : given f.clientFingerprint = some session.clientFingerprint := by
    rw [hf, given, Option.filter_some, if_pos (by simpa using hfp)]
  unfold LogFilter.admits LogFilter.otherClient at h
  rw [hgiven, Option.any_some, Bool.and_eq_true] at h
  simpa [OwnEntry] using h.2

/-- An empty fingerprint filters as none does. -/
theorem shows_empty (q : LogQuery) (entries : List LogEntry) :
    (q.filter (some "")).shows lower entries = (q.filter none).shows lower entries := rfl

/-- `status` shows the last fifty entries. -/
theorem recentLogs_status : (debugStatus lower state).recentLogs = state.ring.buf.rtake 50 :=
  RingLog.tail_limit state.ring 50

end

/-- **When a session without the admin scope gets only entries of its own.** -/
theorem debug_entries_own_iff {limits : Limits} (lower : String → String) (state : AppState limits)
    (session : Session) (hadmin : "admin" ∉ session.scopes) (request : DebugRequest) :
    (∀ e ∈ request.entries lower state session, OwnEntry session e) ↔
      request.OwnOnly lower state session := by
  cases request with
  | status => rw [DebugRequest.entries, recentLogs_status, DebugRequest.OwnOnly]
  | logs q =>
      rw [DebugRequest.entries, debugLogs, DebugRequest.OwnOnly]
      simp only [if_neg hadmin]
      by_cases hfp : session.clientFingerprint = ""
      · rw [RingLog.tail_eq, hfp, shows_empty]
        exact ⟨Or.inr, fun h => h.resolve_left (fun hne => hne rfl)⟩
      · refine iff_of_true (fun e he => ?_) (Or.inl hfp)
        exact ownEntry_of_admits hfp rfl (RingLog.mem_tail he).2

/-- An entry of a client. -/
def LogEntry.sample (fp : String) : LogEntry where
  ts := 0
  level := "info"
  component := "secure_llm_server.audit"
  event := "handshake.ok"
  fields := Dict.empty.set "client_fp" (.text fp)

/-- A server that has logged one entry, of another client. -/
def AppState.sample : AppState ⟨1, 10000, 1000⟩ :=
  { AppState.start ⟨1, 10000, 1000⟩ .sample with
    ring := ⟨[.sample "bob"], by decide⟩ }

/-- A session of a client without scopes. -/
def Session.sample (fp : String) : Session := { (default : Session) with clientFingerprint := fp }

theorem debug_entries_own_iff_sample :
    "admin" ∉ (Session.sample "alice").scopes ∧
      ((∀ e ∈ (DebugRequest.logs ⟨200, none, none, none, by decide⟩).entries id .sample
          (.sample "alice"), OwnEntry (.sample "alice") e) ↔
        (DebugRequest.logs ⟨200, none, none, none, by decide⟩).OwnOnly id .sample
          (.sample "alice")) :=
  ⟨nofun, debug_entries_own_iff id .sample (.sample "alice") nofun
    (.logs ⟨200, none, none, none, by decide⟩)⟩

/-- `status` shows a client without the admin scope the entry of another. -/
theorem status_shows_foreign_entry :
    ∃ e ∈ DebugRequest.status.entries id AppState.sample (.sample "alice"),
      "admin" ∉ (Session.sample "alice").scopes ∧ ¬ OwnEntry (.sample "alice") e := by
  refine ⟨.sample "bob", ?_, nofun, ?_⟩
  · exact List.mem_singleton.mpr rfl
  · intro h
    have hother : (LogEntry.sample "bob").fields.get? "client_fp" ≠ some (.text "alice") := by
      decide
    exact hother h

end SecureLlm
