import SecureLlm.Client.Decode
import SecureLlm.Crypto.Binding
import SecureLlm.Library.Recorded
import SecureLlm.Server.Delivery
import SecureLlm.Server.Standing

/-!
# The Channel

A client and a server, from the handshake on. The client seals requests under its
counter, the network brings them to the server in any order and as often as it
likes or not at all, handlers answer the ones that were accepted, and the client
reads the answers, again in any order. All the while the server does whatever
others want of it.

What is asked of a run is what the code cannot do without: the session is used in
time, no request is overtaken by more than its window holds, no counter leaves its
64 bits, and nobody else ends the session. Then nothing gets lost on the way. Every
request is opened to what the client sealed the first time it arrives, and refused
as a replay after that; every answer is read as what the handler sealed.

## Main definitions

* `Channel`, `Channel.step`: The two parties and what is between them.
* `Channel.Smooth`: What is asked of a step.
* `Channel.Faithful`: Nothing gets lost.
* `Channel.Upright`: The invariant.

## Theorems

* `Channel.Upright.deliver`, `Channel.Upright.answer`, `Channel.Upright.collect`:
  What a step makes of it.
* `Channel.Upright.step`: Each step keeps it.
* `channel_faithful`: From the handshake on, nothing gets lost.
-/

namespace SecureLlm

open Library Transition

/-- A request the client has sealed. -/
structure Posted where
  method : String
  path : String
  plaintext : Bytes
  body : Bytes

/-- An answer to one of the requests, as its handler has sealed it. -/
structure Answer where
  request : ℕ
  plaintext : Bytes
  body : Bytes

/-- The server's memory and its handlers, each with its session's object and the
    request it is for, and how often one has answered; the client's counter and
    replay check; what either has sealed; and, in order, which requests have arrived
    and what came of them, and which answers were read and as what. -/
structure Channel (V : Type) where
  proc : Process
  handlers : List (Ref × ℕ)
  tried : ℕ
  counter : ℕ
  replay : Client.ReplayClient
  posted : List Posted
  answers : List Answer
  arrived : List (ℕ × Option (Except Exc V))
  results : List (ℕ × Except Client.Raised Json)

/-- The client seals a request, a request arrives, a handler answers, the client
    reads an answer, or the server does something for somebody else. -/
inductive ChannelEvent where
  | post (method path : String) (plaintext : Bytes)
  | deliver (i : ℕ) (clock : ℕ → ℚ)
  | answer (k : ℕ) (plaintext : Bytes)
  | collect (a : ℕ)
  | other (op : Op) (clock : ℕ → ℚ)

/-- What a task has come to, if it has ended. -/
def Task.ended {α : Type} : Task α → Option (Except Exc α)
  | .done a => some (.ok a)
  | .fail e => some (.error e)
  | _ => none

/-- What a route's schema makes of a payload, as the server answers it. -/
def validated {V : Type} : Except String V → Except Exc V
  | .ok value => .ok value
  | .error message => .error (httpError .badRequest 400 message)

namespace Channel

variable {V : Type} (aead : Aead) (loads : Bytes → Except Exc Json)
  (schema : String → Bytes → Except String V) (ttl maxLife : ℤ) (outcome : HandshakeOutcome)

/-- Right after the handshake. -/
def opened (p : Process) : Channel V := ⟨p, [], 0, 0, .fresh, [], [], [], []⟩

/-- `request` up to sending it. A method that cannot be sealed uses its counter up. -/
def post (w : Channel V) (method path : String) (plaintext : Bytes) : Channel V :=
  let w := { w with counter := w.counter + 1 }
  match Client.sealEnvelope aead outcome.c2s w.counter outcome.sessionId method.toUpper path
      plaintext with
  | .ok body => { w with posted := w.posted ++ [⟨method, path, plaintext, body⟩] }
  | .error _ => w

/-- A request arrives, its method in upper case, and an accepted one gets a handler. -/
def deliver (w : Channel V) (i : ℕ) (x : Posted) (clock : ℕ → ℚ) : Channel V :=
  let r := (decryptRequest aead ⟨x.method.toUpper, x.path, x.body⟩ ⟨ttl, maxLife, InMemory.store⟩
    (schema x.path)).advance clock w.proc
  match Task.ended r.2.2 with
  | some (.ok (sess, value)) =>
    { w with
      proc := r.1
      handlers := w.handlers ++ [(sess, i)]
      arrived := w.arrived ++ [(i, some (.ok value))] }
  | some (.error e) => { w with proc := r.1, arrived := w.arrived ++ [(i, some (.error e))] }
  | none => { w with proc := r.1, arrived := w.arrived ++ [(i, none)] }

/-- A handler seals an answer to its request. -/
def answer (w : Channel V) (h : Ref × ℕ) (x : Posted) (plaintext : Bytes) : Channel V :=
  let w := { w with tried := w.tried + 1 }
  let r := (encryptResponse aead h.1 plaintext x.method.toUpper x.path none).advance (fun _ => 0)
    w.proc
  match Task.ended r.2.2 with
  | some (.ok body) => { w with proc := r.1, answers := w.answers ++ [⟨h.2, plaintext, body⟩] }
  | _ => { w with proc := r.1 }

/-- The client gets the answer to a request, and decodes it. -/
def collect (w : Channel V) (a : ℕ) (x : Posted) (y : Answer) : Channel V :=
  let r := Client.decodeResponse aead loads ⟨200, "application/octet-stream", y.body⟩ outcome
    x.method x.path w.replay
  { w with replay := r.2, results := w.results ++ [(a, r.1)] }

/-- One step. -/
def step (w : Channel V) : ChannelEvent → Option (Channel V)
  | .post method path plaintext => some (post aead outcome w method path plaintext)
  | .deliver i clock => (w.posted[i]?).map fun x => deliver aead schema ttl maxLife w i x clock
  | .answer k plaintext =>
    (w.handlers[k]?).bind fun h => (w.posted[h.2]?).map fun x => answer aead w h x plaintext
  | .collect a =>
    (w.answers[a]?).bind fun y => (w.posted[y.request]?).map fun x =>
      collect aead loads outcome w a x y
  | .other op clock =>
    some { w with proc := ((op.task aead ⟨ttl, maxLife, InMemory.store⟩).advance clock w.proc).1 }

/-- The session has neither idled too long nor become too old. -/
def InTime (w : Channel V) (now : ℚ) : Prop :=
  ∀ r, w.proc.table.get? outcome.sessionId = some r →
    now - (w.proc.heap r).lastUsedAt ≤ (w.proc.heap r).ttlSeconds ∧
      now - (w.proc.heap r).createdAt ≤ (w.proc.heap r).maxLifetimeSeconds

/-- What is asked of a step. -/
def Smooth (w : Channel V) (e : ChannelEvent) (_ : Channel V) : Prop :=
  match e with
  | .post method _ _ => IsMethod method ∧ w.counter + 1 < 2 ^ 64
  | .deliver i clock =>
    InTime outcome w (clock 0) ∧ InTime outcome w (clock 1) ∧
      -- The first time, nothing too far ahead has overtaken it.
      (i ∈ w.arrived.map Prod.fst ∨ ∀ j ∈ w.arrived.map Prod.fst, j < i + windowBits)
  | .answer _ _ => w.answers.length + 1 < 2 ^ 64
  | .collect _ => True
  | .other op clock =>
    op.target ≠ some outcome.sessionId ∧ (op = .reapExpired → ∀ n, InTime outcome w (clock n))

/-- What comes of a request: the first time, what the route's schema makes of what
    the client sealed, and after that a refusal. -/
def verdict (before : List ℕ) (i : ℕ) (x : Posted) : Except Exc V :=
  if i ∈ before then .error (httpError .replayDetected 400 "")
  else validated (schema x.path x.plaintext)

/-- Nothing gets lost: whatever was to be sealed was, each request that arrived was
    opened to what the client had sealed, and each answer, read for the first time, to
    what the handler had. -/
structure Faithful (w : Channel V) : Prop where
  posted : w.posted.length = w.counter
  answered : w.answers.length = w.tried
  requests : Each (fun before i o => ∃ x, w.posted[i]? = some x ∧
    o = some (verdict schema before i x)) w.arrived
  answers : Each (fun before a result => a ∉ before → ∃ y, w.answers[a]? = some y ∧
    result = Client.interpret loads 200 y.plaintext) w.results

/-- The window of a session after the requests that have arrived. -/
def Tracks (before : List ℕ) (window : ReplayWindow) : Prop :=
  ∃ f, window.Represents f ∧ (∀ c, c ∈ f.seen ↔ ∃ i ∈ before, c = i + 1) ∧
    (f.high = 0 ∨ f.high ∈ f.seen)

/-- The session of the handshake, open and with its keys, that has answered a
    number of times after the requests that have arrived. -/
structure Current (before : List ℕ) (answered : ℕ) (s : Session) : Prop where
  sessionId : s.sessionId = outcome.sessionId
  c2s : s.c2s = outcome.c2s
  s2c : s.s2c = outcome.s2c
  isOpen : s.closed = false
  counter : s.s2cCounter = answered
  window : Tracks before s.replay

/-- The invariant. -/
structure Upright (w : Channel V) : Prop where
  free : w.proc.Locked false
  session : ∃ r s, w.proc.Retains (Process.one r s) ∧
    Current outcome (w.arrived.map Prod.fst) w.answers.length s ∧ ∀ h ∈ w.handlers, h.1 = r
  posted : ∀ i x, w.posted[i]? = some x → IsMethod x.method ∧
    sealEnvelope aead outcome.c2s ((i + 1 : ℕ) : ℤ) outcome.sessionId x.method.toUpper x.path
      x.plaintext = .ok x.body
  answers : ∀ a y, w.answers[a]? = some y → ∃ x, w.posted[y.request]? = some x ∧
    sealEnvelope aead outcome.s2c ((a + 1 : ℕ) : ℤ) outcome.sessionId x.method.toUpper x.path
      y.plaintext = .ok y.body
  replay : w.replay = (Client.ReplayClient.checks
    (w.results.map fun e => ((e.1 + 1 : ℕ) : ℤ))).1
  faithful : Faithful loads schema w

section Window

variable {before : List ℕ} {window window' : ReplayWindow} {i : ℕ}

/-- A new session has seen nothing. -/
theorem tracks_fresh : Tracks [] ReplayWindow.fresh := by
  refine ⟨_, ReplayWindow.represents_emptyAt 0, fun c => ?_, Or.inl rfl⟩
  simp [AntiReplay.startAt]

/-- A request that has arrived is refused. -/
theorem Tracks.refuses (h : Tracks before window) (hi : i ∈ before) :
    ∃ e, window.checkAndAdvance ((i + 1 : ℕ) : ℤ) = .error e := by
  rcases h with ⟨f, hf, hseen, -⟩
  have hin : i + 1 ∈ f.seen := (hseen _).mpr ⟨i, hi, rfl⟩
  have hnot : ¬ f.Admits windowBits (i + 1) := by
    rintro (hhigh | ⟨-, hout⟩)
    · exact absurd (f.seen_le _ hin) (by omega)
    · exact hout hin
  cases hcheck : window.checkAndAdvance ((i + 1 : ℕ) : ℤ) with
  | error e => exact ⟨e, rfl⟩
  | ok window' =>
      have hadmits : window.admits (i + 1) = true :=
        (ReplayWindow.checkAndAdvance_natCast_ok_iff _ _).mp ⟨window', hcheck⟩
      exact absurd ((hf.admits_iff window f _).mp hadmits) hnot

/-- One that has not, and is not too far behind, passes. -/
theorem Tracks.passes (h : Tracks before window) (hi : i ∉ before)
    (hnear : ∀ j ∈ before, j < i + windowBits) :
    ∃ window', window.checkAndAdvance ((i + 1 : ℕ) : ℤ) = .ok window' ∧
      Tracks (before ++ [i]) window' := by
  rcases h with ⟨f, hf, hseen, hhigh⟩
  have hadmits : f.Admits windowBits (i + 1) := by
    refine Or.inr ⟨?_, fun hin => ?_⟩
    · rcases hhigh with hzero | hmem
      · rw [hzero]
        omega
      · rcases (hseen _).mp hmem with ⟨j, hj, heq⟩
        have hlt : j < i + windowBits := hnear j hj
        omega
    · rcases (hseen _).mp hin with ⟨j, hj, heq⟩
      have hsame : j = i := by omega
      exact hi (hsame ▸ hj)
  rcases (ReplayWindow.checkAndAdvance_natCast_ok_iff window (i + 1)).mpr
    ((hf.admits_iff window f _).mpr hadmits) with ⟨window', hcheck⟩
  refine ⟨window', hcheck, f.accept (i + 1), hf.checkAndAdvance _ _ _ _ hcheck, fun c => ?_, ?_⟩
  · show c ∈ insert (i + 1) f.seen ↔ _
    rw [Set.mem_insert_iff, hseen]
    simp only [List.mem_append, List.mem_singleton]
    constructor
    · rintro (rfl | ⟨j, hj, rfl⟩)
      · exact ⟨i, Or.inr rfl, rfl⟩
      · exact ⟨j, Or.inl hj, rfl⟩
    · rintro ⟨j, hj | rfl, rfl⟩
      · exact Or.inr ⟨j, hj, rfl⟩
      · exact Or.inl rfl
  · -- The watermark is the new counter or the one it was.
    refine Or.inr ?_
    show max f.high (i + 1) ∈ insert (i + 1) f.seen
    rw [Set.mem_insert_iff]
    rcases hhigh with hzero | hmem
    · rw [hzero]
      exact Or.inl (by omega)
    · by_cases hle : f.high ≤ i + 1
      · exact Or.inl (by omega)
      · rw [max_eq_left (by omega)]
        exact Or.inr hmem

end Window

section Steps

variable {aead loads schema ttl maxLife outcome} {w : Channel V}

/-- What is used in time has not expired. -/
theorem InTime.isExpired {now : ℚ} (h : InTime outcome w now) {r : Ref} {s : Session}
    (hkeeps : w.proc.Retains (Process.one r s)) (hid : s.sessionId = outcome.sessionId)
    (hopen : s.closed = false) : s.isExpired now = false := by
  have hget : w.proc.table.get? outcome.sessionId = some r := by
    rw [← hid]
    exact hkeeps.get
  rcases h r hget with ⟨hidle, hold⟩
  rw [hkeeps.heap] at hidle hold
  rw [Session.isExpired, hopen, if_neg Bool.false_ne_true, if_neg (not_lt.mpr hidle)]
  exact decide_eq_false (not_lt.mpr hold)

variable (ttl maxLife) in
/-- A session that is used in time is found. -/
theorem lookupAsync_live (sid : Bytes) (clock : ℕ → ℚ) (p : Process) (r : Ref)
    (hget : p.table.get? sid = some r) (hfirst : (p.heap r).isExpired (clock 0) = false)
    (hsecond : (p.heap r).isExpired (clock 1) = false) :
    (SessionManager.lookupAsync ⟨ttl, maxLife, InMemory.store⟩ sid).advance clock p =
      (p, fun n => clock (n + 1 + 1), .done (some r)) := by
  have htable : ∀ f : Option Ref → Task (Option Ref),
      (tableGet sid >>= f).advance clock p = (f (p.table.get? sid)).advance clock p :=
    fun _ => rfl
  have hlookup : (InMemory.lookup sid).advance clock p =
      (p, fun n => clock (n + 1), .done (some r)) := by
    refine (htable _).trans ?_
    rw [hget]
    show Coop.advance (if (p.heap r).isExpired (clock 0) = true then _ else _) _ p = _
    rw [hfirst, if_neg Bool.false_ne_true]
    rfl
  have hfind : (SessionManager.find ⟨ttl, maxLife, InMemory.store⟩ sid).advance clock p =
      (p, fun n => clock (n + 1), .done (some r)) :=
    (Coop.advance_bind _ _ _ _ _ _ _ hlookup).trans rfl
  refine (Coop.advance_bind _ _ _ _ _ _ _ hfind).trans ?_
  show Coop.advance (if (p.heap r).isExpired (clock 1) = true then _ else _) _ p = _
  rw [hsecond, if_neg Bool.false_ne_true]
  rfl

/-- A request whose session is found is opened to what was sealed, if the window has
    not seen it and has not gone too far. -/
theorem Current.opens {before : List ℕ} {answered : ℕ} {s : Session} {p : Process} {r : Ref}
    (hs : Current outcome before answered s) (hfree : p.Locked false)
    (hkeeps : p.Retains (Process.one r s)) {i : ℕ} {method path : String} {plaintext body : Bytes}
    (hmethod : IsMethod method) (hseal : sealEnvelope aead outcome.c2s ((i + 1 : ℕ) : ℤ)
      outcome.sessionId method.toUpper path plaintext = .ok body)
    (hi : i ∉ before) (hnear : ∀ j ∈ before, j < i + windowBits) {clock clock' : ℕ → ℚ}
    (hlookup : (SessionManager.lookupAsync ⟨ttl, maxLife, InMemory.store⟩ outcome.sessionId).advance
      clock p = (p, clock', .done (some r))) (checks : Bytes → Except String V) :
    ∃ q clock'' s' rest, (decryptRequest aead ⟨method.toUpper, path, body⟩
        ⟨ttl, maxLife, InMemory.store⟩ checks).advance clock p = (q, clock'', rest) ∧
      Task.ended rest = some ((validated (checks plaintext)).map fun v => (r, v)) ∧
      q.Locked false ∧ q.Retains (Process.one r s') ∧
      Current outcome (before ++ [i]) answered s' := by
  rcases unpackEnvelope_of_sealEnvelope hseal with ⟨nonce, aad, -, -, hunpack⟩
  rcases openEnvelope_of_sealEnvelope hseal hmethod.toUpper hmethod.toUpper rfl with
    ⟨env, -, hopened⟩
  have hrun := decryptRequest_of_lookup aead ttl maxLife ⟨method.toUpper, path, body⟩ checks p _
    hunpack clock _ p r hlookup
  rw [hkeeps.heap] at hrun
  rcases hs.window.passes hi hnear with ⟨window, hpassed, htracks⟩
  simp only [hpassed, hs.c2s, hs.sessionId, hopened] at hrun
  have hmoved := hkeeps.update (fun s => s.advance window) rfl
  cases hschema : checks plaintext with
  | error message =>
      simp only [hschema] at hrun
      exact ⟨_, _, _, _, hrun, rfl, hfree, hmoved,
        ⟨hs.sessionId, hs.c2s, hs.s2c, hs.isOpen, hs.counter, htracks⟩⟩
  | ok value =>
      simp only [hschema] at hrun
      have htouched := (hmoved.update (fun s => s.touch (clock' 0)) rfl).writeBack
      refine ⟨_, _, (s.advance window).touch (clock' 0), _, hrun, rfl, hfree, ?_,
        ⟨hs.sessionId, hs.c2s, hs.s2c, hs.isOpen, hs.counter, htracks⟩⟩
      rw [← hs.sessionId]
      exact htouched

/-- The session seals an answer, and its counter goes up before that. -/
theorem Current.seals {before : List ℕ} {answered : ℕ} {s : Session} {p : Process} {r : Ref}
    (hs : Current outcome before answered s) (hkeeps : p.Retains (Process.one r s))
    (hlength : outcome.sessionId.length = sessionIdBytes) {method : String} (path : String)
    (hmethod : IsMethod method) (hcounter : answered + 1 < 2 ^ 64) (plaintext : Bytes) :
    ∃ body q, (encryptResponse aead r plaintext method.toUpper path none).advance (fun _ => 0) p =
        (q, fun _ => 0, .done body) ∧ (p.Locked false → q.Locked false) ∧
      q.Retains (Process.one r s.bump) ∧ Current outcome before (answered + 1) s.bump ∧
      sealEnvelope aead outcome.s2c ((answered + 1 : ℕ) : ℤ) outcome.sessionId method.toUpper path
        plaintext = .ok body := by
  rcases sealEnvelope_natCast aead outcome.s2c outcome.sessionId hlength _ hcounter method.toUpper
    path hmethod.toUpper plaintext with ⟨nonce, aad, -, -, -, hsealed⟩
  have hbumped := hkeeps.update Session.bump rfl
  refine ⟨_, (p.change r Session.bump).note r (.sealed outcome.s2c), ?_, id,
    hbumped.congr _ rfl rfl rfl, ⟨hs.sessionId, hs.c2s, hs.s2c, hs.isOpen, ?_, hs.window⟩, hsealed⟩
  · show Coop.advance ((Task.ofExcept (sealEnvelope aead ((p.change r Session.bump).heap r).s2c
      ((p.change r Session.bump).heap r).s2cCounter ((p.change r Session.bump).heap r).sessionId
      method.toUpper path plaintext)).bind fun envelope => Coop.bind (Coop.modify
        (Process.note r (.sealed ((p.change r Session.bump).heap r).s2c)))
          fun _ => .done envelope) (fun _ => 0) (p.change r Session.bump) = _
    rw [hbumped.heap]
    show Coop.advance ((Task.ofExcept (sealEnvelope aead s.s2c ((s.s2cCounter + 1 : ℕ) : ℤ)
      s.sessionId method.toUpper path plaintext)).bind fun envelope => Coop.bind (Coop.modify
        (Process.note r (.sealed s.s2c))) fun _ => .done envelope) _ _ = _
    rw [hs.s2c, hs.sessionId, hs.counter, hsealed]
    rfl
  · show s.s2cCounter + 1 = answered + 1
    rw [hs.counter]

variable (loads) in
/-- The client opens an answer to what was sealed. -/
theorem openResponse_of_seal {counter : ℕ} {method path : String} {plaintext body : Bytes}
    (hmethod : IsMethod method) (hseal : sealEnvelope aead outcome.s2c (counter : ℤ)
      outcome.sessionId method.toUpper path plaintext = .ok body) :
    Client.openResponse aead loads ⟨200, "application/octet-stream", body⟩ outcome method path =
      .sealed counter plaintext := by
  rcases openEnvelope_of_sealEnvelope hseal hmethod.toUpper hmethod.toUpper rfl with
    ⟨env, hcounter, hopened⟩
  have hjson : ¬ Client.startsWith "application/octet-stream" "application/json" := by decide
  have hoctets :
      Client.startsWith "application/octet-stream" "application/octet-stream" = true := by
    decide
  exact (Client.openResponse_eq_sealed_iff aead loads _ outcome method path _ _).mpr
    ⟨by simp, hjson, hoctets, env, hcounter, hopened⟩

/-- **A request arrives.** It comes to what it should, and leaves the session with
    a window that knows of it. -/
theorem Upright.arrives (h : Upright aead loads schema outcome w) {i : ℕ} {x : Posted}
    (hx : w.posted[i]? = some x) {clock : ℕ → ℚ} {u : Channel V}
    (hsmooth : Smooth outcome w (.deliver i clock) u) {r : Ref} {s : Session}
    (hkeeps : w.proc.Retains (Process.one r s))
    (hs : Current outcome (w.arrived.map Prod.fst) w.answers.length s) :
    ∃ p clock' s' rest, (decryptRequest aead ⟨x.method.toUpper, x.path, x.body⟩
        ⟨ttl, maxLife, InMemory.store⟩ (schema x.path)).advance clock w.proc = (p, clock', rest) ∧
      Task.ended rest = some ((verdict schema (w.arrived.map Prod.fst) i x).map fun v => (r, v)) ∧
      p.Locked false ∧ p.Retains (Process.one r s') ∧
      Current outcome (w.arrived.map Prod.fst ++ [i]) w.answers.length s' := by
  rcases hsmooth with ⟨hfirst, hsecond, hnear⟩
  rcases h.posted i x hx with ⟨hmethod, hseal⟩
  have hget : w.proc.table.get? outcome.sessionId = some r := by
    rw [← hs.sessionId]
    exact hkeeps.get
  have hlookup := lookupAsync_live ttl maxLife outcome.sessionId clock w.proc r hget
    (by rw [hkeeps.heap]; exact hfirst.isExpired hkeeps hs.sessionId hs.isOpen)
    (by rw [hkeeps.heap]; exact hsecond.isExpired hkeeps hs.sessionId hs.isOpen)
  by_cases hbefore : i ∈ w.arrived.map Prod.fst
  · rcases unpackEnvelope_of_sealEnvelope hseal with ⟨nonce, aad, -, -, hunpack⟩
    have hrun := decryptRequest_of_lookup aead ttl maxLife ⟨x.method.toUpper, x.path, x.body⟩
      (schema x.path) w.proc _ hunpack clock _ w.proc r hlookup
    rw [hkeeps.heap] at hrun
    rcases hs.window.refuses hbefore with ⟨e, hrefused⟩
    simp only [hrefused] at hrun
    refine ⟨_, _, s, _, hrun, ?_, h.free, hkeeps, ?_⟩
    · rw [verdict, if_pos hbefore]
      rfl
    · -- It has been there before, so there is nothing new to know.
      refine { hs with window := ?_ }
      rcases hs.window with ⟨f, hf, hseen, hhigh⟩
      refine ⟨f, hf, fun c => ?_, hhigh⟩
      rw [hseen]
      simp only [List.mem_append, List.mem_singleton]
      constructor
      · rintro ⟨j, hj, rfl⟩
        exact ⟨j, Or.inl hj, rfl⟩
      · rintro ⟨j, hj | rfl, rfl⟩
        · exact ⟨j, hj, rfl⟩
        · exact ⟨j, hbefore, rfl⟩
  · rw [verdict, if_neg hbefore]
    exact hs.opens h.free hkeeps hmethod hseal hbefore (hnear.resolve_left hbefore) hlookup _

/-- What a request that arrives leaves. -/
theorem Upright.deliver (h : Upright aead loads schema outcome w) {i : ℕ} {x : Posted}
    (hx : w.posted[i]? = some x) {clock : ℕ → ℚ} {u : Channel V}
    (hsmooth : Smooth outcome w (.deliver i clock) u) :
    Upright aead loads schema outcome (deliver aead schema ttl maxLife w i x clock) := by
  rcases h.session with ⟨r, s, hkeeps, hs, hhandlers⟩
  rcases h.arrives hx hsmooth hkeeps hs with
    ⟨p, clock', s', rest, hrun, hended, hfree, hkept, hcurrent⟩
  -- Whatever it comes to, it goes into the log.
  have hlog : ∀ o, o = some (verdict schema (w.arrived.map Prod.fst) i x) →
      Each (fun before i o => ∃ x, w.posted[i]? = some x ∧ o = some (verdict schema before i x))
        (w.arrived ++ [(i, o)]) := fun o ho => h.faithful.requests.append ⟨x, hx, ho⟩
  have hmap : ∀ o, (w.arrived ++ [(i, o)]).map Prod.fst = w.arrived.map Prod.fst ++ [i] := by
    intro o
    simp
  unfold Channel.deliver
  rw [hrun]
  dsimp only
  cases hverdict : verdict schema (w.arrived.map Prod.fst) i x with
  | ok v =>
      rw [hverdict] at hended hlog
      rw [show Task.ended rest = some (Except.ok (r, v)) from hended]
      refine ⟨hfree, ⟨r, s', hkept, ?_, ?_⟩, h.posted, h.answers, h.replay,
        ⟨h.faithful.posted, h.faithful.answered, hlog _ rfl, h.faithful.answers⟩⟩
      · rw [hmap]
        exact hcurrent
      · intro hd hmem
        rcases List.mem_append.mp hmem with hold | hnew
        · exact hhandlers hd hold
        · rw [List.mem_singleton.mp hnew]
  | error e =>
      rw [hverdict] at hended hlog
      rw [show Task.ended rest = some (Except.error e) from hended]
      refine ⟨hfree, ⟨r, s', hkept, ?_, hhandlers⟩, h.posted, h.answers, h.replay,
        ⟨h.faithful.posted, h.faithful.answered, hlog _ rfl, h.faithful.answers⟩⟩
      rw [hmap]
      exact hcurrent

/-- What sealing an answer leaves. -/
theorem Upright.answer (h : Upright aead loads schema outcome w)
    (hlength : outcome.sessionId.length = sessionIdBytes) {hd : Ref × ℕ} {x : Posted}
    (hhd : hd ∈ w.handlers) (hx : w.posted[hd.2]? = some x) (plaintext : Bytes)
    (hcounter : w.answers.length + 1 < 2 ^ 64) :
    Upright aead loads schema outcome (answer aead w hd x plaintext) := by
  rcases h.session with ⟨r, s, hkeeps, hs, hhandlers⟩
  rcases h.posted hd.2 x hx with ⟨hmethod, -⟩
  rcases hs.seals hkeeps hlength x.path hmethod hcounter plaintext with
    ⟨body, p, hrun, hfree, hkept, hbumped, hseal⟩
  rw [← hhandlers hd hhd] at hrun
  unfold Channel.answer
  dsimp only
  rw [hrun]
  show Upright aead loads schema outcome
    { w with
      proc := p
      tried := w.tried + 1
      answers := w.answers ++ [⟨hd.2, plaintext, body⟩] }
  refine ⟨hfree h.free, ⟨r, s.bump, hkept, ?_, hhandlers⟩, h.posted, ?_, h.replay,
    ⟨h.faithful.posted, ?_, h.faithful.requests, ?_⟩⟩
  · rw [List.length_append, List.length_singleton]
    exact hbumped
  · intro a y hy
    rcases getElem?_concat_cases hy with hold | ⟨ha, rfl⟩
    · exact h.answers a y hold
    · rw [ha]
      exact ⟨x, hx, hseal⟩
  · rw [List.length_append, List.length_singleton, h.faithful.answered]
  · refine h.faithful.answers.mono fun before a result hread hnew => ?_
    rcases hread hnew with ⟨y, hy, hresult⟩
    exact ⟨y, (List.getElem?_append_left (List.getElem?_eq_some_iff.mp hy).1).trans hy, hresult⟩

/-- What reading an answer leaves. -/
theorem Upright.collect (h : Upright aead loads schema outcome w) {a : ℕ} {y : Answer} {x : Posted}
    (hy : w.answers[a]? = some y) (hx : w.posted[y.request]? = some x) :
    Upright aead loads schema outcome (collect aead loads outcome w a x y) := by
  rcases h.answers a y hy with ⟨x', hx', hseal⟩
  rw [hx, Option.some.injEq] at hx'
  rw [← hx'] at hseal
  rcases h.posted _ x hx with ⟨hmethod, -⟩
  have hopening := openResponse_of_seal loads hmethod hseal
  have hkeys : w.results.map (fun e => ((e.1 + 1 : ℕ) : ℤ)) =
      (w.results.map Prod.fst).map fun a => ((a + 1 : ℕ) : ℤ) := by
    rw [List.map_map]
    rfl
  cases hcheck : w.replay.check ((a + 1 : ℕ) : ℤ) with
  | ok replay =>
      simp only [Channel.collect, Client.decodeResponse, hopening, hcheck]
      refine ⟨h.free, h.session, h.posted, h.answers, ?_,
        ⟨h.faithful.posted, h.faithful.answered, h.faithful.requests,
          h.faithful.answers.append fun _ => ⟨y, hy, rfl⟩⟩⟩
      rw [List.map_append, List.map_singleton, Client.ReplayClient.checks_append, ← h.replay,
        hcheck]
  | error e =>
      simp only [Channel.collect, Client.decodeResponse, hopening, hcheck]
      refine ⟨h.free, h.session, h.posted, h.answers, ?_,
        ⟨h.faithful.posted, h.faithful.answered, h.faithful.requests,
          h.faithful.answers.append fun hnew => ?_⟩⟩
      · rw [List.map_append, List.map_singleton, Client.ReplayClient.checks_append, ← h.replay,
          hcheck]
        exact h.replay
      · -- Only an answer that was read before is refused.
        have hfresh : ((a + 1 : ℕ) : ℤ) ∉ w.results.map fun e => ((e.1 + 1 : ℕ) : ℤ) := by
          rw [hkeys]
          intro hmem
          rcases List.mem_map.mp hmem with ⟨b, hb, heq⟩
          have hsame : b = a := by omega
          exact hnew (hsame ▸ hb)
        rcases Client.ReplayClient.exists_check_of_notMem _ hfresh with ⟨r, hr⟩
        rw [← h.replay, hcheck] at hr
        exact absurd hr (by simp)

/-- What sealing a request leaves. -/
theorem Upright.post (h : Upright aead loads schema outcome w)
    (hlength : outcome.sessionId.length = sessionIdBytes) {method : String} (path : String)
    (plaintext : Bytes) (hmethod : IsMethod method) (hcounter : w.counter + 1 < 2 ^ 64) :
    Upright aead loads schema outcome (post aead outcome w method path plaintext) := by
  rcases sealEnvelope_natCast aead outcome.c2s outcome.sessionId hlength _ hcounter method.toUpper
    path hmethod.toUpper plaintext with ⟨nonce, aad, -, -, -, hsealed⟩
  have hold : ∀ {i : ℕ} {x : Posted} (y : Posted), w.posted[i]? = some x →
      (w.posted ++ [y])[i]? = some x := fun y hx =>
    (List.getElem?_append_left (List.getElem?_eq_some_iff.mp hx).1).trans hx
  unfold Channel.post
  rw [Client.sealEnvelope_eq]
  dsimp only
  rw [hsealed]
  refine ⟨h.free, h.session, ?_, ?_, h.replay, ⟨?_, h.faithful.answered, ?_,
    h.faithful.answers⟩⟩
  · intro i x hx
    rcases getElem?_concat_cases hx with hbefore | ⟨hi, rfl⟩
    · exact h.posted i x hbefore
    · rw [hi, h.faithful.posted]
      exact ⟨hmethod, hsealed⟩
  · intro a y hy
    rcases h.answers a y hy with ⟨x, hx, hseal⟩
    exact ⟨x, hold _ hx, hseal⟩
  · rw [List.length_append, List.length_singleton, h.faithful.posted]
  · refine h.faithful.requests.mono fun before i o hread => ?_
    rcases hread with ⟨x, hx, ho⟩
    exact ⟨x, hold _ hx, ho⟩

/-- What the server does for somebody else leaves. -/
theorem Upright.other (h : Upright aead loads schema outcome w) {op : Op} {clock : ℕ → ℚ}
    (htarget : op.target ≠ some outcome.sessionId)
    (hreap : op = .reapExpired → ∀ n, InTime outcome w (clock n)) :
    Upright aead loads schema outcome
      { w with
        proc := ((op.task aead ⟨ttl, maxLife, InMemory.store⟩).advance clock w.proc).1 } := by
  rcases h.session with ⟨r, s, hkeeps, hs, hhandlers⟩
  have hkept := Op.keeps (Process.one r s) aead ttl maxLife op clock w.proc h.free hkeeps
    (fun x t ht => by rw [ht.2, hs.sessionId]; exact htarget)
    (fun he n x t ht => by
      rw [ht.2]
      exact (hreap he n).isExpired hkeeps hs.sessionId hs.isOpen)
  exact ⟨hkept.1, ⟨r, s, hkept.2, hs, hhandlers⟩, h.posted, h.answers, h.replay,
    ⟨h.faithful.posted, h.faithful.answered, h.faithful.requests, h.faithful.answers⟩⟩

/-- **The step lemma.** -/
theorem Upright.step (h : Upright aead loads schema outcome w)
    (hlength : outcome.sessionId.length = sessionIdBytes) {e : ChannelEvent} {u : Channel V}
    (hsmooth : Smooth outcome w e u)
    (hstep : step aead loads schema ttl maxLife outcome w e = some u) :
    Upright aead loads schema outcome u := by
  cases e with
  | post method path plaintext =>
      rw [← Option.some.inj hstep]
      exact h.post hlength path plaintext hsmooth.1 hsmooth.2
  | deliver i clock =>
      rcases Option.map_eq_some_iff.mp hstep with ⟨x, hx, rfl⟩
      exact h.deliver hx hsmooth
  | answer k plaintext =>
      rcases Option.bind_eq_some_iff.mp hstep with ⟨hd, hhd, hrest⟩
      rcases Option.map_eq_some_iff.mp hrest with ⟨x, hx, rfl⟩
      exact h.answer hlength (List.mem_of_getElem? hhd) hx plaintext hsmooth
  | collect a =>
      rcases Option.bind_eq_some_iff.mp hstep with ⟨y, hy, hrest⟩
      rcases Option.map_eq_some_iff.mp hrest with ⟨x, hx, rfl⟩
      exact h.collect hy hx
  | other op clock =>
      rw [← Option.some.inj hstep]
      exact h.other hsmooth.1 hsmooth.2

end Steps

/-- The invariant holds at the start: the server makes the session of the handshake's
    material, which the client's outcome agrees with. -/
theorem upright_opened {material : SessionMaterial} {clock : ℕ → ℚ} {p : Process}
    (hsid : outcome.sessionId = material.sessionId) (hc2s : outcome.c2s = material.c2s)
    (hs2c : outcome.s2c = material.s2c) (hfree : p.Locked false) (hsound : p.Sound) :
    Upright aead loads schema outcome
      (opened
        (((Op.create material).task aead ⟨ttl, maxLife, InMemory.store⟩).advance clock p).1) := by
  rcases create_retains aead ttl maxLife material clock hfree hsound with ⟨hfree', hkept⟩
  refine ⟨hfree', ⟨p.next, .ofMaterial material ttl maxLife (clock 0), hkept, ?_, ?_⟩, ?_, ?_, rfl,
    ⟨rfl, rfl, Each.nil _, Each.nil _⟩⟩
  · exact ⟨hsid.symm, hc2s.symm, hs2c.symm, rfl, rfl, tracks_fresh⟩
  · exact fun h hmem => absurd hmem List.not_mem_nil
  · exact fun i x hx => absurd hx (by simp [opened])
  · exact fun a y hy => absurd hy (by simp [opened])

end Channel

/-- What a server does for anybody: one operation after the other. -/
def Process.serve (aead : Aead) (manager : SessionManager) (p : Process) (e : Op × (ℕ → ℚ)) :
    Option Process :=
  some ((e.1.task aead manager).advance e.2 p).1

/-- The memory of a server in which anything has been done is in order. -/
theorem Process.sound_of_run {aead : Aead} {ttl maxLife : ℤ} {p : Process}
    (h : Run (Process.serve aead ⟨ttl, maxLife, InMemory.store⟩) anyStep .start p) :
    p.Locked false ∧ p.Sound := by
  refine h.invariant (fun p => p.Locked false ∧ p.Sound) ⟨rfl, Process.sound_start⟩ ?_
  rintro p e u ⟨hfree, hsound⟩ - hstep
  rw [← Option.some.inj hstep]
  exact Op.keeps_sound aead ttl maxLife e.1 e.2 hfree hsound

/-- **From the handshake on, nothing gets lost.** Let a client and a server that has
    served anybody before hold the same session. Whatever the network does with the
    requests and answers, and whatever else the server does meanwhile, over every
    smooth run what arrives is what was sealed. -/
theorem channel_faithful {V : Type} (aead : Aead) (loads : Bytes → Except Exc Json)
    (schema : String → Bytes → Except String V) (ttl maxLife : ℤ) (material : SessionMaterial)
    (outcome : HandshakeOutcome) (p : Process) (clock : ℕ → ℚ) (w : Channel V)
    (hlength : material.sessionId.length = sessionIdBytes)
    (hsid : outcome.sessionId = material.sessionId) (hc2s : outcome.c2s = material.c2s)
    (hs2c : outcome.s2c = material.s2c)
    (hp : Run (Process.serve aead ⟨ttl, maxLife, InMemory.store⟩) anyStep .start p)
    (hrun : Run (Channel.step aead loads schema ttl maxLife outcome) (Channel.Smooth outcome)
      (.opened (((Op.create material).task aead ⟨ttl, maxLife, InMemory.store⟩).advance clock p).1)
      w) :
    Channel.Faithful loads schema w := by
  rcases Process.sound_of_run hp with ⟨hfree, hsound⟩
  have hupright : Channel.Upright aead loads schema outcome w := by
    refine hrun.invariant _ (Channel.upright_opened aead loads schema ttl maxLife outcome hsid hc2s
      hs2c hfree hsound) ?_
    intro w e u hw hsmooth hstep
    exact hw.step (by rw [hsid]; exact hlength) hsmooth hstep
  exact hupright.faithful

/-- A check for smooth steps, of a server that does not reap. -/
def Channel.smooth {V : Type} (outcome : HandshakeOutcome) (w : Channel V) : ChannelEvent → Bool
  | .post method _ _ => decide (IsMethod method ∧ w.counter + 1 < 2 ^ 64)
  | .deliver i clock =>
    (w.proc.table.get? outcome.sessionId).all (fun r =>
      [clock 0, clock 1].all fun now =>
        decide (now - (w.proc.heap r).lastUsedAt ≤ (w.proc.heap r).ttlSeconds ∧
          now - (w.proc.heap r).createdAt ≤ (w.proc.heap r).maxLifetimeSeconds)) &&
      decide (i ∈ w.arrived.map Prod.fst ∨ ∀ j ∈ w.arrived.map Prod.fst, j < i + windowBits)
  | .answer _ _ => decide (w.answers.length + 1 < 2 ^ 64)
  | .collect _ => true
  | .other op _ => decide (op.target ≠ some outcome.sessionId) && op.target.isSome

theorem Channel.smooth_sound {V : Type} {outcome : HandshakeOutcome} {w : Channel V}
    {e : ChannelEvent} (h : Channel.smooth outcome w e = true) (u : Channel V) :
    Channel.Smooth outcome w e u := by
  cases e with
  | post method path plaintext => exact of_decide_eq_true (p := IsMethod method ∧ _) h
  | deliver i clock =>
      rcases Bool.and_eq_true_iff.mp h with ⟨htime, hnear⟩
      have hall : ∀ now ∈ [clock 0, clock 1], Channel.InTime outcome w now := by
        intro now hnow r hr
        rw [hr, Option.all_some] at htime
        exact of_decide_eq_true (List.all_eq_true.mp htime now hnow)
      exact ⟨hall _ (by simp), hall _ (by simp), of_decide_eq_true hnear⟩
  | answer k plaintext => exact of_decide_eq_true (p := w.answers.length + 1 < 2 ^ 64) h
  | collect a => trivial
  | other op clock =>
      rcases Bool.and_eq_true_iff.mp h with ⟨htarget, hsome⟩
      refine ⟨of_decide_eq_true htarget, fun hreap => ?_⟩
      rw [hreap] at hsome
      exact absurd hsome (by simp [Op.target])

/-- The same on a run: a server that has a session already makes another, and the
    second request of its client overtakes the first, which the network repeats. -/
theorem channel_faithful_sample :
    ∃ w : Channel Unit, w.arrived.map Prod.fst = [1, 0, 1] ∧ w.results.map Prod.fst = [0] ∧
      Channel.Faithful (fun _ => .ok .null) (fun _ _ => .ok ()) w := by
  let outcome : HandshakeOutcome := ⟨SessionMaterial.sample.sessionId, SessionMaterial.sample.c2s,
    SessionMaterial.sample.s2c, 900, []⟩
  let other : SessionMaterial := { SessionMaterial.sample with sessionId := List.replicate 16 8 }
  have hserved : ∃ p, play (Process.serve .sample ⟨900, 3600, InMemory.store⟩) .start
      [(.create other, fun _ => 0)] = some p := ⟨_, rfl⟩
  rcases hserved with ⟨p, hp⟩
  have hplay : ((playIf (Channel.smooth outcome)
      (Channel.step .sample (fun _ => .ok .null) (fun _ _ => .ok ()) 900 3600 outcome)
      (.opened (((Op.create .sample).task .sample ⟨900, 3600, InMemory.store⟩).advance
        (fun _ => 1) p).1)
      [.post "POST" "/v1/chat" [1], .post "POST" "/v1/chat" [2], .deliver 1 (fun _ => 2),
        .other (.terminate (List.replicate 16 8)) (fun _ => 2), .deliver 0 (fun _ => 3),
        .answer 1 [3], .deliver 1 (fun _ => 4), .collect 0]).any (fun w : Channel Unit =>
          decide (w.arrived.map Prod.fst = [1, 0, 1] ∧ w.results.map Prod.fst = [0]))) = true := by
    rw [← Option.some.inj hp]
    decide +kernel
  rcases (Option.any_eq_true _ _).mp hplay with ⟨w, hw, hend⟩
  rcases of_decide_eq_true hend with ⟨harrived, hresults⟩
  refine ⟨w, harrived, hresults, ?_⟩
  exact channel_faithful .sample _ _ 900 3600 .sample outcome p (fun _ => 1) w (by decide) rfl
    rfl rfl (run_of_play _ hp) (run_of_playIf _ _ (fun t e u h => Channel.smooth_sound h u) hw)

end SecureLlm
