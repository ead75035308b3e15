import SecureLlm.Server.Atomic
import SecureLlm.Server.FleetInvariant

/-!
# One Server and Its Clients

A server over the in-memory store, the clients of its sessions, and a network
that delivers whatever it likes. Clients seal requests under the keys of their
handshakes; a request reaches the server as a body that may be one of theirs, a
copy, or made up. What the network cannot do is stated of a run: a body opens
under a session's key only if its ciphertext was produced in the run, by a
client or by the server itself.

## Main definitions

* `Handshakes`: The session ids of a run and the keys derived for each.
* `Sealing`: A request a client has sealed.
* `World`: The server and what its clients have sealed.
* `World.Produced`: The encryptions of a run.
* `World.Honest`: What is assumed of a step.
* `World.Run`: The runs all of whose steps are honest.
* `World.accepted`: The sessions and counters of accepted requests.
* `World.steps`: Runs that are checked to be honest.

## Theorems

* `World.honest_sound`, `World.run_of_steps`: What passes the check is an honest
  run.
-/

namespace SecureLlm

open Library

/-- The session ids a run's handshakes hand out, and the two directions each of
    them derives. The two have different keys. -/
structure Handshakes where
  ids : Set Bytes
  c2s : Bytes → DirectionKeys
  s2c : Bytes → DirectionKeys
  length_ids : ∀ sid ∈ ids, sid.length = sessionIdBytes
  keys_ne : ∀ sid ∈ ids, (c2s sid).key ≠ (s2c sid).key

/-- The one handshake of the sample session, to run the model on. -/
def Handshakes.sample : Handshakes where
  ids := {SessionMaterial.sample.sessionId}
  c2s _ := SessionMaterial.sample.c2s
  s2c _ := SessionMaterial.sample.s2c
  length_ids sid h := by
    rw [h]
    rfl
  keys_ne _ _ := by decide

instance : DecidablePred (· ∈ Handshakes.sample.ids) := fun sid =>
  inferInstanceAs (Decidable (sid = SessionMaterial.sample.sessionId))

/-- A request a client has sealed. -/
structure Sealing where
  sessionId : Bytes
  counter : ℤ
  method : String
  path : String
  plaintext : Bytes

/-- The sealing of a sample request. -/
def Sealing.sample (counter : ℕ) : Sealing :=
  ⟨SessionMaterial.sample.sessionId, counter, "POST", "/v1/chat", []⟩

/-- The server, the ids of the handshakes so far and, newest first, what clients
    have sealed. -/
structure World where
  server : Fleet Unit
  made : List Bytes
  sent : List Sealing

/-- Something happens at the server, or a client seals a request. -/
inductive Action where
  | serve (e : Event Unit)
  | seal (x : Sealing)

/-- The session a server's event makes. -/
def Event.makes : Event Unit → List Bytes
  | .start _ _ (.create m) => [m.sessionId]
  | _ => []

/-- The session and the counter of an accepted request. -/
def acceptedCounter : Unit × Op × Except Exc Result → Option (Bytes × ℕ)
  | (_, .decryptRequest request _, .ok (.accepted _)) =>
    match unpackEnvelope request.body with
    | .ok env => some (env.sessionId, env.counter)
    | .error _ => none
  | _ => none

namespace World

/-- Nothing has happened yet. -/
def start : World := ⟨Fleet.start, [], []⟩

/-- The sessions and counters of the requests accepted so far, newest first. -/
def accepted (w : World) : List (Bytes × ℕ) := w.server.results.filterMap acceptedCounter

/-- The objects and the history of the server's process. -/
def proc (w : World) : Process := w.server.proc ()

variable (aead : Aead) (hs : Handshakes)

/-- One step. A client that cannot seal sends nothing. -/
def step (manager : SessionManager) (w : World) : Action → Option World
  | .serve e => (w.server.step aead manager e).map fun g =>
    { w with server := g, made := e.makes ++ w.made }
  | .seal x =>
    match sealEnvelope aead (hs.c2s x.sessionId) x.counter x.sessionId x.method x.path
      x.plaintext with
    | .ok _ => some { w with sent := x :: w.sent }
    | .error _ => none

/-- What encryption has produced in the run so far: for a client's request, or
    for an envelope of the server. -/
def Produced (w : World) (key nonce aad ciphertext : Bytes) : Prop :=
  (∃ x ∈ w.sent, key = (hs.c2s x.sessionId).key ∧
    nonceFor (hs.c2s x.sessionId) x.counter = .ok nonce ∧
    buildAad x.method x.path x.sessionId x.counter = .ok aad ∧
    ciphertext = aead.encrypt x.plaintext aad nonce key) ∨
  ∃ n ∈ w.proc.history, ∃ d method path plaintext, n.kind = .sealed d ∧ key = d.key ∧
    nonceFor d n.session.s2cCounter = .ok nonce ∧
    buildAad method path n.session.sessionId n.session.s2cCounter = .ok aad ∧
    ciphertext = aead.encrypt plaintext aad nonce key

/-- What is assumed of a step: handshakes make sessions with ids of their own
    and the keys they derived, clients use each counter once, methods and paths
    are as HTTP has them, and a body that opens under a session's key has a
    ciphertext that was produced under it. -/
structure Honest (w : World) (a : Action) : Prop where
  creates : ∀ k m, a = .serve (.start k () (.create m)) → m.sessionId ∈ hs.ids ∧
    m.sessionId ∉ w.made ∧ m.c2s = hs.c2s m.sessionId ∧ m.s2c = hs.s2c m.sessionId
  requests : ∀ k request schema, a = .serve (.start k () (.decryptRequest request schema)) →
    IsMethod request.method ∧ IsPath request.path
  clients : ∀ x, a = .seal x → x.sessionId ∈ hs.ids ∧ IsMethod x.method ∧ IsPath x.path ∧
    ∀ y ∈ w.sent, y.sessionId = x.sessionId → y.counter ≠ x.counter
  opens : ∀ k clock request schema rest env aad plaintext, a = .serve (.run k clock) →
    w.server.jobs k = some ⟨(), .decryptRequest request schema, rest⟩ →
    unpackEnvelope request.body = .ok env →
    buildAad request.method request.path env.sessionId env.counter = .ok aad →
    aead.decrypt env.ciphertext aad env.nonce (hs.c2s env.sessionId).key = some plaintext →
    w.Produced aead hs (hs.c2s env.sessionId).key env.nonce aad env.ciphertext

/-- The runs from the start all of whose steps are honest. -/
inductive Run (manager : SessionManager) : World → Prop where
  | start : Run manager start
  | tail (w w' : World) (a : Action) (hrun : Run manager w) (hhonest : w.Honest aead hs a)
      (hstep : w.step aead hs manager a = some w') : Run manager w'

/-- The ciphertext of a request is that of one a client has sealed. -/
def sealedBefore (w : World) (request : Request) : Bool :=
  match unpackEnvelope request.body with
  | .error _ => true
  | .ok env => w.sent.any fun x =>
    decide (hs.c2s x.sessionId = hs.c2s env.sessionId ∧
      nonceFor (hs.c2s x.sessionId) x.counter = .ok env.nonce) &&
    match buildAad x.method x.path x.sessionId x.counter with
    | .error _ => false
    | .ok aad =>
      decide (buildAad request.method request.path env.sessionId env.counter = .ok aad ∧
        env.ciphertext = aead.encrypt x.plaintext aad env.nonce (hs.c2s env.sessionId).key)

theorem produced_of_sealedBefore (w : World) (request : Request) (env : Envelope) (aad : Bytes)
    (h : w.sealedBefore aead hs request = true) (hunpack : unpackEnvelope request.body = .ok env)
    (haad : buildAad request.method request.path env.sessionId env.counter = .ok aad) :
    w.Produced aead hs (hs.c2s env.sessionId).key env.nonce aad env.ciphertext := by
  rw [sealedBefore, hunpack] at h
  rcases List.any_eq_true.mp h with ⟨x, hx, hcheck⟩
  rw [Bool.and_eq_true, decide_eq_true_eq] at hcheck
  rcases hcheck with ⟨⟨hkeys, hnonce⟩, hcheck⟩
  cases haad' : buildAad x.method x.path x.sessionId x.counter with
  | error e =>
      rw [haad'] at hcheck
      exact absurd hcheck nofun
  | ok aad' =>
      rw [haad'] at hcheck
      rcases of_decide_eq_true hcheck with ⟨hsame, hct⟩
      have heq : aad' = aad := Except.ok.inj (hsame.symm.trans haad)
      rw [heq] at haad' hct
      exact Or.inl ⟨x, hx, by rw [hkeys], hnonce, haad', hct⟩

section Checked

variable [DecidablePred (· ∈ hs.ids)]

/-- A check for honest steps. It is met where no body opens but those that
    clients have sealed. -/
def honest (w : World) : Action → Bool
  | .seal x => decide (x.sessionId ∈ hs.ids ∧ IsMethod x.method ∧ IsPath x.path ∧
      ∀ y ∈ w.sent, y.sessionId = x.sessionId → y.counter ≠ x.counter)
  | .serve (.start _ _ (.create m)) => decide (m.sessionId ∈ hs.ids ∧ m.sessionId ∉ w.made ∧
      m.c2s = hs.c2s m.sessionId ∧ m.s2c = hs.s2c m.sessionId)
  | .serve (.start _ _ (.decryptRequest request _)) =>
    decide (IsMethod request.method ∧ IsPath request.path)
  | .serve (.run k _) =>
    match w.server.jobs k with
    | some ⟨_, .decryptRequest request _, _⟩ => w.sealedBefore aead hs request
    | _ => true
  | .serve _ => true

theorem honest_sound (w : World) (a : Action) (h : w.honest aead hs a = true) :
    w.Honest aead hs a where
  creates k m ha := by
    subst ha
    simp only [honest, decide_eq_true_eq] at h
    exact h
  requests k request schema ha := by
    subst ha
    simp only [honest, decide_eq_true_eq] at h
    exact h
  clients x ha := by
    subst ha
    simp only [honest, decide_eq_true_eq] at h
    exact h
  opens k clock request schema rest env aad plaintext ha hjob hunpack haad _ := by
    subst ha
    simp only [honest, hjob] at h
    exact produced_of_sealedBefore aead hs w request env aad h hunpack haad

/-- Take a list of steps, each of which has to pass the check. -/
def steps (manager : SessionManager) : World → List Action → Option World
  | w, [] => some w
  | w, a :: as =>
    if w.honest aead hs a then (w.step aead hs manager a).bind (fun w' => w'.steps manager as)
    else none

theorem run_of_steps (manager : SessionManager) (w w' : World) (as : List Action)
    (hrun : Run aead hs manager w) (h : w.steps aead hs manager as = some w') :
    Run aead hs manager w' := by
  induction as generalizing w with
  | nil =>
      rw [← Option.some.inj h]
      exact hrun
  | cons a as ih =>
      rw [steps] at h
      by_cases hhonest : w.honest aead hs a = true
      · rw [if_pos hhonest, Option.bind_eq_some_iff] at h
        rcases h with ⟨u, hstep, hrest⟩
        exact ih u (Run.tail w u a hrun (honest_sound aead hs w a hhonest) hstep) hrest
      · rw [if_neg hhonest] at h
        exact absurd h nofun

end Checked

end World

end SecureLlm
