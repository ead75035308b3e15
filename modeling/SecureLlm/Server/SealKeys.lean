import SecureLlm.Server.FleetInvariant

/-!
# The Keys Envelopes Are Sealed Under

A session object is shared by every handler that has accepted a request for it,
and termination wipes its keys in place. A handler that answers after that
seals under the zero key; only the admin handler, which puts the live direction
aside before it terminates its own session, does not.

`sealed_under_handshake` says when that cannot happen. A run in which every
handler that answers without a direction put aside finds its session open, and
every direction is put aside while its session is open, seals under handshake
keys only. An answer that breaks the condition is sealed under the zero key.

## Main definitions

* `Discipline.handshake`: Open sessions hold the keys of their handshake, closed
  ones the zero key.
* `Fleet.Handshaken`: Runs whose handshakes make the keys they make.
* `Fleet.AnswersWhileOpen`: The condition.

## Theorems

* `sealed_under_handshake`: Under the condition every envelope is sealed under
  the handshake's key, and an answer that breaks it is sealed under zero.
* `sealed_under_zero`: A run that breaks it.
-/

namespace SecureLlm

open Library

/-- An open session holds the direction its handshake derived, and a closed one
    the zero key. -/
def Session.HandshakeKeys (derived : Bytes → DirectionKeys) (s : Session) : Prop :=
  (s.closed = false → s.s2c = derived s.sessionId) ∧ (s.closed = true → s.s2c.key = zeroKey)

theorem Session.HandshakeKeys.evolves (derived : Bytes → DirectionKeys) (s t : Session)
    (hst : s.Evolves t) (h : s.HandshakeKeys derived) : t.HandshakeKeys derived := by
  refine ⟨fun hopen => ?_, fun hclosed => ?_⟩
  · rw [hst.s2c hopen, hst.sessionId]
    exact h.1 (hst.open_of_open s t hopen)
  · rcases hst.wiped hclosed with ⟨hs, hkeep⟩ | hzero
    · rw [hkeep]
      exact h.2 hs
    · exact hzero

/-- Every session holds the keys of its handshake or none, and, where the run is
    strict about it, every envelope is sealed under the handshake's key. -/
def Discipline.handshake (derived : Bytes → DirectionKeys) (strict : Prop) : Discipline where
  kind s := s.HandshakeKeys derived
  written s := s.HandshakeKeys derived
  noted n := n.session.HandshakeKeys derived ∧
    (strict → ∀ d, n.kind = .sealed d → d = derived n.session.sessionId)
  kind_evolves s t := Session.HandshakeKeys.evolves derived s t
  kind_rehydrated _ h := h
  noted_created _ _ h := ⟨h, fun _ _ => nofun⟩
  noted_hydrated _ _ h := ⟨h, fun _ _ => nofun⟩
  noted_stored _ _ h := ⟨h, fun _ _ => nofun⟩

namespace Fleet

variable {ι : Type} (derived : Bytes → DirectionKeys)

/-- Every session that is created is the work of the one handshake with its id,
    which derived its server-to-client direction. -/
def handshaken : Event ι → Bool
  | .start _ _ (.create m) => m.s2c = derived m.sessionId
  | _ => true

/-- A handler that answers under its session's own direction finds the session
    open, and a direction is put aside while its session is open. -/
def answersWhileOpen (f : Fleet ι) (e : Event ι) : Bool :=
  (match f.sealing e with
    | some (h, none) => !(f.session h).closed
    | _ => true) &&
  match e with
    | .save k => (f.handlers k).all (fun h => !(f.session h).closed)
    | _ => true

/-- The directions put aside are those of their handshakes. -/
def SavedKeys (f : Fleet ι) : Prop :=
  ∀ k h d, f.handlers k = some h → h.saved = some d → d = derived (f.session h).sessionId

variable {derived} {f : Fleet ι}

theorem allows_handshake (strict : Prop) (manager : SessionManager) (e : Event ι)
    (h : f.Invariant (.handshake derived strict) unrestricted) (he : handshaken derived e = true)
    (hseals : strict → ∀ h d, f.sealing e = some (h, d) →
      f.keys h d = derived (f.session h).sessionId) :
    Allows (.handshake derived strict) unrestricted manager f e where
  creates k inst m hcreate := by
    refine ⟨fun hoff => hoff, fun now => ⟨fun _ => ?_, nofun⟩⟩
    rw [hcreate] at he
    exact of_decide_eq_true he
  seals hd d hsealing := by
    obtain ⟨k, hk⟩ := handler_of_sealing f e hd d hsealing
    have hkind := (h.procs hd.inst).1.kind hd.sess (h.handlers k hd hk)
    refine ⟨Session.HandshakeKeys.evolves derived _ _ (Session.evolves_bump _) hkind, ?_⟩
    intro hs d' hd'
    rw [← NoteKind.sealed.inj hd']
    exact hseals hs hd d hsealing
  stored i n hn _ := ((h.procs i).1.notes n hn).2.2.1
  sets _ _ _ _ _ _ _ _ _ _ _ := fun hoff => hoff

/-- Under the condition a handler seals under the handshake's direction. -/
theorem keys_of_answersWhileOpen (e : Event ι)
    (h : f.Invariant (.handshake derived True) unrestricted) (hsaved : SavedKeys derived f)
    (hok : f.answersWhileOpen e = true) (hd : Handler ι) (d : Option DirectionKeys)
    (hsealing : f.sealing e = some (hd, d)) :
    f.keys hd d = derived (f.session hd).sessionId := by
  cases d with
  | some d =>
      obtain ⟨k, hk, hd'⟩ := saved_of_sealing f e hd d hsealing
      exact hsaved k hd d hk hd'
  | none =>
      have hopen : (f.session hd).closed = false := by
        simp only [answersWhileOpen, hsealing, Bool.and_eq_true, Bool.not_eq_true'] at hok
        exact hok.1
      obtain ⟨k, hk⟩ := handler_of_sealing f e hd none hsealing
      exact ((h.procs hd.inst).1.kind hd.sess (h.handlers k hd hk)).1 hopen

variable [DecidableEq ι] (aead : Aead) (manager : SessionManager)

/-- A direction put aside while its session is open is the handshake's, and the
    session it belongs to stays the same. -/
theorem SavedKeys.step (g : Fleet ι) (e : Event ι)
    (h : f.Invariant (.handshake derived True) unrestricted) (hsaved : SavedKeys derived f)
    (hallows : Allows (.handshake derived True) unrestricted manager f e)
    (hok : f.answersWhileOpen e = true) (hstep : f.step aead manager e = some g) :
    SavedKeys derived g := by
  intro k hd d hhd hd'
  have hid : ∀ hd : Handler ι, f.handlers k = some hd →
      (g.session hd).sessionId = (f.session hd).sessionId := fun hd hhd =>
    ((h.grows aead manager g e hallows hstep hd.inst).evolves hd.sess
      (h.handlers k hd hhd)).sessionId
  rcases handler_of_step aead manager f e g hstep k hd hhd with hf | hnone | ⟨h', rfl, hf, rfl⟩
  · rw [hid hd hf]
    exact hsaved k hd d hf hd'
  · rw [hnone] at hd'
    exact absurd hd' nofun
  · have hopen : (f.session h').closed = false := by
      simp only [answersWhileOpen, sealing, hf, Option.all_some, Bool.true_and,
        Bool.not_eq_true'] at hok
      exact hok
    have hkind := (h.procs h'.inst).1.kind h'.sess (h.handlers k h' hf)
    rw [← Option.some.inj hd']
    show (f.session h').s2c = derived (g.session h').sessionId
    rw [hid h' hf]
    exact hkind.1 hopen

/-- Under the condition the invariant is kept with every envelope sealed under
    its handshake's key. -/
theorem invariant_of_answersWhileOpen
    (hstore : ∀ T : Terms, T.remote = true → LawfulStore T manager.store)
    (hrun : Run aead manager (fun f e => (handshaken derived e && f.answersWhileOpen e) = true)
      start f) :
    f.Invariant (.handshake derived True) unrestricted ∧ SavedKeys derived f := by
  induction hrun with
  | refl => exact ⟨invariant_start _ _, fun _ _ _ h => absurd h nofun⟩
  | tail u v e _ hok hstep ih =>
      obtain ⟨hinv, hsaved⟩ := ih
      rw [Bool.and_eq_true] at hok
      have hallows := allows_handshake True manager e hinv hok.1
        (fun _ => keys_of_answersWhileOpen e hinv hsaved hok.2)
      exact ⟨hinv.step aead manager hstore v e hallows hstep,
        SavedKeys.step aead manager v e hinv hsaved hallows hok.2 hstep⟩

end Fleet

/-- **When responses are sealed under the handshake key.** In a run in which
    handlers answer under their session's direction only while the session is
    open, and put the direction aside only then, every envelope is sealed under
    the direction its session's handshake derived. A handler that answers under
    its session's direction after the session was closed seals under the zero
    key. -/
theorem sealed_under_handshake {ι : Type} [DecidableEq ι] (aead : Aead) (ttl maxLife : ℤ)
    (backend : Backend) (derived : Bytes → DirectionKeys) :
    (∀ f : Fleet ι, Fleet.Run aead ⟨ttl, maxLife, backend.store⟩
        (fun f e => (Fleet.handshaken derived e && f.answersWhileOpen e) = true) Fleet.start f →
      ∀ i, ∀ n ∈ (f.proc i).history, ∀ d, n.kind = .sealed d → d = derived n.session.sessionId) ∧
    (∀ f : Fleet ι, Fleet.Run aead ⟨ttl, maxLife, backend.store⟩
        (fun _ e => Fleet.handshaken derived e = true) Fleet.start f →
      ∀ e h, f.sealing e = some (h, none) → (f.session h).closed = true →
        (f.keys h none).key = zeroKey) := by
  have hstore : ∀ T : Terms, T.remote = true → LawfulStore T backend.store :=
    fun T hT => Backend.lawful T hT backend
  refine ⟨fun f hrun i n hn d hkind => ?_, fun f hrun e h hsealing hclosed => ?_⟩
  · have hinv := (Fleet.invariant_of_answersWhileOpen aead _ hstore hrun).1
    exact ((hinv.procs i).1.notes n hn).2.2.2 trivial d hkind
  · have hinv : f.Invariant (.handshake derived False) Fleet.unrestricted :=
      Fleet.invariant_of_run aead _ hstore _
        (fun f e hf he => Fleet.allows_handshake False _ e hf he False.elim) _ f
        (Fleet.invariant_start _ _) hrun
    obtain ⟨k, hk⟩ := Fleet.handler_of_sealing f e h none hsealing
    exact ((hinv.procs h.inst).1.kind h.sess (hinv.handlers k h hk)).2 hclosed

/-- The directions of the sample handshake. -/
def sampleDerived : Bytes → DirectionKeys := fun _ => SessionMaterial.sample.s2c

/-- A request is accepted, its session is terminated while the answer is being
    computed, and the answer is sealed. -/
def terminatedRun : List (Event Unit) :=
  [.start 0 () (.create .sample), .run 0 (fun _ => 0),
    .start 1 () (.decryptRequest (.sample 1) (fun _ => .ok ())), .run 1 (fun _ => 1),
    .start 2 () (.terminate SessionMaterial.sample.sessionId), .run 2 (fun _ => 2),
    .respond 1 false "POST" "/v1/chat" []]

/-- A session terminated in flight: its answer goes out under the zero key. -/
theorem sealed_under_zero :
    ∃ f : Fleet Unit, Fleet.Run .sample ⟨900, 3600, InMemory.store⟩
        (fun _ e => Fleet.handshaken sampleDerived e = true) Fleet.start f ∧
      ∃ n ∈ (f.proc ()).history, n.kind = .sealed SessionMaterial.sample.s2c.zeroed ∧
        SessionMaterial.sample.s2c.zeroed.key = zeroKey ∧
        SessionMaterial.sample.s2c.zeroed ≠ sampleDerived n.session.sessionId := by
  obtain ⟨f, hrun, n, hn, hkind⟩ := Fleet.exists_run .sample ⟨900, 3600, InMemory.store⟩
    (fun _ e => Fleet.handshaken sampleDerived e) Fleet.start terminatedRun
    (fun f => ∃ n ∈ (f.proc ()).history, n.kind = .sealed SessionMaterial.sample.s2c.zeroed)
    (by decide +kernel)
  have hne : SessionMaterial.sample.s2c.zeroed ≠ SessionMaterial.sample.s2c := by decide
  exact ⟨f, hrun, n, hn, hkind, rfl, hne⟩

/-- The same with the answer sealed before the session is terminated. -/
theorem sealed_under_handshake_answered :
    ∃ f : Fleet Unit, Fleet.Run .sample ⟨900, 3600, Backend.memory.store⟩
        (fun f e => (Fleet.handshaken sampleDerived e && f.answersWhileOpen e) = true)
        Fleet.start f ∧
      (f.proc ()).history.length = 2 ∧
      ∀ n ∈ (f.proc ()).history, ∀ d, n.kind = .sealed d → d = SessionMaterial.sample.s2c := by
  obtain ⟨f, hrun, hlength⟩ := Fleet.exists_run .sample ⟨900, 3600, Backend.memory.store⟩
    (fun f e => Fleet.handshaken sampleDerived e && f.answersWhileOpen e) Fleet.start
    [.start 0 () (.create .sample), .run 0 (fun _ => 0),
      .start 1 () (.decryptRequest (.sample 1) (fun _ => .ok ())), .run 1 (fun _ => 1),
      .respond 1 false "POST" "/v1/chat" [],
      .start 2 () (.terminate SessionMaterial.sample.sessionId), .run 2 (fun _ => 2)]
    (fun f => (f.proc ()).history.length = 2) (by decide +kernel)
  exact ⟨f, hrun, hlength,
    (sealed_under_handshake .sample 900 3600 .memory sampleDerived).1 f hrun ()⟩

end SecureLlm
