import SecureLlm.Server.Delivery

/-!
# Forged Bodies

A body that does not open under its session's key should make no difference to
the session. It does: the window records the counter in its header before the
body is opened, so anyone who knows a session's id can use its counters up, and
one body with a high counter uses up all of them but the last.

Forged bodies are harmless exactly as long as the window refuses every one of
them, or the session is not live, or the body is for another session.

## Main definitions

* `Session.opens`: A delivered body opens under the session's key.
* `Session.Refuses`: A delivered body does not get past the window.
* `Process.Unaffected`: Deleting the bodies that do not open changes nothing.

## Theorems

* `receive_refused`, `receive_forged`: What a forged body does to its session.
* `forged_bodies_harmless`: When forged bodies make no difference.
* `forged_body_blocks_client`: One of them shuts a client out.
-/

namespace SecureLlm

open Library

/-- The body opens under the session's key, for the request's method and path. -/
def Session.opens (aead : Aead) (s : Session) (d : Delivery) : Bool :=
  match openEnvelope aead s.c2s s.sessionId d.request.method d.request.path d.request.body with
  | .ok _ => true
  | .error _ => false

/-- The session is live and the body is for it, but the window does not admit
    its counter; or one of the first two is not so. -/
def Session.Refuses (s : Session) (d : Delivery) : Prop :=
  ∀ env, unpackEnvelope d.request.body = .ok env → env.sessionId = s.sessionId →
    s.isExpired d.time = false → s.replay.admits env.counter = false

instance (s : Session) (d : Delivery) : Decidable (s.Refuses d) :=
  match h : unpackEnvelope d.request.body with
  | .error _ => isTrue fun _ hunpack => absurd (h.symm.trans hunpack) nofun
  | .ok env => decidable_of_iff (env.sessionId = s.sessionId → s.isExpired d.time = false →
      s.replay.admits env.counter = false)
    ⟨fun hrefuses _ hunpack => Except.ok.inj (h.symm.trans hunpack) ▸ hrefuses,
      fun hrefuses => hrefuses env h⟩

/-- Deleting the bodies that are not kept changes neither which of the others
    are accepted nor the session's window, its last use and its counter. -/
def Process.Unaffected (aead : Aead) (manager : SessionManager) (keep : Delivery → Bool)
    (p : Process) (r : Ref) (ds : List Delivery) : Prop :=
  let server := Process.deliver aead manager
  let s := (server.after p ds).heap r
  let t := (server.after p (ds.filter keep)).heap r
  server.answers keep p ds = server.answers keep p (ds.filter keep) ∧
    s.replay = t.replay ∧ s.lastUsedAt = t.lastUsedAt ∧ s.s2cCounter = t.s2cCounter

variable (aead : Aead) (s : Session) (d : Delivery)

theorem target_of_opens (h : s.opens aead d = true) :
    ∃ env, unpackEnvelope d.request.body = .ok env ∧ env.sessionId = s.sessionId := by
  rw [Session.opens] at h
  cases hopen : openEnvelope aead s.c2s s.sessionId d.request.method d.request.path
      d.request.body with
  | error e =>
      rw [hopen] at h
      exact absurd h nofun
  | ok result =>
      rcases (openEnvelope_eq_ok_iff _ _ _ _ _ _ _ _).mp hopen with ⟨hunpack, hsid, -⟩
      exact ⟨result.1, hunpack, hsid⟩

/-- What does not get past the window changes nothing. -/
theorem receive_refused (h : s.Refuses d) : s.receive aead d = (s, false) := by
  rw [Session.receive]
  cases hunpack : unpackEnvelope d.request.body with
  | error e => rfl
  | ok env =>
      dsimp only
      by_cases hsid : env.sessionId = s.sessionId
      · rw [if_neg (not_not.mpr hsid)]
        cases hlate : s.isExpired d.time with
        | true => rw [if_pos rfl]
        | false =>
            rw [if_neg Bool.false_ne_true]
            have hrefused := h env hunpack hsid hlate
            rcases s.replay.checkAndAdvance_natCast env.counter with
              ⟨hgt, -⟩ | ⟨-, hadmits, -⟩ | ⟨-, -, e, herror⟩
            · rw [ReplayWindow.admits_of_lt _ _ hgt] at hrefused
              cases hrefused
            · rw [hadmits] at hrefused
              cases hrefused
            · rw [herror]
      · rw [if_pos hsid]

/-- A forged body that gets past the window is refused, and its counter is used
    up. -/
theorem receive_forged (hforged : s.opens aead d = false) (env : Envelope)
    (hunpack : unpackEnvelope d.request.body = .ok env) (hsid : env.sessionId = s.sessionId)
    (hlive : s.isExpired d.time = false) (hadmits : s.replay.admits env.counter = true) :
    (s.receive aead d).2 = false ∧ (s.receive aead d).1.replay.admits env.counter = false := by
  rcases (s.replay.checkAndAdvance_natCast_ok_iff env.counter).mpr hadmits with ⟨window, hcheck⟩
  have hused := ReplayWindow.not_admits_of_checkAndAdvance _ _ _ hcheck
  rw [Session.opens] at hforged
  rw [Session.receive, hunpack]
  dsimp only
  rw [if_neg (not_not.mpr hsid), hlive, if_neg Bool.false_ne_true, hcheck]
  dsimp only
  cases hopen : openEnvelope aead s.c2s s.sessionId d.request.method d.request.path
      d.request.body with
  | error e => exact ⟨rfl, hused⟩
  | ok result =>
      rw [hopen] at hforged
      cases hforged

/-- A session that has received requests still has its id and its keys. -/
theorem receive_after_same (ds : List Delivery) :
    ((Session.receive aead).after s ds).sessionId = s.sessionId ∧
      ((Session.receive aead).after s ds).c2s = s.c2s := by
  induction ds generalizing s with
  | nil => exact ⟨rfl, rfl⟩
  | cons d ds ih =>
      rw [Machine.after_cons]
      rcases receive_same aead s d with ⟨hsid, hkeys⟩
      exact ⟨(ih _).1.trans hsid, (ih _).2.trans hkeys⟩

/-- So the same bodies open under them. -/
theorem opens_after (ds : List Delivery) :
    ((Session.receive aead).after s ds).opens aead = s.opens aead := by
  funext d
  rw [Session.opens, Session.opens, (receive_after_same aead s ds).1,
    (receive_after_same aead s ds).2]

/-- **When forged bodies make no difference.** For a session that a server holds
    in memory, deleting the bodies that do not open under its key makes no
    difference to any beginning of a sequence of deliveries, if and only if each
    of those bodies is refused by the session when it comes. -/
theorem forged_bodies_harmless (ttl maxLife : ℤ) (p : Process) (hindexed : p.Indexed) (sid : Bytes)
    (r : Ref) (hheld : p.table.get? sid = some r) (ds : List Delivery) :
    (∀ pre, pre <+: ds → p.Unaffected aead ⟨ttl, maxLife, InMemory.store⟩
      ((p.heap r).opens aead) r pre) ↔
    ∀ pre d, pre ++ [d] <+: ds → (p.heap r).opens aead d = false →
      (((Process.deliver aead ⟨ttl, maxLife, InMemory.store⟩).after p pre).heap r).Refuses d := by
  have hsid := hindexed sid r hheld
  have hview := deliver_view aead ttl maxLife sid r ((p.heap r).opens aead) (fun d hd => by
    rw [← hsid]
    exact target_of_opens aead (p.heap r) d hd)
  have hafter := hview.after p ⟨hindexed, hheld⟩
  have hanswers := hview.answers p ⟨hindexed, hheld⟩
  simp only [Process.Unaffected, hafter, hanswers]
  constructor
  · -- A forged body that is not refused changes the window for good.
    intro h pre d hpre hforged env hunpack hfor hlive
    by_contra hadmits
    rw [Bool.not_eq_false] at hadmits
    have hshort : pre <+: ds := (List.prefix_append pre [d]).trans hpre
    have hwindow := (h pre hshort).2.1
    have hwindow' := (h (pre ++ [d]) hpre).2.1
    rw [Machine.after_append, Machine.after_cons, Machine.after_nil, List.filter_append,
      List.filter_cons_of_neg (by rw [hforged]; exact Bool.false_ne_true), List.filter_nil,
      List.append_nil, ← hwindow] at hwindow'
    have hused := (receive_forged aead _ d (by rw [opens_after]; exact hforged) env hunpack hfor
      hlive hadmits).2
    rw [hwindow', hadmits] at hused
    exact absurd hused nofun
  · intro h pre hpre
    have hidle : (Session.receive aead).Idle ((p.heap r).opens aead) (p.heap r) pre := by
      intro pre' d hpre' hforged
      rw [receive_refused aead _ d (h pre' d (hpre'.trans hpre) hforged)]
    rw [Machine.after_filter _ _ _ _ hidle, Machine.answers_filter _ _ _ _ hidle]
    exact ⟨rfl, rfl, rfl, rfl⟩

theorem withSample_indexed : Process.withSample.Indexed := by
  intro sid r hr
  rw [Process.withSample, Process.table_assign, Dict.get?_set] at hr
  by_cases hsid : sid = SessionMaterial.sample.sessionId
  · rw [if_pos hsid, Option.some.injEq] at hr
    rw [← hr, hsid]
    rfl
  · rw [if_neg hsid] at hr
    exact absurd hr nofun

/-- The delivery of a sample request, and of one with a spoilt tag. -/
def Delivery.sample (counter : ℕ) : Delivery := ⟨.sample counter, fun _ => .ok (), 0⟩

def Delivery.spoilt (counter : ℕ) : Delivery :=
  ⟨{ Request.sample counter with body := (Request.sample counter).body.dropLast ++ [0] },
    fun _ => .ok (), 0⟩

/-- A body with a spoilt tag and the last counter there is, and then the
    client's first request: the client is shut out. -/
theorem forged_body_blocks_client :
    ¬ Process.withSample.Unaffected .sample ⟨900, 3600, InMemory.store⟩
      ((Process.withSample.heap 0).opens .sample) 0 [.spoilt (2 ^ 64 - 1), .sample 1] := by
  have hanswers :
      (Process.deliver .sample ⟨900, 3600, InMemory.store⟩).answers
        ((Process.withSample.heap 0).opens .sample) .withSample
        [.spoilt (2 ^ 64 - 1), .sample 1] = [false] ∧
      (Process.deliver .sample ⟨900, 3600, InMemory.store⟩).answers
        ((Process.withSample.heap 0).opens .sample) .withSample
        ([Delivery.spoilt (2 ^ 64 - 1), .sample 1].filter
          ((Process.withSample.heap 0).opens .sample)) = [true] := by
    decide +kernel
  intro h
  have hsame := h.1
  rw [hanswers.1, hanswers.2] at hsame
  exact absurd hsame nofun

/-- The same body with a counter that the client has used does no harm. -/
theorem forged_bodies_harmless_sample :
    Process.withSample.Unaffected .sample ⟨900, 3600, InMemory.store⟩
      ((Process.withSample.heap 0).opens .sample) 0 [.sample 5, .spoilt 5, .sample 6] := by
  refine (forged_bodies_harmless .sample 900 3600 .withSample withSample_indexed
    SessionMaterial.sample.sessionId 0 rfl [.sample 5, .spoilt 5, .sample 6]).mpr ?_ _
    List.prefix_rfl
  have hopens : (Process.withSample.heap 0).opens .sample (.sample 5) = true ∧
      (Process.withSample.heap 0).opens .sample (.sample 6) = true := by decide +kernel
  have hrefuses : (((Process.deliver .sample ⟨900, 3600, InMemory.store⟩).after .withSample
      [.sample 5]).heap 0).Refuses (.spoilt 5) := by decide +kernel
  intro pre d hpre hforged
  rcases pre with _ | ⟨x, _ | ⟨y, _ | ⟨z, pre⟩⟩⟩
  · rw [List.nil_append, List.cons_prefix_cons] at hpre
    rw [hpre.1, hopens.1] at hforged
    exact absurd hforged nofun
  · rw [List.cons_append, List.nil_append, List.cons_prefix_cons, List.cons_prefix_cons] at hpre
    rw [hpre.1, hpre.2.1]
    exact hrefuses
  · rw [List.cons_append, List.cons_append, List.nil_append, List.cons_prefix_cons,
      List.cons_prefix_cons, List.cons_prefix_cons] at hpre
    rw [hpre.2.2.1, hopens.2] at hforged
    exact absurd hforged nofun
  · have hlength := hpre.length_le
    simp only [List.length_append, List.length_cons, List.length_nil] at hlength
    omega

end SecureLlm
