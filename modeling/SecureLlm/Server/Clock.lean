import Mathlib.Order.Monotone.Basic
import Mathlib.Tactic.Linarith
import SecureLlm.Server.Atomic
import SecureLlm.Server.Delivery

/-!
# Operations While Time Passes

What the operations of a server in memory do when the clock moves on between its
readings. A lookup that finds a session reads the clock twice, once in the store
and once in the manager, and a session that expires in between is dropped by the
second; one that the first finds expired stays in the table. The request is then
accepted at the second reading, and the session is used at a third.

A session that has expired stays expired.

## Main definitions

* `Process.Found`: What the manager finds.
* `Process.Looked`: What a lookup does.
* `Process.Decrypted`: What decrypting a request does.
* `Process.Terminated`: What terminating a session does.
* `Process.Shrinks`: What reaping does.

## Theorems

* `find_clock`, `lookupAsync_clock`, `decryptRequest_clock`, `terminate_clock`:
  The operations.
* `reapExpired_clock`: Reaping drops entries and changes nothing else.
-/

namespace SecureLlm

open Library

/-- The clock without its first readings. -/
def later (k : ℕ) (clock : ℕ → ℚ) : ℕ → ℚ := fun n => clock (n + k)

/-- A session that is not expired is within both of its times. -/
theorem Session.within_of_not_isExpired (s : Session) (t : ℚ) (h : s.isExpired t = false) :
    s.closed = false ∧ t - s.lastUsedAt ≤ s.ttlSeconds ∧
      t - s.createdAt ≤ s.maxLifetimeSeconds := by
  unfold isExpired at h
  by_cases hclosed : s.closed = true
  · rw [if_pos hclosed] at h
    exact absurd h nofun
  rw [if_neg hclosed] at h
  by_cases hidle : (s.ttlSeconds : ℚ) < t - s.lastUsedAt
  · rw [if_pos hidle] at h
    exact absurd h nofun
  rw [if_neg hidle, decide_eq_false_iff_not] at h
  exact ⟨Bool.not_eq_true _ ▸ hclosed, not_lt.mp hidle, not_lt.mp h⟩

/-- None of the exceptions of opening an envelope is an HTTP exception. -/
theorem openEnvelope_error (aead : Aead) (direction : DirectionKeys) (sid : Bytes)
    (method path : String) (body : Bytes) (e : Exc)
    (h : openEnvelope aead direction sid method path body = .error e) (status : ℕ)
    (code : ErrorCode) (message : String) : e ≠ .httpException status code message := by
  -- A counter out of range and a method that is not ASCII raise exceptions of Python.
  have haad : ∀ sid' counter e', buildAad method path sid' counter = .error e' →
      e' ≠ .httpException status code message := by
    intro sid' counter e' h'
    rw [buildAad] at h'
    simp only [bind, Except.bind, intToBytes, encodeMethod] at h'
    split at h'
    · rename_i e'' hcount
      rw [Except.error.injEq] at h'
      rw [← h']
      split at hcount
      · rw [← Except.error.inj hcount]
        intro hsame
        cases hsame
      split at hcount
      · cases hcount
      · rw [← Except.error.inj hcount]
        intro hsame
        cases hsame
    · split at h'
      · rename_i e'' hverb
        rw [Except.error.injEq] at h'
        rw [← h']
        split at hverb
        · cases hverb
        · rw [← Except.error.inj hverb]
          intro hsame
          cases hsame
      · cases h'
  unfold openEnvelope at h
  split at h
  · rw [← Except.error.inj h]
    intro hsame
    cases hsame
  split at h
  · rw [← Except.error.inj h]
    intro hsame
    cases hsame
  split at h
  · rename_i e' hbuild
    rw [← Except.error.inj h]
    exact haad _ _ e' hbuild
  split at h
  · rw [← Except.error.inj h]
    intro hsame
    cases hsame
  · cases h

theorem httpError_ne {code code' : ErrorCode} (h : code ≠ code') (status status' : ℕ)
    (message message' : String) :
    httpError code status message ≠ .httpException status' code' message' := fun heq =>
  h (Exc.httpException.inj heq).2.1

/-- What the manager finds under an id: nothing, an expired session that it does
    not show, or a live one. -/
inductive Process.Found (p : Process) (sid : Bytes) (clock : ℕ → ℚ) :
    (ℕ → ℚ) → Option Ref → Prop where
  | absent (htable : p.table.get? sid = none) : Found p sid clock clock none
  | late (r : Ref) (htable : p.table.get? sid = some r)
      (hlate : (p.heap r).isExpired (clock 0) = true) : Found p sid clock (later 2 clock) none
  | live (r : Ref) (htable : p.table.get? sid = some r)
      (hlive : (p.heap r).isExpired (clock 0) = false) :
      Found p sid clock (later 1 clock) (some r)

/-- What a lookup does: nothing, or it drops a session that has just expired. -/
inductive Process.Looked (p : Process) (sid : Bytes) (clock : ℕ → ℚ) :
    Process → (ℕ → ℚ) → Option Ref → Prop where
  | absent (htable : p.table.get? sid = none) : Looked p sid clock p clock none
  | late (r : Ref) (htable : p.table.get? sid = some r)
      (hlate : (p.heap r).isExpired (clock 0) = true) : Looked p sid clock p (later 2 clock) none
  | dropped (r : Ref) (htable : p.table.get? sid = some r)
      (hlate : (p.heap r).isExpired (clock 1) = true) :
      Looked p sid clock ((p.change r Session.zeroize).drop sid) (later 2 clock) none
  | live (r : Ref) (htable : p.table.get? sid = some r)
      (hlive : (p.heap r).isExpired (clock 1) = false) :
      Looked p sid clock p (later 2 clock) (some r)

/-- What decrypting a request does: it does not parse, no session is found, its
    session refuses it, or it is accepted. -/
inductive Process.Decrypted {T : Type} (p : Process) (request : Request) (clock : ℕ → ℚ) :
    Process → (ℕ → ℚ) → Task (Ref × T) → Prop where
  | malformed (e e' : Exc) (hunpack : unpackEnvelope request.body = .error e) :
      Decrypted p request clock p clock (.fail e')
  | unknown (env : Envelope) (q : Process) (clock' : ℕ → ℚ)
      (hunpack : unpackEnvelope request.body = .ok env)
      (hlooked : p.Looked env.sessionId clock q clock' none) :
      Decrypted p request clock q clock' (.fail (httpError .unknownSession 401 ""))
  | refused (env : Envelope) (r : Ref) (q : Process) (e : Exc)
      (hunpack : unpackEnvelope request.body = .ok env)
      (htable : p.table.get? env.sessionId = some r)
      (hlive : (p.heap r).isExpired (clock 1) = false)
      (hq : q = p ∨ ∃ window, q = p.change r (fun s => s.advance window))
      (he : ∀ status message, e ≠ .httpException status .unknownSession message) :
      Decrypted p request clock q (later 2 clock) (.fail e)
  | accepted (env : Envelope) (r : Ref) (window : ReplayWindow) (value : T)
      (hunpack : unpackEnvelope request.body = .ok env)
      (htable : p.table.get? env.sessionId = some r)
      (hlive : (p.heap r).isExpired (clock 1) = false) :
      Decrypted p request clock
        (((p.change r (fun s => s.advance window)).change r (fun s => s.touch (clock 2))).assign
          (p.heap r).sessionId r) (later 3 clock) (.done (r, value))

/-- What terminating a session does. -/
inductive Process.Terminated (p : Process) (sid : Bytes) : Process → Bool → Prop where
  | missing : Terminated p sid p false
  | closed (r : Ref) (htable : p.table.get? sid = some r) :
      Terminated p sid ((p.change r Session.zeroize).drop sid) true

/-- A task that comes to its end runs as it is under a free lock. -/
theorem withLock_advance {α : Type} (body : Task α) (a : α) (clock clock' : ℕ → ℚ) (p q : Process)
    (hp : p.Locked false) (h : body.advance clock (p.setLocked true) = (q, clock', .done a)) :
    (Task.withLock body).advance clock p = (q.setLocked false, clock', .done a) := by
  have hready : (!p.locked) = true := by rw [show p.locked = false from hp]; rfl
  show (if (!p.locked) = true then _ else _) = _
  rw [if_pos hready]
  exact Coop.advance_tryFinally body _ clock clock' _ q a h

/-- The same objects, and no entries but those there were. -/
structure Process.Shrinks (p q : Process) : Prop where
  heap : q.heap = p.heap
  next : q.next = p.next
  table : ∀ sid r, q.table.get? sid = some r → p.table.get? sid = some r

theorem reapKeys_shrinks (keys : List Bytes) (removed : ℕ) (p q : Process) (h : p.Shrinks q) :
    (reapKeys keys removed).Ends (fun u => p.Shrinks u) q := by
  induction keys generalizing removed q with
  | nil => exact h
  | cons sid rest ih =>
      refine tableGet_ends sid q _ _ ?_
      cases q.table.get? sid with
      | none => exact h
      | some r =>
          intro t
          show Coop.Ends _ (if (q.heap r).isExpired t = true then _ else _) q
          by_cases hlate : (q.heap r).isExpired t = true
          · rw [if_pos hlate]
            refine ih (removed + 1) (q.drop sid) ⟨h.heap, h.next, fun sid' r' h' => ?_⟩
            rw [Process.table_drop, Dict.get?_erase] at h'
            split at h'
            · cases h'
            · exact h.table sid' r' h'
          · rw [if_neg hlate]
            exact ih removed q h

theorem reapExpired_clock (ttl maxLife : ℤ) (p : Process) (hp : p.Locked false) :
    (SessionManager.reapExpired ⟨ttl, maxLife, InMemory.store⟩).Ends (fun u => p.Shrinks u) p := by
  have hready : (!p.locked) = true := by rw [show p.locked = false from hp]; rfl
  refine ⟨hready, Coop.Ends.tryFinally (fun u => p.Shrinks u) (fun u => p.Shrinks u) _ _ _
    (reapKeys_shrinks _ 0 p _ ⟨rfl, rfl, fun _ _ h => h⟩) (fun q hq t ht => ?_)⟩
  exact hq _ ⟨ht.heap, ht.next, ht.table⟩

section Operations

variable (ttl maxLife : ℤ) (sid : Bytes) (clock : ℕ → ℚ) (p : Process)

theorem lookup_clock :
    (InMemory.lookup sid).advance clock p =
      match p.table.get? sid with
      | none => (p, clock, .done none)
      | some r => (p, later 1 clock,
          .done (if (p.heap r).isExpired (clock 0) = true then none else some r)) := by
  show Coop.advance (match p.table.get? sid with
    | none => return none
    | some r => _) _ p = _
  cases p.table.get? sid with
  | none => rfl
  | some r =>
      show Coop.advance (if (p.heap r).isExpired (clock 0) = true then .done none
        else .done (some r)) (later 1 clock) p = (p, later 1 clock, .done _)
      by_cases hlate : (p.heap r).isExpired (clock 0) = true
      · rw [if_pos hlate, if_pos hlate]
        rfl
      · rw [if_neg hlate, if_neg hlate]
        rfl

variable {clock} (hclock : Monotone clock)
include hclock

theorem find_clock :
    ∃ clock' o, (SessionManager.find ⟨ttl, maxLife, InMemory.store⟩ sid).advance clock p =
      (p, clock', .done o) ∧ p.Found sid clock clock' o := by
  have hlookup := lookup_clock sid clock p
  cases htable : p.table.get? sid with
  | none =>
      rw [htable] at hlookup
      refine ⟨clock, none, (Coop.advance_bind _ _ _ _ _ _ _ hlookup).trans hlookup, ?_⟩
      exact Process.Found.absent htable
  | some r =>
      rw [htable] at hlookup
      by_cases hlate : (p.heap r).isExpired (clock 0) = true
      · -- The second look at the table comes later, and finds the session expired as well.
        have hagain := lookup_clock sid (later 1 clock) p
        have hlate' : (p.heap r).isExpired (later 1 clock 0) = true :=
          Session.isExpired_mono _ _ _ (hclock (Nat.zero_le _)) hlate
        dsimp only at hlookup
        rw [htable] at hagain
        dsimp only at hagain
        rw [if_pos hlate] at hlookup
        rw [if_pos hlate'] at hagain
        refine ⟨_, none, (Coop.advance_bind _ _ _ _ _ _ _ hlookup).trans hagain, ?_⟩
        exact Process.Found.late r htable hlate
      · dsimp only at hlookup
        rw [if_neg hlate] at hlookup
        refine ⟨_, some r, Coop.advance_bind _ _ _ _ _ _ _ hlookup, ?_⟩
        exact Process.Found.live r htable (Bool.not_eq_true _ ▸ hlate)

theorem lookupAsync_clock :
    ∃ q clock' o, (SessionManager.lookupAsync ⟨ttl, maxLife, InMemory.store⟩ sid).advance clock p =
      (q, clock', .done o) ∧ p.Looked sid clock q clock' o := by
  rcases find_clock ttl maxLife sid p hclock with ⟨clock', o, hfind, hfound⟩
  cases hfound with
  | absent htable =>
      exact ⟨p, clock, none, Coop.advance_bind _ _ _ _ _ _ _ hfind, .absent htable⟩
  | late r htable hlate =>
      exact ⟨p, _, none, Coop.advance_bind _ _ _ _ _ _ _ hfind, .late r htable hlate⟩
  | live r htable hlive =>
      have hcheck : (SessionManager.lookupAsync ⟨ttl, maxLife, InMemory.store⟩ sid).advance clock p
          = _ := Coop.advance_bind _ _ _ _ _ _ _ hfind
      cases hlate : (p.heap r).isExpired (clock 1) with
      | true =>
          refine ⟨_, _, none, hcheck.trans ?_, .dropped r htable hlate⟩
          show Coop.advance (if (p.heap r).isExpired (clock 1) = true then _ else .done (some r))
            (later 2 clock) p = _
          rw [if_pos hlate]
          rfl
      | false =>
          refine ⟨p, _, some r, hcheck.trans ?_, .live r htable hlate⟩
          show Coop.advance (if (p.heap r).isExpired (clock 1) = true then _ else .done (some r))
            (later 2 clock) p = _
          rw [if_neg (by rw [hlate]; exact Bool.false_ne_true)]
          rfl

theorem decryptRequest_clock {T : Type} (aead : Aead) (request : Request)
    (schema : Bytes → Except String T) :
    ∃ q clock' rest, (decryptRequest aead request ⟨ttl, maxLife, InMemory.store⟩ schema).advance
      clock p = (q, clock', rest) ∧ p.Decrypted request clock q clock' rest := by
  cases hunpack : unpackEnvelope request.body with
  | error e =>
      refine ⟨p, clock, _, ?_, .malformed e (httpError .badEnvelope 400 "") hunpack⟩
      rw [decryptRequest]
      by_cases hshort : request.body.length < 41
      · simp only [if_pos hshort]
        rfl
      · simp only [if_neg hshort, hunpack]
        rfl
  | ok env =>
      rcases lookupAsync_clock ttl maxLife env.sessionId p hclock with
        ⟨q, clock', o, hlookup, hlooked⟩
      cases o with
      | none =>
          rw [decryptRequest]
          simp only [if_neg (length_of_unpackEnvelope _ env hunpack), hunpack]
          exact ⟨q, clock', _, Coop.advance_bind _ _ _ _ _ _ _ hlookup,
            .unknown env q clock' hunpack hlooked⟩
      | some r =>
          cases hlooked with
          -- The session is there: the checks follow in the order in which the code makes them.
          | live _ htable hlive =>
          have hrun := decryptRequest_of_lookup aead ttl maxLife request schema p env hunpack clock
            _ p r hlookup
          cases hwindow : (p.heap r).replay.checkAndAdvance env.counter with
          | error e =>
              rw [hwindow] at hrun
              exact ⟨_, _, _, hrun, .refused env r p _ hunpack htable hlive (Or.inl rfl)
                fun _ _ => httpError_ne (by decide) _ _ _ _⟩
          | ok window =>
              rw [hwindow] at hrun
              dsimp only at hrun
              cases hopen : openEnvelope aead (p.heap r).c2s (p.heap r).sessionId request.method
                  request.path request.body with
              | error e =>
                  rw [hopen] at hrun
                  have hhttp := openEnvelope_error _ _ _ _ _ _ e hopen
                  cases e with
                  | envelopeAuthError m =>
                      exact ⟨_, _, _, hrun, .refused env r _ _ hunpack htable hlive
                        (Or.inr ⟨window, rfl⟩) fun _ _ => httpError_ne (by decide) _ _ _ _⟩
                  | _ =>
                      exact ⟨_, _, _, hrun, .refused env r _ _ hunpack htable hlive
                        (Or.inr ⟨window, rfl⟩) (fun _ _ => hhttp _ _ _)⟩
              | ok result =>
                  rw [hopen] at hrun
                  dsimp only at hrun
                  cases hschema : schema result.2 with
                  | error message =>
                      rw [hschema] at hrun
                      exact ⟨_, _, _, hrun, .refused env r _ _ hunpack htable hlive
                        (Or.inr ⟨window, rfl⟩) fun _ _ => httpError_ne (by decide) _ _ _ _⟩
                  | ok value =>
                      rw [hschema] at hrun
                      exact ⟨_, _, _, hrun, .accepted env r window value hunpack htable hlive⟩

theorem terminate_clock (hp : p.Locked false) :
    ∃ q clock' removed,
      (SessionManager.terminate ⟨ttl, maxLife, InMemory.store⟩ sid).advance clock p =
          (q, clock', .done removed) ∧ p.Terminated sid q removed := by
  have hfree : (p.setLocked true).setLocked false = p := by
    unfold Process.setLocked
    rw [← show p.locked = false from hp]
  rcases find_clock ttl maxLife sid (p.setLocked true) hclock with ⟨clock', o, hfind, hfound⟩
  have hbody := Coop.advance_bind _ (fun o => match o with
    | none => return false
    | some sess => do
      Task.change sess Session.zeroize
      InMemory.delete sid : Option Ref → Task Bool) _ _ _ _ _ hfind
  cases o with
  | none =>
      refine ⟨_, _, _, withLock_advance _ _ _ _ p _ hp hbody, ?_⟩
      rw [hfree]
      exact .missing
  | some r =>
      have htable : p.table.get? sid = some r := by
        cases hfound with
        | live _ htable _ => exact htable
      have hdelete : (InMemory.delete sid).advance clock'
          ((p.setLocked true).change r Session.zeroize) =
            (((p.setLocked true).change r Session.zeroize).drop sid, clock', .done true) := by
        show (_, _, Coop.done (p.table.get? sid).isSome) = _
        rw [htable]
        rfl
      refine ⟨_, _, _, withLock_advance _ _ _ _ p _ hp (hbody.trans hdelete), ?_⟩
      have hq : (((p.setLocked true).change r Session.zeroize).drop sid).setLocked false =
          (((p.setLocked true).setLocked false).change r Session.zeroize).drop sid := rfl
      rw [hq, hfree]
      exact .closed r htable

end Operations

end SecureLlm
