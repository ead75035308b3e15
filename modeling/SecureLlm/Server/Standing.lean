import SecureLlm.Server.Atomic
import SecureLlm.Server.FleetInvariant
import SecureLlm.Session.Erasure

/-!
# Sessions That Are Left Alone

What an operation on one session does to the others: nothing. A set of sessions
is kept, each with the object that the table has for it. An operation whose
target is none of them leaves every one of them as it is, down to its counter
and its window, and in the table. The reaper has no target; it leaves them
where the clock shows it none of them expired.

The changes are looked at one by one, in a server without Redis. Creating a
session is the one operation whose change depends on what it did before it
waited for the lock, so it is computed.

## Main definitions

* `Process.Sound`: What the table has under an id is an object of that id.
* `Process.Retains`: The kept sessions are in the table as they were.
* `Process.one`: One session is kept.
* `standing`: The bounds of a task that keeps them.

## Theorems

* `Process.Retains.alloc`, `Process.Retains.change`, `Process.Retains.assign`,
  `Process.Retains.drop`: Which changes keep them.
* `lookupAsync_standing`, `terminate_standing`, `reapExpired_standing`,
  `decryptRequest_standing`: The operations keep them.
* `Op.keeps`: So does each operation on another session.
* `create_retains`: A session that is made is kept from then on.
-/

namespace SecureLlm

open Library

namespace Process

/-- What the table has under an id is an object of that id. -/
def Sound (p : Process) : Prop :=
  ∀ sid r, p.table.get? sid = some r → r < p.next ∧ (p.heap r).sessionId = sid

/-- The kept sessions are in the table, and each object is as it was. -/
structure Retains (K : Ref → Session → Prop) (p : Process) : Prop where
  sound : p.Sound
  kept : ∀ r s, K r s → p.table.get? s.sessionId = some r ∧ p.heap r = s

namespace Retains

variable {K : Ref → Session → Prop} {p : Process}

/-- The object of an id that is not kept is not kept. -/
theorem not_kept (h : p.Retains K) {sid : Bytes} {x : Ref} (hget : p.table.get? sid = some x)
    (hsid : ∀ r s, K r s → s.sessionId ≠ sid) (s : Session) : ¬ K x s := by
  intro hK
  have hheap : p.heap x = s := (h.kept x s hK).2
  refine hsid x s hK ?_
  rw [← hheap]
  exact (h.sound sid x hget).2

theorem alloc (h : p.Retains K) (s : Session) (kind : NoteKind) : (p.alloc s kind).Retains K where
  sound sid r hget := by
    rcases h.sound sid r hget with ⟨hlt, hsid⟩
    rw [heap_alloc_of_lt p s kind r hlt]
    exact ⟨Nat.lt_succ_of_lt hlt, hsid⟩
  kept r s' hK := by
    rcases h.kept r s' hK with ⟨hget, hheap⟩
    rw [heap_alloc_of_lt p s kind r (h.sound _ r hget).1]
    exact ⟨hget, hheap⟩

theorem change (h : p.Retains K) (x : Ref) (f : Session → Session)
    (hid : (f (p.heap x)).sessionId = (p.heap x).sessionId) (hx : ∀ s, ¬ K x s) :
    (p.change x f).Retains K where
  sound sid r hget := by
    rcases h.sound sid r hget with ⟨hlt, hsid⟩
    refine ⟨hlt, ?_⟩
    by_cases hr : r = x
    · rw [hr] at hsid ⊢
      rw [heap_change_self, hid]
      exact hsid
    · rw [heap_change_of_ne p x r f hr]
      exact hsid
  kept r s hK := by
    rcases h.kept r s hK with ⟨hget, hheap⟩
    have hr : r ≠ x := fun heq => hx s (heq ▸ hK)
    rw [heap_change_of_ne p x r f hr]
    exact ⟨hget, hheap⟩

/-- An object is assigned to its id, which is not a kept one. -/
theorem assign (h : p.Retains K) (x : Ref) (hx : x < p.next)
    (hsid : ∀ r s, K r s → s.sessionId ≠ (p.heap x).sessionId) :
    (p.assign (p.heap x).sessionId x).Retains K where
  sound sid r hget := by
    rw [table_assign, Dict.get?_set] at hget
    by_cases heq : sid = (p.heap x).sessionId
    · rw [if_pos heq, Option.some.injEq] at hget
      rw [← hget]
      exact ⟨hx, heq.symm⟩
    · rw [if_neg heq] at hget
      exact h.sound sid r hget
  kept r s hK := by
    rw [table_assign, Dict.get?_set, if_neg (hsid r s hK)]
    exact h.kept r s hK

theorem drop (h : p.Retains K) (sid : Bytes) (hsid : ∀ r s, K r s → s.sessionId ≠ sid) :
    (p.drop sid).Retains K where
  sound sid' r hget := by
    rw [table_drop, Dict.get?_erase] at hget
    by_cases heq : sid' = sid
    · rw [if_pos heq] at hget
      exact absurd hget (by simp)
    · rw [if_neg heq] at hget
      exact h.sound sid' r hget
  kept r s hK := by
    rw [table_drop, Dict.get?_erase, if_neg (hsid r s hK)]
    exact h.kept r s hK

/-- The table, the objects and their number are all there is to it. -/
theorem congr (h : p.Retains K) (q : Process) (hheap : q.heap = p.heap) (hnext : q.next = p.next)
    (htable : q.table = p.table) : q.Retains K where
  sound sid r hget := by
    rw [htable] at hget
    rw [hheap, hnext]
    exact h.sound sid r hget
  kept r s hK := by
    rw [htable, hheap]
    exact h.kept r s hK

end Retains

/-- One session is kept. -/
def one (r : Ref) (s : Session) (x : Ref) (t : Session) : Prop := x = r ∧ t = s

section One

variable {p : Process} {r : Ref} {s : Session}

theorem Retains.get (h : p.Retains (one r s)) : p.table.get? s.sessionId = some r :=
  (h.kept r s ⟨rfl, rfl⟩).1

theorem Retains.heap (h : p.Retains (one r s)) : p.heap r = s := (h.kept r s ⟨rfl, rfl⟩).2

/-- It may be changed and is then kept as it has become. -/
theorem Retains.update (h : p.Retains (one r s)) (f : Session → Session)
    (hid : (f s).sessionId = s.sessionId) : (p.change r f).Retains (one r (f s)) where
  sound sid x hget := by
    rcases h.sound sid x hget with ⟨hlt, hsid⟩
    refine ⟨hlt, ?_⟩
    by_cases hx : x = r
    · rw [hx, heap_change_self, h.heap, hid]
      rw [hx, h.heap] at hsid
      exact hsid
    · rw [heap_change_of_ne p r x f hx]
      exact hsid
  kept x t ht := by
    rcases ht with ⟨rfl, rfl⟩
    rw [heap_change_self, h.heap, hid]
    exact ⟨h.get, rfl⟩

/-- It may be written back under its id. -/
theorem Retains.writeBack (h : p.Retains (one r s)) :
    (p.assign s.sessionId r).Retains (one r s) where
  sound sid x hget := by
    rw [table_assign, Dict.get?_set] at hget
    by_cases heq : sid = s.sessionId
    · rw [if_pos heq, Option.some.injEq] at hget
      rw [← hget, heq]
      exact h.sound _ r h.get
    · rw [if_neg heq] at hget
      exact h.sound sid x hget
  kept x t ht := by
    rcases ht with ⟨rfl, rfl⟩
    rw [table_assign, Dict.get?_set, if_pos rfl]
    exact ⟨rfl, h.heap⟩

end One

/-- Nothing is in the table at first. -/
theorem sound_start : Process.start.Sound := by
  intro sid r hget
  rw [show Process.start.table = Dict.empty from rfl, Dict.get?_empty] at hget
  exact absurd hget (by simp)

end Process

/-- The bounds of a task that keeps the sessions, where the clock shows it what
    it may. -/
def standing (K : Ref → Session → Prop) (shows : ℚ → Prop) :
    Bounds Process RedisCall RedisReply ℚ where
  inv := Process.Retains K
  shows := shows
  change _ _ _ := True
  ask _ := True
  reply _ _ := True

section Tasks

variable {K : Ref → Session → Prop} {shows : ℚ → Prop}

section Rules

variable {α : Type} (post : α → Process → Prop) (time : Option ℚ) (p : Process) (h : p.Retains K)
include h

theorem tableGet_standing (sid : Bytes) (f : Option Ref → Task α)
    (hf : (f (p.table.get? sid)).Within (standing K shows) post time p) :
    (tableGet sid >>= f).Within (standing K shows) post time p :=
  ⟨h, trivial, hf⟩

theorem read_standing (r : Ref) (f : Session → Task α)
    (hf : (f (p.heap r)).Within (standing K shows) post time p) :
    (Task.read r >>= f).Within (standing K shows) post time p :=
  ⟨h, trivial, hf⟩

theorem isExpired_standing (r : Ref) (f : Bool → Task α)
    (hf : ∀ t, shows t → (f ((p.heap r).isExpired t)).Within (standing K shows) post (some t) p) :
    (Task.isExpired r >>= f).Within (standing K shows) post time p :=
  fun t ht => ⟨h, trivial, hf t ht⟩

theorem change_standing (r : Ref) (f : Session → Session) (next : Unit → Task α)
    (hid : ∀ s : Session, (f s).sessionId = s.sessionId) (hr : ∀ s, ¬ K r s)
    (hnext : (p.change r f).Retains K →
      (next ()).Within (standing K shows) post time (p.change r f)) :
    (Task.change r f >>= next).Within (standing K shows) post time p :=
  ⟨h.change r f (hid _) hr, trivial, hnext (h.change r f (hid _) hr)⟩

end Rules

/-- Under the lock. -/
theorem withLock_standing {α : Type} (body : Task α) (time : Option ℚ) (p : Process)
    (hbody : ∀ q : Process, q.Retains K →
      body.Within (standing K shows) (fun _ _ => True) none q) :
    (Task.withLock body).Within (standing K shows) (fun _ _ => True) time p := by
  intro q hq
  have hlocked : (q.setLocked true).Retains K := hq.congr _ rfl rfl rfl
  refine ⟨hlocked, trivial, ?_⟩
  refine Coop.Within.tryFinally _ _ _ none _ hlocked (fun t u hu => ?_) (hbody _ hlocked)
  exact ⟨Process.Retains.congr hu _ rfl rfl rfl, trivial, trivial⟩

variable (sid : Bytes) (hsid : ∀ r s, K r s → s.sessionId ≠ sid) (time : Option ℚ) (p : Process)
  (h : p.Retains K) (ttl maxLife : ℤ)

section Lookups

include h

theorem memory_lookup_standing :
    (InMemory.lookup sid).Within (standing K shows) (Cached sid) time p := by
  refine tableGet_standing _ time p h sid _ ?_
  cases htable : p.table.get? sid with
  | none => exact fun r hr => absurd hr (by simp)
  | some r =>
      refine isExpired_standing _ time p h r _ (fun t _ => ?_)
      cases (p.heap r).isExpired t with
      | true => exact fun r hr => absurd hr (by simp)
      | false => exact fun x hx => by rw [htable, Option.some.inj hx]

theorem find_standing :
    (SessionManager.find ⟨ttl, maxLife, InMemory.store⟩ sid).Within (standing K shows) (Cached sid)
      time p := by
  refine Coop.Within.bind _ _ _ _ time p h (Coop.Within.mono _ _ _ _ time p ?_
    (memory_lookup_standing sid time p h))
  intro o q hcached t hq
  cases o with
  | none => exact memory_lookup_standing sid t q hq
  | some r => exact fun x hx => hcached x hx

include hsid

theorem lookupAsync_standing :
    (SessionManager.lookupAsync ⟨ttl, maxLife, InMemory.store⟩ sid).Within (standing K shows)
      (Cached sid) time p := by
  refine Coop.Within.bind _ _ _ _ time p h (Coop.Within.mono _ _ _ _ time p ?_
    (find_standing sid time p h ttl maxLife))
  intro o q hcached t hq
  have hkeeps : q.Retains K := hq
  cases o with
  | none => exact fun x hx => absurd hx (by simp)
  | some r =>
      have hget : q.table.get? sid = some r := hcached r rfl
      refine isExpired_standing _ t q hkeeps r _ (fun now _ => ?_)
      cases (q.heap r).isExpired now with
      | false => exact fun x hx => by rw [hget, Option.some.inj hx]
      | true =>
          refine change_standing _ _ q hkeeps r _ _ (fun _ => rfl) (hkeeps.not_kept hget hsid)
            (fun hq' => ?_)
          exact ⟨hq', trivial, hq'.drop sid hsid, trivial, fun x hx => absurd hx (by simp)⟩

end Lookups

include hsid in
theorem terminate_standing :
    (SessionManager.terminate ⟨ttl, maxLife, InMemory.store⟩ sid).Within (standing K shows)
      (fun _ _ => True) time p := by
  refine withLock_standing _ time p (fun q hq => ?_)
  refine Coop.Within.bind _ _ _ _ none q hq (Coop.Within.mono _ _ _ _ none q ?_
    (find_standing sid none q hq ttl maxLife))
  intro o u hcached t hu
  have hkeeps : u.Retains K := hu
  cases o with
  | none => trivial
  | some r =>
      refine change_standing _ _ u hkeeps r _ _ (fun _ => rfl)
        (hkeeps.not_kept (hcached r rfl) hsid) (fun hu' => ?_)
      refine tableGet_standing _ _ _ hu' sid _ ?_
      exact ⟨hu'.drop sid hsid, trivial, trivial⟩

include h in
/-- The reaper drops what it finds expired. -/
theorem reapKeys_standing (hshows : ∀ t, shows t → ∀ r s, K r s → s.isExpired t = false)
    (keys : List Bytes) (removed : ℕ) :
    (reapKeys keys removed).Within (standing K shows) (fun _ _ => True) time p := by
  induction keys generalizing removed time p with
  | nil => trivial
  | cons key rest ih =>
      refine tableGet_standing _ time p h key _ ?_
      cases htable : p.table.get? key with
      | none => trivial
      | some r =>
          refine isExpired_standing _ time p h r _ (fun t ht => ?_)
          cases hlate : (p.heap r).isExpired t with
          | false => exact ih (some t) p h removed
          | true =>
              have hkey : ∀ x s, K x s → s.sessionId ≠ key := by
                intro x s hK hid
                rcases h.kept x s hK with ⟨hget, hheap⟩
                rw [hid, htable, Option.some.injEq] at hget
                rw [hget, hheap, hshows t ht x s hK] at hlate
                exact absurd hlate (by simp)
              exact ⟨h.drop key hkey, trivial, ih (some t) _ (h.drop key hkey) (removed + 1)⟩

theorem reapExpired_standing (hshows : ∀ t, shows t → ∀ r s, K r s → s.isExpired t = false) :
    (SessionManager.reapExpired ⟨ttl, maxLife, InMemory.store⟩).Within (standing K shows)
      (fun _ _ => True) time p := by
  refine withLock_standing _ time p (fun q hq => ?_)
  exact ⟨hq, trivial, reapKeys_standing none q hq hshows _ 0⟩

include h in
theorem decryptRequest_standing {V : Type} (aead : Aead) (request : Request)
    (schema : Bytes → Except String V)
    (htarget : ∀ r s, K r s → requestTarget request ≠ some s.sessionId) :
    (decryptRequest aead request ⟨ttl, maxLife, InMemory.store⟩ schema).Within (standing K shows)
      (fun _ _ => True) time p := by
  rw [decryptRequest]
  by_cases hshort : request.body.length < 41
  · simp only [if_pos hshort]
    trivial
  simp only [if_neg hshort]
  cases hunpack : unpackEnvelope request.body with
  | error e => trivial
  | ok env =>
      have hother : ∀ r s, K r s → s.sessionId ≠ env.sessionId := by
        intro r s hK hid
        refine htarget r s hK ?_
        rw [requestTarget, hunpack, hid]
      refine Coop.Within.bind _ _ _ _ time p h (Coop.Within.mono _ _ _ _ time p ?_
        (lookupAsync_standing env.sessionId hother time p h ttl maxLife))
      intro o q hcached t hq
      have hkeeps : q.Retains K := hq
      cases o with
      | none => trivial
      | some r =>
          have hget : q.table.get? env.sessionId = some r := hcached r rfl
          have hfree : ∀ s, ¬ K r s := hkeeps.not_kept hget hother
          refine read_standing _ t q hkeeps r _ ?_
          cases (q.heap r).replay.checkAndAdvance env.counter with
          | error e => trivial
          | ok window =>
              refine change_standing _ t q hkeeps r _ _ (fun _ => rfl) hfree (fun hq' => ?_)
              cases openEnvelope aead (q.heap r).c2s (q.heap r).sessionId request.method
                  request.path request.body with
              | error e => cases e <;> trivial
              | ok result =>
                  dsimp only
                  cases schema result.2 with
                  | error message => trivial
                  | ok value =>
                      intro now _
                      refine change_standing _ _ _ hq' r _ _ (fun _ => rfl) hfree (fun hq'' => ?_)
                      refine ⟨hq'', trivial, ?_⟩
                      -- The object is written back under its own id.
                      have hlt : r < q.next := (hkeeps.sound _ r hget).1
                      have hown : ∀ x s, K x s → s.sessionId ≠
                          ((((q.change r fun s => s.advance window).change r
                            fun s => s.touch now)).heap r).sessionId := by
                        intro x s hK
                        rw [Process.heap_change_self, Process.heap_change_self]
                        show s.sessionId ≠ (q.heap r).sessionId
                        rw [(hkeeps.sound _ r hget).2]
                        exact hother x s hK
                      exact ⟨hq''.assign r hlt hown, trivial, trivial⟩

end Tasks

/-- **An operation leaves the sessions of others alone.** Whatever sessions are
    kept, an operation on another one leaves each of them in the table and as it
    was, and so does the reaper while the clock shows none of them expired. -/
theorem Op.keeps (K : Ref → Session → Prop) (aead : Aead) (ttl maxLife : ℤ) (op : Op)
    (clock : ℕ → ℚ) (p : Process) (hfree : p.Locked false) (h : p.Retains K)
    (htarget : ∀ r s, K r s → op.target ≠ some s.sessionId)
    (hreap : op = .reapExpired → ∀ n r s, K r s → s.isExpired (clock n) = false) :
    ((op.task aead ⟨ttl, maxLife, InMemory.store⟩).advance clock p).1.Locked false ∧
      ((op.task aead ⟨ttl, maxLife, InMemory.store⟩).advance clock p).1.Retains K := by
  refine ⟨((Op.ends p ttl maxLife aead op hfree).advance _ _ clock p).1, ?_⟩
  -- A task within the bounds keeps their invariant, however it ends.
  have hwithin : ∀ (shows : ℚ → Prop) (task : Task Result), (∀ n, shows (clock n)) →
      task.Within (standing K shows) (fun _ _ => True) none p →
      (task.advance clock p).1.Retains K := fun shows task hshows hw =>
    (Coop.Within.advance (standing K shows) _ (fun _ _ _ => True) (fun _ => True)
      (fun _ _ _ _ _ _ => trivial) task none clock p hshows h hw (Coop.along_trivial _ _ _ _)
      trivial).1
  cases op with
  | create m =>
      rcases create_advance aead ttl maxLife m clock p hfree with ⟨clock', hcreate⟩
      rw [hcreate]
      have halloc := h.alloc (.ofMaterial m ttl maxLife (clock 0)) .created
      refine Process.Retains.congr (Process.Retains.assign
        (Process.Retains.congr halloc _ rfl rfl rfl) p.next (Nat.lt_succ_self _) (fun r s hK => ?_)) _ rfl rfl rfl
      show s.sessionId ≠ ((p.alloc (.ofMaterial m ttl maxLife (clock 0)) .created).heap
        p.next).sessionId
      rw [Process.heap_alloc_self]
      exact fun hid => htarget r s hK (by rw [hid]; rfl)
  | lookupAsync sid =>
      refine hwithin (fun _ => True) _ (fun _ => trivial) ?_
      refine Coop.Within.bind _ _ _ _ none p h (Coop.Within.mono _ _ _ _ none p
        (fun _ _ _ _ _ => trivial) (lookupAsync_standing sid (fun r s hK hid => ?_) none p h ttl
          maxLife))
      exact htarget r s hK (by rw [hid]; rfl)
  | terminate sid =>
      refine hwithin (fun _ => True) _ (fun _ => trivial) ?_
      refine Coop.Within.bind _ _ _ _ none p h (Coop.Within.mono _ _ _ _ none p
        (fun _ _ _ _ _ => trivial) (terminate_standing sid (fun r s hK hid => ?_) none p ttl
          maxLife))
      exact htarget r s hK (by rw [hid]; rfl)
  | reapExpired =>
      refine hwithin (fun t => ∀ r s, K r s → s.isExpired t = false) _ (hreap rfl) ?_
      exact Coop.Within.bind _ _ _ _ none p h (Coop.Within.mono _ _ _ _ none p
        (fun _ _ _ _ _ => trivial) (reapExpired_standing none p ttl maxLife fun _ ht => ht))
  | decryptRequest request schema =>
      refine hwithin (fun _ => True) _ (fun _ => trivial) ?_
      exact Coop.Within.bind _ _ _ _ none p h (Coop.Within.mono _ _ _ _ none p
        (fun _ _ _ _ _ => trivial) (decryptRequest_standing none p h ttl maxLife aead request
          schema htarget))

/-- Any operation leaves the memory in order. -/
theorem Op.keeps_sound (aead : Aead) (ttl maxLife : ℤ) (op : Op) (clock : ℕ → ℚ) {p : Process}
    (hfree : p.Locked false) (hsound : p.Sound) :
    ((op.task aead ⟨ttl, maxLife, InMemory.store⟩).advance clock p).1.Locked false ∧
      ((op.task aead ⟨ttl, maxLife, InMemory.store⟩).advance clock p).1.Sound := by
  have hkept := Op.keeps (fun _ _ => False) aead ttl maxLife op clock p hfree
    ⟨hsound, fun _ _ hK => hK.elim⟩ (fun _ _ hK => hK.elim) (fun _ _ _ _ hK => hK.elim)
  exact ⟨hkept.1, hkept.2.sound⟩

/-- A session that is made is there, as the handshake's material has it. -/
theorem create_retains (aead : Aead) (ttl maxLife : ℤ) (m : SessionMaterial) (clock : ℕ → ℚ)
    {p : Process} (hfree : p.Locked false) (hsound : p.Sound) :
    (((Op.create m).task aead ⟨ttl, maxLife, InMemory.store⟩).advance clock p).1.Locked false ∧
      (((Op.create m).task aead ⟨ttl, maxLife, InMemory.store⟩).advance clock p).1.Retains
        (Process.one p.next (.ofMaterial m ttl maxLife (clock 0))) := by
  rcases create_advance aead ttl maxLife m clock p hfree with ⟨clock', hcreate⟩
  rw [hcreate]
  have hnone : p.Retains (fun _ _ => False) := ⟨hsound, fun _ _ h => h.elim⟩
  have hassigned := Process.Retains.assign (Process.Retains.congr
    (hnone.alloc (.ofMaterial m ttl maxLife (clock 0)) .created)
      ((p.alloc (.ofMaterial m ttl maxLife (clock 0)) .created).setLocked true) rfl rfl rfl)
    p.next (Nat.lt_succ_self _) (fun _ _ h => h.elim)
  refine ⟨rfl, hassigned.sound, ?_⟩
  rintro r s ⟨rfl, rfl⟩
  have hheap : (p.alloc (.ofMaterial m ttl maxLife (clock 0)) .created).heap p.next =
      .ofMaterial m ttl maxLife (clock 0) := Process.heap_alloc_self _ _ _
  refine ⟨?_, hheap⟩
  show (p.table.set ((p.alloc (.ofMaterial m ttl maxLife (clock 0)) .created).heap
    p.next).sessionId p.next).get? _ = _
  rw [hheap, Dict.get?_set, if_pos rfl]

end SecureLlm
