import SecureLlm.Session.Manager

/-!
# Tasks That Run Alone

What the session manager's operations do to the sessions they are not about, when
no other task runs in between. Either store may be behind them.

The session a server has for an id is the one in its table or, where there is
none or it has expired, the one Redis holds. A lookup may move it from one place
to the other, but it stays the same session. Only where a cached session expires
between the two readings of the clock a lookup makes does the lookup delete what
Redis holds, which another instance may have kept alive.

## Main definitions

* `Task.leave`: A task run alone, until it ends or waits.
* `Backend.sees`: The session a server has for an id.
* `Backend.Sound`: Table and store are about the same sessions.
* `Process.Only`: A task changes nothing but the session of one id.
* `Backend.Lapses`: A cached session expires while it is looked up.

## Theorems

* `Task.leave_bind`, `Task.leave_tryFinally`: Running a sequence, and a cleanup.
* `Process.Only.sees`: The sessions of other ids stay.
* `find_leave`, `lookupAsync_leave`, `terminate_leave`: What the operations
  leave of the session they are about.
-/

namespace SecureLlm

open Library

/-- What Redis holds. -/
abbrev Db : Type := String → Option Record

namespace Task

variable {α β : Type}

/-- Run a task alone until it ends or waits for a lock that is taken: how it
    ended, what is left of the clock, the memory and what Redis holds. -/
def leave : Task α → (ℕ → ℚ) → Process → Db → Option (Except Exc α) × (ℕ → ℚ) × Process × Db
  | .done a, c, p, db => (some (.ok a), c, p, db)
  | .fail e, c, p, db => (some (.error e), c, p, db)
  | .now next, c, p, db => leave (next (c 0)) (fun n => c (n + 1)) p db
  | .step upd next, c, p, db => leave (next p) c (upd p) db
  | .wait ready next, c, p, db => if ready p then leave next c p db else (none, c, p, db)
  | .call k next, c, p, db => leave (next (k.exec db).2) c p (k.exec db).1

/-- Running a sequence of two tasks. -/
theorem leave_bind (t : Task α) (f : α → Task β) (c : ℕ → ℚ) (p : Process) (db : Db) :
    leave (t >>= f) c p db = match leave t c p db with
      | (some (.ok a), c', p', db') => leave (f a) c' p' db'
      | (some (.error e), c', p', db') => (some (.error e), c', p', db')
      | (none, c', p', db') => (none, c', p', db') := by
  show leave (Coop.bind t f) c p db = _
  induction t generalizing c p db with
  | done a => rfl
  | fail e => rfl
  | now next ih => exact ih _ _ _ _
  | step upd next ih => exact ih _ _ _ _
  | wait ready next ih =>
      simp only [Coop.bind, leave]
      by_cases hready : ready p = true
      · rw [if_pos hready, if_pos hready]
        exact ih _ _ _
      · rw [if_neg hready, if_neg hready]
  | call k next ih => exact ih _ _ _ _

/-- Running a task and then a change of the memory, however the task ends. -/
theorem leave_tryFinally (t : Task α) (upd : Process → Process) (c : ℕ → ℚ) (p : Process)
    (db : Db) :
    leave (t.tryFinally (Coop.modify upd)) c p db = match leave t c p db with
      | (some r, c', p', db') => (some r, c', upd p', db')
      | (none, c', p', db') => (none, c', p', db') := by
  induction t generalizing c p db with
  | done a => rfl
  | fail e => rfl
  | now next ih => exact ih _ _ _ _
  | step upd' next ih => exact ih _ _ _ _
  | wait ready next ih =>
      simp only [Coop.tryFinally, leave]
      by_cases hready : ready p = true
      · rw [if_pos hready, if_pos hready]
        exact ih _ _ _
      · rw [if_neg hready, if_neg hready]
  | call k next ih => exact ih _ _ _ _

/-- A task that ends runs as it is under a free lock, and gives the lock back. -/
theorem leave_withLock {t : Task α} {res : Except Exc α} {c c' : ℕ → ℚ} {p p' : Process}
    {db db' : Db} (hp : p.locked = false)
    (h : leave t c (p.setLocked true) db = (some res, c', p', db')) :
    leave (withLock t) c p db = (some res, c', p'.setLocked false, db') := by
  rw [withLock, leave, hp, Bool.not_false, if_pos rfl, leave, leave_tryFinally, h]

theorem leave_bind_ok {t : Task α} {f : α → Task β} {a : α} {c c' : ℕ → ℚ} {p p' : Process}
    {db db' : Db} (h : leave t c p db = (some (.ok a), c', p', db')) :
    leave (t >>= f) c p db = leave (f a) c' p' db' := by
  rw [leave_bind, h]

theorem leave_bind_error {t : Task α} {f : α → Task β} {e : Exc} {c c' : ℕ → ℚ} {p p' : Process}
    {db db' : Db} (h : leave t c p db = (some (.error e), c', p', db')) :
    leave (t >>= f) c p db = (some (.error e), c', p', db') := by
  rw [leave_bind, h]

/-- Asking whether a session has expired reads the clock once. -/
theorem leave_isExpired (r : Ref) (c : ℕ → ℚ) (p : Process) (db : Db) :
    leave (Task.isExpired r) c p db
      = (some (.ok ((p.heap r).isExpired (c 0))), fun n => c (n + 1), p, db) := rfl

end Task

/-! ## The session of an id -/

/-- The session unless it has expired. -/
def liveAt (now : ℚ) (s : Option Session) : Option Session := s.filter (fun s => !s.isExpired now)

theorem liveAt_of_expired {now : ℚ} {s : Session} (h : s.isExpired now = true) :
    liveAt now (some s) = none := by
  rw [liveAt, Option.filter_some, h]
  rfl

namespace Backend

variable (backend : Backend)

/-- The session Redis holds for an id. -/
def stored (db : Db) (sid : Bytes) : Option Session :=
  match backend with
  | .memory => none
  | .redis _ => (db (redisKey sid)).bind fun blob => (deserialize blob).toOption

/-- The session a server has for an id. -/
def sees (p : Process) (db : Db) (now : ℚ) (sid : Bytes) : Option Session :=
  (liveAt now ((p.table.get? sid).map p.heap)).or (liveAt now (backend.stored db sid))

/-- What table and store have for an id is one session: it has the id, and both
    have it for the same tenant. -/
structure Sound (p : Process) (db : Db) : Prop where
  table : ∀ sid r, p.table.get? sid = some r → r < p.next ∧ (p.heap r).sessionId = sid
  stored : ∀ sid s, backend.stored db sid = some s → s.sessionId = sid
  tenant : ∀ sid r s, p.table.get? sid = some r → backend.stored db sid = some s →
    s.tenant = (p.heap r).tenant

/-- A cached session expires between the first two readings of the clock. -/
def Lapses (c : ℕ → ℚ) (p : Process) (sid : Bytes) : Prop :=
  ∃ r, p.table.get? sid = some r ∧ (p.heap r).isExpired (c 0) = false ∧
    (p.heap r).isExpired (c 1) = true

end Backend

/-- Nothing changes but the session of one id. -/
structure Process.Only (sid : Bytes) (p : Process) (db : Db) (q : Process) (db' : Db) : Prop where
  next : p.next ≤ q.next
  table : ∀ x, x ≠ sid → q.table.get? x = p.table.get? x
  heap : ∀ x r, x ≠ sid → p.table.get? x = some r → q.heap r = p.heap r
  redis : ∀ x, x ≠ sid → db' (redisKey x) = db (redisKey x)

namespace Process.Only

variable {sid : Bytes} {p q u : Process} {db db' db'' : Db} {backend : Backend}

theorem refl (sid : Bytes) (p : Process) (db : Db) : p.Only sid db p db :=
  ⟨le_refl _, fun _ _ => rfl, fun _ _ _ _ => rfl, fun _ _ => rfl⟩

theorem trans (h : p.Only sid db q db') (h' : q.Only sid db' u db'') : p.Only sid db u db'' where
  next := h.next.trans h'.next
  table x hx := (h'.table x hx).trans (h.table x hx)
  heap x r hx hr := (h'.heap x r hx ((h.table x hx).trans hr)).trans (h.heap x r hx hr)
  redis x hx := (h'.redis x hx).trans (h.redis x hx)

/-- The sessions of other ids stay. -/
theorem sees (h : p.Only sid db q db') (now : ℚ) {x : Bytes} (hx : x ≠ sid) :
    backend.sees q db' now x = backend.sees p db now x := by
  unfold Backend.sees Backend.stored
  rw [h.table x hx, h.redis x hx]
  cases htable : p.table.get? x with
  | none => rfl
  | some r => rw [Option.map_some, Option.map_some, h.heap x r hx htable]

theorem drop (sid : Bytes) (p : Process) (db : Db) : p.Only sid db (p.drop sid) db :=
  ⟨le_refl _, fun x hx => by rw [table_drop, Dict.get?_erase, if_neg hx], fun _ _ _ _ => rfl,
    fun _ _ => rfl⟩

theorem alloc (s : Session) (kind : NoteKind) (hp : backend.Sound p db) :
    p.Only sid db (p.alloc s kind) db :=
  ⟨Nat.le_succ _, fun _ _ => rfl,
    fun x r _ hr => heap_alloc_of_lt p s kind r (hp.table x r hr).1, fun _ _ => rfl⟩

theorem assign (r : Ref) : p.Only sid db (p.assign sid r) db :=
  ⟨le_refl _, fun x hx => by rw [table_assign, Dict.get?_set, if_neg hx], fun _ _ _ _ => rfl,
    fun _ _ => rfl⟩

theorem zeroize {r : Ref} (hp : backend.Sound p db) (hr : p.table.get? sid = some r) :
    p.Only sid db (p.change r Session.zeroize) db := by
  refine ⟨le_refl _, fun _ _ => rfl, fun x r' hx hr' => heap_change_of_ne p r r' _ fun heq => ?_,
    fun _ _ => rfl⟩
  rw [heq] at hr'
  exact hx ((hp.table x r hr').2.symm.trans (hp.table sid r hr).2)

theorem erase (sid : Bytes) (p : Process) (db : Db) :
    p.Only sid db p (Function.update db (redisKey sid) none) :=
  ⟨le_refl _, fun _ _ => rfl, fun _ _ _ _ => rfl,
    fun x hx => Function.update_of_ne (fun h => hx (redisKey_inj x sid h)) _ _⟩

theorem setLocked (b : Bool) (sid : Bytes) (p : Process) (db : Db) :
    p.Only sid db (p.setLocked b) db :=
  ⟨le_refl _, fun _ _ => rfl, fun _ _ _ _ => rfl, fun _ _ => rfl⟩

end Process.Only

namespace Backend.Sound

variable {backend : Backend} {sid : Bytes} {p : Process} {db : Db} (h : backend.Sound p db)

include h

theorem drop (sid : Bytes) : backend.Sound (p.drop sid) db := by
  have hsub : ∀ x r, (p.drop sid).table.get? x = some r → p.table.get? x = some r := by
    intro x r hr
    rw [Process.table_drop, Dict.get?_erase] at hr
    by_cases hx : x = sid
    · rw [if_pos hx] at hr
      exact absurd hr nofun
    · rwa [if_neg hx] at hr
  exact ⟨fun x r hr => h.table x r (hsub x r hr), h.stored,
    fun x r s hr => h.tenant x r s (hsub x r hr)⟩

theorem alloc (s : Session) (kind : NoteKind) : backend.Sound (p.alloc s kind) db := by
  have hheap : ∀ x r, p.table.get? x = some r → (p.alloc s kind).heap r = p.heap r :=
    fun x r hr => Process.heap_alloc_of_lt p s kind r (h.table x r hr).1
  refine ⟨fun x r hr => ?_, h.stored, fun x r t hr ht => ?_⟩
  · rw [hheap x r hr]
    exact ⟨(h.table x r hr).1.trans (Nat.lt_succ_self _), (h.table x r hr).2⟩
  · rw [hheap x r hr]
    exact h.tenant x r t hr ht

/-- An object that was made of the stored record is put in the table. -/
theorem assign {r : Ref} (hr : r < p.next) (hs : backend.stored db sid = some (p.heap r)) :
    backend.Sound (p.assign sid r) db := by
  refine ⟨fun x r' hr' => ?_, h.stored, fun x r' t hr' ht => ?_⟩
  · rw [Process.table_assign, Dict.get?_set] at hr'
    by_cases hx : x = sid
    · rw [if_pos hx, Option.some.injEq] at hr'
      rw [← hr', hx]
      exact ⟨hr, h.stored sid _ hs⟩
    · rw [if_neg hx] at hr'
      exact h.table x r' hr'
  · rw [Process.table_assign, Dict.get?_set] at hr'
    by_cases hx : x = sid
    · rw [if_pos hx, Option.some.injEq] at hr'
      rw [hx, hs, Option.some.injEq] at ht
      rw [← hr', ← ht]
      rfl
    · rw [if_neg hx] at hr'
      exact h.tenant x r' t hr' ht

theorem zeroize (r : Ref) : backend.Sound (p.change r Session.zeroize) db := by
  have hheap : ∀ x, ((p.change r Session.zeroize).heap x).sessionId = (p.heap x).sessionId ∧
      ((p.change r Session.zeroize).heap x).tenant = (p.heap x).tenant := by
    intro x
    by_cases hx : x = r
    · rw [hx, Process.heap_change_self]
      exact ⟨rfl, rfl⟩
    · rw [Process.heap_change_of_ne p r x _ hx]
      exact ⟨rfl, rfl⟩
  refine ⟨fun x r' hr' => ?_, h.stored, fun x r' t hr' ht => ?_⟩
  · rw [(hheap r').1]
    exact h.table x r' hr'
  · rw [(hheap r').2]
    exact h.tenant x r' t hr' ht

theorem erase (sid : Bytes) : backend.Sound p (Function.update db (redisKey sid) none) := by
  have hsub : ∀ x s, backend.stored (Function.update db (redisKey sid) none) x = some s →
      backend.stored db x = some s := by
    intro x s hs
    unfold Backend.stored at hs ⊢
    cases backend with
    | memory => exact hs
    | redis floor =>
        by_cases hx : redisKey x = redisKey sid
        · dsimp only at hs
          rw [hx, Function.update_self] at hs
          exact absurd hs nofun
        · dsimp only at hs
          rwa [Function.update_of_ne hx] at hs
  exact ⟨h.table, fun x s hs => h.stored x s (hsub x s hs),
    fun x r s hr hs => h.tenant x r s hr (hsub x s hs)⟩

theorem setLocked (b : Bool) : backend.Sound (p.setLocked b) db := ⟨h.table, h.stored, h.tenant⟩

/-- Whichever session the server has for an id that is in the table, it is of the
    tenant the table says. -/
theorem tenant_of_sees {now : ℚ} {r : Ref} {s : Session} (hr : p.table.get? sid = some r)
    (hs : backend.sees p db now sid = some s) : s.tenant = (p.heap r).tenant := by
  unfold Backend.sees at hs
  rw [hr, Option.map_some] at hs
  rcases Option.or_eq_some_iff.mp hs with hcached | ⟨_, hstored⟩
  · rw [Option.some.inj (Option.filter_eq_some_iff.mp hcached).1]
  · exact h.tenant sid r s hr (Option.filter_eq_some_iff.mp hstored).1

end Backend.Sound

/-! ## Looking a session up -/

/-- What looking for a session does: the server has the session it had, and what
    is found is in the table. It was there and live, or Redis holds it. A session
    that is there and live is found without any change. -/
structure Backend.Finds (backend : Backend) (sid : Bytes) (c : ℕ → ℚ) (p : Process) (db : Db)
    (res : Except Exc (Option Ref)) (c' : ℕ → ℚ) (p' : Process) (db' : Db) : Prop where
  sound : backend.Sound p' db'
  only : p.Only sid db p' db'
  later : ∃ k, c' = fun n => c (n + k)
  sees : ∀ u, (∀ n, c n ≤ u) → backend.sees p' db' u sid = backend.sees p db u sid
  hit : ∀ r, p.table.get? sid = some r → (p.heap r).isExpired (c 0) = false →
    res = .ok (some r) ∧ c' = (fun n => c (n + 1)) ∧ p' = p ∧ db' = db
  found : ∀ r, res = .ok (some r) → p'.table.get? sid = some r ∧
    (p.table.get? sid = some r ∧ (p.heap r).isExpired (c 0) = false ∨
      backend.stored db' sid = some (p'.heap r))
  missing : res = .ok none → ∀ u, (∀ n, c n ≤ u) → backend.sees p' db' u sid = none

section

variable (sid : Bytes) (c : ℕ → ℚ) (p : Process) (db : Db)

theorem memory_lookup_leave : Task.leave (InMemory.lookup sid) c p db =
    match p.table.get? sid with
    | none => (some (.ok none), c, p, db)
    | some r => if (p.heap r).isExpired (c 0) then (some (.ok none), fun n => c (n + 1), p, db)
        else (some (.ok (some r)), fun n => c (n + 1), p, db) := by
  simp only [InMemory.lookup, tableGet, Coop.gets, bind, Coop.bind, Task.leave, id]
  cases p.table.get? sid with
  | none => rfl
  | some r =>
      refine (Task.leave_bind_ok (Task.leave_isExpired r c p db)).trans ?_
      dsimp only
      cases (p.heap r).isExpired (c 0) with
      | true => rfl
      | false => rfl

theorem redis_lookup_leave : Task.leave (RedisStore.lookup sid) c p db =
    match p.table.get? sid with
    | none => (some (.ok none), c, p, db)
    | some r =>
        if (p.heap r).isExpired (c 0) then (some (.ok none), fun n => c (n + 1), p.drop sid, db)
        else (some (.ok (some r)), fun n => c (n + 1), p, db) := by
  simp only [RedisStore.lookup, tableGet, Coop.gets, bind, Coop.bind, Task.leave, id]
  cases p.table.get? sid with
  | none => rfl
  | some r =>
      refine (Task.leave_bind_ok (Task.leave_isExpired r c p db)).trans ?_
      dsimp only
      cases (p.heap r).isExpired (c 0) with
      | true => rfl
      | false => rfl

theorem fetch_leave : Task.leave (RedisStore.fetch sid) c p db =
    match (db (redisKey sid)).map deserialize with
    | none => (some (.ok none), c, p, db)
    | some (.error e) => (some (.error e), c, p, db)
    | some (.ok s) =>
        if s.isExpired (c 0) then (some (.ok none), fun n => c (n + 1), p.alloc s .hydrated,
          Function.update db (redisKey sid) none)
        else (some (.ok (some p.next)), fun n => c (n + 1),
          (p.alloc s .hydrated).assign sid p.next, db) := by
  simp only [RedisStore.fetch, RedisStore.get, bind, Coop.bind, Task.leave, RedisCall.exec]
  cases db (redisKey sid) with
  | none => rfl
  | some blob =>
      simp only [Option.map_some]
      cases deserialize blob with
      | error e => rfl
      | ok s =>
          simp only [Task.ofExcept, Task.alloc, Coop.bind, Task.leave]
          refine (Task.leave_bind_ok
            (Task.leave_isExpired p.next c (p.alloc s .hydrated) db)).trans ?_
          rw [Process.heap_alloc_self]
          cases s.isExpired (c 0) with
          | true => rfl
          | false => rfl

end

/-- What the store reads back where the table has nothing. -/
theorem finds_fetch {floor : ℤ} {sid : Bytes} {c : ℕ → ℚ} {p : Process} {db : Db}
    (h : (Backend.redis floor).Sound p db) (hmiss : p.table.get? sid = none) :
    ∃ res c' p' db', Task.leave (RedisStore.fetch sid) c p db = (some res, c', p', db') ∧
      (Backend.redis floor).Finds sid c p db res c' p' db' := by
  rw [fetch_leave]
  -- Without a cached session the server has the stored one.
  have hsees : ∀ u, (Backend.redis floor).sees p db u sid =
      liveAt u ((Backend.redis floor).stored db sid) := by
    intro u
    rw [Backend.sees, hmiss]
    rfl
  have hstored : (Backend.redis floor).stored db sid =
      ((db (redisKey sid)).map deserialize).bind Except.toOption := by
    unfold Backend.stored
    rw [Option.bind_map]
    rfl
  rw [hstored] at hsees
  have hhit : ∀ {P : Prop} (r : Ref), p.table.get? sid = some r → P := by
    intro P r hr
    rw [hmiss] at hr
    exact absurd hr nofun
  cases hdb : (db (redisKey sid)).map deserialize with
  | none =>
      rw [hdb] at hsees
      exact ⟨_, _, _, _, rfl, h, .refl sid p db, ⟨0, rfl⟩, fun _ _ => rfl, fun r hr => hhit r hr,
        nofun, fun _ u _ => hsees u⟩
  | some res =>
      rw [hdb] at hsees hstored
      cases res with
      | error e =>
          exact ⟨_, _, _, _, rfl, h, .refl sid p db, ⟨0, rfl⟩, fun _ _ => rfl,
            fun r hr => hhit r hr, nofun, nofun⟩
      | ok s =>
          have hs : (Backend.redis floor).stored db sid = some s := hstored
          have halloc := h.alloc s .hydrated
          have honly : p.Only sid db (p.alloc s .hydrated) db := .alloc s .hydrated h
          dsimp only
          cases hexp : s.isExpired (c 0) with
          | true =>
              have hgone : ∀ u, (Backend.redis floor).sees (p.alloc s .hydrated)
                  (Function.update db (redisKey sid) none) u sid = none := by
                intro u
                unfold Backend.sees Backend.stored
                rw [Process.table_alloc, hmiss, Function.update_self]
                rfl
              refine ⟨_, _, _, _, rfl, halloc.erase sid, honly.trans (.erase sid _ _), ⟨1, rfl⟩,
                fun u hu => ?_, fun r hr => hhit r hr, nofun, fun _ u _ => hgone u⟩
              rw [hgone, hsees]
              exact (liveAt_of_expired (s.isExpired_mono _ _ (hu 0) hexp)).symm
          | false =>
              have hnew : (p.alloc s .hydrated).heap p.next = s := Process.heap_alloc_self p s _
              have hkept : (Backend.redis floor).stored db sid =
                  some ((p.alloc s .hydrated).heap p.next) := by rw [hs, hnew]
              refine ⟨_, _, _, _, rfl, halloc.assign (Nat.lt_succ_self _) hkept,
                honly.trans (.assign p.next), ⟨1, rfl⟩, fun u hu => ?_, fun r hr => hhit r hr,
                fun r hr => ?_, nofun⟩
              · unfold Backend.sees
                rw [Process.table_assign, Dict.get?_set, if_pos rfl, hkept, hmiss]
                exact Option.or_self
              · cases hr
                refine ⟨?_, Or.inr hkept⟩
                rw [Process.table_assign, Dict.get?_set, if_pos rfl]

/-- A session object in the table that has not expired is what is found. -/
theorem finds_cached {backend : Backend} {sid : Bytes} {c : ℕ → ℚ} {p : Process} {db : Db} {r : Ref}
    (h : backend.Sound p db) (htable : p.table.get? sid = some r)
    (hlive : (p.heap r).isExpired (c 0) = false) :
    backend.Finds sid c p db (.ok (some r)) (fun n => c (n + 1)) p db := by
  refine ⟨h, .refl sid p db, ⟨1, rfl⟩, fun _ _ => rfl, fun r' hr' _ => ?_, fun r' hr' => ?_, nofun⟩
  · rw [htable, Option.some.injEq] at hr'
    exact ⟨by rw [hr'], rfl, rfl, rfl⟩
  · cases hr'
    exact ⟨htable, Or.inl ⟨htable, hlive⟩⟩

/-- **What looking for a session does.** -/
theorem find_leave (backend : Backend) (ttl maxLife : ℤ) (sid : Bytes) {c : ℕ → ℚ} {p : Process}
    {db : Db} (hc : Monotone c) (h : backend.Sound p db) :
    ∃ res c' p' db', Task.leave (SessionManager.find ⟨ttl, maxLife, backend.store⟩ sid) c p db =
      (some res, c', p', db') ∧ backend.Finds sid c p db res c' p' db' := by
  cases backend with
  | memory =>
      have hlookup := memory_lookup_leave sid c p db
      cases htable : p.table.get? sid with
      | none =>
          rw [htable] at hlookup
          refine ⟨_, _, _, _, (Task.leave_bind_ok hlookup).trans hlookup, h, .refl sid p db,
            ⟨0, rfl⟩, fun _ _ => rfl, fun r hr => ?_, nofun, fun _ u _ => ?_⟩
          · rw [htable] at hr
            exact absurd hr nofun
          · rw [Backend.sees, htable]
            rfl
      | some r =>
          rw [htable] at hlookup
          dsimp only at hlookup
          cases hexp : (p.heap r).isExpired (c 0) with
          | true =>
              -- The second look at the table comes later, and finds it expired as well.
              have hagain := memory_lookup_leave sid (fun n => c (n + 1)) p db
              have hexp' : (p.heap r).isExpired (c 1) = true :=
                (p.heap r).isExpired_mono _ _ (hc (Nat.zero_le 1)) hexp
              rw [htable] at hagain
              dsimp only at hagain
              rw [if_pos hexp] at hlookup
              rw [if_pos hexp'] at hagain
              refine ⟨_, _, _, _, (Task.leave_bind_ok hlookup).trans hagain, h, .refl sid p db,
                ⟨2, rfl⟩, fun _ _ => rfl, fun r' hr' hlive => ?_, nofun, fun _ u hu => ?_⟩
              · rw [htable, Option.some.injEq] at hr'
                rw [← hr', hexp] at hlive
                exact absurd hlive nofun
              · rw [Backend.sees, htable, Option.map_some,
                  liveAt_of_expired ((p.heap r).isExpired_mono _ _ (hu 0) hexp)]
                rfl
          | false =>
              rw [hexp, if_neg Bool.false_ne_true] at hlookup
              exact ⟨_, _, _, _, Task.leave_bind_ok hlookup, finds_cached h htable hexp⟩
  | redis floor =>
      have hlookup := redis_lookup_leave sid c p db
      -- Where the table has nothing the store is asked.
      have hydrate : ∀ {c' : ℕ → ℚ} {q : Process}, q.table.get? sid = none →
          Task.leave (RedisStore.hydrate sid) c' q db =
            Task.leave (RedisStore.fetch sid) c' q db := by
        intro c' q hq
        simp only [RedisStore.hydrate, tableGet, Coop.gets, bind, Coop.bind, Task.leave, id, hq]
      cases htable : p.table.get? sid with
      | none =>
          rw [htable] at hlookup
          rcases finds_fetch (c := c) h htable with ⟨res, c', p', db', hfetch, hfinds⟩
          exact ⟨res, c', p', db',
            (Task.leave_bind_ok hlookup).trans ((hydrate htable).trans hfetch), hfinds⟩
      | some r =>
          rw [htable] at hlookup
          dsimp only at hlookup
          cases hexp : (p.heap r).isExpired (c 0) with
          | true =>
              rw [if_pos hexp] at hlookup
              have hdrop : (p.drop sid).table.get? sid = none := by
                rw [Process.table_drop, Dict.get?_erase, if_pos rfl]
              rcases finds_fetch (c := fun n => c (n + 1)) (h.drop sid) hdrop with
                ⟨res, c', p', db', hfetch, hfinds⟩
              refine ⟨res, c', p', db',
                (Task.leave_bind_ok hlookup).trans ((hydrate hdrop).trans hfetch), hfinds.sound,
                (Process.Only.drop sid p db).trans hfinds.only, ?_, fun u hu => ?_,
                fun r' hr' hlive => ?_, fun r' hr' => ?_,
                fun hnone u hu => hfinds.missing hnone u (fun n => hu (n + 1))⟩
              · rcases hfinds.later with ⟨k, hk⟩
                exact ⟨k + 1, hk⟩
              · rw [hfinds.sees u (fun n => hu (n + 1)), Backend.sees, Backend.sees, hdrop, htable,
                  Option.map_some, liveAt_of_expired ((p.heap r).isExpired_mono _ _ (hu 0) hexp)]
                rfl
              · rw [htable, Option.some.injEq] at hr'
                rw [← hr', hexp] at hlive
                exact absurd hlive nofun
              · rcases hfinds.found r' hr' with ⟨htable', hcached | hstored⟩
                · rw [hdrop] at hcached
                  exact absurd hcached.1 nofun
                · exact ⟨htable', Or.inr hstored⟩
          | false =>
              rw [hexp, if_neg Bool.false_ne_true] at hlookup
              exact ⟨_, _, _, _, Task.leave_bind_ok hlookup, finds_cached h htable hexp⟩

/-! ## Terminating a session -/

/-- Deleting a session leaves none for its id. -/
theorem delete_leave (backend : Backend) (sid : Bytes) {p : Process} {db : Db} (c : ℕ → ℚ)
    (h : backend.Sound p db) :
    ∃ b db', Task.leave (backend.store.delete sid) c p db =
      (some (.ok b), c, p.drop sid, db') ∧ backend.Sound (p.drop sid) db' ∧
      p.Only sid db (p.drop sid) db' ∧ ∀ u, backend.sees (p.drop sid) db' u sid = none := by
  have hdrop : (p.drop sid).table.get? sid = none := by
    rw [Process.table_drop, Dict.get?_erase, if_pos rfl]
  cases backend with
  | memory =>
      refine ⟨_, db, rfl, h.drop sid, .drop sid p db, fun u => ?_⟩
      rw [Backend.sees, hdrop]
      rfl
  | redis floor =>
      refine ⟨_, _, rfl, (h.drop sid).erase sid,
        (Process.Only.drop sid p db).trans (.erase sid _ _), fun u => ?_⟩
      unfold Backend.sees Backend.stored
      rw [hdrop, RedisCall.exec_delete]
      simp only [Function.update_self]
      rfl

/-- So does closing it first. -/
theorem close_leave (backend : Backend) {sid : Bytes} {p : Process} {db : Db} (c : ℕ → ℚ)
    (h : backend.Sound p db) {r : Ref} (hr : p.table.get? sid = some r) :
    ∃ b q db', Task.leave (do Task.change r Session.zeroize; backend.store.delete sid) c p db =
      (some (.ok b), c, q, db') ∧ backend.Sound q db' ∧ p.Only sid db q db' ∧
      ∀ u, backend.sees q db' u sid = none := by
  rcases delete_leave backend sid c (h.zeroize r) with ⟨b, db', hdelete, hsound, honly, hgone⟩
  exact ⟨b, _, db', hdelete, hsound, (Process.Only.zeroize h hr).trans honly, hgone⟩

/-- **What a lookup does.** Unless the session lapses it stays what it was, and
    if it lapses there is none. -/
theorem lookupAsync_leave (backend : Backend) (ttl maxLife : ℤ) (sid : Bytes) {c : ℕ → ℚ}
    {p : Process} {db : Db} (hc : Monotone c) (h : backend.Sound p db) :
    ∃ res c' p' db',
      Task.leave (SessionManager.lookupAsync ⟨ttl, maxLife, backend.store⟩ sid) c p db =
        (some res, c', p', db') ∧
      backend.Sound p' db' ∧ p.Only sid db p' db' ∧ (∃ k, c' = fun n => c (n + k)) ∧
      (∀ r, res = .ok (some r) → p'.table.get? sid = some r) ∧
      (res = .ok none → ∀ u, (∀ n, c n ≤ u) → backend.sees p' db' u sid = none) ∧
      (¬ Backend.Lapses c p sid → ∀ u, (∀ n, c n ≤ u) →
        backend.sees p' db' u sid = backend.sees p db u sid) ∧
      (Backend.Lapses c p sid → res = .ok none) := by
  rcases find_leave backend ttl maxLife sid hc h with ⟨found, c', p', db', hfind, hfinds⟩
  rcases hfinds.later with ⟨k, hk⟩
  have hhit : Backend.Lapses c p sid → ∃ r, found = .ok (some r) := by
    rintro ⟨r, hr, hlive, -⟩
    exact ⟨r, (hfinds.hit r hr hlive).1⟩
  cases found with
  | error e =>
      refine ⟨_, c', p', db', Task.leave_bind_error hfind, hfinds.sound, hfinds.only, ⟨k, hk⟩,
        nofun, nofun, fun _ => hfinds.sees, fun hlapses => ?_⟩
      rcases hhit hlapses with ⟨r, hr⟩
      exact absurd hr nofun
  | ok o =>
      cases o with
      | none =>
          refine ⟨_, c', p', db', Task.leave_bind_ok hfind, hfinds.sound, hfinds.only, ⟨k, hk⟩,
            nofun, hfinds.missing, fun _ => hfinds.sees, fun _ => rfl⟩
      | some r =>
          rcases hfinds.found r rfl with ⟨htable, hwhere⟩
          have hcheck : Task.leave (SessionManager.lookupAsync ⟨ttl, maxLife, backend.store⟩ sid)
              c p db = _ := Task.leave_bind_ok hfind
          cases hexp : (p'.heap r).isExpired (c' 0) with
          | true =>
              rcases close_leave backend (fun n => c' (n + 1)) hfinds.sound htable with
                ⟨b, q, db'', hclose, hsound, honly, hgone⟩
              refine ⟨.ok none, fun n => c' (n + 1), q, db'', hcheck.trans ?_, hsound,
                hfinds.only.trans honly, ⟨k + 1, ?_⟩, nofun, fun _ u _ => hgone u,
                fun hnot u hu => ?_, fun _ => rfl⟩
              · show Task.leave (if (p'.heap r).isExpired (c' 0) = true then
                  (do Task.change r Session.zeroize; let _ ← backend.store.delete sid; return none)
                  else .done (some r)) (fun n => c' (n + 1)) p' db' = _
                rw [if_pos hexp]
                exact Task.leave_bind_ok (f := fun _ => Coop.done (none : Option Ref)) hclose
              · rw [hk]
                funext n
                exact congrArg c (by omega)
              · rcases hwhere with ⟨htable₀, hlive⟩ | hstored
                · -- A cached session would have lapsed.
                  rcases hfinds.hit r htable₀ hlive with ⟨-, hc', hp', -⟩
                  rw [hc', hp'] at hexp
                  exact absurd ⟨r, htable₀, hlive, hexp⟩ hnot
                · have hlate : (p'.heap r).isExpired u = true := by
                    refine Session.isExpired_mono _ _ _ ?_ hexp
                    rw [hk]
                    exact hu _
                  rw [hgone, ← hfinds.sees u hu, Backend.sees, htable, hstored, Option.map_some,
                    liveAt_of_expired hlate]
                  rfl
          | false =>
              refine ⟨.ok (some r), fun n => c' (n + 1), p', db', hcheck.trans ?_, hfinds.sound,
                hfinds.only, ⟨k + 1, ?_⟩, fun r' hr' => ?_, nofun, fun _ => hfinds.sees,
                fun hlapses => ?_⟩
              · show Task.leave (if (p'.heap r).isExpired (c' 0) = true then
                  (do Task.change r Session.zeroize; let _ ← backend.store.delete sid; return none)
                  else .done (some r)) (fun n => c' (n + 1)) p' db' = _
                rw [if_neg (by rw [hexp]; exact Bool.false_ne_true)]
                rfl
              · rw [hk]
                funext n
                exact congrArg c (by omega)
              · cases hr'
                exact htable
              · rcases hlapses with ⟨r', hr', hlive, hlate⟩
                rcases hfinds.hit r' hr' hlive with ⟨hres, hc', hp', -⟩
                cases hres
                rw [hc', hp', hlate] at hexp
                exact absurd hexp nofun

/-- **What terminating a session does.** There is none for its id afterwards, or
    what there was. -/
theorem terminate_leave (backend : Backend) (ttl maxLife : ℤ) (sid : Bytes) {c : ℕ → ℚ}
    {p : Process} {db : Db} (hc : Monotone c) (h : backend.Sound p db) :
    ∃ res c' p' db',
      Task.leave (SessionManager.terminate ⟨ttl, maxLife, backend.store⟩ sid) c p db =
        (res, c', p', db') ∧ backend.Sound p' db' ∧ p.Only sid db p' db' ∧
      ∀ u, (∀ n, c n ≤ u) → backend.sees p' db' u sid = backend.sees p db u sid ∨
        backend.sees p' db' u sid = none := by
  cases hlock : p.locked with
  | true =>
      refine ⟨none, c, p, db, ?_, h, .refl sid p db, fun _ _ => Or.inl rfl⟩
      simp only [SessionManager.terminate, Task.withLock, Task.leave, hlock]
      rfl
  | false =>
      have hsound := h.setLocked true
      have honly := Process.Only.setLocked true sid p db
      rcases find_leave backend ttl maxLife sid hc hsound with
        ⟨found, c', p', db', hfind, hfinds⟩
      have hunlock := hfinds.only.trans (.setLocked false sid p' db')
      cases found with
      | error e =>
          exact ⟨_, _, _, _, Task.leave_withLock hlock (Task.leave_bind_error hfind),
            hfinds.sound.setLocked false, honly.trans hunlock,
            fun u hu => Or.inl (hfinds.sees u hu)⟩
      | ok o =>
          cases o with
          | none =>
              exact ⟨_, _, _, _, Task.leave_withLock hlock (Task.leave_bind_ok hfind),
                hfinds.sound.setLocked false, honly.trans hunlock,
                fun u hu => Or.inl (hfinds.sees u hu)⟩
          | some r =>
              rcases close_leave backend c' hfinds.sound (hfinds.found r rfl).1 with
                ⟨b, q, db'', hclose, hsound', honly', hgone⟩
              exact ⟨_, _, _, _,
                Task.leave_withLock hlock ((Task.leave_bind_ok hfind).trans hclose),
                hsound'.setLocked false,
                honly.trans (hfinds.only.trans (honly'.trans (.setLocked _ _ _ _))),
                fun u _ => Or.inr (hgone u)⟩

end SecureLlm
