import SecureLlm.Server.Clock

/-!
# The Lifetime of a Session

A server in memory with a clock that never goes back, and a log of what happens
to its sessions. A session is made, requests on it are accepted, and it is
terminated, or it expires and is not seen again.

The log gives the times at which things were decided: a session is made at the
reading that its times start from, and a request is accepted at the reading that
finds its session live and puts the session to use at the next.

## Main definitions

* `Happening`, `Op.happening`: What is logged.
* `Timed`, `Timed.step`: A server with its clock and its log.
* `Timed.Proper`: The clock goes on, and session ids are new.
* `Timed.Run`: The runs all of whose steps are proper.
* `lastUse`: When a session was last used.
* `Dead`: A session that a lookup has not found.
* `Tracks`: What the table and the log have to do with each other.

## Theorems

* `Op.effect`: What a step does.
* `Tracks.step`: A step keeps the table and the log together.
* `session_lifetime`: The lifetime of a session.
-/

namespace SecureLlm

open Library

/-- What can happen to a session: it is made at a time with a time to live, a
    lookup finds it or does not, a request on it is accepted at a time and used
    at another, or it is terminated. -/
inductive Happening where
  | created (sid : Bytes) (time : ℚ) (ttl : ℤ)
  | found (sid : Bytes)
  | missing (sid : Bytes)
  | accepted (sid : Bytes) (checked used : ℚ)
  | terminated (sid : Bytes)
  deriving DecidableEq

/-- What the end of an operation has shown, given the readings of the clock. A
    request looks its session up, and is answered differently where it is not
    found. -/
def Op.happening (ttl : ℤ) (clock : ℕ → ℚ) (op : Op) (rest : Task Result) : Option Happening :=
  match op, rest with
  | .create m, .done _ =>
    some (.created m.sessionId (clock 0) (if m.ttlSeconds ≠ 0 then m.ttlSeconds else ttl))
  | .lookupAsync sid, .done (.found o) => some (if o.isSome then .found sid else .missing sid)
  | .terminate sid, .done (.terminated true) => some (.terminated sid)
  | .decryptRequest request _, rest =>
    match unpackEnvelope request.body, rest with
    | .ok env, .done _ => some (.accepted env.sessionId (clock 1) (clock 2))
    | .ok env, .fail (.httpException _ .unknownSession _) => some (.missing env.sessionId)
    | .ok env, .fail _ => some (.found env.sessionId)
    | _, _ => none
  | _, _ => none

/-- A server, the time that its clock has reached and, newest first, what has
    happened. -/
structure Timed where
  server : Fleet Unit
  now : ℚ
  log : List Happening

namespace Timed

variable (aead : Aead) (ttl maxLife : ℤ)

/-- One step of a server in memory. -/
def step (w : Timed) : Event Unit → Option Timed
  | .run k clock =>
    match w.server.jobs k with
    | none => none
    | some job =>
      let (p, clock', rest) := job.rest.advance clock (w.server.proc job.inst)
      some {
        server := w.server.settle k job.inst job.op p rest
        now := clock' 0
        log := (job.op.happening ttl clock rest).toList ++ w.log }
  | e => (w.server.step aead ⟨ttl, maxLife, InMemory.store⟩ e).map fun g => { w with server := g }

/-- The clock does not go back, and each session has an id of its own. -/
structure Proper (w : Timed) (e : Event Unit) : Prop where
  clock : ∀ k clock, e = .run k clock → Monotone clock ∧ w.now ≤ clock 0
  fresh : ∀ k clock m rest, e = .run k clock → w.server.jobs k = some ⟨(), .create m, rest⟩ →
    ∀ (time : ℚ) (ttl : ℤ), .created m.sessionId time ttl ∉ w.log

/-- The runs all of whose steps are proper, from any time on. -/
inductive Run : Timed → Prop where
  | start (now : ℚ) : Run ⟨Fleet.start, now, []⟩
  | tail (w w' : Timed) (e : Event Unit) (hrun : Run w) (hproper : w.Proper e)
      (hstep : w.step aead ttl maxLife e = some w') : Run w'

end Timed

/-- When a session was last used: by a request, or when it was made. -/
def lastUse (sid : Bytes) : List Happening → Option ℚ
  | [] => none
  | .created sid' time _ :: log => if sid' = sid then some time else lastUse sid log
  | .accepted sid' _ used :: log => if sid' = sid then some used else lastUse sid log
  | _ :: log => lastUse sid log

/-- The session was made, and after that a lookup has not found it. -/
def Dead (sid : Bytes) : List Happening → Prop
  | [] => False
  | h :: log =>
      (h = .missing sid ∧ ∃ (time : ℚ) (ttl : ℤ), .created sid time ttl ∈ log) ∨ Dead sid log

/-- A happening that may come after what has happened before: a request is
    accepted within the times of its session, and what is dead stays dead. -/
def Happening.Allowed (maxLife : ℤ) (log : List Happening) : Happening → Prop
  | .accepted sid checked _ => (∃ (time : ℚ) (ttl : ℤ) (last : ℚ), .created sid time ttl ∈ log ∧
      checked - time ≤ maxLife ∧ lastUse sid log = some last ∧ checked - last ≤ ttl ∧
      .terminated sid ∉ log) ∧ ¬ Dead sid log
  | .found sid => ¬ Dead sid log
  | _ => True

/-- Everything that has happened was allowed when it did. -/
def Orderly (maxLife : ℤ) : List Happening → Prop
  | [] => True
  | h :: log => h.Allowed maxLife log ∧ Orderly maxLife log

theorem Orderly.allowed (maxLife : ℤ) (newer older : List Happening) (h : Happening)
    (hlog : Orderly maxLife (newer ++ h :: older)) : h.Allowed maxLife older := by
  induction newer with
  | nil => exact hlog.1
  | cons x newer ih => exact ih hlog.2

theorem made_of_dead (sid : Bytes) (log : List Happening) (h : Dead sid log) :
    ∃ (time : ℚ) (ttl : ℤ), .created sid time ttl ∈ log := by
  induction log with
  | nil => exact absurd h id
  | cons x log ih =>
      rcases h with ⟨-, time, ttl, hmade⟩ | h
      · exact ⟨time, ttl, List.mem_cons_of_mem _ hmade⟩
      · rcases ih h with ⟨time, ttl, hmade⟩
        exact ⟨time, ttl, List.mem_cons_of_mem _ hmade⟩

theorem dead_append (sid : Bytes) (newer older : List Happening) (h : Dead sid older) :
    Dead sid (newer ++ older) := by
  induction newer with
  | nil => exact h
  | cons x newer ih => exact Or.inr ih

/-- What the table of a server and its log have to do with each other: an entry
    of the table is a session that was made, with the times of the log, and not
    terminated; one that is dead is not found at any later time. -/
structure Tracks (maxLife : ℤ) (p : Process) (now : ℚ) (log : List Happening) : Prop where
  next : ∀ sid r, p.table.get? sid = some r → r < p.next
  ids : ∀ sid r, p.table.get? sid = some r → (p.heap r).sessionId = sid
  lifetime : ∀ sid r, p.table.get? sid = some r → (p.heap r).maxLifetimeSeconds = maxLife
  made : ∀ sid r, p.table.get? sid = some r →
    .created sid (p.heap r).createdAt (p.heap r).ttlSeconds ∈ log
  used : ∀ sid r, p.table.get? sid = some r → lastUse sid log = some (p.heap r).lastUsedAt
  kept : ∀ sid r, p.table.get? sid = some r → .terminated sid ∉ log
  ended : ∀ sid, .terminated sid ∈ log → ∃ (time : ℚ) (ttl : ℤ), .created sid time ttl ∈ log
  gone : ∀ sid, Dead sid log → ∀ t, now ≤ t → p.live sid t = none
  orderly : Orderly maxLife log

/-- What expiry goes by, and the id. -/
structure Session.SameTimes (s t : Session) : Prop where
  sessionId : t.sessionId = s.sessionId
  createdAt : t.createdAt = s.createdAt
  lastUsedAt : t.lastUsedAt = s.lastUsedAt
  ttlSeconds : t.ttlSeconds = s.ttlSeconds
  maxLifetimeSeconds : t.maxLifetimeSeconds = s.maxLifetimeSeconds
  closed : s.closed = true → t.closed = true

/-- Entries may be dropped, and what is left has the times it had. -/
structure Process.Keeps (p q : Process) : Prop where
  next : p.next ≤ q.next
  table : ∀ sid r, q.table.get? sid = some r → p.table.get? sid = some r
  heap : ∀ sid r, q.table.get? sid = some r → (p.heap r).SameTimes (q.heap r)

theorem Session.SameTimes.refl (s : Session) : s.SameTimes s := ⟨rfl, rfl, rfl, rfl, rfl, id⟩

-- A session with the same times expires no later than it did.
theorem Session.SameTimes.isExpired (s t : Session) (h : s.SameTimes t) (time : ℚ)
    (hlive : t.isExpired time = false) : s.isExpired time = false := by
  unfold Session.isExpired at hlive ⊢
  rw [h.lastUsedAt, h.createdAt, h.ttlSeconds, h.maxLifetimeSeconds] at hlive
  by_cases hclosed : s.closed = true
  · rw [if_pos (h.closed hclosed)] at hlive
    exact absurd hlive nofun
  · rw [if_neg hclosed]
    by_cases htclosed : t.closed = true
    · rw [if_pos htclosed] at hlive
      exact absurd hlive nofun
    · rw [if_neg htclosed] at hlive
      exact hlive

theorem Process.Keeps.live (p q : Process) (h : p.Keeps q) (sid : Bytes) (t : ℚ)
    (hp : p.live sid t = none) : q.live sid t = none := by
  by_contra hq
  rcases Option.ne_none_iff_exists'.mp hq with ⟨r, hr⟩
  rcases (q.live_eq_some_iff sid t r).mp hr with ⟨htable, hlive⟩
  have hlive' := (h.heap sid r htable).isExpired _ _ t hlive
  rw [(p.live_eq_some_iff sid t r).mpr ⟨h.table sid r htable, hlive'⟩] at hp
  exact absurd hp nofun

theorem Session.SameTimes.trans (s t u : Session) (hst : s.SameTimes t) (htu : t.SameTimes u) :
    s.SameTimes u :=
  ⟨htu.sessionId.trans hst.sessionId, htu.createdAt.trans hst.createdAt,
    htu.lastUsedAt.trans hst.lastUsedAt, htu.ttlSeconds.trans hst.ttlSeconds,
    htu.maxLifetimeSeconds.trans hst.maxLifetimeSeconds, fun h => htu.closed (hst.closed h)⟩

namespace Process.Keeps

theorem refl (p : Process) : p.Keeps p := ⟨le_refl _, fun _ _ h => h, fun _ _ _ => .refl _⟩

theorem trans (p q u : Process) (hpq : p.Keeps q) (hqu : q.Keeps u) : p.Keeps u :=
  ⟨hpq.next.trans hqu.next, fun sid r h => hpq.table sid r (hqu.table sid r h),
    fun sid r h => .trans _ _ _ (hpq.heap sid r (hqu.table sid r h)) (hqu.heap sid r h)⟩

theorem change (p : Process) (r : Ref) (f : Session → Session)
    (hf : ∀ s : Session, s.SameTimes (f s)) : p.Keeps (p.change r f) := by
  refine ⟨le_refl _, fun _ _ h => h, fun sid x _ => ?_⟩
  by_cases hx : x = r
  · rw [hx, Process.heap_change_self]
    exact hf _
  · rw [Process.heap_change_of_ne _ _ _ _ hx]
    exact .refl _

theorem drop (p : Process) (sid : Bytes) : p.Keeps (p.drop sid) := by
  refine ⟨le_refl _, fun sid' r h => ?_, fun _ _ _ => .refl _⟩
  rw [Process.table_drop, Dict.get?_erase] at h
  split at h
  · cases h
  · exact h

theorem of_shrinks (p q : Process) (h : p.Shrinks q) : p.Keeps q :=
  ⟨h.next.ge, h.table, fun _ r _ => by rw [h.heap]; exact .refl _⟩

/-- Closing a session and dropping its entry. -/
theorem zeroize (p : Process) (r : Ref) (sid : Bytes) :
    p.Keeps ((p.change r Session.zeroize).drop sid) :=
  .trans _ _ _ (change p r Session.zeroize (fun _ => ⟨rfl, rfl, rfl, rfl, rfl, fun _ => rfl⟩))
    (drop _ sid)

end Process.Keeps

theorem live_of_table_none (p : Process) (sid : Bytes) (t : ℚ) (h : p.table.get? sid = none) :
    p.live sid t = none := by
  rw [Process.live, h]
  rfl

theorem table_zeroize (p : Process) (r : Ref) (sid : Bytes) :
    ((p.change r Session.zeroize).drop sid).table.get? sid = none := by
  rw [Process.table_drop, Dict.get?_erase, if_pos rfl]

/-- A session that a lookup has not found is not found later. -/
theorem Process.Looked.gone (p q : Process) (sid : Bytes) (clock clock' : ℕ → ℚ)
    (h : p.Looked sid clock q clock' none) :
    p.Keeps q ∧ ∀ t, clock 0 ≤ t → q.live sid t = none := by
  cases h with
  | absent htable => exact ⟨.refl p, fun t _ => live_of_table_none p sid t htable⟩
  | late r htable hlate =>
      refine ⟨.refl p, fun t ht => ?_⟩
      rw [Process.live, htable, Option.filter_some,
        Session.isExpired_mono _ _ _ ht hlate]
      rfl
  | dropped r htable hlate =>
      exact ⟨.zeroize p r sid, fun t _ => live_of_table_none _ sid t (table_zeroize p r sid)⟩

/-- What an operation leaves of the processes and of the log: a session is made, a request is
    accepted, or the entries are kept or dropped. -/
inductive Effect (ttl maxLife : ℤ) (p : Process) (clock : ℕ → ℚ) :
    Process → Option Happening → Prop where
  | created (m : SessionMaterial) (q : Process)
      (hheap : q.heap = Function.update p.heap p.next (.ofMaterial m ttl maxLife (clock 0)))
      (hnext : q.next = p.next + 1) (htable : q.table = p.table.set m.sessionId p.next) :
      Effect ttl maxLife p clock q (some (.created m.sessionId (clock 0)
        (if m.ttlSeconds ≠ 0 then m.ttlSeconds else ttl)))
  | accepted (sid : Bytes) (r : Ref) (window : ReplayWindow) (q : Process)
      (hlive : p.live sid (clock 1) = some r)
      (hheap : q.heap = Function.update p.heap r (((p.heap r).advance window).touch (clock 2)))
      (hnext : q.next = p.next) (htable : q.table = p.table.set (p.heap r).sessionId r) :
      Effect ttl maxLife p clock q (some (.accepted sid (clock 1) (clock 2)))
  | found (sid : Bytes) (q : Process) (hkeeps : p.Keeps q) (r : Ref)
      (hlive : p.live sid (clock 1) = some r) : Effect ttl maxLife p clock q (some (.found sid))
  | missing (sid : Bytes) (q : Process) (hkeeps : p.Keeps q)
      (hgone : ∀ t, clock 0 ≤ t → q.live sid t = none) :
      Effect ttl maxLife p clock q (some (.missing sid))
  | terminated (sid : Bytes) (q : Process) (hkeeps : p.Keeps q) (r : Ref)
      (htable : p.table.get? sid = some r) (hgone : q.table.get? sid = none) :
      Effect ttl maxLife p clock q (some (.terminated sid))
  | quiet (q : Process) (hkeeps : p.Keeps q) : Effect ttl maxLife p clock q none

/-- What an operation of a server in memory does and what is logged of it. -/
theorem Op.effect (aead : Aead) (ttl maxLife : ℤ) (op : Op) (clock clock' : ℕ → ℚ) (p q : Process)
    (rest : Task Result) (hp : p.Locked false) (hclock : Monotone clock)
    (hrun : (op.task aead ⟨ttl, maxLife, InMemory.store⟩).advance clock p = (q, clock', rest)) :
    Effect ttl maxLife p clock q (op.happening ttl clock rest) := by
  cases op with
  | create m =>
      rcases create_advance aead ttl maxLife m clock p hp with ⟨c, hall⟩
      rw [hrun, Prod.mk.injEq, Prod.mk.injEq] at hall
      rcases hall with ⟨rfl, -, rfl⟩
      refine .created m _ rfl rfl ?_
      show (p.table.set _ _) = _
      rw [Process.heap_alloc_self]
      rfl
  | lookupAsync sid =>
      rcases lookupAsync_clock ttl maxLife sid p hclock with ⟨q', c, o, h, hlooked⟩
      have hall : (Op.task aead ⟨ttl, maxLife, InMemory.store⟩ (.lookupAsync sid)).advance clock p =
          (q', c, .done (.found o)) := Coop.advance_bind _ _ _ _ _ _ _ h
      rw [hrun, Prod.mk.injEq, Prod.mk.injEq] at hall
      rcases hall with ⟨rfl, -, rfl⟩
      cases o with
      | none =>
          rcases hlooked.gone with ⟨hkeeps, hgone⟩
          exact .missing sid q hkeeps hgone
      | some r =>
          cases hlooked with
          | live _ htable hlive =>
          exact .found sid p (.refl p) r ((p.live_eq_some_iff sid _ r).mpr ⟨htable, hlive⟩)
  | terminate sid =>
      rcases terminate_clock ttl maxLife sid p hclock hp with ⟨q', c, removed, h, hterm⟩
      have hall : (Op.task aead ⟨ttl, maxLife, InMemory.store⟩ (.terminate sid)).advance clock p =
          (q', c, .done (.terminated removed)) := Coop.advance_bind _ _ _ _ _ _ _ h
      rw [hrun, Prod.mk.injEq, Prod.mk.injEq] at hall
      rcases hall with ⟨rfl, -, rfl⟩
      cases hterm with
      | missing => exact .quiet p (.refl p)
      | closed r htable =>
          exact .terminated sid _ (.zeroize p r sid) r htable (table_zeroize p r sid)
  | reapExpired =>
      have hends : (Op.task aead ⟨ttl, maxLife, InMemory.store⟩ .reapExpired).Ends
          (fun u => p.Shrinks u) p := Coop.Ends.bind _ _ _ p (reapExpired_clock ttl maxLife p hp)
        (fun _ _ h => h)
      have hshrinks := (hends.advance _ _ clock p).1
      rw [hrun] at hshrinks
      exact .quiet q (.of_shrinks p q hshrinks)
  | decryptRequest request schema =>
      rcases decryptRequest_clock ttl maxLife p hclock aead request schema with
        ⟨q', c, rest', h, hdec⟩
      cases hdec with
      | malformed e e' hunpack =>
          have hall : (Op.task aead ⟨ttl, maxLife, InMemory.store⟩
              (.decryptRequest request schema)).advance clock p = (p, clock, .fail e') :=
            Coop.advance_bind_fail _ _ _ _ _ _ _ h
          rw [hrun, Prod.mk.injEq, Prod.mk.injEq] at hall
          rcases hall with ⟨rfl, -, rfl⟩
          simp only [Op.happening, hunpack]
          exact .quiet q (.refl q)
      | unknown env _ _ hunpack hlooked =>
          have hall : (Op.task aead ⟨ttl, maxLife, InMemory.store⟩
              (.decryptRequest request schema)).advance clock p = (q', c, .fail _) :=
            Coop.advance_bind_fail _ _ _ _ _ _ _ h
          rw [hrun, Prod.mk.injEq, Prod.mk.injEq] at hall
          rcases hall with ⟨rfl, -, rfl⟩
          simp only [Op.happening, hunpack, httpError]
          rcases hlooked.gone with ⟨hkeeps, hgone⟩
          exact .missing _ q hkeeps hgone
      | refused env r _ e hunpack htable hlive hq he =>
          have hall : (Op.task aead ⟨ttl, maxLife, InMemory.store⟩
              (.decryptRequest request schema)).advance clock p = (q', _, .fail e) :=
            Coop.advance_bind_fail _ _ _ _ _ _ _ h
          rw [hrun, Prod.mk.injEq, Prod.mk.injEq] at hall
          rcases hall with ⟨rfl, -, rfl⟩
          have hlogged : Op.happening ttl clock (.decryptRequest request schema) (.fail e) =
              some (.found env.sessionId) := by
            simp only [Op.happening, hunpack]
          rw [hlogged]
          refine .found _ _ ?_ r ((p.live_eq_some_iff _ _ r).mpr ⟨htable, hlive⟩)
          rcases hq with rfl | ⟨window, rfl⟩
          · exact .refl _
          · exact .change p r _ (fun _ => ⟨rfl, rfl, rfl, rfl, rfl, id⟩)
      | accepted env r window value hunpack htable hlive =>
          have hall : (Op.task aead ⟨ttl, maxLife, InMemory.store⟩
              (.decryptRequest request schema)).advance clock p = (_, _, .done (.accepted r)) :=
            Coop.advance_bind _ _ _ _ _ _ _ h
          rw [hrun, Prod.mk.injEq, Prod.mk.injEq] at hall
          rcases hall with ⟨rfl, -, rfl⟩
          simp only [Op.happening, hunpack]
          refine .accepted _ r window _ ((p.live_eq_some_iff _ _ r).mpr ⟨htable, hlive⟩) ?_ rfl rfl
          show Function.update (Function.update p.heap r _) r _ = _
          rw [Function.update_idem, Process.heap_change_self]

namespace Tracks

variable {ttl maxLife : ℤ} {p : Process} {now : ℚ} {log : List Happening}

theorem start (maxLife : ℤ) (now : ℚ) : Tracks maxLife .start now [] where
  next _ _ h := absurd h nofun
  ids _ _ h := absurd h nofun
  lifetime _ _ h := absurd h nofun
  made _ _ h := absurd h nofun
  used _ _ h := absurd h nofun
  kept _ _ h := absurd h nofun
  ended _ h := absurd h nofun
  gone _ h := absurd h id
  orderly := trivial

/-- A session that is live is not dead. -/
theorem not_dead (h : Tracks maxLife p now log) (sid : Bytes) (t : ℚ) (r : Ref) (ht : now ≤ t)
    (hlive : p.live sid t = some r) : ¬ Dead sid log := by
  intro hdead
  rw [h.gone sid hdead t ht] at hlive
  exact absurd hlive nofun

/-- Entries are kept or dropped, and no time is set. -/
theorem keeps (h : Tracks maxLife p now log) (q : Process) (now' : ℚ) (x : Option Happening)
    (hkeeps : p.Keeps q) (hnow : now ≤ now')
    (hcreated : ∀ sid time ttl, x ≠ some (.created sid time ttl))
    (haccepted : ∀ sid checked used, x ≠ some (.accepted sid checked used))
    (hfound : ∀ sid, x = some (.found sid) → ¬ Dead sid log)
    (hmissing : ∀ sid, x = some (.missing sid) → ∀ t, now' ≤ t → q.live sid t = none)
    (hterm : ∀ sid, x = some (.terminated sid) →
      (∃ r, p.table.get? sid = some r) ∧ q.table.get? sid = none) :
    Tracks maxLife q now' (x.toList ++ log) where
  next sid r hr := (h.next sid r (hkeeps.table sid r hr)).trans_le hkeeps.next
  ids sid r hr := by
    rw [(hkeeps.heap sid r hr).sessionId]
    exact h.ids sid r (hkeeps.table sid r hr)
  lifetime sid r hr := by
    rw [(hkeeps.heap sid r hr).maxLifetimeSeconds]
    exact h.lifetime sid r (hkeeps.table sid r hr)
  made sid r hr := by
    rw [(hkeeps.heap sid r hr).createdAt, (hkeeps.heap sid r hr).ttlSeconds]
    exact List.mem_append_right _ (h.made sid r (hkeeps.table sid r hr))
  used sid r hr := by
    -- Only a creation or an acceptance says when a session was used.
    have hsame : lastUse sid (x.toList ++ log) = lastUse sid log := by
      cases x with
      | none => rfl
      | some x =>
          cases x with
          | created sid' time ttl => exact absurd rfl (hcreated sid' time ttl)
          | accepted sid' t u => exact absurd rfl (haccepted sid' t u)
          | _ => rfl
    rw [hsame, (hkeeps.heap sid r hr).lastUsedAt]
    exact h.used sid r (hkeeps.table sid r hr)
  kept sid r hr hmem := by
    rcases List.mem_append.mp hmem with hx | hold
    -- What has just been terminated is not in the table.
    · rw [(hterm sid (Option.mem_toList.mp hx)).2] at hr
      exact absurd hr nofun
    · exact h.kept sid r (hkeeps.table sid r hr) hold
  ended sid hmem := by
    rcases List.mem_append.mp hmem with hx | hold
    · rcases (hterm sid (Option.mem_toList.mp hx)).1 with ⟨r, hr⟩
      exact ⟨_, _, List.mem_append_right _ (h.made sid r hr)⟩
    · rcases h.ended sid hold with ⟨time, ttl', hmade⟩
      exact ⟨time, ttl', List.mem_append_right _ hmade⟩
  gone sid hdead t ht := by
    cases x with
    | none => exact hkeeps.live _ _ sid t (h.gone sid hdead t (hnow.trans ht))
    | some x =>
        rcases hdead with ⟨hx, -⟩ | hdead
        · exact hmissing sid (congrArg some hx) t ht
        · exact hkeeps.live _ _ sid t (h.gone sid hdead t (hnow.trans ht))
  orderly := by
    cases x with
    | none => exact h.orderly
    | some x =>
        refine ⟨?_, h.orderly⟩
        cases x with
        | accepted sid t u => exact absurd rfl (haccepted sid t u)
        | found sid => exact hfound sid rfl
        | _ => trivial

/-- A session is made, under an id of its own. -/
theorem created (h : Tracks maxLife p now log) (clock : ℕ → ℚ) (k : ℕ) (q : Process)
    (m : SessionMaterial) (hclock : Monotone clock) (hnow : now ≤ clock 0)
    (hheap : q.heap = Function.update p.heap p.next (.ofMaterial m ttl maxLife (clock 0)))
    (hnext : q.next = p.next + 1) (htable : q.table = p.table.set m.sessionId p.next)
    (hfresh : ∀ (time' : ℚ) (ttl' : ℤ), .created m.sessionId time' ttl' ∉ log) :
    Tracks maxLife q (clock k) (.created m.sessionId (clock 0)
      (if m.ttlSeconds ≠ 0 then m.ttlSeconds else ttl) :: log) := by
  -- An entry is the new one, or an old one under another id.
  have hentry : ∀ sid r, q.table.get? sid = some r →
      (sid = m.sessionId ∧ q.heap r = .ofMaterial m ttl maxLife (clock 0) ∧ r < q.next) ∨
      (sid ≠ m.sessionId ∧ p.table.get? sid = some r ∧ q.heap r = p.heap r ∧ r < q.next) := by
    intro sid r hr
    rw [htable, Dict.get?_set] at hr
    by_cases hsid : sid = m.sessionId
    · rw [if_pos hsid, Option.some.injEq] at hr
      refine Or.inl ⟨hsid, ?_, ?_⟩
      · rw [hheap, ← hr, Function.update_self]
      · rw [hnext, ← hr]
        exact Nat.lt_succ_self _
    · rw [if_neg hsid] at hr
      have hlt := h.next sid r hr
      refine Or.inr ⟨hsid, hr, ?_, ?_⟩
      · rw [hheap, Function.update_of_ne (Nat.ne_of_lt hlt)]
      · rw [hnext]
        exact Nat.lt_succ_of_lt hlt
  have hother : ∀ sid, sid ≠ m.sessionId → lastUse sid (.created m.sessionId (clock 0)
      (if m.ttlSeconds ≠ 0 then m.ttlSeconds else ttl) :: log) = lastUse sid log :=
    fun sid hsid => if_neg (Ne.symm hsid)
  exact {
    next := fun sid r hr => by
      rcases hentry sid r hr with ⟨-, -, hlt⟩ | ⟨-, -, -, hlt⟩
      · exact hlt
      · exact hlt
    ids := fun sid r hr => by
      rcases hentry sid r hr with ⟨rfl, hr, -⟩ | ⟨-, hold, hr, -⟩
      · rw [hr]
        rfl
      · rw [hr]
        exact h.ids sid r hold
    lifetime := fun sid r hr => by
      rcases hentry sid r hr with ⟨rfl, hr, -⟩ | ⟨-, hold, hr, -⟩
      · rw [hr]
        rfl
      · rw [hr]
        exact h.lifetime sid r hold
    made := fun sid r hr => by
      rcases hentry sid r hr with ⟨rfl, hr, -⟩ | ⟨-, hold, hr, -⟩
      · rw [hr]
        exact List.mem_cons_self
      · rw [hr]
        exact List.mem_cons_of_mem _ (h.made sid r hold)
    used := fun sid r hr => by
      rcases hentry sid r hr with ⟨rfl, hr, -⟩ | ⟨hsid, hold, hr, -⟩
      · rw [hr]
        exact if_pos rfl
      · rw [hr, hother sid hsid]
        exact h.used sid r hold
    kept := fun sid r hr hmem => by
      rcases List.mem_cons.mp hmem with hx | hmem
      · exact absurd hx nofun
      rcases hentry sid r hr with ⟨rfl, -, -⟩ | ⟨-, hold, -, -⟩
      · rcases h.ended _ hmem with ⟨time, ttl', hmade⟩
        exact hfresh time ttl' hmade
      · exact h.kept sid r hold hmem
    ended := fun sid hmem => by
      rcases List.mem_cons.mp hmem with hx | hmem
      · exact absurd hx nofun
      rcases h.ended sid hmem with ⟨time, ttl', hmade⟩
      exact ⟨time, ttl', List.mem_cons_of_mem _ hmade⟩
    gone := fun sid hdead t ht => by
      rcases hdead with ⟨hx, -⟩ | hdead
      · exact absurd hx nofun
      have hnone := h.gone sid hdead t ((hnow.trans (hclock (Nat.zero_le k))).trans ht)
      by_contra hlive
      rcases Option.ne_none_iff_exists'.mp hlive with ⟨r, hr⟩
      rcases (q.live_eq_some_iff sid t r).mp hr with ⟨hr, hlate⟩
      rcases hentry sid r hr with ⟨rfl, -, -⟩ | ⟨-, hold, hsame, -⟩
      · rcases made_of_dead _ _ hdead with ⟨time, ttl', hmade⟩
        exact hfresh time ttl' hmade
      · rw [hsame] at hlate
        rw [(p.live_eq_some_iff sid t r).mpr ⟨hold, hlate⟩] at hnone
        exact absurd hnone nofun
    orderly := ⟨trivial, h.orderly⟩ }

/-- A request is accepted: its session is within its times. -/
theorem accepted (h : Tracks maxLife p now log) (clock : ℕ → ℚ) (k : ℕ) (q : Process) (sid : Bytes)
    (r : Ref) (window : ReplayWindow) (hclock : Monotone clock) (hnow : now ≤ clock 0)
    (hlive : p.live sid (clock 1) = some r)
    (hheap : q.heap = Function.update p.heap r (((p.heap r).advance window).touch (clock 2)))
    (hnext : q.next = p.next) (htable : q.table = p.table.set (p.heap r).sessionId r) :
    Tracks maxLife q (clock k) (.accepted sid (clock 1) (clock 2) :: log) := by
  rcases (p.live_eq_some_iff sid _ r).mp hlive with ⟨hr, hlate⟩
  have hsid := h.ids sid r hr
  -- The entries are the old ones, and the session of the request has been used.
  have hentry : ∀ sid' x, q.table.get? sid' = some x → p.table.get? sid' = some x ∧
      ((sid' = sid ∧ q.heap x = ((p.heap x).advance window).touch (clock 2)) ∨
        (sid' ≠ sid ∧ q.heap x = p.heap x)) := by
    intro sid' x hx
    rw [htable, hsid, Dict.get?_set] at hx
    by_cases hs : sid' = sid
    · rw [if_pos hs, Option.some.injEq] at hx
      rw [hs, ← hx, hheap, Function.update_self]
      exact ⟨hr, Or.inl ⟨rfl, rfl⟩⟩
    · rw [if_neg hs] at hx
      have hne : x ≠ r := fun hxr => hs (by rw [← h.ids sid' x hx, hxr, hsid])
      rw [hheap, Function.update_of_ne hne]
      exact ⟨hx, Or.inr ⟨hs, rfl⟩⟩
  -- All but the time of its last use is as it was.
  have hsame : ∀ sid' x, q.table.get? sid' = some x → p.table.get? sid' = some x ∧
      (q.heap x).sessionId = (p.heap x).sessionId ∧ (q.heap x).createdAt = (p.heap x).createdAt ∧
      (q.heap x).ttlSeconds = (p.heap x).ttlSeconds ∧
      (q.heap x).maxLifetimeSeconds = (p.heap x).maxLifetimeSeconds := by
    intro sid' x hx
    rcases hentry sid' x hx with ⟨hold, ⟨-, hq⟩ | ⟨-, hq⟩⟩
    · rw [hq]
      exact ⟨hold, rfl, rfl, rfl, rfl⟩
    · rw [hq]
      exact ⟨hold, rfl, rfl, rfl, rfl⟩
  have hdead := h.not_dead sid _ r (hnow.trans (hclock (Nat.zero_le 1))) hlive
  exact {
    next := fun sid' x hx => by
      rw [hnext]
      exact h.next sid' x (hsame sid' x hx).1
    ids := fun sid' x hx => by
      rcases hsame sid' x hx with ⟨hold, hid, -⟩
      rw [hid]
      exact h.ids sid' x hold
    lifetime := fun sid' x hx => by
      rcases hsame sid' x hx with ⟨hold, -, -, -, hlife⟩
      rw [hlife]
      exact h.lifetime sid' x hold
    made := fun sid' x hx => by
      rcases hsame sid' x hx with ⟨hold, -, hcreated, httl, -⟩
      rw [hcreated, httl]
      exact List.mem_cons_of_mem _ (h.made sid' x hold)
    used := fun sid' x hx => by
      rcases hentry sid' x hx with ⟨hold, ⟨rfl, hq⟩ | ⟨hs, hq⟩⟩
      · rw [hq]
        exact if_pos rfl
      · rw [hq, lastUse, if_neg (Ne.symm hs)]
        exact h.used sid' x hold
    kept := fun sid' x hx hmem => by
      rcases List.mem_cons.mp hmem with heq | hmem
      · exact absurd heq nofun
      · exact h.kept sid' x (hsame sid' x hx).1 hmem
    ended := fun sid' hmem => by
      rcases List.mem_cons.mp hmem with heq | hmem
      · exact absurd heq nofun
      rcases h.ended sid' hmem with ⟨time, ttl', hmade⟩
      exact ⟨time, ttl', List.mem_cons_of_mem _ hmade⟩
    gone := fun sid' hdead' t ht => by
      rcases hdead' with ⟨heq, -⟩ | hdead'
      · exact absurd heq nofun
      have hnone := h.gone sid' hdead' t ((hnow.trans (hclock (Nat.zero_le k))).trans ht)
      by_contra hsome
      rcases Option.ne_none_iff_exists'.mp hsome with ⟨x, hx⟩
      rcases (q.live_eq_some_iff sid' t x).mp hx with ⟨hx, hlate'⟩
      rcases hentry sid' x hx with ⟨hold, ⟨rfl, -⟩ | ⟨-, hq⟩⟩
      · exact hdead hdead'
      · rw [hq] at hlate'
        rw [(p.live_eq_some_iff sid' t x).mpr ⟨hold, hlate'⟩] at hnone
        exact absurd hnone nofun
    orderly := by
      rcases Session.within_of_not_isExpired _ _ hlate with ⟨-, hidle, hlife⟩
      rw [h.lifetime sid r hr] at hlife
      exact ⟨⟨⟨_, _, _, h.made sid r hr, hlife, h.used sid r hr, hidle, h.kept sid r hr⟩, hdead⟩,
        h.orderly⟩ }

theorem effect (h : Tracks maxLife p now log) (clock : ℕ → ℚ) (k : ℕ) (hclock : Monotone clock)
    (hnow : now ≤ clock 0) (q : Process) (x : Option Happening)
    (hfresh : ∀ sid time ttl, x = some (.created sid time ttl) →
      ∀ (time' : ℚ) (ttl' : ℤ), .created sid time' ttl' ∉ log)
    (heffect : Effect ttl maxLife p clock q x) :
    Tracks maxLife q (clock k) (x.toList ++ log) := by
  have hlater : clock 0 ≤ clock k := hclock (Nat.zero_le k)
  cases heffect with
  | created m q hheap hnext htable =>
      exact h.created clock k q m hclock hnow hheap hnext htable (hfresh _ _ _ rfl)
  | accepted sid r window q hlive hheap hnext htable =>
      exact h.accepted clock k q sid r window hclock hnow hlive hheap hnext htable
  | found sid q hkeeps r hlive =>
      refine h.keeps q _ _ hkeeps (hnow.trans hlater) nofun nofun (fun sid' hx => ?_) nofun nofun
      rw [← Happening.found.inj (Option.some.inj hx)]
      exact h.not_dead sid _ r (hnow.trans (hclock (Nat.zero_le 1))) hlive
  | missing sid q hkeeps hgone =>
      refine h.keeps q _ _ hkeeps (hnow.trans hlater) nofun nofun nofun
        (fun sid' hx t ht => ?_) nofun
      rw [← Happening.missing.inj (Option.some.inj hx)]
      exact hgone t (hlater.trans ht)
  | terminated sid q hkeeps r htable hgone =>
      refine h.keeps q _ _ hkeeps (hnow.trans hlater) nofun nofun nofun nofun (fun sid' hx => ?_)
      rw [← Happening.terminated.inj (Option.some.inj hx)]
      exact ⟨⟨r, htable⟩, hgone⟩
  | quiet q hkeeps =>
      exact h.keeps q _ none hkeeps (hnow.trans hlater) nofun nofun nofun nofun nofun

end Tracks

/-- What is logged as made is the session of the operation. -/
theorem create_of_happening (ttl : ℤ) (clock : ℕ → ℚ) (op : Op) (rest : Task Result) (sid : Bytes)
    (time : ℚ) (ttl' : ℤ) (h : op.happening ttl clock rest = some (.created sid time ttl')) :
    ∃ m, op = .create m ∧ m.sessionId = sid := by
  unfold Op.happening at h
  split at h
  · rename_i m _
    exact ⟨m, rfl, (Happening.created.inj (Option.some.inj h)).1⟩
  · split at h
    · exact absurd h nofun
    · exact absurd h nofun
  · exact absurd h nofun
  · split at h
    · exact absurd h nofun
    · exact absurd h nofun
    · exact absurd h nofun
    · exact absurd h nofun
  · exact absurd h nofun

namespace Timed

variable {aead : Aead} {ttl maxLife : ℤ}

/-- A step runs an operation, or does something that is not logged. -/
theorem step_cases (w w' : Timed) (e : Event Unit) (hstep : w.step aead ttl maxLife e = some w') :
    w.server.step aead ⟨ttl, maxLife, InMemory.store⟩ e = some w'.server ∧
    ((∃ k clock job p clock' rest, e = .run k clock ∧ w.server.jobs k = some job ∧
      job.rest.advance clock (w.server.proc job.inst) = (p, clock', rest) ∧
      w' = ⟨w.server.settle k job.inst job.op p rest, clock' 0,
        (job.op.happening ttl clock rest).toList ++ w.log⟩) ∨
    ((∀ k clock, e ≠ .run k clock) ∧ w' = { w with server := w'.server })) := by
  cases e with
  | run k clock =>
      rw [Timed.step] at hstep
      cases hjob : w.server.jobs k with
      | none =>
          rw [hjob] at hstep
          cases hstep
      | some job =>
          rw [hjob] at hstep
          refine ⟨?_, Or.inl ⟨k, clock, job, _, _, _, rfl, hjob, rfl, (Option.some.inj hstep).symm⟩⟩
          rw [← Option.some.inj hstep, Fleet.step, hjob]
  | _ =>
      simp only [Timed.step, Option.map_eq_some_iff] at hstep
      rcases hstep with ⟨g, hg, rfl⟩
      exact ⟨hg, Or.inr ⟨by simp, rfl⟩⟩

-- A handler that seals changes no time.
theorem emit_keeps (p q : Process) (r : Ref) (d : DirectionKeys)
    (hq : q = p.change r Session.bump ∨ q = (p.change r Session.bump).note r (.sealed d)) :
    p.Keeps q := by
  have hbump : p.Keeps (p.change r Session.bump) :=
    .change p r _ (fun _ => ⟨rfl, rfl, rfl, rfl, rfl, id⟩)
  rcases hq with rfl | rfl
  · exact hbump
  · exact ⟨hbump.next, hbump.table, hbump.heap⟩

theorem stepped_keeps (f g : Fleet Unit) (e : Event Unit) (hnot : ∀ k clock, e ≠ .run k clock)
    (h : f.Stepped aead ⟨ttl, maxLife, InMemory.store⟩ e g) : (f.proc ()).Keeps (g.proc ()) := by
  cases h with
  | run k clock job p clock' rest hjob hrun => exact absurd rfl (hnot k clock)
  | emit _ hd d p hsealing hp =>
      show Process.Keeps _ (Function.update f.proc () p ())
      rw [Function.update_self]
      exact emit_keeps _ p hd.sess _ hp
  | _ => exact .refl _

/-- A step keeps the server idle, and its table and the log together. -/
theorem step_invariant (w w' : Timed) (e : Event Unit) (hproper : w.Proper e)
    (hstep : w.step aead ttl maxLife e = some w')
    (hidle : w.server.Idle aead ⟨ttl, maxLife, InMemory.store⟩)
    (htracks : Tracks maxLife (w.server.proc ()) w.now w.log) :
    w'.server.Idle aead ⟨ttl, maxLife, InMemory.store⟩ ∧
      Tracks maxLife (w'.server.proc ()) w'.now w'.log := by
  rcases step_cases w w' e hstep with ⟨hserver, hcase⟩
  refine ⟨hidle.step _ e hserver, ?_⟩
  rcases hcase with ⟨k, clock, job, p, clock', rest, rfl, hjob, hrun, rfl⟩ | hcase
  · rcases hproper.clock k clock rfl with ⟨hclock, hnow⟩
    rcases Coop.advance_clock job.rest clock (w.server.proc job.inst) with ⟨n, hn⟩
    rw [hrun] at hn
    rw [hidle.fresh k job hjob] at hrun
    have heffect :=
      Op.effect aead ttl maxLife job.op clock clock' _ p rest (hidle.free ()) hclock hrun
    show Tracks maxLife ((w.server.settle k job.inst job.op p rest).proc ()) (clock' 0) _
    rw [Fleet.settle_proc, Function.update_self, show clock' = _ from hn]
    dsimp only
    rw [Nat.zero_add]
    refine htracks.effect clock n hclock hnow p _ (fun sid time ttl' hx => ?_) heffect
    rcases create_of_happening ttl clock job.op rest sid time ttl' hx with ⟨m, hm, rfl⟩
    exact hproper.fresh k clock m job.rest rfl (hm ▸ hjob)
  · have hkeeps := stepped_keeps w.server w'.server e hcase.1
      (Fleet.stepped_of_step aead _ _ e _ hserver)
    rw [hcase.2]
    exact htracks.keeps _ w.now none hkeeps (le_refl _) nofun nofun nofun nofun nofun

/-- The server of a run is idle between its steps, and its table and the log are
    kept together. -/
theorem invariant (w : Timed) (hrun : Run aead ttl maxLife w) :
    w.server.Idle aead ⟨ttl, maxLife, InMemory.store⟩ ∧
      Tracks maxLife (w.server.proc ()) w.now w.log := by
  induction hrun with
  | start now => exact ⟨Fleet.idle_start aead _, Tracks.start maxLife now⟩
  | tail w w' e hrun hproper hstep ih =>
      exact step_invariant w w' e hproper hstep ih.1 ih.2

end Timed

/-- An operation that starts is under way. -/
theorem job_of_start (aead : Aead) (manager : SessionManager) (f g : Fleet Unit) (k : ℕ) (op : Op)
    (h : f.step aead manager (.start k () op) = some g) :
    g.jobs k = some ⟨(), op, op.task aead manager⟩ := by
  cases Fleet.stepped_of_step aead manager f _ g h with
  | start _ _ _ hjob hhandler => exact Function.update_self _ _ _
  | emit _ hd d p hsealing hp => exact absurd hsealing nofun

namespace Timed

variable (aead : Aead) (ttl maxLife : ℤ)

/-- The session an operation makes is a new one. -/
def isNew (log : List Happening) : Op → Bool
  | .create m => log.all fun
    | .created sid _ _ => sid ≠ m.sessionId
    | _ => true
  | _ => true

/-- Run operations from start to end, each at a time. -/
def perform : Timed → List (ℕ × ℚ × Op) → Option Timed
  | w, [] => some w
  | w, (k, t, op) :: rest =>
    if w.now ≤ t ∧ isNew w.log op = true then
      ((w.step aead ttl maxLife (.start k () op)).bind
        (fun u => u.step aead ttl maxLife (.run k fun _ => t))).bind (fun v => v.perform rest)
    else none

theorem proper_start (w : Timed) (k : ℕ) (op : Op) : w.Proper (.start k () op) :=
  ⟨fun _ _ h => absurd h nofun, fun _ _ _ _ h => absurd h nofun⟩

theorem run_of_perform (w v : Timed) (ops : List (ℕ × ℚ × Op)) (hrun : Run aead ttl maxLife w)
    (h : w.perform aead ttl maxLife ops = some v) : Run aead ttl maxLife v := by
  induction ops generalizing w with
  | nil =>
      rw [← Option.some.inj h]
      exact hrun
  | cons x ops ih =>
      rcases x with ⟨k, t, op⟩
      rw [perform] at h
      split at h
      swap
      · exact absurd h nofun
      rename_i hproper
      simp only [Option.bind_eq_some_iff] at h
      rcases h with ⟨v', ⟨u, hstart, hgo⟩, hrest⟩
      have hu : u.now = w.now ∧ u.log = w.log ∧ u.server.jobs k =
          some ⟨(), op, op.task aead ⟨ttl, maxLife, InMemory.store⟩⟩ := by
        rcases step_cases w u _ hstart with ⟨hserver, ⟨_, _, _, _, _, _, hev, -⟩ | ⟨-, hu⟩⟩
        · exact absurd hev nofun
        · rw [hu]
          exact ⟨rfl, rfl, job_of_start aead _ _ _ k op hserver⟩
      refine ih v'
        (Run.tail u v' _ (Run.tail w u _ hrun (proper_start w k op) hstart) ⟨?_, ?_⟩ hgo) hrest
      · rintro k' clock hev
        rw [← (Event.run.inj hev).2, hu.1]
        exact ⟨monotone_const, hproper.1⟩
      · rintro k' clock m rest' hev hjob time ttl' hmem
        rw [← (Event.run.inj hev).1, hu.2.2, Option.some.injEq, Job.mk.injEq] at hjob
        have hnew := hproper.2
        rw [hjob.2.1, isNew] at hnew
        have hne := List.all_eq_true.mp hnew _ (hu.2.1 ▸ hmem)
        exact absurd rfl (of_decide_eq_true hne)

end Timed

/-- **The lifetime of a session.** In every run, a request that is accepted is
    on a session that was made no longer than the maximal lifetime before, was
    last used or made no longer than its time to live before, and has not been
    terminated. A session that was made and is then not found is not found
    again. -/
theorem session_lifetime (aead : Aead) (ttl maxLife : ℤ) (w : Timed)
    (hrun : Timed.Run aead ttl maxLife w) :
    (∀ newer older sid checked used,
      w.log = newer ++ .accepted sid checked used :: older →
      ∃ (time : ℚ) (ttl : ℤ) (last : ℚ), .created sid time ttl ∈ older ∧ checked - time ≤ maxLife ∧
        lastUse sid older = some last ∧ checked - last ≤ ttl ∧ .terminated sid ∉ older) ∧
    ∀ newer older sid (time : ℚ) (ttl : ℤ), w.log = newer ++ .missing sid :: older →
      .created sid time ttl ∈ older →
      .found sid ∉ newer ∧ ∀ checked used, .accepted sid checked used ∉ newer := by
  have horderly := (Timed.invariant w hrun).2.orderly
  constructor
  · intro newer older sid checked used hlog
    rw [hlog] at horderly
    exact (horderly.allowed _ _ _ _).1
  · intro newer older sid time ttl hlog hmade
    -- What comes after the miss is not allowed to find the session.
    have hdead : ∀ newer', Dead sid (newer' ++ .missing sid :: older) :=
      fun newer' => dead_append sid newer' _ (Or.inl ⟨rfl, time, ttl, hmade⟩)
    rw [hlog] at horderly
    constructor
    · intro hmem
      rcases List.append_of_mem hmem with ⟨post, pre, rfl⟩
      rw [List.append_assoc] at horderly
      exact horderly.allowed _ _ _ _ (hdead pre)
    · intro checked used hmem
      rcases List.append_of_mem hmem with ⟨post, pre, rfl⟩
      rw [List.append_assoc] at horderly
      exact (horderly.allowed _ _ _ _).2 (hdead pre)

/-- A session that is made, used after ten minutes and missed after an hour. -/
theorem session_lifetime_sample :
    ∃ w, Timed.Run .sample 900 3600 w ∧
      w.log = [.missing SessionMaterial.sample.sessionId,
        .accepted SessionMaterial.sample.sessionId 600 600,
        .created SessionMaterial.sample.sessionId 0 900] ∧
      ∃ (time : ℚ) (ttl : ℤ) (last : ℚ),
        Happening.created SessionMaterial.sample.sessionId time ttl ∈
          [Happening.created SessionMaterial.sample.sessionId 0 900] ∧
        600 - time ≤ (3600 : ℤ) ∧ 600 - last ≤ ttl := by
  have hperform : ((Timed.perform .sample 900 3600 ⟨Fleet.start, 0, []⟩
      [(0, 0, .create .sample), (1, 600, .sample 1),
        (2, 3600, .lookupAsync SessionMaterial.sample.sessionId)]).any fun w =>
        decide (w.log = [.missing SessionMaterial.sample.sessionId,
          .accepted SessionMaterial.sample.sessionId 600 600,
          .created SessionMaterial.sample.sessionId 0 900])) = true := by
    decide +kernel
  rcases (Option.any_eq_true _ _).mp hperform with ⟨w, hw, hlog⟩
  have hrun := Timed.run_of_perform _ _ _ _ w _ (Timed.Run.start 0) hw
  rcases (session_lifetime .sample 900 3600 w hrun).1 [_] [_] _ 600 600
      (of_decide_eq_true hlog) with
    ⟨time, ttl, last, hmade, hlife, -, hidle, -⟩
  exact ⟨w, hrun, of_decide_eq_true hlog, time, ttl, last, hmade, hlife, hidle⟩

end SecureLlm
