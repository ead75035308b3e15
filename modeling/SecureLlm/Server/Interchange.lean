import Mathlib.Tactic.Linarith
import SecureLlm.Library.Alone
import SecureLlm.Library.Transition
import SecureLlm.Server.Fleet

/-!
# One Server Over Either Store

A server that does one thing after the other, each at one moment, over a Redis that
nobody else uses. It answers as it would over the in-memory store. A session that is
live is in its cache, and what is in Redis alone is over: there is nothing to be had
from there. Redis is asked in vain, and may forget what it likes.

Only what a termination says it has removed is counted by Redis. That is the same as
long as Redis forgets nothing.

The two servers do not have the same objects: Redis hands out sessions that are over,
and an object is made of each. So the objects of the one stand for some of those of
the other.

## Main definitions

* `Lone`: A server on its own, and what it has answered.
* `Lone.step`: What it does next.
* `Mirrors`: The objects, the table and the records of the one, and what they are in
  the other.

## Theorems

* `Mirrors.find`: Looking a session up.
* `Mirrors.perform`: Every operation ends alike.
* `stores_interchangeable`: The two servers answer alike.
-/

namespace SecureLlm

open Library Transition

/-- What an operation tells those who asked for it. How many sessions were reaped is
    told to nobody. -/
inductive Output where
  | created (session : Session)
  | found (session : Option Session)
  | terminated (removed : Bool)
  | reaped
  | accepted (session : Session)
  | raised (e : Exc)
  | sealed (envelope : Except Exc Bytes)
  deriving DecidableEq

/-- An output, but for whether a termination has removed something. -/
def Output.blurred : Output → Output
  | .terminated _ => .terminated true
  | output => output

/-- What a result is about, once the operation has ended. -/
def Process.output (p : Process) : Except Exc Result → Output
  | .error e => .raised e
  | .ok (.created sess) => .created (p.heap sess)
  | .ok (.found sess) => .found (sess.map p.heap)
  | .ok (.terminated removed) => .terminated removed
  | .ok (.reaped _) => .reaped
  | .ok (.accepted sess) => .accepted (p.heap sess)

/-- A server on its own: the time, its memory, its Redis, the handlers of accepted
    requests with the direction put aside, and its answers. -/
structure Lone where
  now : ℚ
  proc : Process
  redis : String → Option Record
  handlers : List (Ref × Option DirectionKeys)
  outputs : List Output

/-- What may happen: an operation at some time, a handler puts its session's direction
    aside or seals, or Redis forgets the record of a session. -/
inductive LoneEvent where
  | perform (time : ℚ) (op : Op)
  | save (k : ℕ)
  | respond (k : ℕ) (useSaved : Bool) (method path : String) (body : Bytes)
  | chunk (k : ℕ) (method path : String) (body : Bytes)
  | forget (sid : Bytes)

/-- The handlers once an operation has ended. -/
def handlersAfter (handlers : List (Ref × Option DirectionKeys)) :
    Except Exc Result → List (Ref × Option DirectionKeys)
  | .ok (.accepted sess) => handlers ++ [(sess, none)]
  | _ => handlers

namespace Lone

def start (now : ℚ) : Lone := ⟨now, .start, fun _ => none, [], []⟩

variable (aead : Aead) (manager : SessionManager) (w : Lone)

/-- A handler seals. -/
def sealBy (task : Task Bytes) : Option Lone :=
  (task.solo RedisCall.exec w.now w.proc w.redis).map fun (p, db, envelope) =>
    { w with proc := p, redis := db, outputs := w.outputs ++ [.sealed envelope] }

/-- One step. Time does not go back. -/
def step : LoneEvent → Option Lone
  | .perform time op =>
    if w.now ≤ time then
      ((op.task aead manager).solo RedisCall.exec time w.proc w.redis).map fun (p, db, result) =>
        { now := time
          proc := p
          redis := db
          handlers := handlersAfter w.handlers result
          outputs := w.outputs ++ [p.output result] }
    else none
  | .save k =>
    w.handlers[k]?.map fun h =>
      { w with handlers := w.handlers.set k (h.1, some (w.proc.heap h.1).s2c) }
  | .respond k useSaved method path body =>
    w.handlers[k]?.bind fun h =>
      w.sealBy (encryptResponse aead h.1 body method path (if useSaved then h.2 else none))
  | .chunk k method path body =>
    w.handlers[k]?.bind fun h => w.sealBy (sealChunk aead h.1 body method path)
  | .forget sid => some { w with redis := Function.update w.redis (redisKey sid) none }

end Lone

/-- The objects of a process `m` are those of `r` under other names, and so is its table,
    but that `r` may lack sessions that are over. A record of a session that is live is
    of one that is so in `m`, and if `kept` there is one of each. -/
structure Mirrors (kept : Prop) (now : ℚ) (twin : Ref → Ref) (m r : Process)
    (db : String → Option Record) : Prop where
  below : ∀ x, x < m.next → twin x < r.next
  heap : ∀ x, x < m.next → r.heap (twin x) = m.heap x
  inj : ∀ x y, x < m.next → y < m.next → twin x = twin y → x = y
  used : ∀ x, x < m.next → (m.heap x).lastUsedAt ≤ now
  table : ∀ sid x, m.table.get? sid = some x → x < m.next ∧ (m.heap x).sessionId = sid
  cached : ∀ sid y, r.table.get? sid = some y → ∃ x, m.table.get? sid = some x ∧ y = twin x
  live : ∀ sid x, m.table.get? sid = some x → (m.heap x).isExpired now = false →
    r.table.get? sid = some (twin x)
  records : ∀ sid record, db (redisKey sid) = some record → ∃ s, deserialize record = .ok s ∧
    ∀ t, now ≤ t → s.isExpired t = false →
      ∃ x, m.table.get? sid = some x ∧ (m.heap x).isExpired t = false
  stored : kept → ∀ sid x, m.table.get? sid = some x → (m.heap x).isExpired now = false →
    (db (redisKey sid)).isSome = true

namespace Mirrors

variable {kept : Prop} {now : ℚ} {twin : Ref → Ref} {m r : Process} {db : String → Option Record}

theorem mirrors_start : Mirrors kept now id .start .start fun _ => none where
  below x hx := absurd hx (Nat.not_lt_zero x)
  heap x hx := absurd hx (Nat.not_lt_zero x)
  inj x y hx := absurd hx (Nat.not_lt_zero x)
  used x hx := absurd hx (Nat.not_lt_zero x)
  table sid x h := absurd h (by simp [Process.start])
  cached sid y h := absurd h (by simp [Process.start])
  live sid x h := absurd h (by simp [Process.start])
  records sid record h := absurd h (by simp)
  stored _ sid x h := absurd h (by simp [Process.start])

/-- Time goes on. -/
theorem later {t : ℚ} (h : Mirrors kept now twin m r db) (ht : now ≤ t) :
    Mirrors kept t twin m r db := by
  have hopen : ∀ s : Session, s.isExpired t = false → s.isExpired now = false := by
    intro s hs
    by_contra hnow
    rw [Bool.not_eq_false] at hnow
    rw [s.isExpired_mono now t ht hnow] at hs
    exact absurd hs (by simp)
  refine ⟨h.below, h.heap, h.inj, fun x hx => (h.used x hx).trans ht, h.table, h.cached,
    fun sid x hx hlive => h.live sid x hx (hopen _ hlive), fun sid record hrecord => ?_,
    fun hk sid x hx hlive => h.stored hk sid x hx (hopen _ hlive)⟩
  rcases h.records sid record hrecord with ⟨s, hs, hlater⟩
  exact ⟨s, hs, fun u hu hlive => hlater u (ht.trans hu) hlive⟩

theorem setLocked {b c : Bool} (h : Mirrors kept now twin m r db) :
    Mirrors kept now twin (m.setLocked b) (r.setLocked c) db :=
  ⟨h.below, h.heap, h.inj, h.used, h.table, h.cached, h.live, h.records, h.stored⟩

theorem note {x y : Ref} {kind kind' : NoteKind} (h : Mirrors kept now twin m r db) :
    Mirrors kept now twin (m.note x kind) (r.note y kind') db :=
  ⟨h.below, h.heap, h.inj, h.used, h.table, h.cached, h.live, h.records, h.stored⟩

/-- The server over Redis takes a session that is over out of its cache. -/
theorem dropCached {sid : Bytes} (h : Mirrors kept now twin m r db)
    (hover : ∀ x, m.table.get? sid = some x → (m.heap x).isExpired now = true) :
    Mirrors kept now twin m (r.drop sid) db := by
  refine ⟨h.below, h.heap, h.inj, h.used, h.table, fun sid' y hy => ?_, fun sid' x hx hlive => ?_,
    h.records, h.stored⟩
  · rw [Process.table_drop, Dict.get?_erase] at hy
    by_cases hsid : sid' = sid
    · rw [if_pos hsid] at hy
      exact absurd hy (by simp)
    · rw [if_neg hsid] at hy
      exact h.cached sid' y hy
  · rw [Process.table_drop, Dict.get?_erase]
    by_cases hsid : sid' = sid
    · rw [hsid] at hx
      rw [hover x hx] at hlive
      exact absurd hlive (by simp)
    · rw [if_neg hsid]
      exact h.live sid' x hx hlive

/-- It makes an object that nothing refers to. -/
theorem allocSpare {s : Session} {kind : NoteKind} (h : Mirrors kept now twin m r db) :
    Mirrors kept now twin m (r.alloc s kind) db := by
  refine ⟨fun x hx => (h.below x hx).trans (Nat.lt_succ_self _), fun x hx => ?_, h.inj, h.used,
    h.table, h.cached, h.live, h.records, h.stored⟩
  rw [Process.heap_alloc_of_lt r s kind (twin x) (h.below x hx)]
  exact h.heap x hx

/-- Redis has no record, or none any more, of a session that is not live. -/
theorem unrecord {name : String} (h : Mirrors kept now twin m r db)
    (hover : kept → ∀ sid x, redisKey sid = name → m.table.get? sid = some x →
      (m.heap x).isExpired now = true) :
    Mirrors kept now twin m r (Function.update db name none) := by
  refine ⟨h.below, h.heap, h.inj, h.used, h.table, h.cached, h.live,
    fun sid record hrecord => ?_, fun hk sid x hx hlive => ?_⟩
  · by_cases hname : redisKey sid = name
    · rw [hname, Function.update_self] at hrecord
      exact absurd hrecord (by simp)
    · rw [Function.update_of_ne hname] at hrecord
      exact h.records sid record hrecord
  · by_cases hname : redisKey sid = name
    · rw [hover hk sid x hname hx] at hlive
      exact absurd hlive (by simp)
    · rw [Function.update_of_ne hname]
      exact h.stored hk sid x hx hlive

/-- A change of one object that leaves its id alone, and does not end it. -/
theorem change {x : Ref} {f : Session → Session} (h : Mirrors kept now twin m r db)
    (hx : x < m.next) (hid : (f (m.heap x)).sessionId = (m.heap x).sessionId)
    (hused : (f (m.heap x)).lastUsedAt ≤ now)
    (hends : ∀ t, now ≤ t → (m.heap x).isExpired t = false → (f (m.heap x)).isExpired t = false)
    (hopens : (f (m.heap x)).isExpired now = false → (m.heap x).isExpired now = false) :
    Mirrors kept now twin (m.change x f) (r.change (twin x) f) db := by
  have hheap : ∀ y, (m.change x f).heap y = if y = x then f (m.heap x) else m.heap y := by
    intro y
    by_cases hy : y = x
    · rw [if_pos hy, hy, Process.heap_change_self]
    · rw [if_neg hy, Process.heap_change_of_ne m x y f hy]
  have hlive : ∀ y, ((m.change x f).heap y).isExpired now = false →
      (m.heap y).isExpired now = false := by
    intro y hy
    rw [hheap] at hy
    by_cases hyx : y = x
    · rw [if_pos hyx] at hy
      rw [hyx]
      exact hopens hy
    · rw [if_neg hyx] at hy
      exact hy
  refine ⟨h.below, fun y hy => ?_, h.inj, fun y hy => ?_, fun sid y hy => ?_, h.cached,
    fun sid y hy hl => h.live sid y hy (hlive y hl), fun sid record hrecord => ?_,
    fun hk sid y hy hl => h.stored hk sid y hy (hlive y hl)⟩
  · by_cases hyx : y = x
    · rw [hyx, Process.heap_change_self, Process.heap_change_self, h.heap x hx]
    · have htwin : twin y ≠ twin x := fun hsame => hyx (h.inj y x hy hx hsame)
      rw [Process.heap_change_of_ne r _ _ f htwin, Process.heap_change_of_ne m x y f hyx]
      exact h.heap y hy
  · rw [hheap]
    by_cases hyx : y = x
    · rw [if_pos hyx]
      exact hused
    · rw [if_neg hyx]
      exact h.used y hy
  · rw [hheap]
    by_cases hyx : y = x
    · rw [if_pos hyx, hid, ← hyx]
      exact h.table sid y hy
    · rw [if_neg hyx]
      exact h.table sid y hy
  · rcases h.records sid record hrecord with ⟨s, hs, hlater⟩
    refine ⟨s, hs, fun t ht hst => ?_⟩
    rcases hlater t ht hst with ⟨y, hy, hyt⟩
    refine ⟨y, hy, ?_⟩
    rw [hheap]
    by_cases hyx : y = x
    · rw [if_pos hyx]
      rw [hyx] at hyt
      exact hends t ht hyt
    · rw [if_neg hyx]
      exact hyt

/-- Both make an object, and the one stands for the other. -/
theorem alloc (s : Session) (kind : NoteKind) (h : Mirrors kept now twin m r db)
    (hs : s.lastUsedAt ≤ now) :
    Mirrors kept now (Function.update twin m.next r.next) (m.alloc s kind) (r.alloc s kind) db := by
  have hold : ∀ x, x < m.next → Function.update twin m.next r.next x = twin x :=
    fun x hx => Function.update_of_ne (Nat.ne_of_lt hx) _ _
  have hcase : ∀ x, x < (m.alloc s kind).next → x = m.next ∨ x < m.next :=
    fun x hx => (Nat.lt_succ_iff_lt_or_eq.mp hx).symm
  have hheap : ∀ sid x, m.table.get? sid = some x → (m.alloc s kind).heap x = m.heap x :=
    fun sid x hx => Process.heap_alloc_of_lt m s kind x (h.table sid x hx).1
  refine ⟨fun x hx => ?_, fun x hx => ?_, fun x y hx hy hsame => ?_, fun x hx => ?_,
    fun sid x hx => ?_, fun sid y hy => ?_, fun sid x hx hlive => ?_, fun sid record hrecord => ?_,
    fun hk sid x hx hlive => ?_⟩
  · rcases hcase x hx with rfl | hlt
    · rw [Function.update_self]
      exact Nat.lt_succ_self _
    · rw [hold x hlt]
      exact (h.below x hlt).trans (Nat.lt_succ_self _)
  · rcases hcase x hx with rfl | hlt
    · rw [Function.update_self, Process.heap_alloc_self, Process.heap_alloc_self]
    · rw [hold x hlt, Process.heap_alloc_of_lt r s kind _ (h.below x hlt),
        Process.heap_alloc_of_lt m s kind x hlt]
      exact h.heap x hlt
  · rcases hcase x hx with rfl | hltx
    · rcases hcase y hy with rfl | hlty
      · rfl
      · rw [Function.update_self, hold y hlty] at hsame
        exact absurd (h.below y hlty) (by rw [← hsame]; exact Nat.lt_irrefl _)
    · rcases hcase y hy with rfl | hlty
      · rw [Function.update_self, hold x hltx] at hsame
        exact absurd (h.below x hltx) (by rw [hsame]; exact Nat.lt_irrefl _)
      · rw [hold x hltx, hold y hlty] at hsame
        exact h.inj x y hltx hlty hsame
  · rcases hcase x hx with rfl | hlt
    · rw [Process.heap_alloc_self]
      exact hs
    · rw [Process.heap_alloc_of_lt m s kind x hlt]
      exact h.used x hlt
  · rcases h.table sid x hx with ⟨hlt, hsid⟩
    refine ⟨hlt.trans (Nat.lt_succ_self _), ?_⟩
    rw [hheap sid x hx]
    exact hsid
  · rcases h.cached sid y hy with ⟨x, hx, hxy⟩
    refine ⟨x, hx, ?_⟩
    rw [hold x (h.table sid x hx).1]
    exact hxy
  · rw [hheap sid x hx] at hlive
    rw [hold x (h.table sid x hx).1]
    exact h.live sid x hx hlive
  · rcases h.records sid record hrecord with ⟨s', hs', hlater⟩
    refine ⟨s', hs', fun t ht hst => ?_⟩
    rcases hlater t ht hst with ⟨x, hx, hxt⟩
    refine ⟨x, hx, ?_⟩
    rw [hheap sid x hx]
    exact hxt
  · rw [hheap sid x hx] at hlive
    exact h.stored hk sid x hx hlive

/-- Both put an object under its id, and the one writes its record. -/
theorem put {x : Ref} (h : Mirrors kept now twin m r db) (hx : x < m.next) :
    Mirrors kept now twin (m.assign (m.heap x).sessionId x)
      ((r.assign (m.heap x).sessionId (twin x)).note (twin x) .stored)
      (Function.update db (redisKey (m.heap x).sessionId) (some (serialize (m.heap x)))) := by
  have hkey : ∀ sid, redisKey sid = redisKey (m.heap x).sessionId ↔ sid = (m.heap x).sessionId :=
    fun sid => ⟨redisKey_inj _ _, fun hsid => by rw [hsid]⟩
  have hget : ∀ sid, (m.assign (m.heap x).sessionId x).table.get? sid =
      if sid = (m.heap x).sessionId then some x else m.table.get? sid := by
    intro sid
    rw [Process.table_assign, Dict.get?_set]
  refine ⟨h.below, h.heap, h.inj, h.used, fun sid y hy => ?_, fun sid y hy => ?_,
    fun sid y hy hlive => ?_, fun sid record hrecord => ?_, fun hk sid y hy hlive => ?_⟩
  · rw [hget] at hy
    by_cases hsid : sid = (m.heap x).sessionId
    · rw [if_pos hsid, Option.some.injEq] at hy
      rw [← hy]
      exact ⟨hx, hsid.symm⟩
    · rw [if_neg hsid] at hy
      exact h.table sid y hy
  · change (r.table.set _ _).get? sid = some y at hy
    rw [Dict.get?_set] at hy
    by_cases hsid : sid = (m.heap x).sessionId
    · rw [if_pos hsid, Option.some.injEq] at hy
      exact ⟨x, by rw [hget, if_pos hsid], hy.symm⟩
    · rw [if_neg hsid] at hy
      rcases h.cached sid y hy with ⟨z, hz, hyz⟩
      exact ⟨z, by rw [hget, if_neg hsid]; exact hz, hyz⟩
  · rw [hget] at hy
    change (r.table.set _ _).get? sid = some (twin y)
    rw [Dict.get?_set]
    by_cases hsid : sid = (m.heap x).sessionId
    · rw [if_pos hsid, Option.some.injEq] at hy
      rw [if_pos hsid, hy]
    · rw [if_neg hsid] at hy
      rw [if_neg hsid]
      exact h.live sid y hy hlive
  · by_cases hsid : sid = (m.heap x).sessionId
    · rw [hsid, Function.update_self, Option.some.injEq] at hrecord
      refine ⟨(m.heap x).rehydrated, by rw [← hrecord, deserialize_serialize], ?_⟩
      intro t _ hst
      exact ⟨x, by rw [hget, if_pos hsid], hst⟩
    · rw [Function.update_of_ne (fun hc => hsid ((hkey sid).mp hc))] at hrecord
      rcases h.records sid record hrecord with ⟨s', hs', hlater⟩
      refine ⟨s', hs', fun t ht hst => ?_⟩
      rcases hlater t ht hst with ⟨y, hy, hyt⟩
      exact ⟨y, by rw [hget, if_neg hsid]; exact hy, hyt⟩
  · rw [hget] at hy
    by_cases hsid : sid = (m.heap x).sessionId
    · rw [hsid, Function.update_self, Option.isSome_some]
    · rw [if_neg hsid] at hy
      rw [Function.update_of_ne (fun hc => hsid ((hkey sid).mp hc))]
      exact h.stored hk sid y hy hlive

/-- Both close a session that is in their tables, and take it out of them; its record
    goes. -/
theorem close {sid : Bytes} {x : Ref} (h : Mirrors kept now twin m r db)
    (hx : m.table.get? sid = some x) :
    Mirrors kept now twin ((m.change x Session.zeroize).drop sid)
      ((r.change (twin x) Session.zeroize).drop sid)
      (Function.update db (redisKey sid) none) := by
  have hlt := (h.table sid x hx).1
  -- The object of another id is another object.
  have hother : ∀ sid' y, sid' ≠ sid → m.table.get? sid' = some y → y ≠ x := by
    intro sid' y hsid hy hyx
    have hid := (h.table sid' y hy).2
    rw [hyx, (h.table sid x hx).2] at hid
    exact hsid hid.symm
  have hget : ∀ sid' y, ((m.change x Session.zeroize).drop sid).table.get? sid' = some y →
      sid' ≠ sid ∧ m.table.get? sid' = some y := by
    intro sid' y hy
    rw [Process.table_drop, Process.table_change, Dict.get?_erase] at hy
    by_cases hsid : sid' = sid
    · rw [if_pos hsid] at hy
      exact absurd hy (by simp)
    · rw [if_neg hsid] at hy
      exact ⟨hsid, hy⟩
  have hheap : ∀ sid' y, sid' ≠ sid → m.table.get? sid' = some y →
      ((m.change x Session.zeroize).drop sid).heap y = m.heap y := fun sid' y hsid hy =>
    Process.heap_change_of_ne m x y _ (hother sid' y hsid hy)
  have hkey : ∀ sid', sid' ≠ sid → redisKey sid' ≠ redisKey sid :=
    fun sid' hsid hc => hsid (redisKey_inj _ _ hc)
  refine ⟨h.below, fun y hy => ?_, h.inj, fun y hy => ?_, fun sid' y hy => ?_,
    fun sid' y hy => ?_, fun sid' y hy hlive => ?_, fun sid' record hrecord => ?_,
    fun hk sid' y hy hlive => ?_⟩
  · change (r.change (twin x) Session.zeroize).heap (twin y) = (m.change x Session.zeroize).heap y
    by_cases hyx : y = x
    · rw [hyx, Process.heap_change_self, Process.heap_change_self, h.heap x hlt]
    · rw [Process.heap_change_of_ne r _ _ _ fun hc => hyx (h.inj y x hy hlt hc),
        Process.heap_change_of_ne m x y _ hyx]
      exact h.heap y hy
  · change ((m.change x Session.zeroize).heap y).lastUsedAt ≤ now
    by_cases hyx : y = x
    · rw [hyx, Process.heap_change_self]
      exact h.used x hlt
    · rw [Process.heap_change_of_ne m x y _ hyx]
      exact h.used y hy
  · rcases hget sid' y hy with ⟨hsid, hy'⟩
    rw [hheap sid' y hsid hy']
    exact h.table sid' y hy'
  · rw [Process.table_drop, Process.table_change, Dict.get?_erase] at hy ⊢
    by_cases hsid : sid' = sid
    · rw [if_pos hsid] at hy
      exact absurd hy (by simp)
    · rw [if_neg hsid] at hy ⊢
      exact h.cached sid' y hy
  · rcases hget sid' y hy with ⟨hsid, hy'⟩
    rw [hheap sid' y hsid hy'] at hlive
    rw [Process.table_drop, Process.table_change, Dict.get?_erase, if_neg hsid]
    exact h.live sid' y hy' hlive
  · by_cases hsid : sid' = sid
    · rw [hsid, Function.update_self] at hrecord
      exact absurd hrecord (by simp)
    · rw [Function.update_of_ne (hkey sid' hsid)] at hrecord
      rcases h.records sid' record hrecord with ⟨s', hs', hlater⟩
      refine ⟨s', hs', fun t ht hst => ?_⟩
      rcases hlater t ht hst with ⟨y, hy, hyt⟩
      refine ⟨y, ?_, ?_⟩
      · rw [Process.table_drop, Process.table_change, Dict.get?_erase, if_neg hsid]
        exact hy
      · rw [hheap sid' y hsid hy]
        exact hyt
  · rcases hget sid' y hy with ⟨hsid, hy'⟩
    rw [hheap sid' y hsid hy'] at hlive
    rw [Function.update_of_ne (hkey sid' hsid)]
    exact h.stored hk sid' y hy' hlive

end Mirrors

/-! ## Running the operations -/

variable {now : ℚ} {p : Process} {db : String → Option Record}

/-- The session under an id, if it is there and not over. -/
def Process.liveRef (p : Process) (now : ℚ) (sid : Bytes) : Option Ref :=
  (p.table.get? sid).filter fun r => !(p.heap r).isExpired now

theorem Process.liveRef_eq_some_iff {sid : Bytes} {x : Ref} :
    p.liveRef now sid = some x ↔
      p.table.get? sid = some x ∧ (p.heap x).isExpired now = false := by
  unfold Process.liveRef
  rw [Option.filter_eq_some_iff]
  simp

theorem Process.liveRef_eq_none_iff {sid : Bytes} :
    p.liveRef now sid = none ↔
      ∀ x, p.table.get? sid = some x → (p.heap x).isExpired now = true := by
  unfold Process.liveRef
  rw [Option.filter_eq_none_iff]
  simp

section

variable {α : Type} {sid : Bytes} {r : Ref}

theorem tableGet_solo (f : Option Ref → Task α) :
    (tableGet sid >>= f).solo RedisCall.exec now p db =
      (f (p.table.get? sid)).solo RedisCall.exec now p db := rfl

theorem isExpired_solo (f : Bool → Task α) :
    (Task.isExpired r >>= f).solo RedisCall.exec now p db =
      (f ((p.heap r).isExpired now)).solo RedisCall.exec now p db := rfl

theorem read_solo (f : Session → Task α) :
    (Task.read r >>= f).solo RedisCall.exec now p db =
      (f (p.heap r)).solo RedisCall.exec now p db := rfl

theorem change_solo (g : Session → Session) (f : Unit → Task α) :
    (Task.change r g >>= f).solo RedisCall.exec now p db =
      (f ()).solo RedisCall.exec now (p.change r g) db := rfl

theorem drop_solo (f : Unit → Task α) :
    (Coop.modify (Process.drop sid) >>= f).solo RedisCall.exec now p db =
      (f ()).solo RedisCall.exec now (p.drop sid) db := rfl

theorem alloc_solo (session : Session) (kind : NoteKind) (f : Ref → Task α) :
    (Task.alloc session kind >>= f).solo RedisCall.exec now p db =
      (f p.next).solo RedisCall.exec now (p.alloc session kind) db := rfl

theorem get_solo (name : String) (f : Option Record → Task α) :
    (RedisStore.get name >>= f).solo RedisCall.exec now p db =
      (f (db name)).solo RedisCall.exec now p db := rfl

theorem del_solo (name : String) (f : ℕ → Task α) :
    (RedisStore.del name >>= f).solo RedisCall.exec now p db =
      (f (if (db name).isSome then 1 else 0)).solo RedisCall.exec now p
        (Function.update db name none) := rfl

theorem put_solo_memory : (InMemory.put r).solo RedisCall.exec now p db =
    some (p.assign (p.heap r).sessionId r, db, .ok ()) := rfl

theorem put_solo_redis (floor : ℤ) : (RedisStore.put floor r).solo RedisCall.exec now p db =
    some ((p.assign (p.heap r).sessionId r).note r .stored, Function.update db
      (redisKey (p.heap r).sessionId) (some (serialize (p.heap r))), .ok ()) := rfl

/-- What a task under a free lock leaves, once the lock is free again. -/
theorem withLock_solo {body : Task α} {p' : Process} {db' : String → Option Record} {a : α}
    (hfree : p.locked = false)
    (h : body.solo RedisCall.exec now (p.setLocked true) db = some (p', db', .ok a)) :
    (Task.withLock body).solo RedisCall.exec now p db =
      some (p'.setLocked false, db', .ok a) := by
  unfold Task.withLock
  rw [Coop.solo_wait, if_pos (by rw [hfree]; rfl)]
  change (body.tryFinally (Coop.modify (Process.setLocked false))).solo RedisCall.exec now
    (p.setLocked true) db = _
  rw [Coop.solo_tryFinally _ h]
  rfl

end

theorem create_solo_memory (ttl maxLife : ℤ) (material : SessionMaterial)
    (hfree : p.locked = false) :
    ((⟨ttl, maxLife, InMemory.store⟩ : SessionManager).create material).solo RedisCall.exec now p
      db = some ((((p.alloc (.ofMaterial material ttl maxLife now) .created).setLocked true).assign
        material.sessionId p.next).setLocked false, db, .ok p.next) := by
  change ((Task.withLock (InMemory.put p.next)).bind _).solo RedisCall.exec now
    (p.alloc (.ofMaterial material ttl maxLife now) .created) db = _
  have hself : ((p.alloc (.ofMaterial material ttl maxLife now) .created).setLocked true).heap
      p.next = .ofMaterial material ttl maxLife now :=
    p.heap_alloc_self (.ofMaterial material ttl maxLife now) .created
  have hfree' : (p.alloc (.ofMaterial material ttl maxLife now) .created).locked = false := hfree
  rw [Coop.solo_bind _ (withLock_solo hfree' put_solo_memory), hself]
  rfl

theorem create_solo_redis (ttl maxLife floor : ℤ) (material : SessionMaterial)
    (hfree : p.locked = false) :
    ((⟨ttl, maxLife, RedisStore.store floor⟩ : SessionManager).create material).solo
      RedisCall.exec now p db =
        some (((((p.alloc (.ofMaterial material ttl maxLife now) .created).setLocked true).assign
          material.sessionId p.next).note p.next .stored).setLocked false, Function.update db
            (redisKey material.sessionId)
              (some (serialize (.ofMaterial material ttl maxLife now))), .ok p.next) := by
  change ((Task.withLock (RedisStore.put floor p.next)).bind _).solo RedisCall.exec now
    (p.alloc (.ofMaterial material ttl maxLife now) .created) db = _
  have hself : ((p.alloc (.ofMaterial material ttl maxLife now) .created).setLocked true).heap
      p.next = .ofMaterial material ttl maxLife now :=
    p.heap_alloc_self (.ofMaterial material ttl maxLife now) .created
  have hfree' : (p.alloc (.ofMaterial material ttl maxLife now) .created).locked = false := hfree
  rw [Coop.solo_bind _ (withLock_solo hfree' (put_solo_redis floor)), hself]
  rfl

theorem lookup_solo_memory (sid : Bytes) :
    (InMemory.lookup sid).solo RedisCall.exec now p db =
      some (p, db, .ok (p.liveRef now sid)) := by
  unfold InMemory.lookup Process.liveRef
  rw [tableGet_solo]
  cases p.table.get? sid with
  | none => rfl
  | some r =>
      dsimp only
      rw [isExpired_solo, Option.filter_some]
      cases (p.heap r).isExpired now with
      | true => rfl
      | false => rfl

theorem find_solo_memory (ttl maxLife : ℤ) (sid : Bytes) :
    ((⟨ttl, maxLife, InMemory.store⟩ : SessionManager).find sid).solo RedisCall.exec now p db =
      some (p, db, .ok (p.liveRef now sid)) := by
  unfold SessionManager.find
  change ((InMemory.lookup sid).bind _).solo RedisCall.exec now p db = _
  rw [Coop.solo_bind _ (lookup_solo_memory sid)]
  cases hfound : p.liveRef now sid with
  | some r => rfl
  | none =>
      change (InMemory.lookup sid).solo RedisCall.exec now p db = _
      rw [lookup_solo_memory, hfound]

namespace Mirrors

variable {kept : Prop} {twin : Ref → Ref} {m r : Process}

/-- A session that is over is not read back from Redis. -/
theorem fetch {sid : Bytes} (h : Mirrors kept now twin m r db) (hover : m.liveRef now sid = none) :
    ∃ r' db', (RedisStore.fetch sid).solo RedisCall.exec now r db = some (r', db', .ok none) ∧
      r'.locked = r.locked ∧ Mirrors kept now twin m r' db' := by
  rw [Process.liveRef_eq_none_iff] at hover
  unfold RedisStore.fetch
  rw [get_solo]
  cases hrecord : db (redisKey sid) with
  | none => exact ⟨r, db, rfl, rfl, h⟩
  | some blob =>
      rcases h.records sid blob hrecord with ⟨s, hs, hlater⟩
      -- What is in Redis alone is over.
      have hexpired : s.isExpired now = true := by
        by_contra hlive
        rw [Bool.not_eq_true] at hlive
        rcases hlater now le_rfl hlive with ⟨x, hx, hxlive⟩
        rw [hover x hx] at hxlive
        exact absurd hxlive (by simp)
      dsimp only
      rw [hs]
      change ∃ r' db', (Task.alloc s .hydrated >>= _).solo RedisCall.exec now r db =
        some (r', db', .ok none) ∧ r'.locked = r.locked ∧ Mirrors kept now twin m r' db'
      rw [alloc_solo, isExpired_solo, Process.heap_alloc_self, hexpired, if_pos rfl, del_solo]
      refine ⟨_, _, rfl, rfl, h.allocSpare.unrecord ?_⟩
      intro _ sid' x hsid hx
      rw [redisKey_inj _ _ hsid] at hx
      exact hover x hx

theorem lookup (h : Mirrors kept now twin m r db) (sid : Bytes) :
    ∃ r', (RedisStore.lookup sid).solo RedisCall.exec now r db =
        some (r', db, .ok ((m.liveRef now sid).map twin)) ∧
      r'.locked = r.locked ∧ Mirrors kept now twin m r' db ∧
      (m.liveRef now sid = none → r'.table.get? sid = none) := by
  unfold RedisStore.lookup
  rw [tableGet_solo]
  cases hcached : r.table.get? sid with
  | none =>
      have hnone : m.liveRef now sid = none := by
        rw [Process.liveRef_eq_none_iff]
        intro x hx
        by_contra hlive
        rw [h.live sid x hx (Bool.not_eq_true _ ▸ hlive)] at hcached
        exact absurd hcached (by simp)
      rw [hnone]
      exact ⟨r, rfl, rfl, h, fun _ => hcached⟩
  | some y =>
      rcases h.cached sid y hcached with ⟨x, hx, rfl⟩
      have hheap := h.heap x (h.table sid x hx).1
      dsimp only
      rw [isExpired_solo, hheap]
      cases hover : (m.heap x).isExpired now with
      | true =>
          have hnone : m.liveRef now sid = none := by
            rw [Process.liveRef_eq_none_iff]
            intro z hz
            rw [hx, Option.some.injEq] at hz
            rw [← hz]
            exact hover
          rw [hnone, if_pos rfl, drop_solo]
          refine ⟨r.drop sid, rfl, rfl, h.dropCached (Process.liveRef_eq_none_iff.mp hnone), ?_⟩
          intro _
          rw [Process.table_drop, Dict.get?_erase, if_pos rfl]
      | false =>
          have hsome : m.liveRef now sid = some x := Process.liveRef_eq_some_iff.mpr ⟨hx, hover⟩
          rw [hsome, if_neg (by simp)]
          exact ⟨r, rfl, rfl, h, fun hnone => absurd hnone (by simp)⟩

/-- **Looking a session up.** The server over Redis finds what the other one does. -/
theorem find (h : Mirrors kept now twin m r db) (ttl maxLife floor : ℤ) (sid : Bytes) :
    ∃ r' db', ((⟨ttl, maxLife, RedisStore.store floor⟩ : SessionManager).find sid).solo
        RedisCall.exec now r db = some (r', db', .ok ((m.liveRef now sid).map twin)) ∧
      r'.locked = r.locked ∧ Mirrors kept now twin m r' db' := by
  rcases h.lookup sid with ⟨r', hlookup, hlocked, hr', hgone⟩
  unfold SessionManager.find
  change ∃ r' db', ((RedisStore.lookup sid).bind _).solo RedisCall.exec now r db = _ ∧ _ ∧ _
  rw [Coop.solo_bind _ hlookup]
  cases hfound : m.liveRef now sid with
  | some x => exact ⟨r', db, rfl, hlocked, hr'⟩
  | none =>
      rcases hr'.fetch hfound with ⟨r'', db', hfetch, hlocked', hr''⟩
      refine ⟨r'', db', ?_, hlocked'.trans hlocked, hr''⟩
      change (RedisStore.hydrate sid).solo RedisCall.exec now r' db = some (r'', db', .ok none)
      unfold RedisStore.hydrate
      rw [tableGet_solo, hgone hfound]
      exact hfetch

theorem lookupAsync (h : Mirrors kept now twin m r db) (ttl maxLife floor : ℤ) (sid : Bytes) :
    ∃ r' db', ((⟨ttl, maxLife, RedisStore.store floor⟩ : SessionManager).lookupAsync sid).solo
        RedisCall.exec now r db = some (r', db', .ok ((m.liveRef now sid).map twin)) ∧
      r'.locked = r.locked ∧ Mirrors kept now twin m r' db' := by
  rcases h.find ttl maxLife floor sid with ⟨r', db', hfind, hlocked, hr'⟩
  refine ⟨r', db', ?_, hlocked, hr'⟩
  unfold SessionManager.lookupAsync
  change ((SessionManager.find _ sid).bind _).solo RedisCall.exec now r db = _
  rw [Coop.solo_bind _ hfind]
  cases hfound : m.liveRef now sid with
  | none => rfl
  | some x =>
      rcases Process.liveRef_eq_some_iff.mp hfound with ⟨hx, hlive⟩
      dsimp only [Option.map_some]
      rw [isExpired_solo, hr'.heap x (hr'.table sid x hx).1, hlive]
      rfl

end Mirrors

theorem lookupAsync_solo_memory (ttl maxLife : ℤ) (sid : Bytes) :
    ((⟨ttl, maxLife, InMemory.store⟩ : SessionManager).lookupAsync sid).solo RedisCall.exec now p
      db = some (p, db, .ok (p.liveRef now sid)) := by
  unfold SessionManager.lookupAsync
  change ((SessionManager.find _ sid).bind _).solo RedisCall.exec now p db = _
  rw [Coop.solo_bind _ (find_solo_memory ttl maxLife sid)]
  cases hfound : p.liveRef now sid with
  | none => rfl
  | some x =>
      dsimp only
      rw [isExpired_solo, (Process.liveRef_eq_some_iff.mp hfound).2]
      rfl

theorem delete_solo_memory (sid : Bytes) : (InMemory.delete sid).solo RedisCall.exec now p db =
    some (p.drop sid, db, .ok (p.table.get? sid).isSome) := rfl

theorem delete_solo_redis (sid : Bytes) : (RedisStore.delete sid).solo RedisCall.exec now p db =
    some (p.drop sid, Function.update db (redisKey sid) none,
      .ok (db (redisKey sid)).isSome) := by
  unfold RedisStore.delete
  rw [drop_solo, del_solo]
  cases db (redisKey sid) with
  | none => rfl
  | some blob => rfl

section

variable {manager : SessionManager} {sid : Bytes} {p' p'' : Process}
  {db' db'' : String → Option Record}

theorem terminate_solo_none (hfree : p.locked = false)
    (hfind : (manager.find sid).solo RedisCall.exec now (p.setLocked true) db =
      some (p', db', .ok none)) :
    (manager.terminate sid).solo RedisCall.exec now p db =
      some (p'.setLocked false, db', .ok false) := by
  unfold SessionManager.terminate
  refine withLock_solo hfree ?_
  change ((manager.find sid).bind _).solo RedisCall.exec now (p.setLocked true) db = _
  rw [Coop.solo_bind _ hfind]
  rfl

theorem terminate_solo_some {x : Ref} {removed : Bool} (hfree : p.locked = false)
    (hfind : (manager.find sid).solo RedisCall.exec now (p.setLocked true) db =
      some (p', db', .ok (some x)))
    (hdelete : (manager.store.delete sid).solo RedisCall.exec now (p'.change x Session.zeroize)
      db' = some (p'', db'', .ok removed)) :
    (manager.terminate sid).solo RedisCall.exec now p db =
      some (p''.setLocked false, db'', .ok removed) := by
  unfold SessionManager.terminate
  refine withLock_solo hfree ?_
  change ((manager.find sid).bind _).solo RedisCall.exec now (p.setLocked true) db = _
  rw [Coop.solo_bind _ hfind]
  dsimp only
  rw [change_solo]
  exact hdelete

end

/-- Reaping leaves the sessions that are live. -/
theorem reapKeys_solo (now : ℚ) (db : String → Option Record) (keys : List Bytes)
    (hnodup : keys.Nodup)
    (hkeys : ∀ sid ∈ keys, (p.table.get? sid).isSome = true) (n : ℕ) :
    ∃ p' n', (reapKeys keys n).solo RedisCall.exec now p db = some (p', db, .ok n') ∧
      p'.heap = p.heap ∧ p'.next = p.next ∧ p'.locked = p.locked ∧
      ∀ sid, p'.table.get? sid = if sid ∈ keys then p.liveRef now sid else p.table.get? sid := by
  induction keys generalizing p n with
  | nil => exact ⟨p, n, rfl, rfl, rfl, rfl, fun sid => by simp⟩
  | cons key rest ih =>
      rw [List.nodup_cons] at hnodup
      rcases Option.isSome_iff_exists.mp (hkeys key List.mem_cons_self) with ⟨r, hr⟩
      unfold reapKeys
      rw [tableGet_solo, hr]
      dsimp only
      rw [isExpired_solo]
      have hlive : p.liveRef now key = if (p.heap r).isExpired now then none else some r := by
        unfold Process.liveRef
        rw [hr, Option.filter_some]
        cases (p.heap r).isExpired now with
        | true => rfl
        | false => rfl
      cases hover : (p.heap r).isExpired now with
      | true =>
          rw [if_pos rfl, drop_solo]
          have hrest : ∀ sid ∈ rest, ((p.drop key).table.get? sid).isSome = true := by
            intro sid hsid
            have hne : sid ≠ key := fun hc => hnodup.1 (by rw [← hc]; exact hsid)
            rw [Process.table_drop, Dict.get?_erase, if_neg hne]
            exact hkeys sid (List.mem_cons_of_mem _ hsid)
          rcases ih hnodup.2 hrest (n + 1) with ⟨p', n', hrun, hheap, hnext, hlocked, htable⟩
          refine ⟨p', n', hrun, hheap, hnext, hlocked, fun sid => ?_⟩
          rw [htable sid]
          by_cases hsid : sid = key
          · rw [if_neg (by rw [hsid]; exact hnodup.1), hsid, if_pos List.mem_cons_self, hlive,
              hover, if_pos rfl, Process.table_drop, Dict.get?_erase, if_pos rfl]
          · have hsame : (p.drop key).liveRef now sid = p.liveRef now sid := by
              unfold Process.liveRef
              rw [Process.table_drop, Dict.get?_erase, if_neg hsid]
              rfl
            rw [hsame, Process.table_drop, Dict.get?_erase, if_neg hsid]
            exact if_congr (by rw [List.mem_cons, or_iff_right hsid]) rfl rfl
      | false =>
          rw [if_neg (by simp)]
          rcases ih hnodup.2 (fun sid hsid => hkeys sid (List.mem_cons_of_mem _ hsid)) n with
            ⟨p', n', hrun, hheap, hnext, hlocked, htable⟩
          refine ⟨p', n', hrun, hheap, hnext, hlocked, fun sid => ?_⟩
          rw [htable sid]
          by_cases hsid : sid = key
          · rw [if_neg (by rw [hsid]; exact hnodup.1), hsid, if_pos List.mem_cons_self, hlive,
              hover, if_neg (by simp), hr]
          · exact if_congr (by rw [List.mem_cons, or_iff_right hsid]) rfl rfl

theorem reapTable_solo : ∃ p' n, reapTable.solo RedisCall.exec now p db = some (p', db, .ok n) ∧
    p'.heap = p.heap ∧ p'.next = p.next ∧ p'.locked = p.locked ∧
      ∀ sid, p'.table.get? sid = p.liveRef now sid := by
  rcases reapKeys_solo now db (p.table.entries.map Prod.fst) p.table.nodup
    (fun sid hsid => (p.table.mem_keys_iff sid).mp hsid) 0 with
    ⟨p', n, hrun, hheap, hnext, hlocked, htable⟩
  refine ⟨p', n, hrun, hheap, hnext, hlocked, fun sid => ?_⟩
  rw [htable sid]
  by_cases hsid : sid ∈ p.table.entries.map Prod.fst
  · rw [if_pos hsid]
  · have hnone : p.table.get? sid = none := by
      rw [Dict.mem_keys_iff, Option.not_isSome_iff_eq_none] at hsid
      exact hsid
    rw [if_neg hsid]
    unfold Process.liveRef
    rw [hnone]
    rfl

namespace Mirrors

variable {kept : Prop} {twin : Ref → Ref} {m r m' r' : Process}

/-- Both drop what is over. -/
theorem reap (h : Mirrors kept now twin m r db) (hm : m'.heap = m.heap) (hmn : m'.next = m.next)
    (hmt : ∀ sid, m'.table.get? sid = m.liveRef now sid) (hr : r'.heap = r.heap)
    (hrn : r'.next = r.next) (hrt : ∀ sid, r'.table.get? sid = r.liveRef now sid) :
    Mirrors kept now twin m' r' db := by
  refine ⟨fun x hx => ?_, fun x hx => ?_, fun x y hx hy => ?_, fun x hx => ?_,
    fun sid x hx => ?_, fun sid y hy => ?_, fun sid x hx hlive => ?_, fun sid record hrecord => ?_,
    fun hk sid x hx hlive => ?_⟩
  · rw [hmn] at hx
    rw [hrn]
    exact h.below x hx
  · rw [hmn] at hx
    rw [hr, hm]
    exact h.heap x hx
  · rw [hmn] at hx hy
    exact h.inj x y hx hy
  · rw [hmn] at hx
    rw [hm]
    exact h.used x hx
  · rw [hmt, Process.liveRef_eq_some_iff] at hx
    rw [hmn, hm]
    exact h.table sid x hx.1
  · rw [hrt, Process.liveRef_eq_some_iff] at hy
    rcases h.cached sid y hy.1 with ⟨x, hx, rfl⟩
    refine ⟨x, ?_, rfl⟩
    rw [hmt, Process.liveRef_eq_some_iff, ← h.heap x (h.table sid x hx).1]
    exact ⟨hx, hy.2⟩
  · rw [hmt, Process.liveRef_eq_some_iff] at hx
    rw [hrt, Process.liveRef_eq_some_iff, h.heap x (h.table sid x hx.1).1]
    exact ⟨h.live sid x hx.1 hx.2, hx.2⟩
  · rcases h.records sid record hrecord with ⟨s, hs, hlater⟩
    refine ⟨s, hs, fun t ht hst => ?_⟩
    rcases hlater t ht hst with ⟨x, hx, hxt⟩
    have hnow : (m.heap x).isExpired now = false := by
      by_contra hover
      rw [Bool.not_eq_false] at hover
      rw [(m.heap x).isExpired_mono now t ht hover] at hxt
      exact absurd hxt (by simp)
    refine ⟨x, ?_, by rw [hm]; exact hxt⟩
    rw [hmt, Process.liveRef_eq_some_iff]
    exact ⟨hx, hnow⟩
  · rw [hmt, Process.liveRef_eq_some_iff] at hx
    exact h.stored hk sid x hx.1 hx.2

end Mirrors

/-- Results that are the same, with objects that stand for each other. -/
inductive Paired (kept : Prop) (twin : Ref → Ref) (n : Ref) :
    Except Exc Result → Except Exc Result → Prop where
  | raised (e : Exc) : Paired kept twin n (.error e) (.error e)
  | created (x : Ref) (hx : x < n) :
      Paired kept twin n (.ok (.created x)) (.ok (.created (twin x)))
  | found (o : Option Ref) (ho : ∀ x, o = some x → x < n) :
      Paired kept twin n (.ok (.found o)) (.ok (.found (o.map twin)))
  | terminated (b c : Bool) (hbc : kept → b = c) :
      Paired kept twin n (.ok (.terminated b)) (.ok (.terminated c))
  | reaped (k l : ℕ) : Paired kept twin n (.ok (.reaped k)) (.ok (.reaped l))
  | accepted (x : Ref) (hx : x < n) :
      Paired kept twin n (.ok (.accepted x)) (.ok (.accepted (twin x)))

/-- How an operation ends over the two stores: in processes that mirror each other, with
    the lock free, the old objects where they were, and results that are the same. -/
inductive EndsAlike (kept : Prop) (now : ℚ) (twin : Ref → Ref) (m : Process) :
    Option (Process × (String → Option Record) × Except Exc Result) →
      Option (Process × (String → Option Record) × Except Exc Result) → Prop where
  | intro (m' r' : Process) (d' db' : String → Option Record) (twin' : Ref → Ref)
      (a b : Except Exc Result) (hmirrors : Mirrors kept now twin' m' r' db')
      (hm : m'.locked = false) (hr : r'.locked = false) (hgrows : m.next ≤ m'.next)
      (hold : ∀ x, x < m.next → twin' x = twin x) (hpaired : Paired kept twin' m'.next a b) :
      EndsAlike kept now twin m (some (m', d', a)) (some (r', db', b))

/-- How a sealing ends over the two stores: both seal the same, and nobody else sees it. -/
inductive SealsAlike (kept : Prop) (now : ℚ) (twin : Ref → Ref) (m r : Process)
    (d db : String → Option Record) :
    Option (Process × (String → Option Record) × Except Exc Bytes) →
      Option (Process × (String → Option Record) × Except Exc Bytes) → Prop where
  | intro (m' r' : Process) (envelope : Except Exc Bytes)
      (hmirrors : Mirrors kept now twin m' r' db) (hm : m'.locked = m.locked)
      (hr : r'.locked = r.locked) (hnext : m'.next = m.next) :
      SealsAlike kept now twin m r d db (some (m', d, envelope)) (some (r', db, envelope))

/-- How a decryption ends over the two stores. -/
inductive OpensAlike {T : Type} (kept : Prop) (now : ℚ) (twin : Ref → Ref) (n : Ref) :
    Option (Process × (String → Option Record) × Except Exc (Ref × T)) →
      Option (Process × (String → Option Record) × Except Exc (Ref × T)) → Prop where
  | refused (m' r' : Process) (d' db' : String → Option Record) (e : Exc)
      (hmirrors : Mirrors kept now twin m' r' db') (hm : m'.locked = false)
      (hr : r'.locked = false) (hnext : m'.next = n) :
      OpensAlike kept now twin n (some (m', d', .error e)) (some (r', db', .error e))
  | opened (m' r' : Process) (d' db' : String → Option Record) (x : Ref) (value : T)
      (hmirrors : Mirrors kept now twin m' r' db') (hm : m'.locked = false)
      (hr : r'.locked = false) (hnext : m'.next = n) (hx : x < n) :
      OpensAlike kept now twin n (some (m', d', .ok (x, value)))
        (some (r', db', .ok (twin x, value)))

theorem Session.isExpired_eq_false_iff {s : Session} {t : ℚ} : s.isExpired t = false ↔
    s.closed = false ∧ t - s.lastUsedAt ≤ s.ttlSeconds ∧
      t - s.createdAt ≤ s.maxLifetimeSeconds := by
  unfold Session.isExpired
  by_cases hclosed : s.closed = true
  · rw [if_pos hclosed, hclosed]
    simp
  · by_cases hidle : (s.ttlSeconds : ℚ) < t - s.lastUsedAt
    · rw [if_neg hclosed, if_pos hidle]
      exact ⟨fun h => absurd h (by simp), fun h => absurd hidle (not_lt.mpr h.2.1)⟩
    · rw [if_neg hclosed, if_neg hidle, decide_eq_false_iff_not, not_lt]
      rw [Bool.not_eq_true] at hclosed
      rw [not_lt] at hidle
      exact ⟨fun hage => ⟨hclosed, hidle, hage⟩, fun h => h.2.2⟩

/-- A session that is used again is live for longer. -/
theorem Session.isExpired_touch {s : Session} {t : ℚ} (hused : s.lastUsedAt ≤ now)
    (h : s.isExpired t = false) : (s.touch now).isExpired t = false := by
  rw [Session.isExpired_eq_false_iff] at h ⊢
  rcases h with ⟨hclosed, hidle, hage⟩
  refine ⟨hclosed, ?_, hage⟩
  change t - now ≤ s.ttlSeconds
  linarith

namespace Mirrors

variable {kept : Prop} {twin : Ref → Ref} {m r : Process} {d : String → Option Record}

section

variable (aead : Aead) (ttl maxLife floor : ℤ) (h : Mirrors kept now twin m r db)
  (hm : m.locked = false) (hr : r.locked = false)

include h hm hr

theorem lookup_endsAlike (sid : Bytes) : EndsAlike kept now twin m
    (((Op.lookupAsync sid).task aead ⟨ttl, maxLife, InMemory.store⟩).solo RedisCall.exec now m d)
    (((Op.lookupAsync sid).task aead ⟨ttl, maxLife, RedisStore.store floor⟩).solo
      RedisCall.exec now r db) := by
  rcases h.lookupAsync ttl maxLife floor sid with ⟨r', db', hrun, hlocked, hr'⟩
  change EndsAlike kept now twin m
    (((SessionManager.lookupAsync _ sid).bind _).solo RedisCall.exec now m d)
    (((SessionManager.lookupAsync _ sid).bind _).solo RedisCall.exec now r db)
  rw [Coop.solo_bind _ (lookupAsync_solo_memory ttl maxLife sid), Coop.solo_bind _ hrun]
  exact .intro m r' d db' twin _ _ hr' hm (hlocked.trans hr) le_rfl (fun _ _ => rfl)
    (.found _ fun x hx => (hr'.table sid x (Process.liveRef_eq_some_iff.mp hx).1).1)

theorem reap_endsAlike : EndsAlike kept now twin m
    ((Op.reapExpired.task aead ⟨ttl, maxLife, InMemory.store⟩).solo RedisCall.exec now m d)
    ((Op.reapExpired.task aead ⟨ttl, maxLife, RedisStore.store floor⟩).solo
      RedisCall.exec now r db) := by
  rcases (reapTable_solo : ∃ p' n, reapTable.solo RedisCall.exec now (m.setLocked true) d =
    some (p', d, .ok n) ∧ _) with ⟨m', k, hmrun, hmheap, hmnext, _, hmtable⟩
  rcases (reapTable_solo : ∃ p' n, reapTable.solo RedisCall.exec now (r.setLocked true) db =
    some (p', db, .ok n) ∧ _) with ⟨r', l, hrrun, hrheap, hrnext, _, hrtable⟩
  have hreaped := (h.setLocked (b := true) (c := true)).reap hmheap hmnext hmtable hrheap hrnext
    hrtable
  change EndsAlike kept now twin m
    (((Task.withLock reapTable).bind _).solo RedisCall.exec now m d)
    (((Task.withLock reapTable).bind _).solo RedisCall.exec now r db)
  rw [Coop.solo_bind _ (withLock_solo hm hmrun), Coop.solo_bind _ (withLock_solo hr hrrun)]
  exact .intro (m'.setLocked false) (r'.setLocked false) d db twin _ _ hreaped.setLocked rfl rfl
    (le_of_eq hmnext.symm) (fun _ _ => rfl) (.reaped k l)

theorem create_endsAlike (material : SessionMaterial) : EndsAlike kept now twin m
    (((Op.create material).task aead ⟨ttl, maxLife, InMemory.store⟩).solo RedisCall.exec now m d)
    (((Op.create material).task aead ⟨ttl, maxLife, RedisStore.store floor⟩).solo
      RedisCall.exec now r db) := by
  have hmade := (h.alloc (.ofMaterial material ttl maxLife now) .created le_rfl).setLocked
    (b := true) (c := true)
  have hlt : m.next <
      ((m.alloc (.ofMaterial material ttl maxLife now) .created).setLocked true).next :=
    Nat.lt_succ_self _
  have hself : ((m.alloc (.ofMaterial material ttl maxLife now) .created).setLocked true).heap
      m.next = .ofMaterial material ttl maxLife now :=
    m.heap_alloc_self (.ofMaterial material ttl maxLife now) .created
  have hput := (hmade.put hlt).setLocked (b := false) (c := false)
  have hcreated : Paired kept (Function.update twin m.next r.next)
    ((m.alloc (.ofMaterial material ttl maxLife now) .created).setLocked true).next _ _ :=
      .created m.next hlt
  rw [hself, Function.update_self] at hput
  rw [Function.update_self] at hcreated
  change EndsAlike kept now twin m
    (((SessionManager.create _ material).bind _).solo RedisCall.exec now m d)
    (((SessionManager.create _ material).bind _).solo RedisCall.exec now r db)
  rw [Coop.solo_bind _ (create_solo_memory ttl maxLife material hm),
    Coop.solo_bind _ (create_solo_redis ttl maxLife floor material hr)]
  exact .intro _ _ d _ _ _ _ hput rfl rfl (Nat.le_succ _)
    (fun x hx => Function.update_of_ne (Nat.ne_of_lt hx) _ _) hcreated

theorem terminate_endsAlike (sid : Bytes) : EndsAlike kept now twin m
    (((Op.terminate sid).task aead ⟨ttl, maxLife, InMemory.store⟩).solo RedisCall.exec now m d)
    (((Op.terminate sid).task aead ⟨ttl, maxLife, RedisStore.store floor⟩).solo
      RedisCall.exec now r db) := by
  rcases (h.setLocked (b := true) (c := true)).find ttl maxLife floor sid with
    ⟨r', db', hfind, _, hr'⟩
  change EndsAlike kept now twin m
    (((SessionManager.terminate _ sid).bind _).solo RedisCall.exec now m d)
    (((SessionManager.terminate _ sid).bind _).solo RedisCall.exec now r db)
  have hmfind : ((⟨ttl, maxLife, InMemory.store⟩ : SessionManager).find sid).solo RedisCall.exec
    now (m.setLocked true) d = _ := find_solo_memory ttl maxLife sid
  cases hfound : (m.setLocked true).liveRef now sid with
  | none =>
      rw [hfound] at hfind hmfind
      rw [Coop.solo_bind _ (terminate_solo_none hm hmfind),
        Coop.solo_bind _ (terminate_solo_none hr hfind)]
      exact .intro _ _ d db' twin _ _ (hr'.setLocked (b := false) (c := false)) rfl rfl le_rfl
        (fun _ _ => rfl) (.terminated false false fun _ => rfl)
  | some x =>
      rw [hfound] at hfind hmfind
      rcases Process.liveRef_eq_some_iff.mp hfound with ⟨hx, hlive⟩
      have hclosed := (hr'.close hx).setLocked (b := false) (c := false)
      rw [Coop.solo_bind _ (terminate_solo_some hm hmfind (delete_solo_memory sid)),
        Coop.solo_bind _ (terminate_solo_some hr hfind (delete_solo_redis sid))]
      refine .intro _ _ d _ twin _ _ hclosed rfl rfl le_rfl (fun _ _ => rfl)
        (.terminated _ _ fun hk => ?_)
      -- The session was in the table, and its record in Redis.
      rw [hr'.stored hk sid x hx hlive, Process.table_change, hx]
      rfl

theorem opensAlike {T : Type} (request : Request) (schema : Bytes → Except String T) :
    OpensAlike kept now twin m.next
      ((decryptRequest aead request ⟨ttl, maxLife, InMemory.store⟩ schema).solo RedisCall.exec now
        m d)
      ((decryptRequest aead request ⟨ttl, maxLife, RedisStore.store floor⟩ schema).solo
        RedisCall.exec now r db) := by
  unfold decryptRequest
  dsimp only
  by_cases hshort : request.body.length < 41
  · rw [if_pos hshort, if_pos hshort]
    exact .refused m r d db _ h hm hr rfl
  rw [if_neg hshort, if_neg hshort]
  cases unpackEnvelope request.body with
  | error e => exact .refused m r d db _ h hm hr rfl
  | ok env =>
      rcases h.lookupAsync ttl maxLife floor env.sessionId with ⟨r', db', hrun, hlocked, hr'⟩
      rw [hr] at hlocked
      change OpensAlike kept now twin m.next
        (((SessionManager.lookupAsync _ env.sessionId).bind _).solo RedisCall.exec now m d)
        (((SessionManager.lookupAsync _ env.sessionId).bind _).solo RedisCall.exec now r db)
      rw [Coop.solo_bind _ (lookupAsync_solo_memory ttl maxLife env.sessionId),
        Coop.solo_bind _ hrun]
      cases hfound : m.liveRef now env.sessionId with
      | none => exact .refused m r' d db' _ hr' hm hlocked rfl
      | some x =>
          rcases Process.liveRef_eq_some_iff.mp hfound with ⟨hx, hlive⟩
          have hlt := (hr'.table env.sessionId x hx).1
          dsimp only [Option.map_some]
          rw [read_solo, read_solo, hr'.heap x hlt]
          cases (m.heap x).replay.checkAndAdvance env.counter with
          | error e => exact .refused m r' d db' _ hr' hm hlocked rfl
          | ok window =>
              dsimp only
              rw [change_solo, change_solo]
              -- The window has moved on in both.
              have hadvanced := hr'.change (f := fun s => s.advance window) hlt rfl
                (hr'.used x hlt) (fun _ _ => id) id
              cases openEnvelope aead (m.heap x).c2s (m.heap x).sessionId request.method
                request.path request.body with
              | error e =>
                  cases e <;> exact .refused _ _ d db' _ hadvanced hm hlocked rfl
              | ok opened =>
                  rcases opened with ⟨env', plaintext⟩
                  dsimp only
                  cases schema plaintext with
                  | error message => exact .refused _ _ d db' _ hadvanced hm hlocked rfl
                  | ok parsed =>
                      have hused := hadvanced.change (f := fun s => s.touch now) hlt rfl le_rfl
                        (fun t ht => Session.isExpired_touch (hadvanced.used x hlt)) (fun _ => by
                          rw [Process.heap_change_self]
                          exact hlive)
                      have hput := hused.put hlt
                      change OpensAlike kept now twin m.next
                        (((InMemory.put x).bind _).solo RedisCall.exec now
                          ((m.change x fun s => s.advance window).change x fun s => s.touch now) d)
                        (((RedisStore.put floor (twin x)).bind _).solo RedisCall.exec now
                          ((r'.change (twin x) fun s => s.advance window).change (twin x)
                            fun s => s.touch now) db')
                      rw [Coop.solo_bind _ put_solo_memory,
                        Coop.solo_bind _ (put_solo_redis floor), hused.heap x hlt]
                      exact .opened _ _ d _ x parsed hput hm hlocked rfl hlt

theorem decrypt_endsAlike (request : Request) (schema : Bytes → Except String Unit) :
    EndsAlike kept now twin m
      (((Op.decryptRequest request schema).task aead ⟨ttl, maxLife, InMemory.store⟩).solo
        RedisCall.exec now m d)
      (((Op.decryptRequest request schema).task aead ⟨ttl, maxLife, RedisStore.store floor⟩).solo
        RedisCall.exec now r db) := by
  change EndsAlike kept now twin m
    (((decryptRequest aead request _ schema).bind _).solo RedisCall.exec now m d)
    (((decryptRequest aead request _ schema).bind _).solo RedisCall.exec now r db)
  have hopens := h.opensAlike aead ttl maxLife floor hm hr (d := d) request schema
  generalize hma : (decryptRequest aead request ⟨ttl, maxLife, InMemory.store⟩ schema).solo
    RedisCall.exec now m d = a at hopens
  generalize hrb : (decryptRequest aead request ⟨ttl, maxLife, RedisStore.store floor⟩
    schema).solo RedisCall.exec now r db = b at hopens
  cases hopens with
  | refused m' r' d' db' e hmirrors hm' hr' hnext =>
      rw [Coop.solo_bind_fail _ hma, Coop.solo_bind_fail _ hrb]
      exact .intro m' r' d' db' twin _ _ hmirrors hm' hr' (le_of_eq hnext.symm) (fun _ _ => rfl)
        (.raised e)
  | opened m' r' d' db' x value hmirrors hm' hr' hnext hx =>
      rw [Coop.solo_bind _ hma, Coop.solo_bind _ hrb]
      exact .intro m' r' d' db' twin _ _ hmirrors hm' hr' (le_of_eq hnext.symm) (fun _ _ => rfl)
        (.accepted x (hnext ▸ hx))

/-- **Every operation ends alike.** -/
theorem perform (op : Op) : EndsAlike kept now twin m
    ((op.task aead ⟨ttl, maxLife, InMemory.store⟩).solo RedisCall.exec now m d)
    ((op.task aead ⟨ttl, maxLife, RedisStore.store floor⟩).solo RedisCall.exec now r db) := by
  cases op with
  | create material => exact h.create_endsAlike aead ttl maxLife floor hm hr material
  | lookupAsync sid => exact h.lookup_endsAlike aead ttl maxLife floor hm hr sid
  | terminate sid => exact h.terminate_endsAlike aead ttl maxLife floor hm hr sid
  | reapExpired => exact h.reap_endsAlike aead ttl maxLife floor hm hr
  | decryptRequest request schema =>
      exact h.decrypt_endsAlike aead ttl maxLife floor hm hr request schema

end

theorem sealFor (h : Mirrors kept now twin m r db) (aead : Aead) {x : Ref} (hx : x < m.next)
    (body : Bytes) (method path : String) (direction : Option DirectionKeys) :
    SealsAlike kept now twin m r d db
      ((SecureLlm.sealFor aead x body method path direction).solo RedisCall.exec now m d)
      ((SecureLlm.sealFor aead (twin x) body method path direction).solo RedisCall.exec now r
        db) := by
  have hbumped := h.change (f := Session.bump) hx rfl (h.used x hx) (fun _ _ => id) id
  unfold SecureLlm.sealFor
  rw [change_solo, change_solo, read_solo, read_solo, hbumped.heap x hx]
  dsimp only
  cases sealEnvelope aead (direction.getD ((m.change x Session.bump).heap x).s2c)
    ((m.change x Session.bump).heap x).s2cCounter ((m.change x Session.bump).heap x).sessionId
    method path body with
  | error e => exact .intro _ _ (.error e) hbumped rfl rfl rfl
  | ok envelope => exact .intro _ _ (.ok envelope) hbumped.note rfl rfl rfl

theorem sealChunk (h : Mirrors kept now twin m r db) (aead : Aead) {x : Ref} (hx : x < m.next)
    (body : Bytes) (method path : String) :
    SealsAlike kept now twin m r d db
      ((SecureLlm.sealChunk aead x body method path).solo RedisCall.exec now m d)
      ((SecureLlm.sealChunk aead (twin x) body method path).solo RedisCall.exec now r db) := by
  have hseals := h.sealFor (d := d) aead hx body method path none
  change SealsAlike kept now twin m r d db
    (((SecureLlm.sealFor aead x body method path none).bind _).solo RedisCall.exec now m d)
    (((SecureLlm.sealFor aead (twin x) body method path none).bind _).solo RedisCall.exec now r db)
  generalize hma : (SecureLlm.sealFor aead x body method path none).solo RedisCall.exec now m d = a
    at hseals
  generalize hrb : (SecureLlm.sealFor aead (twin x) body method path none).solo RedisCall.exec now
    r db = b at hseals
  cases hseals with
  | intro m' r' envelope hmirrors hm hr hnext =>
      cases envelope with
      | error e =>
          rw [Coop.solo_bind_fail _ hma, Coop.solo_bind_fail _ hrb]
          exact .intro m' r' (.error e) hmirrors hm hr hnext
      | ok envelope =>
          rw [Coop.solo_bind _ hma, Coop.solo_bind _ hrb]
          exact .intro m' r' (.ok _) hmirrors hm hr hnext

end Mirrors

/-! ## The two servers -/

/-- Two servers on their own that have answered alike, and will. -/
structure Lone.Alike (kept : Prop) (w v : Lone) (twin : Ref → Ref) : Prop where
  now : v.now = w.now
  free : w.proc.locked = false ∧ v.proc.locked = false
  mirrors : Mirrors kept w.now twin w.proc v.proc v.redis
  known : ∀ h ∈ w.handlers, h.1 < w.proc.next
  handlers : v.handlers = w.handlers.map (Prod.map twin id)
  blurred : v.outputs.map Output.blurred = w.outputs.map Output.blurred
  outputs : kept → v.outputs = w.outputs

/-- Redis forgets no record of a session that is live. -/
def Lone.mindful (w : Lone) : LoneEvent → Bool
  | .forget sid => (w.proc.liveRef w.now sid).isNone
  | _ => true

namespace Paired

variable {kept : Prop} {twin : Ref → Ref} {m r : Process} {a b : Except Exc Result}

/-- What is told is the same. -/
theorem output (h : Paired kept twin m.next a b)
    (hheap : ∀ x, x < m.next → r.heap (twin x) = m.heap x) :
    (r.output b).blurred = (m.output a).blurred ∧ (kept → r.output b = m.output a) := by
  cases h with
  | raised e => exact ⟨rfl, fun _ => rfl⟩
  | created x hx =>
      have hsame : Output.created (r.heap (twin x)) = .created (m.heap x) := by rw [hheap x hx]
      exact ⟨congrArg Output.blurred hsame, fun _ => hsame⟩
  | found o ho =>
      cases o with
      | none => exact ⟨rfl, fun _ => rfl⟩
      | some x =>
          have hsame : Output.found (some (r.heap (twin x))) = .found (some (m.heap x)) := by
            rw [hheap x (ho x rfl)]
          exact ⟨congrArg Output.blurred hsame, fun _ => hsame⟩
  | terminated b c hbc => exact ⟨rfl, fun hk => congrArg Output.terminated (hbc hk).symm⟩
  | reaped k l => exact ⟨rfl, fun _ => rfl⟩
  | accepted x hx =>
      have hsame : Output.accepted (r.heap (twin x)) = .accepted (m.heap x) := by rw [hheap x hx]
      exact ⟨congrArg Output.blurred hsame, fun _ => hsame⟩

theorem handlersAfter {n : Ref} (h : Paired kept twin n a b)
    (handlers : List (Ref × Option DirectionKeys)) :
    SecureLlm.handlersAfter (handlers.map (Prod.map twin id)) b =
      (SecureLlm.handlersAfter handlers a).map (Prod.map twin id) := by
  cases h with
  | raised e => rfl
  | created x hx => rfl
  | found o ho => rfl
  | terminated b c hbc => rfl
  | reaped k l => rfl
  | accepted x hx =>
      change handlers.map (Prod.map twin id) ++ [(twin x, none)] =
        (handlers ++ [(x, none)]).map (Prod.map twin id)
      rw [List.map_append]
      rfl

theorem known {n : Ref} (h : Paired kept twin n a b)
    {handlers : List (Ref × Option DirectionKeys)} (hknown : ∀ h ∈ handlers, h.1 < n) :
    ∀ h ∈ SecureLlm.handlersAfter handlers a, h.1 < n := by
  cases h with
  | raised e => exact hknown
  | created x hx => exact hknown
  | found o ho => exact hknown
  | terminated b c hbc => exact hknown
  | reaped k l => exact hknown
  | accepted x hx =>
      intro h hmem
      rcases List.mem_append.mp hmem with hold | hnew
      · exact hknown h hold
      · rw [List.mem_singleton.mp hnew]
        exact hx

end Paired

namespace Lone.Alike

variable {kept : Prop} {w v : Lone} {twin : Ref → Ref} (h : w.Alike kept v twin) (aead : Aead)
  (ttl maxLife floor : ℤ)

include h

theorem perform {time : ℚ} (htime : w.now ≤ time) (op : Op) :
    Option.Rel (fun w v => ∃ twin, Lone.Alike kept w v twin)
      (w.step aead ⟨ttl, maxLife, InMemory.store⟩ (.perform time op))
      (v.step aead ⟨ttl, maxLife, RedisStore.store floor⟩ (.perform time op)) := by
  have hends := (h.mirrors.later htime).perform (d := w.redis) aead ttl maxLife floor h.free.1
    h.free.2 op
  unfold Lone.step
  dsimp only
  rw [if_pos htime, if_pos (by rw [h.now]; exact htime)]
  generalize (op.task aead ⟨ttl, maxLife, InMemory.store⟩).solo RedisCall.exec time w.proc
    w.redis = a at hends ⊢
  generalize (op.task aead ⟨ttl, maxLife, RedisStore.store floor⟩).solo RedisCall.exec time v.proc
    v.redis = b at hends ⊢
  cases hends with
  | intro m' r' d' db' twin' a b hmirrors hm hr hgrows hold hpaired =>
      have houtput := hpaired.output hmirrors.heap
      have hnames : w.handlers.map (Prod.map twin id) = w.handlers.map (Prod.map twin' id) := by
        refine List.map_congr_left fun x hx => ?_
        exact Prod.ext (hold x.1 (h.known x hx)).symm rfl
      refine .some ⟨twin', rfl, ⟨hm, hr⟩, hmirrors, ?_, ?_, ?_, fun hk => ?_⟩
      · exact hpaired.known fun x hx => lt_of_lt_of_le (h.known x hx) hgrows
      · change SecureLlm.handlersAfter v.handlers b = _
        rw [h.handlers, hnames]
        exact hpaired.handlersAfter w.handlers
      · change (v.outputs ++ [r'.output b]).map Output.blurred =
          (w.outputs ++ [m'.output a]).map Output.blurred
        rw [List.map_append, List.map_append, h.blurred, List.map_singleton, List.map_singleton,
          houtput.1]
      · change v.outputs ++ [r'.output b] = w.outputs ++ [m'.output a]
        rw [h.outputs hk, houtput.2 hk]

/-- A handler of the one is at the same place in the other. -/
theorem getElem?_handlers (k : ℕ) :
    v.handlers[k]? = w.handlers[k]?.map (Prod.map twin id) := by
  rw [h.handlers, List.getElem?_map]

/-- A handler of each seals the same. -/
theorem sealBy {task task' : Task Bytes}
    (hseals : SealsAlike kept w.now twin w.proc v.proc w.redis v.redis
      (task.solo RedisCall.exec w.now w.proc w.redis)
      (task'.solo RedisCall.exec w.now v.proc v.redis)) :
    Option.Rel (fun w v => ∃ twin, Lone.Alike kept w v twin) (w.sealBy task) (v.sealBy task') := by
  have hsame : task'.solo RedisCall.exec v.now v.proc v.redis =
      task'.solo RedisCall.exec w.now v.proc v.redis := by rw [h.now]
  unfold Lone.sealBy
  rw [hsame]
  generalize task.solo RedisCall.exec w.now w.proc w.redis = a at hseals ⊢
  generalize task'.solo RedisCall.exec w.now v.proc v.redis = b at hseals ⊢
  cases hseals with
  | intro m' r' envelope hmirrors hm hr hnext =>
      refine .some ⟨twin, h.now, ⟨hm.trans h.free.1, hr.trans h.free.2⟩, hmirrors, fun x hx => ?_,
        h.handlers, ?_, fun hk => ?_⟩
      · change x.1 < m'.next
        rw [hnext]
        exact h.known x hx
      · change (v.outputs ++ [Output.sealed envelope]).map Output.blurred =
          (w.outputs ++ [Output.sealed envelope]).map Output.blurred
        rw [List.map_append, List.map_append, h.blurred]
      · change v.outputs ++ [Output.sealed envelope] = w.outputs ++ [Output.sealed envelope]
        rw [h.outputs hk]

theorem save (k : ℕ) : Option.Rel (fun w v => ∃ twin, Lone.Alike kept w v twin)
    (w.step aead ⟨ttl, maxLife, InMemory.store⟩ (.save k))
    (v.step aead ⟨ttl, maxLife, RedisStore.store floor⟩ (.save k)) := by
  unfold Lone.step
  dsimp only
  rw [h.getElem?_handlers k]
  cases hk : w.handlers[k]? with
  | none => exact .none
  | some handler =>
      have hheap := h.mirrors.heap handler.1 (h.known handler (List.mem_of_getElem? hk))
      refine .some ⟨twin, h.now, h.free, h.mirrors, fun x hx => ?_, ?_, h.blurred, h.outputs⟩
      · rcases List.mem_or_eq_of_mem_set hx with hold | hnew
        · exact h.known x hold
        · rw [hnew]
          exact h.known handler (List.mem_of_getElem? hk)
      · change v.handlers.set k (twin handler.1, some (v.proc.heap (twin handler.1)).s2c) =
          (w.handlers.set k (handler.1, some (w.proc.heap handler.1).s2c)).map (Prod.map twin id)
        rw [h.handlers, List.map_set, hheap]
        rfl

theorem respond (k : ℕ) (useSaved : Bool) (method path : String) (body : Bytes) :
    Option.Rel (fun w v => ∃ twin, Lone.Alike kept w v twin)
      (w.step aead ⟨ttl, maxLife, InMemory.store⟩ (.respond k useSaved method path body))
      (v.step aead ⟨ttl, maxLife, RedisStore.store floor⟩
        (.respond k useSaved method path body)) := by
  unfold Lone.step
  dsimp only
  rw [h.getElem?_handlers k]
  cases hk : w.handlers[k]? with
  | none => exact .none
  | some handler =>
      exact h.sealBy (h.mirrors.sealFor aead (h.known handler (List.mem_of_getElem? hk)) body method
        path (if useSaved then handler.2 else none))

theorem chunk (k : ℕ) (method path : String) (body : Bytes) :
    Option.Rel (fun w v => ∃ twin, Lone.Alike kept w v twin)
      (w.step aead ⟨ttl, maxLife, InMemory.store⟩ (.chunk k method path body))
      (v.step aead ⟨ttl, maxLife, RedisStore.store floor⟩ (.chunk k method path body)) := by
  unfold Lone.step
  dsimp only
  rw [h.getElem?_handlers k]
  cases hk : w.handlers[k]? with
  | none => exact .none
  | some handler =>
      exact h.sealBy (h.mirrors.sealChunk aead (h.known handler (List.mem_of_getElem? hk)) body
        method path)

/-- **Every step is alike**, if no record of a live session is forgotten or nothing is
    said of what a termination removes. -/
theorem step (e : LoneEvent) (hmindful : kept → w.mindful e = true) :
    Option.Rel (fun w v => ∃ twin, Lone.Alike kept w v twin)
      (w.step aead ⟨ttl, maxLife, InMemory.store⟩ e)
      (v.step aead ⟨ttl, maxLife, RedisStore.store floor⟩ e) := by
  cases e with
  | perform time op =>
      by_cases htime : w.now ≤ time
      · exact h.perform aead ttl maxLife floor htime op
      · unfold Lone.step
        dsimp only
        rw [if_neg htime, if_neg (by rw [h.now]; exact htime)]
        exact .none
  | save k => exact h.save aead ttl maxLife floor k
  | respond k useSaved method path body =>
      exact h.respond aead ttl maxLife floor k useSaved method path body
  | chunk k method path body => exact h.chunk aead ttl maxLife floor k method path body
  | forget sid =>
      refine .some ⟨twin, h.now, h.free, h.mirrors.unrecord fun hk sid' x hsid hx => ?_, h.known,
        h.handlers, h.blurred, h.outputs⟩
      have hnone : w.proc.liveRef w.now sid = none := Option.isNone_iff_eq_none.mp (hmindful hk)
      rw [redisKey_inj _ _ hsid] at hx
      exact Process.liveRef_eq_none_iff.mp hnone x hx

end Lone.Alike

/-- Over lists of events the two answer alike. -/
theorem play_alike (kept : Prop) (aead : Aead) (ttl maxLife floor : ℤ) (t0 : ℚ)
    (es : List LoneEvent)
    (hmindful : kept → (playIf Lone.mindful (Lone.step aead ⟨ttl, maxLife, InMemory.store⟩)
      (.start t0) es).isSome = true) :
    Option.Rel (fun w v => ∃ twin, Lone.Alike kept w v twin)
      (play (Lone.step aead ⟨ttl, maxLife, InMemory.store⟩) (.start t0) es)
      (play (Lone.step aead ⟨ttl, maxLife, RedisStore.store floor⟩) (.start t0) es) := by
  refine play_rel _ (fun w e => kept → w.mindful e = true) (fun w v e hok h => ?_) es ?_ ?_
  · rcases h with ⟨twin, htwin⟩
    exact htwin.step aead ttl maxLife floor e hok
  · exact ⟨id, rfl, ⟨rfl, rfl⟩, Mirrors.mirrors_start, fun x hx => absurd hx (by simp [Lone.start]),
      rfl, rfl, fun _ => rfl⟩
  · intro before after e w hes hw hk
    exact check_of_playIf (hmindful hk) before after e w hes hw

/-- Where Redis has lost the record of a live session, ending it removes nothing. -/
example :
    let es : List LoneEvent := [.perform 1 (.create .sample),
      .forget SessionMaterial.sample.sessionId,
      .perform 2 (.terminate SessionMaterial.sample.sessionId)]
    let removed := fun store : SessionStore =>
      (play (Lone.step .sample ⟨60, 600, store⟩) (.start 0) es).map fun w =>
        w.outputs.map fun o => decide (o = .terminated true)
    removed InMemory.store = some [false, true] ∧
      removed (RedisStore.store 5) = some [false, false] := by decide +kernel

end SecureLlm
