import SecureLlm.Session.Contract
import SecureLlm.Session.Store

/-!
# Both Stores Keep the Contract

The operations of the two stores, proved safe on any terms. `LawfulStore` is
what the manager needs to know of a store: a session that is looked up exists,
has the id asked for, and is open at that moment; the other operations are safe
wherever the invariant holds.

The in-memory store is lawful on all terms. The Redis store is lawful where the
terms let it ask Redis.

## Main definitions

* `Terms.Found`: What a lookup promises of what it finds.
* `LawfulStore`: What the manager relies on.

## Theorems

* `memory_lawful`, `redis_lawful`: Both stores are lawful.
* `Backend.lawful`: Either is, on terms that let it ask Redis.
-/

namespace SecureLlm

open Library

namespace Terms

variable (T : Terms)

/-- A session found exists, has the id asked for and is open. -/
def Found (sid : Bytes) (o : Option Ref) (p : Process) : Prop :=
  ∀ r, o = some r →
    r < p.next ∧ (p.heap r).sessionId = sid ∧ (p.heap r).closed = false ∧ sid ∉ T.off

theorem found_none (sid : Bytes) (p : Process) : T.Found sid none p := nofun

theorem found_some (sid : Bytes) (r : Ref) (p : Process) (hlt : r < p.next)
    (hsid : (p.heap r).sessionId = sid) (hopen : (p.heap r).closed = false) (hoff : sid ∉ T.off) :
    T.Found sid (some r) p := by
  intro x hx
  rw [← Option.some.inj hx]
  exact ⟨hlt, hsid, hopen, hoff⟩

variable {β : Type} (post : β → Process → Prop)

/-- Whether a session is expired depends on the clock, but one that is not is
    open. -/
theorem isExpired_bind (r : Ref) (f : Bool → Task β) (p : Process) (h : T.contract.inv p)
    (htrue : (f true).Safe T.contract post p)
    (hfalse : (p.heap r).closed = false → (f false).Safe T.contract post p) :
    (Task.isExpired r >>= f).Safe T.contract post p := by
  intro now
  refine ⟨h, T.contract.guar_refl p, ?_⟩
  show (f ((p.heap r).isExpired now)).Safe T.contract post p
  cases hexp : (p.heap r).isExpired now with
  | true => exact htrue
  | false => exact hfalse (Session.open_of_not_isExpired _ _ hexp)

/-- An entry of the table is an object with that id. -/
theorem tableGet_bind (sid : Bytes) (f : Option Ref → Task β) (p : Process)
    (h : T.contract.inv p) (hnone : (f none).Safe T.contract post p)
    (hsome : ∀ r, p.table.get? sid = some r → r < p.next → (p.heap r).sessionId = sid →
      sid ∉ T.off → (f (some r)).Safe T.contract post p) :
    (tableGet sid >>= f).Safe T.contract post p := by
  refine ⟨h, T.contract.guar_refl p, ?_⟩
  show (f (p.table.get? sid)).Safe T.contract post p
  cases hget : p.table.get? sid with
  | none => exact hnone
  | some r =>
      obtain ⟨hlt, hsid⟩ := h.1.table sid r hget
      refine hsome r hget hlt hsid (fun hoff => ?_)
      rw [h.2 sid hoff] at hget
      exact absurd hget nofun

theorem drop_bind (sid : Bytes) (f : Unit → Task β) (p : Process) (h : T.contract.inv p)
    (hnext : (f ()).Safe T.contract post (p.drop sid)) :
    (Coop.modify (Process.drop sid) >>= f).Safe T.contract post p :=
  Coop.Safe.modify_bind T.contract post _ f p (T.drop_ok p sid h) hnext

end Terms

/-- What the manager relies on in a store. -/
structure LawfulStore (T : Terms) (store : SessionStore) : Prop where
  lookup : ∀ sid p, T.contract.inv p →
    (store.lookup sid).Safe T.contract (T.Found sid) p
  hydrate : ∀ sid p, T.target = some sid → T.contract.inv p →
    (store.hydrate sid).Safe T.contract (T.Found sid) p
  put : ∀ r p, T.contract.inv p → r < p.next → T.target = some (p.heap r).sessionId →
    (p.heap r).sessionId ∉ T.off → (store.put r).Safe T.contract (fun _ _ => True) p
  delete : ∀ sid p, T.target = some sid → T.contract.inv p →
    (store.delete sid).Safe T.contract (fun _ _ => True) p
  reapExpired : ∀ p, T.contract.inv p → store.reapExpired.Safe T.contract (fun _ _ => True) p

variable (T : Terms)

/-- Reaping only drops entries. -/
theorem reapKeys_safe (keys : List Bytes) (removed : ℕ) (p : Process) (h : T.contract.inv p) :
    (reapKeys keys removed).Safe T.contract (fun _ _ => True) p := by
  induction keys generalizing removed p with
  | nil => trivial
  | cons sid rest ih =>
      refine T.tableGet_bind _ sid _ p h trivial (fun r _ _ _ _ => ?_)
      refine T.isExpired_bind _ r _ p h ?_ (fun _ => ih removed p h)
      exact T.drop_bind _ sid _ p h (ih (removed + 1) _ (T.drop_ok p sid h).1)

theorem reapTable_safe (p : Process) (h : T.contract.inv p) :
    reapTable.Safe T.contract (fun _ _ => True) p :=
  ⟨h, T.contract.guar_refl p, reapKeys_safe T _ 0 p h⟩

namespace InMemory

theorem lookup_safe (sid : Bytes) (p : Process) (h : T.contract.inv p) :
    (InMemory.lookup sid).Safe T.contract (T.Found sid) p := by
  refine T.tableGet_bind _ sid _ p h (T.found_none sid p) (fun r _ hlt hsid hoff => ?_)
  exact T.isExpired_bind _ r _ p h (T.found_none sid p)
    (fun hopen => T.found_some sid r p hlt hsid hopen hoff)

theorem put_safe (r : Ref) (p : Process) (h : T.contract.inv p) (hr : r < p.next)
    (ht : T.target = some (p.heap r).sessionId) (hoff : (p.heap r).sessionId ∉ T.off) :
    (InMemory.put r).Safe T.contract (fun _ _ => True) p := by
  obtain ⟨hinv, hguar⟩ := T.assign_ok p r h hr ht hoff
  exact ⟨h, T.contract.guar_refl p, hinv, hguar, trivial⟩

theorem delete_safe (sid : Bytes) (p : Process) (h : T.contract.inv p) :
    (InMemory.delete sid).Safe T.contract (fun _ _ => True) p :=
  ⟨h, T.contract.guar_refl p, (T.drop_ok p sid h).1, (T.drop_ok p sid h).2, trivial⟩

end InMemory

theorem memory_lawful : LawfulStore T InMemory.store where
  lookup := InMemory.lookup_safe T
  hydrate sid p _ h := InMemory.lookup_safe T sid p h
  put := InMemory.put_safe T
  delete sid p _ h := InMemory.delete_safe T sid p h
  reapExpired := reapTable_safe T

namespace RedisStore

theorem lookup_safe (sid : Bytes) (p : Process) (h : T.contract.inv p) :
    (RedisStore.lookup sid).Safe T.contract (T.Found sid) p := by
  refine T.tableGet_bind _ sid _ p h (T.found_none sid p) (fun r _ hlt hsid hoff => ?_)
  exact T.isExpired_bind _ r _ p h (T.drop_bind _ sid _ p h (T.found_none sid _))
    (fun hopen => T.found_some sid r p hlt hsid hopen hoff)

/-- What is read back was written under its own id, so it may be cached. -/
theorem fetch_safe (hremote : T.remote = true) (sid : Bytes) (p : Process)
    (ht : T.target = some sid) :
    (RedisStore.fetch sid).Safe T.contract (T.Found sid) p := by
  refine ⟨⟨hremote, sid, ht, rfl⟩, fun q value hq _ hvalue => ?_⟩
  cases value with
  | none => exact T.found_none sid q
  | some blob =>
      obtain ⟨s, hwritten, rfl, hkey, hoff⟩ := hvalue blob rfl
      have hsid := redisKey_inj _ _ hkey
      show (Coop.bind (Task.ofExcept (deserialize (serialize s))) _).Safe T.contract _ q
      rw [deserialize_serialize]
      have hkind := T.discipline.kind_rehydrated s hwritten
      obtain ⟨hinv, hguar⟩ := T.alloc_ok q s.rehydrated .hydrated hremote hq hkind
        (T.discipline.noted_hydrated q.next s hwritten) rfl
      have hheap : ((q.alloc s.rehydrated .hydrated).heap q.next).sessionId = sid := by
        rw [Process.heap_alloc_self]
        exact hsid.symm
      refine ⟨hinv, hguar, T.isExpired_bind _ q.next _ _ hinv ?_ (fun hopen => ?_)⟩
      · exact ⟨⟨hremote, sid, ht, rfl⟩, fun u n _ _ _ => T.found_none sid u⟩
      · have hoff' : sid ∉ T.off := hsid ▸ hoff
        have hassign := T.assign_ok _ q.next hinv (Nat.lt_succ_self _) (by rw [hheap]; exact ht)
          (by rw [hheap]; exact hoff')
        rw [hheap] at hassign
        exact Coop.Safe.modify_bind T.contract _ _ _ _ hassign
          (T.found_some sid q.next _ (Nat.lt_succ_self _) hheap hopen hoff')

theorem hydrate_safe (hremote : T.remote = true) (sid : Bytes) (p : Process)
    (ht : T.target = some sid) (h : T.contract.inv p) :
    (RedisStore.hydrate sid).Safe T.contract (T.Found sid) p := by
  refine T.tableGet_bind _ sid _ p h (fetch_safe T hremote sid p ht) ?_
  intro r _ hlt hsid hoff
  exact T.isExpired_bind _ r _ p h (fetch_safe T hremote sid p ht)
    (fun hopen => T.found_some sid r p hlt hsid hopen hoff)

theorem put_safe (hremote : T.remote = true) (floor : ℤ) (r : Ref) (p : Process)
    (h : T.contract.inv p) (hr : r < p.next) (ht : T.target = some (p.heap r).sessionId)
    (hoff : (p.heap r).sessionId ∉ T.off) :
    (RedisStore.put floor r).Safe T.contract (fun _ _ => True) p := by
  obtain ⟨hinv, hguar⟩ := T.assign_ok p r h hr ht hoff
  have hnote := T.stored_ok (p.assign (p.heap r).sessionId r) r hinv hr
  refine ⟨h, T.contract.guar_refl p, hinv, hguar, fun now => ?_⟩
  refine ⟨hinv, T.contract.guar_refl _, hnote.1, hnote.2, ⟨hremote, ?_⟩, fun _ _ _ _ _ => trivial⟩
  exact ⟨_, ht, rfl, hoff, _, List.mem_cons_self, rfl, rfl, rfl⟩

theorem delete_safe (hremote : T.remote = true) (sid : Bytes) (p : Process)
    (ht : T.target = some sid) (h : T.contract.inv p) :
    (RedisStore.delete sid).Safe T.contract (fun _ _ => True) p :=
  ⟨(T.drop_ok p sid h).1, (T.drop_ok p sid h).2, ⟨hremote, sid, ht, rfl⟩,
    fun _ _ _ _ _ => trivial⟩

end RedisStore

theorem redis_lawful (hremote : T.remote = true) (floor : ℤ) :
    LawfulStore T (RedisStore.store floor) where
  lookup := RedisStore.lookup_safe T
  hydrate := RedisStore.hydrate_safe T hremote
  put := RedisStore.put_safe T hremote floor
  delete := RedisStore.delete_safe T hremote
  reapExpired := reapTable_safe T

theorem Backend.lawful (hremote : T.remote = true) (backend : Backend) :
    LawfulStore T backend.store := by
  cases backend with
  | memory => exact memory_lawful T
  | redis floor => exact redis_lawful T hremote floor

end SecureLlm
