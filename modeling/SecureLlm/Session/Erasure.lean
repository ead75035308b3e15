import SecureLlm.Library.Footprint
import SecureLlm.Routers.EnvelopeDep

/-!
# Leaving the Table

What the changes of the session tasks mean for the entries of the table. Almost
all of them are fine: an entry stays, or its session is closed, and what is
closed has its keys wiped. Terminating a session and looking one up close it
before they drop it.

The others lose a session. An entry that has expired is dropped as it is by the
reaper and by the lookup of the Redis store, and an object that is put or
hydrated takes the place of whatever is in the table under its id.

What else is true of every session is a parameter: a property that no change to
a session breaks, such as that what is closed is erased.

## Main definitions

* `Session.Erased`: What is closed has its keys wiped.
* `Session.Lasting`: A property that no change to a session breaks.
* `Process.All`: Every session has a property.
* `Process.Holds`: An object is in the table, or it is closed.
* `Process.Fine`: A change that keeps such objects.
* `Process.Loses`: A change that loses an open session.
* `upkeep`: The bounds of the session tasks: changes of one of the two kinds.
* `TidyStore`: What the manager's operations rely on in a store.

## Theorems

* `Process.Fine.drop`, `Process.Fine.assign`: Where an entry may be dropped or
  assigned.
* `Backend.tidy`: Either store makes such changes only.
* `create_within`, `lookupAsync_within`, `terminate_within`,
  `decryptRequest_within`: And so do the operations.
-/

namespace SecureLlm

open Library

/-- The keys are wiped if the session is closed. -/
def Session.Erased (s : Session) : Prop :=
  s.closed = true → s.c2s.key = zeroKey ∧ s.s2c.key = zeroKey

/-- What no change to a session breaks. -/
structure Session.Lasting (P : Session → Prop) : Prop where
  zeroize : ∀ s, P s → P s.zeroize
  advance : ∀ s w, P s → P (s.advance w)
  bump : ∀ s, P s → P s.bump
  touch : ∀ s now, P s → P (s.touch now)
  rehydrated : ∀ s, P s → P s.rehydrated

theorem Session.erased_lasting : Session.Lasting Session.Erased where
  zeroize _ _ _ := ⟨rfl, rfl⟩
  advance _ _ h := h
  bump _ h := h
  touch _ _ h := h
  rehydrated _ h := h

/-- What is read back from a record has the property. -/
def Record.All (P : Session → Prop) (v : Record) : Prop := ∀ s, deserialize v = .ok s → P s

theorem all_serialize (P : Session → Prop) (hP : Session.Lasting P) (s : Session) (h : P s) :
    (serialize s).All P := by
  intro s' hs'
  rw [deserialize_serialize, Except.ok.injEq] at hs'
  rw [← hs']
  exact hP.rehydrated s h

namespace Process

/-- Every session has the property. -/
def All (P : Session → Prop) (p : Process) : Prop := ∀ r, P (p.heap r)

/-- An object that is in the table or closed. -/
def Holds (r : Ref) (p : Process) : Prop :=
  r < p.next ∧ ((∃ sid, p.table.get? sid = some r) ∨ (p.heap r).closed = true)

/-- No object leaves the table but one that is closed. -/
def Fine (p q : Process) : Prop := ∀ r, p.Holds r → q.Holds r

/-- An open session loses its place: it had expired at the last reading of the
    clock and is dropped, or another object is assigned to its id. -/
def Loses (time : Option ℚ) (p q : Process) : Prop :=
  ∃ sid r, p.table.get? sid = some r ∧ (p.heap r).closed = false ∧
    ((∃ t, time = some t ∧ (p.heap r).isExpired t = true ∧ q = p.drop sid) ∨
      ∃ x, x ≠ r ∧ q = p.assign sid x)

variable (p : Process)

/-- The table, the objects and their number are all there is to it. -/
theorem Fine.congr (q : Process) (hheap : q.heap = p.heap) (hnext : q.next = p.next)
    (htable : q.table = p.table) : p.Fine q := by
  intro r h
  unfold Holds at h ⊢
  rw [hheap, hnext, htable]
  exact h

theorem Fine.alloc (s : Session) (kind : NoteKind) : p.Fine (p.alloc s kind) := by
  rintro r ⟨hlt, h⟩
  refine ⟨Nat.lt_succ_of_lt hlt, ?_⟩
  rw [heap_alloc_of_lt p s kind r hlt]
  exact h

theorem Fine.change (r : Ref) (f : Session → Session)
    (hf : ∀ s : Session, s.closed = true → (f s).closed = true) : p.Fine (p.change r f) := by
  rintro x ⟨hlt, htable | hclosed⟩
  · exact ⟨hlt, Or.inl htable⟩
  · refine ⟨hlt, Or.inr ?_⟩
    by_cases hx : x = r
    · rw [hx, heap_change_self]
      exact hf _ (hx ▸ hclosed)
    · rw [heap_change_of_ne p r x f hx]
      exact hclosed

/-- An entry may be dropped whose session is closed. -/
theorem Fine.drop (sid : Bytes)
    (h : ∀ r, p.table.get? sid = some r → (p.heap r).closed = true) : p.Fine (p.drop sid) := by
  intro r hr
  refine ⟨hr.1, ?_⟩
  rcases hr.2 with ⟨sid', htable⟩ | hclosed
  · by_cases hsid : sid' = sid
    · rw [hsid] at htable
      exact Or.inr (h r htable)
    · refine Or.inl ⟨sid', ?_⟩
      rw [table_drop, Dict.get?_erase, if_neg hsid]
      exact htable
  · exact Or.inr hclosed

/-- An id may be assigned that is free, has the object, or has one that is
    closed. -/
theorem Fine.assign (sid : Bytes) (r : Ref)
    (h : ∀ x, p.table.get? sid = some x → x = r ∨ (p.heap x).closed = true) :
    p.Fine (p.assign sid r) := by
  intro x hx
  refine ⟨hx.1, ?_⟩
  rcases hx.2 with ⟨sid', htable⟩ | hclosed
  · by_cases hsid : sid' = sid
    · rw [hsid] at htable
      rcases h x htable with rfl | hclosed
      · refine Or.inl ⟨sid, ?_⟩
        rw [table_assign, Dict.get?_set, if_pos rfl]
      · exact Or.inr hclosed
    · refine Or.inl ⟨sid', ?_⟩
      rw [table_assign, Dict.get?_set, if_neg hsid]
      exact htable
  · exact Or.inr hclosed

theorem All.alloc (P : Session → Prop) (s : Session) (kind : NoteKind) (h : p.All P) (hs : P s) :
    (p.alloc s kind).All P := by
  intro r
  by_cases hr : r = p.next
  · rw [hr, heap_alloc_self]
    exact hs
  · rw [show (p.alloc s kind).heap r = p.heap r from Function.update_of_ne hr _ _]
    exact h r

theorem All.change (P : Session → Prop) (r : Ref) (f : Session → Session) (h : p.All P)
    (hf : ∀ s, P s → P (f s)) : (p.change r f).All P := by
  intro x
  by_cases hx : x = r
  · rw [hx, heap_change_self]
    exact hf _ (h r)
  · rw [heap_change_of_ne p r x f hx]
    exact h x

end Process

/-- The bounds of the session tasks: every session keeps the property, in Redis
    as well, and an object leaves the table closed or is lost. -/
def upkeep (P : Session → Prop) : Bounds Process RedisCall RedisReply ℚ where
  inv := Process.All P
  shows _ := True
  change time p q := p.Fine q ∨ p.Loses time q
  ask
    | .set _ value _ => value.All P
    | _ => True
  reply
    | .get _ => fun o : Option Record => ∀ v, o = some v → v.All P
    | _ => fun _ => True

/-- What a lookup finds is in the table. -/
def Cached (sid : Bytes) (o : Option Ref) (p : Process) : Prop :=
  ∀ r, o = some r → p.table.get? sid = some r

/-- What the manager relies on in a store. An id is only deleted whose session
    is closed. -/
structure TidyStore (P : Session → Prop) (store : SessionStore) : Prop where
  lookup : ∀ sid time p, p.All P → (store.lookup sid).Within (upkeep P) (Cached sid) time p
  hydrate : ∀ sid time p, p.All P → (store.hydrate sid).Within (upkeep P) (Cached sid) time p
  put : ∀ r time p, p.All P → (store.put r).Within (upkeep P) (fun _ _ => True) time p
  delete : ∀ sid time p, p.All P →
    (∀ r, p.table.get? sid = some r → (p.heap r).closed = true) →
    (store.delete sid).Within (upkeep P) (fun _ _ => True) time p
  reapExpired : ∀ time p, p.All P → store.reapExpired.Within (upkeep P) (fun _ _ => True) time p

section Changes

variable {P : Session → Prop} {α : Type} (post : α → Process → Prop) (time : Option ℚ)
  (p : Process) (h : p.All P)
include h

/-- Reading changes nothing. -/
theorem isExpired_within (r : Ref) (f : Bool → Task α)
    (hf : ∀ t, (f ((p.heap r).isExpired t)).Within (upkeep P) post (some t) p) :
    (Task.isExpired r >>= f).Within (upkeep P) post time p :=
  fun t _ => ⟨h, Or.inl fun _ hr => hr, hf t⟩

theorem tableGet_within (sid : Bytes) (f : Option Ref → Task α)
    (hf : (f (p.table.get? sid)).Within (upkeep P) post time p) :
    (tableGet sid >>= f).Within (upkeep P) post time p :=
  ⟨h, Or.inl fun _ hr => hr, hf⟩

theorem read_within (r : Ref) (f : Session → Task α)
    (hf : (f (p.heap r)).Within (upkeep P) post time p) :
    (Task.read r >>= f).Within (upkeep P) post time p :=
  ⟨h, Or.inl fun _ hr => hr, hf⟩

theorem change_within (r : Ref) (f : Session → Session) (next : Unit → Task α)
    (hclosed : ∀ s : Session, s.closed = true → (f s).closed = true)
    (hall : ∀ s, P s → P (f s))
    (hnext : (p.change r f).All P → (next ()).Within (upkeep P) post time (p.change r f)) :
    (Task.change r f >>= next).Within (upkeep P) post time p :=
  ⟨h.change p P r f hall, Or.inl (.change p r f hclosed), hnext (h.change p P r f hall)⟩

theorem zeroize_within (hP : Session.Lasting P) (r : Ref) (next : Unit → Task α)
    (hnext : (p.change r Session.zeroize).All P →
      (next ()).Within (upkeep P) post time (p.change r Session.zeroize)) :
    (Task.change r Session.zeroize >>= next).Within (upkeep P) post time p :=
  change_within post time p h r _ next (fun _ _ => rfl) hP.zeroize hnext

omit h in
/-- An object that is assigned takes a free place, or that of an open session. -/
theorem assign_change (sid : Bytes) (r : Ref) : (upkeep P).change time p (p.assign sid r) := by
  by_cases hfree : ∀ x, p.table.get? sid = some x → x = r ∨ (p.heap x).closed = true
  · exact Or.inl (.assign p sid r hfree)
  · simp only [not_forall, not_or] at hfree
    rcases hfree with ⟨x, htable, hne, hopen⟩
    exact Or.inr ⟨sid, x, htable, Bool.not_eq_true _ ▸ hopen, Or.inr ⟨r, Ne.symm hne, rfl⟩⟩

omit h in
/-- An entry that has expired is dropped as it is. -/
theorem drop_change (sid : Bytes) (r : Ref) (t : ℚ) (htable : p.table.get? sid = some r)
    (hlate : (p.heap r).isExpired t = true) : (upkeep P).change (some t) p (p.drop sid) := by
  by_cases hclosed : (p.heap r).closed = true
  · refine Or.inl (.drop p sid fun x hx => ?_)
    rw [htable, Option.some.injEq] at hx
    rw [← hx]
    exact hclosed
  · exact Or.inr ⟨sid, r, htable, Bool.not_eq_true _ ▸ hclosed, Or.inl ⟨t, rfl, hlate, rfl⟩⟩

theorem reapKeys_within (keys : List Bytes) (removed : ℕ) :
    (reapKeys keys removed).Within (upkeep P) (fun _ _ => True) time p := by
  induction keys generalizing removed time p with
  | nil => trivial
  | cons sid rest ih =>
      refine tableGet_within _ time p h sid _ ?_
      cases htable : p.table.get? sid with
      | none => trivial
      | some r =>
          refine isExpired_within _ time p h r _ (fun t => ?_)
          cases hlate : (p.heap r).isExpired t with
          | true =>
              exact ⟨h, drop_change p sid r t htable hlate,
                ih (some t) (p.drop sid) h (removed + 1)⟩
          | false => exact ih (some t) p h removed

theorem reapTable_within : reapTable.Within (upkeep P) (fun _ _ => True) time p :=
  ⟨h, Or.inl fun _ hr => hr, reapKeys_within time p h _ 0⟩

namespace InMemory

theorem lookup_within (sid : Bytes) :
    (InMemory.lookup sid).Within (upkeep P) (Cached sid) time p := by
  refine tableGet_within _ time p h sid _ ?_
  cases htable : p.table.get? sid with
  | none => exact fun r hr => absurd hr nofun
  | some r =>
      refine isExpired_within _ time p h r _ (fun t => ?_)
      cases (p.heap r).isExpired t with
      | true => exact fun r hr => absurd hr nofun
      | false => exact fun x hx => by rw [htable, Option.some.inj hx]

end InMemory

namespace RedisStore

theorem lookup_within (sid : Bytes) :
    (RedisStore.lookup sid).Within (upkeep P) (Cached sid) time p := by
  refine tableGet_within _ time p h sid _ ?_
  cases htable : p.table.get? sid with
  | none => exact fun r hr => absurd hr nofun
  | some r =>
      refine isExpired_within _ time p h r _ (fun t => ?_)
      cases hlate : (p.heap r).isExpired t with
      | true => exact ⟨h, drop_change p sid r t htable hlate, fun r hr => absurd hr nofun⟩
      | false => exact fun x hx => by rw [htable, Option.some.inj hx]

omit h in
theorem fetch_within (sid : Bytes) : (fetch sid).Within (upkeep P) (Cached sid) time p := by
  refine ⟨trivial, fun q o hq ho => ?_⟩
  cases o with
  | none => exact fun r hr => absurd hr nofun
  | some blob =>
      have hblob : blob.All P := ho blob rfl
      show Coop.Within _ _ (Task.ofExcept (deserialize blob) >>= _) _ _
      cases hsession : deserialize blob with
      | error e => trivial
      | ok session =>
          have hq' := hq.alloc q P session .hydrated (hblob session hsession)
          refine ⟨hq', Or.inl (.alloc q session .hydrated), ?_⟩
          refine isExpired_within _ none _ hq' q.next _ (fun t => ?_)
          cases (((q.alloc session .hydrated).heap q.next).isExpired t) with
          | true => exact ⟨trivial, fun _ _ _ _ r hr => absurd hr nofun⟩
          | false =>
              refine ⟨hq', assign_change (some t) _ sid q.next, fun x hx => ?_⟩
              rw [Process.table_assign, Dict.get?_set, if_pos rfl, Option.some.inj hx]

theorem hydrate_within (sid : Bytes) :
    (RedisStore.hydrate sid).Within (upkeep P) (Cached sid) time p := by
  refine tableGet_within _ time p h sid _ ?_
  cases htable : p.table.get? sid with
  | none => exact fetch_within time p sid
  | some r =>
      refine isExpired_within _ time p h r _ (fun t => ?_)
      cases (p.heap r).isExpired t with
      | true => exact fetch_within (some t) p sid
      | false => exact fun x hx => by rw [htable, Option.some.inj hx]

theorem put_within (hP : Session.Lasting P) (floor : ℤ) (r : Ref) :
    (RedisStore.put floor r).Within (upkeep P) (fun _ _ => True) time p := by
  refine ⟨h, Or.inl fun _ hr => hr, h, assign_change time p _ r, fun t _ => ?_⟩
  refine ⟨h, Or.inl fun _ hr => hr, h, Or.inl (.congr _ _ rfl rfl rfl), ?_⟩
  exact ⟨all_serialize P hP _ (h r), fun _ _ _ _ => trivial⟩

end RedisStore

end Changes

theorem Backend.tidy {P : Session → Prop} (hP : Session.Lasting P) (backend : Backend) :
    TidyStore P backend.store := by
  cases backend with
  | memory => exact {
      lookup := fun sid time p h => InMemory.lookup_within time p h sid
      hydrate := fun sid time p h => InMemory.lookup_within time p h sid
      put := fun r time p h => ⟨h, Or.inl fun _ hr => hr, h, assign_change time p _ r, trivial⟩
      delete := fun sid time p h hclosed =>
        ⟨h, Or.inl fun _ hr => hr, h, Or.inl (.drop p sid hclosed), trivial⟩
      reapExpired := fun time p h => reapTable_within time p h }
  | redis floor => exact {
      lookup := fun sid time p h => RedisStore.lookup_within time p h sid
      hydrate := fun sid time p h => RedisStore.hydrate_within time p h sid
      put := fun r time p h => RedisStore.put_within time p h hP floor r
      delete := fun sid time p h hclosed =>
        ⟨h, Or.inl (.drop p sid hclosed), trivial, fun _ _ _ _ => trivial⟩
      reapExpired := fun time p h => reapTable_within time p h }

section Operations

variable {P : Session → Prop} {manager : SessionManager} (hstore : TidyStore P manager.store)
  (time : Option ℚ) (p : Process) (h : p.All P)
include h

omit h in
/-- Taking the lock and giving it back moves nothing. -/
theorem withLock_within {α : Type} (body : Task α)
    (hbody : ∀ q : Process, q.All P → body.Within (upkeep P) (fun _ _ => True) none q) :
    (Task.withLock body).Within (upkeep P) (fun _ _ => True) time p := by
  intro q hq
  refine ⟨hq, Or.inl (.congr _ _ rfl rfl rfl), ?_⟩
  exact Coop.Within.tryFinally _ _ _ _ _ hq
    (fun t u hu => ⟨hu, Or.inl (.congr _ _ rfl rfl rfl), trivial⟩) (hbody _ hq)

include hstore

theorem find_within (sid : Bytes) : (manager.find sid).Within (upkeep P) (Cached sid) time p := by
  refine Coop.Within.bind _ _ _ _ time p h
    (Coop.Within.mono _ _ _ _ time p (fun o q hcached t hq => ?_) (hstore.lookup sid time p h))
  cases o with
  | none => exact hstore.hydrate sid t q hq
  | some r => exact hcached

/-- A session is closed before its id is deleted. -/
theorem erase_within (hP : Session.Lasting P) (sid : Bytes) (r : Ref)
    (htable : p.table.get? sid = some r) :
    (Task.change r Session.zeroize >>= fun _ => manager.store.delete sid).Within (upkeep P)
      (fun _ _ => True) time p := by
  refine zeroize_within _ time p h hP r _ (fun h' => ?_)
  refine hstore.delete sid time _ h' (fun x hx => ?_)
  rw [Process.table_change, htable, Option.some.injEq] at hx
  rw [← hx, Process.heap_change_self]
  rfl

theorem lookupAsync_within (hP : Session.Lasting P) (sid : Bytes) :
    (manager.lookupAsync sid).Within (upkeep P) (fun _ _ => True) time p := by
  refine Coop.Within.bind _ _ _ _ time p h
    (Coop.Within.mono _ _ _ _ time p (fun o q hcached t hq => ?_) (find_within hstore time p h sid))
  cases o with
  | none => trivial
  | some r =>
      refine isExpired_within _ t q hq r _ (fun t' => ?_)
      cases (q.heap r).isExpired t' with
      | false => trivial
      | true =>
          have herase := erase_within hstore (some t') q hq hP sid r (hcached r rfl)
          refine Coop.Within.bind _ _ (Task.change r Session.zeroize >>= fun _ =>
            manager.store.delete sid) (fun _ => return none) _ q hq ?_
          exact Coop.Within.mono _ _ _ _ _ q (fun _ _ _ _ _ => trivial) herase

omit h in
theorem terminate_within (hP : Session.Lasting P) (sid : Bytes) :
    (manager.terminate sid).Within (upkeep P) (fun _ _ => True) time p := by
  refine withLock_within time p _ (fun q hq => ?_)
  refine Coop.Within.bind _ _ _ _ none q hq
    (Coop.Within.mono _ _ _ _ none q (fun o u hcached t hu => ?_)
      (find_within hstore none q hq sid))
  cases o with
  | none => trivial
  | some r => exact erase_within hstore t u hu hP sid r (hcached r rfl)

/-- What is left of a creation once the object is made. -/
theorem putNew_within (r : Ref) :
    (Task.withLock (manager.store.put r) >>= fun _ => return r).Within (upkeep P)
      (fun _ _ => True) time p := by
  refine Coop.Within.bind _ _ (Task.withLock (manager.store.put r)) _ time p h ?_
  refine Coop.Within.mono _ _ _ _ _ _ (fun _ _ _ _ _ => trivial) (withLock_within _ _ _ ?_)
  exact fun q hq => hstore.put r none q hq

theorem create_within (material : SessionMaterial)
    (hmaterial : ∀ now, P (.ofMaterial material manager.ttl manager.maxLife now)) :
    (manager.create material).Within (upkeep P) (fun _ _ => True) time p := by
  intro now _
  have h' := h.alloc p P (.ofMaterial material manager.ttl manager.maxLife now) .created
    (hmaterial now)
  exact ⟨h', Or.inl (.alloc p _ _), putNew_within hstore (some now) _ h' p.next⟩

theorem decryptRequest_within (hP : Session.Lasting P) {T : Type} (aead : Aead) (request : Request)
    (schema : Bytes → Except String T) :
    (decryptRequest aead request manager schema).Within (upkeep P) (fun _ _ => True) time p := by
  rw [decryptRequest]
  by_cases hshort : request.body.length < 41
  · simp only [if_pos hshort]
    trivial
  simp only [if_neg hshort]
  cases unpackEnvelope request.body with
  | error e => trivial
  | ok env =>
      refine Coop.Within.bind _ _ _ _ time p h (Coop.Within.mono _ _ _ _ time p
        (fun o q _ t hq => ?_) (lookupAsync_within hstore time p h hP env.sessionId))
      cases o with
      | none => trivial
      | some r =>
          refine read_within _ t q hq r _ ?_
          cases (q.heap r).replay.checkAndAdvance env.counter with
          | error e => trivial
          | ok window =>
              refine change_within _ t q hq r _ _ (fun _ hs => hs)
                (fun s hs => hP.advance s window hs) (fun hq' => ?_)
              cases openEnvelope aead (q.heap r).c2s (q.heap r).sessionId request.method
                  request.path request.body with
              | error e => cases e <;> trivial
              | ok result =>
                  dsimp only
                  cases schema result.2 with
                  | error message => trivial
                  | ok value =>
                      intro now _
                      refine change_within _ _ _ hq' r _ _ (fun _ hs => hs)
                        (fun s hs => hP.touch s now hs) (fun hq'' => ?_)
                      refine Coop.Within.bind _ _ (manager.persist r) _ _ _ hq'' ?_
                      exact Coop.Within.mono _ _ _ _ _ _ (fun _ _ _ _ _ => trivial)
                        (hstore.put r _ _ hq'')

end Operations

end SecureLlm
