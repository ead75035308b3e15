import SecureLlm.Server.Upkeep

/-!
# Outlived Sessions

What becomes of a request on a session whose every object is past its maximum
lifetime. Each lookup finds the session expired wherever it looks, in the cache
and in the record that Redis answers with, so the request is refused over
either store.

## Main definitions

* `Session.Outlived`: A session under an id is past its maximum lifetime by a
  time.
* `aging`: The bounds of a task that starts after that.
* `Refuses`: A store that does not find the session.

## Theorems

* `Backend.refuses`: Neither store does.
* `decryptRequest_outlived`: A request on the session is never accepted.
-/

namespace SecureLlm

open Library

/-- By the time a session under the id is as old as it may be. -/
def Session.Outlived (sid : Bytes) (b : ℚ) (s : Session) : Prop :=
  s.sessionId = sid → s.createdAt + s.maxLifetimeSeconds ≤ b

theorem Session.outlived_lasting (sid : Bytes) (b : ℚ) : Session.Lasting (Outlived sid b) where
  zeroize _ h := h
  advance _ _ h := h
  bump _ h := h
  touch _ _ h := h
  rehydrated _ h := h

theorem Session.Outlived.isExpired (sid : Bytes) (b t : ℚ) (s : Session) (h : s.Outlived sid b)
    (hsid : s.sessionId = sid) (ht : b < t) : s.isExpired t = true := by
  have hlate : (s.maxLifetimeSeconds : ℚ) < t - s.createdAt :=
    lt_sub_iff_add_lt'.mpr (lt_of_le_of_lt (h hsid) ht)
  rw [Session.isExpired]
  split
  · rfl
  · split
    · rfl
    · exact decide_eq_true hlate

/-- The bounds of a task that looks for the session after the time. -/
def aging (sid : Bytes) (b : ℚ) : Bounds Process RedisCall RedisReply ℚ where
  inv p := p.Consistent Fleet.anything ∧ p.All (Session.Outlived sid b)
  shows t := b < t
  change _ _ _ := True
  ask _ := True
  reply
    | .get name => fun o : Option Record => ∀ v, o = some v →
      ∃ s : Session, v = serialize s ∧ name = redisKey s.sessionId ∧ s.rehydrated.Outlived sid b
    | _ => fun _ => True

/-- A store that finds nothing under the id after the time. -/
structure Refuses (sid : Bytes) (b : ℚ) (store : SessionStore) : Prop where
  lookup : ∀ time p, (aging sid b).inv p →
    (store.lookup sid).Within (aging sid b) (fun o _ => o = none) time p
  hydrate : ∀ time p, (aging sid b).inv p →
    (store.hydrate sid).Within (aging sid b) (fun o _ => o = none) time p

section Stores

variable {sid : Bytes} {b : ℚ} {α : Type} (post : α → Process → Prop) (time : Option ℚ)
  (p : Process) (h : (aging sid b).inv p)
include h

/-- A cached object has expired. -/
theorem cached_outlived (none' : Task α) (some' : Ref → Task α)
    (hnone : p.table.get? sid = none → none'.Within (aging sid b) post time p)
    (hsome : ∀ r, (∀ t, b < t → (p.heap r).isExpired t = true) →
      (some' r).Within (aging sid b) post time p) :
    (tableGet sid >>= fun o => match o with
      | none => none'
      | some r => some' r).Within (aging sid b) post time p := by
  refine ⟨h, trivial, ?_⟩
  show Coop.Within _ _ (match p.table.get? sid with | none => none' | some r => some' r) _ _
  cases htable : p.table.get? sid with
  | none => exact hnone htable
  | some r =>
      refine hsome r (fun t ht => ?_)
      exact (h.2 r).isExpired sid b t _ (h.1.table sid r htable).2 ht

/-- An object that has expired is found to be. -/
theorem isExpired_outlived (r : Ref) (f : Bool → Task α)
    (hlate : ∀ t, b < t → (p.heap r).isExpired t = true)
    (hf : ∀ t, (f true).Within (aging sid b) post t p) :
    (Task.isExpired r >>= f).Within (aging sid b) post time p := by
  intro t ht
  refine ⟨h, trivial, ?_⟩
  show Coop.Within _ _ (f ((p.heap r).isExpired t)) _ _
  rw [hlate t ht]
  exact hf (some t)

theorem memory_lookup_outlived :
    (InMemory.lookup sid).Within (aging sid b) (fun o _ => o = none) time p := by
  refine cached_outlived _ time p h _ _ (fun _ => rfl) (fun r hlate => ?_)
  exact isExpired_outlived _ time p h r _ hlate (fun _ => rfl)

theorem redis_lookup_outlived :
    (RedisStore.lookup sid).Within (aging sid b) (fun o _ => o = none) time p := by
  refine cached_outlived _ time p h _ _ (fun _ => rfl) (fun r hlate => ?_)
  refine isExpired_outlived _ time p h r _ hlate (fun _ => ?_)
  exact ⟨⟨p.drop_consistent _ sid h.1, h.2⟩, trivial, rfl⟩

omit h in
/-- And so does what Redis has. -/
theorem fetch_outlived :
    (RedisStore.fetch sid).Within (aging sid b) (fun o _ => o = none) time p := by
  refine ⟨trivial, fun q o hq ho => ?_⟩
  cases o with
  | none => exact rfl
  | some blob =>
      rcases ho blob rfl with ⟨s, rfl, hname, hlate⟩
      have hsid : s.rehydrated.sessionId = sid := (redisKey_inj _ _ hname).symm
      show Coop.Within _ _ (Task.ofExcept (deserialize (serialize s)) >>= _) _ _
      rw [deserialize_serialize]
      have hq' : (aging sid b).inv (q.alloc s.rehydrated .hydrated) :=
        ⟨q.alloc_consistent _ _ _ hq.1 trivial trivial, hq.2.alloc q _ _ _ hlate⟩
      refine ⟨hq', trivial, isExpired_outlived _ _ _ hq' q.next _ (fun t ht => ?_) (fun _ => ?_)⟩
      · rw [Process.heap_alloc_self]
        exact hlate.isExpired sid b t _ hsid ht
      · exact ⟨trivial, fun _ _ _ _ => rfl⟩

theorem redis_hydrate_outlived :
    (RedisStore.hydrate sid).Within (aging sid b) (fun o _ => o = none) time p := by
  refine cached_outlived _ time p h _ _ (fun _ => fetch_outlived time p) (fun r hlate => ?_)
  exact isExpired_outlived _ time p h r _ hlate (fun t => fetch_outlived t p)

end Stores

theorem Backend.refuses (sid : Bytes) (b : ℚ) (backend : Backend) :
    Refuses sid b backend.store := by
  cases backend with
  | memory => exact ⟨memory_lookup_outlived, memory_lookup_outlived⟩
  | redis floor => exact ⟨redis_lookup_outlived, redis_hydrate_outlived⟩

section Request

variable {sid : Bytes} {b : ℚ} {manager : SessionManager} (hstore : Refuses sid b manager.store)
  (time : Option ℚ) (p : Process) (h : (aging sid b).inv p)
include hstore h

theorem lookupAsync_outlived :
    (manager.lookupAsync sid).Within (aging sid b) (fun o _ => o = none) time p := by
  have hfind : (manager.find sid).Within (aging sid b) (fun o _ => o = none) time p := by
    refine Coop.Within.bind _ _ _ _ time p h (Coop.Within.mono _ _ _ _ time p ?_
      (hstore.lookup time p h))
    intro o q hnone t hq
    rw [hnone]
    exact hstore.hydrate t q hq
  refine Coop.Within.bind _ _ _ _ time p h (Coop.Within.mono _ _ _ _ time p ?_ hfind)
  intro o q hnone t hq
  rw [hnone]
  rfl

/-- A request on the session does not come to be accepted. -/
theorem decryptRequest_outlived {T : Type} (aead : Aead) (request : Request)
    (schema : Bytes → Except String T) (htarget : requestTarget request = some sid) :
    (decryptRequest aead request manager schema).Within (aging sid b) (fun _ _ => False) time
      p := by
  rw [decryptRequest]
  by_cases hshort : request.body.length < 41
  · simp only [if_pos hshort]
    trivial
  simp only [if_neg hshort]
  rw [requestTarget] at htarget
  cases hunpack : unpackEnvelope request.body with
  | error e => trivial
  | ok env =>
      rw [hunpack] at htarget
      have hsid : env.sessionId = sid := Option.some.inj htarget
      have hlookup := lookupAsync_outlived hstore time p h
      rw [← hsid] at hlookup ⊢
      refine Coop.Within.bind _ _ _ _ time p (hsid ▸ h)
        (Coop.Within.mono _ _ _ _ time p ?_ hlookup)
      intro o q hnone t _
      rw [hnone]
      trivial

end Request

end SecureLlm
