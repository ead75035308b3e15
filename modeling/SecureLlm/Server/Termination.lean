import SecureLlm.Server.FleetInvariant

/-!
# Termination Across a Fleet

Terminating a session wipes the object of one instance and deletes the record
in Redis. It reaches no other instance: one that has the session cached goes on
serving it, and its next write puts the record back.

What termination does reach is every instance that is clear of the session when
the record is deleted, one that neither caches the session nor has an operation
on it under way. As long as the others leave the record alone, such an instance
never gets hold of the session again. So if all instances are clear of a session
when its termination deletes the record, and the id is not drawn again, the
termination is final.

## Main definitions

* `Fleet.Clear`: An instance that has nothing of a session.
* `Fleet.Untouched`: Steps that do not bring a session back from elsewhere.
* `Fleet.Gone`: A session that an instance will not find.
* `Fleet.Conclusive`: The steps after which a terminated session is gone for all.

## Theorems

* `terminate_before`: Terminating deletes the record before it returns true.
* `Fleet.Invariant.close`: An instance that is clear of a session is closed to
  it.
* `Fleet.TerminationBegun.step`: That a session was to be terminated is not
  forgotten.
* `terminate_final`: Termination is final for the instances that are clear, and
  where all of them are for the fleet.
* `terminate_not_final`: It is not for an instance that has the session cached.
-/

namespace SecureLlm

open Library

/-- The rest of a termination whose record is deleted: it releases the lock and
    returns. -/
def Released (b : Bool) (rest : Task Result) : Prop :=
  rest = .step (Process.setLocked false) (fun _ => .done (.terminated b))

section Shape

variable (S : RedisCall → Prop) (sid : Bytes)

theorem tableGet_before {α : Type} (Q : α → Prop) (R : Task α → Prop) (f : Option Ref → Task α)
    (h : ∀ o, (f o).Before S Q R) : (tableGet sid >>= f).Before S Q R := fun _ => h _

namespace RedisStore

-- A lookup asks Redis nothing.
theorem lookup_before (Q : Option Ref → Prop) (R : Task (Option Ref) → Prop) (hQ : ∀ o, Q o) :
    (RedisStore.lookup sid).Before S Q R := by
  refine tableGet_before S sid Q R _ fun o => ?_
  cases o with
  | none => exact hQ none
  | some r =>
      intro now q
      show Coop.Before S Q R (if (q.heap r).isExpired now = true then _ else _)
      by_cases hexp : (q.heap r).isExpired now = true
      · rw [if_pos hexp]
        exact fun _ => hQ none
      · rw [if_neg hexp]
        exact hQ (some r)

-- Reading a session back may end with the deletion of its expired record.
theorem fetch_before (Q : Option Ref → Prop) (R : Task (Option Ref) → Prop) (hQ : ∀ o, Q o)
    (hget : ∀ name, ¬ S (.get name)) (hR : R (.done none)) :
    (RedisStore.fetch sid).Before S Q R := by
  refine ⟨fun h => absurd h (hget _), fun _ value => ?_⟩
  cases value with
  | none => exact hQ none
  | some blob =>
      show Coop.Before S Q R (Coop.bind (Task.ofExcept (deserialize blob)) _)
      cases deserialize blob with
      | error e => trivial
      | ok s =>
          intro p now q
          show Coop.Before S Q R (if (q.heap p.next).isExpired now = true then _ else _)
          by_cases hexp : (q.heap p.next).isExpired now = true
          · rw [if_pos hexp]
            exact ⟨fun _ _ => hR, fun _ _ => hQ none⟩
          · rw [if_neg hexp]
            exact fun _ => hQ (some p.next)

theorem hydrate_before (Q : Option Ref → Prop) (R : Task (Option Ref) → Prop) (hQ : ∀ o, Q o)
    (hget : ∀ name, ¬ S (.get name)) (hR : R (.done none)) :
    (RedisStore.hydrate sid).Before S Q R := by
  refine tableGet_before S sid Q R _ fun o => ?_
  cases o with
  | none => exact fetch_before S sid Q R hQ hget hR
  | some r =>
      intro now q
      show Coop.Before S Q R (if (q.heap r).isExpired now = true then RedisStore.fetch sid else _)
      by_cases hexp : (q.heap r).isExpired now = true
      · rw [if_pos hexp]
        exact fetch_before S sid Q R hQ hget hR
      · rw [if_neg hexp]
        exact hQ (some r)

theorem find_before (ttl maxLife floor : ℤ) (Q : Option Ref → Prop)
    (R : Task (Option Ref) → Prop) (hQ : ∀ o, Q o) (hget : ∀ name, ¬ S (.get name))
    (hR : R (.done none)) :
    (SessionManager.find ⟨ttl, maxLife, RedisStore.store floor⟩ sid).Before S Q R := by
  refine Coop.Before.bind S Q R _ _ (lookup_before S sid _ _ (fun o => ?_))
  cases o with
  | none => exact hydrate_before S sid Q R hQ hget hR
  | some r => exact hQ (some r)

end RedisStore

/-- Terminating does not return true before it has asked Redis to delete the
    record, and once that is answered it only releases the lock. -/
theorem terminate_before (aead : Aead) (ttl maxLife floor : ℤ) :
    (Op.task aead ⟨ttl, maxLife, RedisStore.store floor⟩ (.terminate sid)).Before
      (· = .delete (redisKey sid)) (· ≠ .terminated true) (fun rest => ∃ b, Released b rest) := by
  refine Coop.Before.bind _ _ _ _ _ ?_
  intro p
  refine Coop.Before.tryFinally _ _ _ _ _ (fun e _ => trivial) ?_
  refine Coop.Before.bind _ _ _ _ _ ?_
  refine RedisStore.find_before _ sid ttl maxLife floor _ _ (fun o => ?_) nofun ⟨false, rfl⟩
  cases o with
  | none => exact fun _ => nofun
  | some r => exact fun _ _ => ⟨fun _ n => ⟨_, rfl⟩, fun h => absurd rfl h⟩

end Shape

-- A result is worth as much where more sessions are off limits than its own.
theorem Terms.outcome_closedTo (T : Terms) (O : Set Bytes) (op : Op) (res : Result) (p : Process)
    (hO : ∀ sid, op.target = some sid → sid ∉ O) (h : T.Outcome op res p) :
    (T.closedTo O).Outcome op res p := by
  cases res with
  | found o =>
      intro sid hop r hr
      rcases h sid hop r hr with ⟨hlt, hsid, hopen, -⟩
      exact ⟨hlt, hsid, hopen, hO sid (by rw [hop]; rfl)⟩
  | accepted r => exact ⟨h.1, fun sid hsid => hO sid hsid⟩
  | created r => trivial
  | terminated b => trivial
  | reaped n => trivial

-- A termination whose record is deleted is harmless on any terms.
theorem Released.settled (T : Terms) (op : Op) (b : Bool) (rest : Task Result) (p : Process)
    (h : Released b rest) : rest.Settled T.contract (T.Outcome op) p := by
  rw [h]
  intro q hq _
  exact ⟨(T.setLocked_ok q false hq).1, (T.setLocked_ok q false hq).2, trivial⟩

namespace Fleet

variable {ι : Type}

/-- An instance that has nothing of a session: it does not cache it, and of the
    operations under way there at most the one termination is on it. -/
def Clear (f : Fleet ι) (sid : Bytes) (k : ℕ) (i : ι) : Prop :=
  (f.proc i).table.get? sid = none ∧
    ∀ k' job, f.jobs k' = some job → job.inst = i → job.op.target = some sid → k' = k

/-- One session is off limits on some of the instances. -/
def closedOn (sid : Bytes) (C : ι → Prop) : ι → Set Bytes := fun i => {s | s = sid ∧ C i}

/-- A step that does not bring a session back: no handshake makes it anew on one
    of the instances, and none of the others writes it to Redis. -/
structure Untouched (sid : Bytes) (C : ι → Prop) (f : Fleet ι) (e : Event ι) : Prop where
  creates : ∀ k inst m, e = .start k inst (.create m) → C inst → m.sessionId ≠ sid
  sets : ∀ k inst op value ex next, e = .serve k →
    f.jobs k = some ⟨inst, op, .call (.set (redisKey sid) value ex) next⟩ → C inst

variable {D : Discipline} {f : Fleet ι}

/-- Instances that are clear of a session are closed to it from then on, once
    Redis does not hold it any more. -/
theorem Invariant.close (h : f.Invariant D unrestricted) (sid : Bytes) (C : ι → Prop)
    (hredis : f.redis (redisKey sid) = none)
    (htable : ∀ i, C i → (f.proc i).table.get? sid = none)
    (hjobs : ∀ k job, f.jobs k = some job → C job.inst → job.op.target = some sid →
      ∃ b, Released b job.rest) : f.Invariant D (closedOn sid C) where
  procs i := by
    refine ⟨(h.procs i).1, fun s hs => ?_⟩
    rcases hs with ⟨rfl, hC⟩
    exact htable i hC
  redis name value hvalue := by
    rcases h.redis name value hvalue with ⟨s, hwritten, heq, hname, -⟩
    refine ⟨s, hwritten, heq, hname, fun i hs => ?_⟩
    rw [hname, hs.1, hredis] at hvalue
    exact absurd hvalue nofun
  jobs k job hjob := by
    by_cases hdone : C job.inst ∧ job.op.target = some sid
    · rcases hjobs k job hjob hdone.1 hdone.2 with ⟨b, hreleased⟩
      exact hreleased.settled _ _ _ _ _
    · have hO : ∀ s, job.op.target = some s → s ∉ closedOn sid C job.inst := by
        rintro s hs ⟨rfl, hC⟩
        exact hdone ⟨hC, hs⟩
      intro t ht hrely
      have hsafe := h.jobs k job hjob t ⟨ht.1, fun s hs => absurd hs (Set.notMem_empty s)⟩ hrely
      refine Coop.Safe.mono _ _ _ _ _ (fun res q _ _ hres => ?_) ht
        (Terms.safe_closedTo (terms D unrestricted job.inst job.op) t (closedOn sid C job.inst)
          (Set.empty_subset _) (fun s hs hC => absurd hC (hO s hs)) _ _ ht hsafe)
      exact Terms.outcome_closedTo _ _ _ _ _ hO hres
  handlers := h.handlers

/-- A run that leaves a session alone keeps the instances closed to it. -/
theorem allows_untouched (manager : SessionManager) (sid : Bytes) (C : ι → Prop) (e : Event ι)
    (h : Untouched sid C f e) : Allows anything (closedOn sid C) manager f e where
  creates k inst m he := ⟨fun hm => h.creates k inst m he hm.2 hm.1, fun _ => trivial⟩
  seals _ _ _ := trivial
  stored _ _ _ _ := trivial
  sets k inst op s value ex next he hjob hoff i hs := by
    rcases hs with ⟨rfl, -⟩
    exact hoff ⟨rfl, h.sets k inst op value ex next he hjob⟩

/-- A termination has either not got to its deletion, or its deletion is known to
    have been served. -/
def TerminationShape (P : Bytes → ι → ℕ → Prop) (f : Fleet ι) : Prop :=
  (∀ k i sid rest, f.jobs k = some ⟨i, .terminate sid, rest⟩ →
    rest.Before (· = .delete (redisKey sid)) (· ≠ .terminated true)
      (fun rest => ∃ b, Released b rest) ∨ P sid i k) ∧
  ∀ i sid, (i, .terminate sid, .ok (.terminated true)) ∈ f.results → ∃ k, P sid i k

-- Other jobs keep their shape, so only the one that a step touches matters.
theorem TerminationShape.update (P : Bytes → ι → ℕ → Prop) (h : TerminationShape P f) (g : Fleet ι)
    (k : ℕ) (job : Option (Job ι)) (hjobs : g.jobs = Function.update f.jobs k job)
    (hjob : ∀ i sid rest, job = some ⟨i, .terminate sid, rest⟩ →
      rest.Before (· = .delete (redisKey sid)) (· ≠ .terminated true)
        (fun rest => ∃ b, Released b rest) ∨ P sid i k)
    (hresults : ∀ i sid, (i, .terminate sid, .ok (.terminated true)) ∈ g.results →
      (i, .terminate sid, .ok (.terminated true)) ∈ f.results ∨ P sid i k) :
    TerminationShape P g := by
  refine ⟨fun k' i sid rest hk' => ?_, fun i sid hmem => ?_⟩
  · rw [hjobs] at hk'
    by_cases hk : k' = k
    · rw [hk, Function.update_self] at hk'
      rw [hk]
      exact hjob i sid rest hk'
    · rw [Function.update_of_ne hk] at hk'
      exact h.1 k' i sid rest hk'
  · rcases hresults i sid hmem with hold | hnew
    · exact h.2 i sid hold
    · exact ⟨k, hnew⟩

theorem TerminationShape.mono (P P' : Bytes → ι → ℕ → Prop) (hP : ∀ sid i k, P sid i k → P' sid i k)
    (h : TerminationShape P f) : TerminationShape P' f :=
  ⟨fun k i sid rest hk => (h.1 k i sid rest hk).imp_right (hP sid i k), fun i sid hmem =>
    (h.2 i sid hmem).imp (hP sid i)⟩

variable [DecidableEq ι] (aead : Aead) (manager : SessionManager)

/-- What operations end with in a step is worth what they promise. -/
theorem Invariant.results {off : ι → Set Bytes} (h : f.Invariant D off) (g : Fleet ι) (e : Event ι)
    (hstep : f.step aead manager e = some g) :
    ∃ new, g.results = new ++ f.results ∧ ∀ i op res, (i, op, .ok res) ∈ new →
      ∃ p, (terms D off i op).Outcome op res p := by
  cases stepped_of_step aead manager f e g hstep with
  | start k inst op hjob hhandler => exact ⟨[], rfl, nofun⟩
  | run k clock job p clock' rest hjob hrun =>
      have hdone := (h.advance k job hjob clock clock' p rest hrun).2.2.1
      rcases settle_cases f k job.inst job.op p rest with
        ⟨res, hres, -, hresults, -⟩ | ⟨err, -, -, hresults, -⟩ | ⟨-, -, -, hresults, -⟩
      · refine ⟨[(job.inst, job.op, .ok res)], hresults, fun i op res' hmem => ?_⟩
        rcases Prod.mk.inj (List.mem_singleton.mp hmem) with ⟨rfl, heq⟩
        rcases Prod.mk.inj heq with ⟨rfl, heq'⟩
        rw [Except.ok.inj heq']
        exact ⟨p, hdone res hres⟩
      · refine ⟨[(job.inst, job.op, .error err)], hresults, fun i op res' hmem => ?_⟩
        exact absurd (Prod.mk.inj (Prod.mk.inj (List.mem_singleton.mp hmem)).2).2 nofun
      · exact ⟨[], hresults, nofun⟩
  | serve k inst op c next hjob => exact ⟨[], rfl, nofun⟩
  | expire name => exact ⟨[], rfl, nofun⟩
  | save k hd hhandler => exact ⟨[], rfl, nofun⟩
  | emit _ hd d p hsealing hp => exact ⟨[], rfl, nofun⟩

/-- A step that leaves a session alone does not put its record back. -/
theorem Invariant.redis_none (sid : Bytes) (C : ι → Prop)
    (h : f.Invariant anything (closedOn sid C)) (g : Fleet ι) (e : Event ι)
    (huntouched : Untouched sid C f e) (hnone : f.redis (redisKey sid) = none)
    (hstep : f.step aead manager e = some g) : g.redis (redisKey sid) = none := by
  cases stepped_of_step aead manager f e g hstep with
  | start k inst op hjob hhandler => exact hnone
  | run k clock job p clock' rest hjob hrun =>
      rw [settle_redis]
      exact hnone
  | serve k inst op c next hjob =>
      have hperm := (Coop.Settled.call _ _ _ _ _ (h.inv inst op) (h.jobs k _ hjob)).1.2
      cases c with
      | get name => exact hnone
      | set name value ex =>
          rcases hperm with ⟨s, -, rfl, hoff, -⟩
          simp only [RedisCall.exec_set]
          by_cases hs : redisKey sid = redisKey s
          · -- Only a closed instance may write the session, and it does not.
            rw [← redisKey_inj _ _ hs] at hjob hoff
            exact absurd ⟨rfl, huntouched.sets k inst op value ex next rfl hjob⟩ hoff
          · rw [Function.update_of_ne hs]
            exact hnone
      | delete name =>
          simp only [RedisCall.exec_delete]
          by_cases hs : redisKey sid = name
          · rw [hs, Function.update_self]
          · rw [Function.update_of_ne hs]
            exact hnone
  | expire name =>
      by_cases hs : redisKey sid = name
      · simp only [hs, Function.update_self]
      · simp only [Function.update_of_ne hs]
        exact hnone
  | save k hd hhandler => exact hnone
  | emit _ hd d p hsealing hp => exact hnone

/-- What the termination of a session has left to do once Redis has answered its
    deletion of the record. -/
def afterDeletion (f : Fleet ι) (sid : Bytes)
    (next : RedisReply (.delete (redisKey sid)) → Task Result) : Task Result :=
  next (RedisCall.exec (.delete (redisKey sid)) f.redis).2

/-- The fleet right after Redis has served the deletion with which a termination
    returns true, in a run of steps of a kind. -/
def Deleted (ok : Fleet ι → Event ι → Prop) (sid : Bytes) (i : ι) (k : ℕ) (v : Fleet ι) : Prop :=
  ∃ u next, Run aead manager ok start u ∧ ok u (.serve k) ∧
    u.jobs k = some ⟨i, .terminate sid, .call (.delete (redisKey sid)) next⟩ ∧
    Released true (u.afterDeletion sid next) ∧ u.step aead manager (.serve k) = some v

/-- From here on, as long as no step brings it back, Redis does not hold the
    session, and the instances that are clear of it do not find it. -/
def Gone (sid : Bytes) (k : ℕ) (v : Fleet ι) : Prop :=
  ∀ h, Run aead manager (Untouched sid (v.Clear sid k)) v h →
    h.redis (redisKey sid) = none ∧
    ∀ j, v.Clear sid k j → (h.proc j).table.get? sid = none ∧
      ∃ new, h.results = new ++ v.results ∧
        (∀ r, (j, .lookupAsync sid, .ok (.found (some r))) ∉ new) ∧
        ∀ request schema r, requestTarget request = some sid →
          (j, .decryptRequest request schema, .ok (.accepted r)) ∉ new

variable {aead manager}

theorem gone_of_deleted (hstore : ∀ T : Terms, T.remote = true → LawfulStore T manager.store)
    (ok : Fleet ι → Event ι → Prop) (sid : Bytes) (i : ι) (k : ℕ) (v : Fleet ι)
    (h : Deleted aead manager ok sid i k v) : Gone aead manager sid k v := by
  rcases h with ⟨u, next, hrun, hok, hjob, hreleased, hstep⟩
  have hv : v.Invariant anything unrestricted :=
    (Run.tail u v _ hrun hok hstep).invariant aead manager hstore _ v
  have hserved : v.redis (redisKey sid) = none ∧
      v.jobs k = some ⟨i, .terminate sid, u.afterDeletion sid next⟩ := by
    simp only [step, hjob, Option.some.injEq] at hstep
    rw [← hstep]
    exact ⟨Function.update_self _ _ _, Function.update_self _ _ _⟩
  rcases hserved with ⟨hredis, hrest⟩
  have hclosed : v.Invariant anything (closedOn sid (v.Clear sid k)) := by
    refine hv.close sid _ hredis (fun j hj => hj.1) (fun k' job hk' hclear htarget => ?_)
    rw [hclear.2 k' job hk' rfl htarget, hrest] at hk'
    rw [← Option.some.inj hk']
    exact ⟨true, hreleased⟩
  intro h hh
  have hmain : h.Invariant anything (closedOn sid (v.Clear sid k)) ∧
      h.redis (redisKey sid) = none ∧
      ∃ new, h.results = new ++ v.results ∧ ∀ j op res, (j, op, .ok res) ∈ new →
        ∃ p, (terms anything (closedOn sid (v.Clear sid k)) j op).Outcome op res p := by
    -- What holds from the deletion on: the id is gone, and no operation finds it.
    induction hh with
    | refl => exact ⟨hclosed, hredis, [], rfl, fun _ _ _ h => absurd h List.not_mem_nil⟩
    | tail g g' e _ huntouched hstep' ih =>
        rcases ih with ⟨hinv, hnone, new, hnew, houtcome⟩
        rcases hinv.results aead manager g' e hstep' with ⟨more, hmore, hout⟩
        refine ⟨hinv.step aead manager hstore g' e (allows_untouched manager sid _ e huntouched)
          hstep', hinv.redis_none aead manager sid _ g' e huntouched hnone hstep',
          more ++ new, by rw [hmore, hnew, List.append_assoc], fun j op res hmem => ?_⟩
        rcases List.mem_append.mp hmem with hm | hm
        · exact hout j op res hm
        · exact houtcome j op res hm
  rcases hmain with ⟨hinv, hnone, new, hnew, houtcome⟩
  refine ⟨hnone, fun j hj => ⟨(hinv.procs j).2 sid ⟨rfl, hj⟩, new, hnew, fun r hr => ?_,
    fun request schema r htarget hr => ?_⟩⟩
  · rcases houtcome j _ _ hr with ⟨p, hp⟩
    exact (hp sid rfl r rfl).2.2.2 ⟨rfl, hj⟩
  · rcases houtcome j _ _ hr with ⟨p, hp⟩
    exact hp.2 sid htarget ⟨rfl, hj⟩

/-- A step keeps the shape, once the deletion it may serve is known of. -/
theorem TerminationShape.step (P : Bytes → ι → ℕ → Prop) (ttl maxLife floor : ℤ) (g : Fleet ι)
    (e : Event ι) (h : TerminationShape P f)
    (hserve : ∀ k i sid next, e = .serve k →
      f.jobs k = some ⟨i, .terminate sid, .call (.delete (redisKey sid)) next⟩ →
      Released true (f.afterDeletion sid next) → P sid i k)
    (hstep : f.step aead ⟨ttl, maxLife, RedisStore.store floor⟩ e = some g) :
    TerminationShape P g := by
  cases stepped_of_step aead _ f e g hstep with
  | start k inst op hjob hhandler =>
      refine h.update P _ k _ rfl (fun i sid rest heq => ?_) (fun _ _ hmem => Or.inl hmem)
      rcases Job.mk.inj (Option.some.inj heq) with ⟨-, rfl, rfl⟩
      exact Or.inl (terminate_before sid aead ttl maxLife floor)
  | run k clock job p clock' rest hjob hrun =>
      have hadvance : ∀ i sid, job.inst = i → job.op = .terminate sid →
          rest.Before (· = .delete (redisKey sid)) (· ≠ .terminated true)
            (fun rest => ∃ b, Released b rest) ∨ P sid i k := by
        rintro i sid rfl hop
        rcases job with ⟨inst, op, rest₀⟩
        rw [show op = .terminate sid from hop] at hjob
        rcases h.1 k inst sid rest₀ hjob with hbefore | hP
        · refine Or.inl ?_
          have hrest := hbefore.advance _ _ _ _ clock (f.proc inst)
          rwa [show rest₀.advance clock (f.proc inst) = (p, clock', rest) from hrun] at hrest
        · exact Or.inr hP
      rcases settle_cases f k job.inst job.op p rest with
        ⟨res, hres, hjobs, hresults, -⟩ | ⟨err, -, hjobs, hresults, -⟩ |
        ⟨-, -, hjobs, hresults, -⟩
      · refine h.update P _ k none hjobs nofun (fun i sid hmem => ?_)
        rw [hresults, List.mem_cons] at hmem
        rcases hmem with heq | hold
        · rcases Prod.mk.inj heq with ⟨hi, heq'⟩
          rcases Prod.mk.inj heq' with ⟨hop, htrue⟩
          rcases hadvance i sid hi.symm hop.symm with hbefore | hP
          · -- It would have returned true before its deletion.
            rw [hres] at hbefore
            exact absurd (Except.ok.inj htrue).symm hbefore
          · exact Or.inr hP
        · exact Or.inl hold
      · refine h.update P _ k none hjobs nofun (fun i sid hmem => ?_)
        rw [hresults, List.mem_cons] at hmem
        rcases hmem with heq | hold
        · exact absurd (Prod.mk.inj (Prod.mk.inj heq).2).2 nofun
        · exact Or.inl hold
      · refine h.update P _ k _ hjobs (fun i sid rest' heq => ?_) (fun i sid hmem => ?_)
        · rcases Job.mk.inj (Option.some.inj heq) with ⟨hi, hop, rfl⟩
          exact hadvance i sid hi hop
        · rw [hresults] at hmem
          exact Or.inl hmem
  | serve k inst op c next hjob =>
      refine h.update P _ k _ rfl (fun i sid rest heq => ?_) (fun _ _ hmem => Or.inl hmem)
      rcases Job.mk.inj (Option.some.inj heq) with ⟨rfl, rfl, rfl⟩
      rcases h.1 k inst sid _ hjob with hbefore | hP
      · by_cases hc : c = .delete (redisKey sid)
        · subst hc
          rcases hbefore.1 rfl (RedisCall.exec (.delete (redisKey sid)) f.redis).2 with ⟨b, hb⟩
          cases b with
          | true => exact Or.inr (hserve k inst sid next rfl hjob hb)
          | false =>
              -- Redis had no record of it, so it returns false.
              refine Or.inl ?_
              rw [hb]
              exact fun _ => nofun
        · exact Or.inl (hbefore.2 hc _)
      · exact Or.inr hP
  | expire name => exact h
  | save k hd hhandler => exact h
  | emit _ hd d p hsealing hp => exact h

/-- In every run, whoever has terminated a session has had its deletion served. -/
theorem terminationShape_of_run (ttl maxLife floor : ℤ) (ok : Fleet ι → Event ι → Prop)
    (hrun : Run aead ⟨ttl, maxLife, RedisStore.store floor⟩ ok start f) :
    TerminationShape (fun sid i k => ∃ v,
      Deleted aead ⟨ttl, maxLife, RedisStore.store floor⟩ ok sid i k v ∧
        Run aead ⟨ttl, maxLife, RedisStore.store floor⟩ ok v f) f := by
  induction hrun with
  | refl => exact ⟨fun _ _ _ _ h => absurd h nofun, fun _ _ h => absurd h nofun⟩
  | tail u w e hu hok hstep ih =>
      refine TerminationShape.step _ ttl maxLife floor w e (ih.mono _ _ ?_) ?_ hstep
      · exact fun sid i k ⟨v, hdel, hv⟩ => ⟨v, hdel, Run.tail u w e hv hok hstep⟩
      · rintro k i sid next rfl hjob hreleased
        exact ⟨w, ⟨u, next, hu, hok, hjob, hreleased, hstep⟩, Run.refl⟩

/-! ## Where all instances are clear -/

/-- The termination of a session is under way, or it has ended. -/
def TerminationBegun (f : Fleet ι) (sid : Bytes) : Prop :=
  (∃ k job, f.jobs k = some job ∧ job.op = .terminate sid) ∨
    ∃ x ∈ f.results, x.2.1 = .terminate sid

omit [DecidableEq ι] in
theorem TerminationBegun.of_update (h : f.TerminationBegun sid) (k : ℕ) (g : Fleet ι)
    (job : Option (Job ι)) (hjobs : g.jobs = Function.update f.jobs k job)
    (hresults : f.results <:+ g.results)
    (hjob : ∀ old, f.jobs k = some old → old.op = .terminate sid →
      (∃ new, job = some new ∧ new.op = old.op) ∨ ∃ x ∈ g.results, x.2.1 = old.op) :
    g.TerminationBegun sid := by
  rcases h with ⟨k', old, hold, hterm⟩ | ⟨x, hx, hterm⟩
  · by_cases hk : k' = k
    · subst hk
      rcases hjob old hold hterm with ⟨new, hnew, hop⟩ | ⟨x, hx, hop⟩
      · exact Or.inl ⟨k', new, by rw [hjobs, Function.update_self, hnew], hop.trans hterm⟩
      · exact Or.inr ⟨x, hx, hop.trans hterm⟩
    · exact Or.inl ⟨k', old, by rw [hjobs, Function.update_of_ne hk, hold], hterm⟩
  · exact Or.inr ⟨x, hresults.subset hx, hterm⟩

/-- An operation goes on, or it leaves its result. -/
theorem TerminationBegun.step (h : f.TerminationBegun sid) (g : Fleet ι) (e : Event ι)
    (hstep : f.step aead manager e = some g) : g.TerminationBegun sid := by
  cases stepped_of_step aead manager f e g hstep with
  | start k inst op hjob hhandler =>
      refine h.of_update k _ _ rfl List.suffix_rfl (fun old hold _ => ?_)
      rw [hjob] at hold
      exact absurd hold nofun
  | run k clock job p clock' rest hjob hrun =>
      rcases settle_cases f k job.inst job.op p rest with
        ⟨res, -, hjobs, hresults, -⟩ | ⟨err, -, hjobs, hresults, -⟩ | ⟨-, -, hjobs, hresults, -⟩
      · refine h.of_update k _ _ hjobs (hresults ▸ List.suffix_cons _ _) (fun old hold _ => ?_)
        rw [← Option.some.inj (hjob.symm.trans hold), hresults]
        exact Or.inr ⟨_, List.mem_cons_self, rfl⟩
      · refine h.of_update k _ _ hjobs (hresults ▸ List.suffix_cons _ _) (fun old hold _ => ?_)
        rw [← Option.some.inj (hjob.symm.trans hold), hresults]
        exact Or.inr ⟨_, List.mem_cons_self, rfl⟩
      · refine h.of_update k _ _ hjobs (hresults ▸ List.suffix_rfl) (fun old hold _ => ?_)
        rw [← Option.some.inj (hjob.symm.trans hold)]
        exact Or.inl ⟨_, rfl, rfl⟩
  | serve k inst op c next hjob =>
      refine h.of_update k _ _ rfl List.suffix_rfl (fun old hold _ => ?_)
      rw [← Option.some.inj (hjob.symm.trans hold)]
      exact Or.inl ⟨_, rfl, rfl⟩
  | expire name => exact h
  | save k hd hhandler => exact h
  | emit _ hd d p hsealing hp => exact h

/-- Results are not forgotten. -/
theorem results_of_run {ok : Fleet ι → Event ι → Prop} {g : Fleet ι}
    (hrun : Run aead manager ok f g) : f.results <:+ g.results := by
  induction hrun with
  | refl => exact List.suffix_rfl
  | tail u v e _ _ hstep ih =>
      refine ih.trans ?_
      cases stepped_of_step aead manager u e v hstep with
      | run k clock job p clock' rest hjob hrun =>
          rcases settle_cases u k job.inst job.op p rest with
            ⟨_, -, -, hresults, -⟩ | ⟨_, -, -, hresults, -⟩ | ⟨-, -, -, hresults, -⟩
          · exact hresults ▸ List.suffix_cons _ _
          · exact hresults ▸ List.suffix_cons _ _
          · exact hresults ▸ List.suffix_rfl
      | start k inst op hjob hhandler => exact List.suffix_rfl
      | serve k inst op c next hjob => exact List.suffix_rfl
      | expire name => exact List.suffix_rfl
      | save k hd hhandler => exact List.suffix_rfl
      | emit _ hd d p hsealing hp => exact List.suffix_rfl

/-- The steps after which a terminated session is gone for all. When Redis serves the
    deletion with which a termination returns true, every instance is clear of the session,
    and a handshake draws an id that no termination has been for. -/
structure Conclusive (f : Fleet ι) (e : Event ι) : Prop where
  deletes : ∀ k i sid next, e = .serve k →
    f.jobs k = some ⟨i, .terminate sid, .call (.delete (redisKey sid)) next⟩ →
    Released true (f.afterDeletion sid next) → ∀ j, f.Clear sid k j
  creates : ∀ k inst m, e = .start k inst (.create m) → ¬ f.TerminationBegun m.sessionId

/-- After such a deletion all instances are still clear, and the termination is there. -/
theorem Deleted.clear {sid : Bytes} {i : ι} {k : ℕ} {v : Fleet ι}
    (h : Deleted aead manager Conclusive sid i k v) :
    (∀ j, v.Clear sid k j) ∧ v.TerminationBegun sid := by
  rcases h with ⟨u, next, -, hok, hjob, hreleased, hstep⟩
  have hclear := hok.deletes k i sid next rfl hjob hreleased
  simp only [step, hjob, Option.some.injEq] at hstep
  rw [← hstep]
  refine ⟨fun j => ⟨(hclear j).1, fun k' job hk' hinst htarget => ?_⟩,
    Or.inl ⟨k, _, Function.update_self _ _ _, rfl⟩⟩
  by_cases hk : k' = k
  · exact hk
  · simp only [Function.update_of_ne hk] at hk'
    exact (hclear j).2 k' job hk' hinst htarget

/-- Nothing brings back a session of which all instances were clear. -/
theorem untouched_of_conclusive {sid : Bytes} {C : ι → Prop} (hC : ∀ i, C i) {g : Fleet ι}
    (hbegun : f.TerminationBegun sid) (hrun : Run aead manager Conclusive f g) :
    Run aead manager (Untouched sid C) f g ∧ g.TerminationBegun sid := by
  induction hrun with
  | refl => exact ⟨Run.refl, hbegun⟩
  | tail u v e _ hok hstep ih =>
      refine ⟨Run.tail u v e ih.1 ⟨fun k inst m he _ hsid => ?_, fun _ inst _ _ _ _ _ _ => hC inst⟩
        hstep, ih.2.step v e hstep⟩
      exact hok.creates k inst m he (hsid ▸ ih.2)

end Fleet

/-- **When termination is final.** Once `terminate` has returned true on some
    instance, there was a moment at which Redis served its deletion of the record.
    From that moment on, as long as the session is not made anew and no other
    instance writes it, Redis does not hold the session, and an instance that had
    nothing of it at that moment neither caches it nor finds it. In a run in which
    all instances are clear at such moments, and no id is drawn again, Redis does
    not hold the session any more and no instance has or finds it. -/
theorem terminate_final {ι : Type} [DecidableEq ι] (aead : Aead) (ttl maxLife floor : ℤ) :
    (∀ (f : Fleet ι) (i : ι) (sid : Bytes),
      Fleet.Run aead ⟨ttl, maxLife, RedisStore.store floor⟩ Fleet.Anything Fleet.start f →
      (i, .terminate sid, .ok (.terminated true)) ∈ f.results →
      ∃ k v, Fleet.Deleted aead ⟨ttl, maxLife, RedisStore.store floor⟩ Fleet.Anything sid i k v ∧
        Fleet.Run aead ⟨ttl, maxLife, RedisStore.store floor⟩ Fleet.Anything v f ∧
        Fleet.Gone aead ⟨ttl, maxLife, RedisStore.store floor⟩ sid k v) ∧
    ∀ (f g : Fleet ι) (i : ι) (sid : Bytes),
      Fleet.Run aead ⟨ttl, maxLife, RedisStore.store floor⟩ Fleet.Conclusive Fleet.start f →
      (i, .terminate sid, .ok (.terminated true)) ∈ f.results →
      Fleet.Run aead ⟨ttl, maxLife, RedisStore.store floor⟩ Fleet.Conclusive f g →
      g.redis (redisKey sid) = none ∧
      ∃ new, g.results = new ++ f.results ∧
        ∀ j, (g.proc j).table.get? sid = none ∧
          (∀ r, (j, .lookupAsync sid, .ok (.found (some r))) ∉ new) ∧
          ∀ request schema r, requestTarget request = some sid →
            (j, .decryptRequest request schema, .ok (.accepted r)) ∉ new := by
  have hstore : ∀ T : Terms, T.remote = true → LawfulStore T (RedisStore.store floor) :=
    fun T hT => redis_lawful T hT floor
  refine ⟨fun f i sid hrun htrue => ?_, fun f g i sid hrun htrue hfg => ?_⟩
  · rcases (Fleet.terminationShape_of_run ttl maxLife floor _ hrun).2 i sid htrue with
      ⟨k, v, hdel, hv⟩
    exact ⟨k, v, hdel, hv, Fleet.gone_of_deleted hstore _ sid i k v hdel⟩
  · rcases (Fleet.terminationShape_of_run ttl maxLife floor _ hrun).2 i sid htrue with
      ⟨k, v, hdel, hv⟩
    have hgone := Fleet.gone_of_deleted hstore _ sid i k v hdel
    obtain ⟨hclear, hbegun⟩ := hdel.clear
    have huntouched := (Fleet.untouched_of_conclusive hclear hbegun (hv.trans _ _ _ _ hfg)).1
    rcases hgone g huntouched with ⟨hredis, hnothing⟩
    rcases Fleet.results_of_run hfg with ⟨new, hnew⟩
    rcases Fleet.results_of_run hv with ⟨old, hold⟩
    refine ⟨hredis, new, hnew.symm, fun j => ?_⟩
    rcases hnothing j (hclear j) with ⟨htable, all, hall, hfound, haccepted⟩
    -- What has ended since the result is some of what has ended since the deletion.
    rw [← hnew, ← hold, ← List.append_assoc] at hall
    rw [← List.append_cancel_right hall] at hfound haccepted
    exact ⟨htable, fun r hr => hfound r (List.mem_append_left _ hr),
      fun request schema r htarget hr =>
        haccepted request schema r htarget (List.mem_append_left _ hr)⟩

/-- Instance A makes the session, and B, which has never seen it, terminates
    it. -/
def terminatedElsewhere : List (Event Bool) :=
  Event.whole 0 false (.create .sample) 1 ++
    Event.whole 1 true (.terminate SessionMaterial.sample.sessionId) 2

/-- Whether the last operation to end was a termination that returned true, on
    the instance given. -/
def Fleet.terminatedLast {ι : Type} [DecidableEq ι] (f : Fleet ι) (i : ι) (sid : Bytes) : Bool :=
  match f.results with
  | (j, .terminate s, .ok (.terminated b)) :: _ => decide (j = i ∧ s = sid ∧ b = true)
  | _ => false

theorem Fleet.mem_of_terminatedLast {ι : Type} [DecidableEq ι] (f : Fleet ι) (i : ι) (sid : Bytes)
    (h : f.terminatedLast i sid = true) :
    (i, .terminate sid, .ok (.terminated true)) ∈ f.results := by
  rw [terminatedLast] at h
  split at h
  · rename_i j s b _ heq
    rcases of_decide_eq_true h with ⟨rfl, rfl, rfl⟩
    rw [heq]
    exact List.mem_cons_self
  · exact absurd h Bool.false_ne_true

/-- After B has returned true, A finds the session, accepts a request for it and
    writes it back to Redis. -/
theorem terminate_not_final :
    ∃ f g : Fleet Bool,
      Fleet.Run .sample ⟨900, 3600, RedisStore.store 60⟩ Fleet.Anything Fleet.start f ∧
      (true, .terminate SessionMaterial.sample.sessionId, .ok (.terminated true)) ∈ f.results ∧
      Fleet.Run .sample ⟨900, 3600, RedisStore.store 60⟩ Fleet.Anything f g ∧
      g.results.map (fun x => (x.1, x.2.2)) = [(false, .ok (.accepted 0)),
        (false, .ok (.found (some 0))), (true, .ok (.terminated true)),
        (false, .ok (.created 0))] ∧
      (g.redis (redisKey SessionMaterial.sample.sessionId)).isSome := by
  rcases Fleet.exists_run .sample ⟨900, 3600, RedisStore.store 60⟩ (fun _ _ => true) Fleet.start
    terminatedElsewhere (fun f => f.terminatedLast true SessionMaterial.sample.sessionId = true ∧
      (f.steps .sample ⟨900, 3600, RedisStore.store 60⟩ (fun _ _ => true)
        (Event.whole 2 false (.lookupAsync SessionMaterial.sample.sessionId) 0 ++
          Event.whole 3 false (.sample 1) 1)).any (fun g => decide
            (g.results.map (fun x => (x.1, x.2.2)) = [(false, .ok (.accepted 0)),
              (false, .ok (.found (some 0))), (true, .ok (.terminated true)),
              (false, .ok (.created 0))] ∧
            (g.redis (redisKey SessionMaterial.sample.sessionId)).isSome)))
    (by decide +kernel) with ⟨f, hf, htrue, hsteps⟩
  rcases Fleet.exists_run _ _ _ f _ _ hsteps with ⟨g, hg, hresults, hredis⟩
  exact ⟨f, g, hf.mono _ _ (fun _ _ _ => trivial), f.mem_of_terminatedLast _ _ htrue,
    hg.mono _ _ (fun _ _ _ => trivial), hresults, hredis⟩

namespace Fleet

variable {ι : Type} [DecidableEq ι] {f g : Fleet ι} {aead : Aead} {manager : SessionManager}

/-- A conclusive step, as far as it can be told from the sessions that the operations below a
    number are about. -/
def concludes [Fintype ι] (n : ℕ) (f : Fleet ι) : Event ι → Bool
  | .start k _ op => decide (k < n) && match op with
    | .create m => decide ((∀ k' < n, ∀ job ∈ f.jobs k', job.op.target ≠ some m.sessionId) ∧
        ∀ x ∈ f.results, x.2.1.target ≠ some m.sessionId)
    | _ => true
  | .serve k =>
    match f.jobs k with
    | some ⟨_, .terminate sid, .call (.delete _) _⟩ => decide (∀ i,
        (f.proc i).table.get? sid = none ∧ ∀ k' < n, ∀ job ∈ f.jobs k', job.inst = i →
          job.op.target = some sid → k' = k)
    | _ => true
  | _ => true

theorem jobs_none_of_step (e : Event ι) (hstep : f.step aead manager e = some g) (k : ℕ)
    (hnone : f.jobs k = none) (hk : ∀ inst op, e ≠ .start k inst op) : g.jobs k = none := by
  -- A job that a step goes on with was there before it.
  have hne (k' : ℕ) (job : Job ι) (hjob : f.jobs k' = some job) : k ≠ k' := by
    rintro rfl
    exact absurd (hnone.symm.trans hjob) nofun
  cases stepped_of_step aead manager f e g hstep with
  | start k' inst op hjob hhandler =>
      have hother : k ≠ k' := by
        rintro rfl
        exact hk inst op rfl
      exact (Function.update_of_ne hother _ _).trans hnone
  | run k' clock job p clock' rest hjob hrun =>
      rcases settle_cases f k' job.inst job.op p rest with
        ⟨_, -, hjobs, -⟩ | ⟨_, -, hjobs, -⟩ | ⟨-, -, hjobs, -⟩
      · rw [hjobs, Function.update_of_ne (hne k' job hjob), hnone]
      · rw [hjobs, Function.update_of_ne (hne k' job hjob), hnone]
      · rw [hjobs, Function.update_of_ne (hne k' job hjob), hnone]
  | serve k' inst op c next hjob => exact (Function.update_of_ne (hne k' _ hjob) _ _).trans hnone
  | expire name => exact hnone
  | save k' hd hhandler => exact hnone
  | emit _ hd d p hsealing hp => exact hnone

/-- Where no operation has a higher number, that is all there is to tell. -/
theorem conclusive_of_concludes [Fintype ι] (n : ℕ) (hf : ∀ k, n ≤ k → f.jobs k = none)
    (hrun : Run aead manager (fun f e => f.concludes n e = true) f g) :
    Run aead manager Conclusive f g ∧ ∀ k, n ≤ k → g.jobs k = none := by
  induction hrun with
  | refl => exact ⟨Run.refl, hf⟩
  | tail u v e _ hok hstep ih =>
      have hbelow : ∀ k job, u.jobs k = some job → k < n := fun k job hk =>
        not_le.mp (fun hle => absurd (hk.symm.trans (ih.2 k hle)) nofun)
      refine ⟨Run.tail u v e ih.1 ⟨?_, ?_⟩ hstep, fun k hk => ?_⟩
      · rintro k i sid next rfl hjob - j
        simp only [concludes, hjob, decide_eq_true_eq] at hok
        exact ⟨(hok j).1, fun k' job hk' => (hok j).2 k' (hbelow k' job hk') job hk'⟩
      · rintro k inst m rfl (⟨k', job, hk', hterm⟩ | ⟨x, hx, hterm⟩)
        · simp only [concludes, Bool.and_eq_true, decide_eq_true_eq] at hok
          exact hok.2.1 k' (hbelow k' job hk') job hk' (hterm ▸ rfl)
        · simp only [concludes, Bool.and_eq_true, decide_eq_true_eq] at hok
          exact hok.2.2 x hx (hterm ▸ rfl)
      · refine jobs_none_of_step e hstep k (ih.2 k hk) ?_
        rintro inst op rfl
        simp only [concludes, Bool.and_eq_true, decide_eq_true_eq] at hok
        exact absurd hok.1 (not_lt.mpr hk)

end Fleet

/-- Instance A makes the session and terminates it itself. -/
def terminatedAlone : List (Event Bool) :=
  Event.whole 0 false (.create .sample) 1 ++
    Event.whole 1 false (.terminate SessionMaterial.sample.sessionId) 1

/-- Then B looks for the session, in Redis as well, and does not find it. -/
theorem terminate_final_sample :
    ∃ f g : Fleet Bool,
      (false, .terminate SessionMaterial.sample.sessionId, .ok (.terminated true)) ∈ f.results ∧
      Fleet.Run .sample ⟨900, 3600, RedisStore.store 60⟩ Fleet.Conclusive f g ∧
      g.results.length = 3 ∧ g.redis (redisKey SessionMaterial.sample.sessionId) = none := by
  rcases Fleet.exists_run .sample ⟨900, 3600, RedisStore.store 60⟩
    (fun f e => f.concludes 3 e) Fleet.start terminatedAlone
    (fun f => f.terminatedLast false SessionMaterial.sample.sessionId = true ∧
      (f.steps .sample ⟨900, 3600, RedisStore.store 60⟩ (fun f e => f.concludes 3 e)
        (Event.whole 2 true (.lookupAsync SessionMaterial.sample.sessionId) 1)).any
          (fun g => decide (g.results.length = 3)))
    (by decide +kernel) with ⟨f, hf, htrue, hsteps⟩
  rcases Fleet.exists_run _ _ _ f _ _ hsteps with ⟨g, hg, hlength⟩
  obtain ⟨hrun, hjobs⟩ := Fleet.conclusive_of_concludes 3 (fun _ _ => rfl) hf
  have hmem := f.mem_of_terminatedLast _ _ htrue
  have hfg := (Fleet.conclusive_of_concludes 3 hjobs hg).1
  exact ⟨f, g, hmem, hfg, hlength,
    ((terminate_final .sample 900 3600 60).2 f g false _ hrun hmem hfg).1⟩

end SecureLlm
