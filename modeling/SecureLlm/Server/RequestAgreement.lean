import SecureLlm.Server.Requests

/-!
# Agreement on Requests

Every request a server accepts was sealed by its session's client, for the same
path and method, with the same plaintext and under the same counter, and no
counter of a session is accepted twice. This holds whatever the network delivers
and however the deliveries interleave with handshakes, terminations, expiry,
sweeps and answers.

## Main definitions

* `World.Agreed`: The invariant.

## Theorems

* `World.Agreed.allows`: An honest step is allowed.
* `World.Agreed.run`, `World.Agreed.step`: The invariant is kept.
* `request_agreement`: Injective agreement.
-/

namespace SecureLlm

open Library

namespace World

variable {aead : Aead} {hs : Handshakes} {ttl maxLife : ℤ} {w : World}

/-- The invariant of a server and its clients. -/
structure Agreed (aead : Aead) (hs : Handshakes) (ttl maxLife : ℤ) (w : World) : Prop where
  fleet : w.server.Invariant (.requests hs) Fleet.unrestricted
  idle : w.server.Idle aead ⟨ttl, maxLife, InMemory.store⟩
  saved : ∀ k h d, w.server.handlers k = some h → h.saved = some d →
    d = hs.s2c (w.server.session h).sessionId ∨ (w.server.session h).closed = true
  objects : Objects w.proc w.made w.server.jobs
  methods : ∀ k i request schema rest,
    w.server.jobs k = some ⟨i, .decryptRequest request schema, rest⟩ →
    IsMethod request.method ∧ IsPath request.path
  clients : ∀ x ∈ w.sent, x.sessionId ∈ hs.ids ∧ IsMethod x.method ∧ IsPath x.path
  acceptances : Acceptances aead hs w.sent w.server.results w.proc

theorem agreed_start (aead : Aead) (hs : Handshakes) (ttl maxLife : ℤ) :
    start.Agreed aead hs ttl maxLife where
  fleet := Fleet.invariant_start _ _
  idle := Fleet.idle_start _ _
  saved _ _ _ h := absurd h nofun
  objects := ⟨nofun, nofun, fun _ _ _ _ h => absurd h nofun⟩
  methods _ _ _ _ _ h := absurd h nofun
  clients _ h := absurd h List.not_mem_nil
  acceptances := ⟨nofun, List.nodup_nil, nofun⟩

/-- An honest step is allowed: what is sealed is sealed under the handshake's
    key, or its session was closed. -/
theorem Agreed.allows (h : w.Agreed aead hs ttl maxLife) (e : Event Unit)
    (hhonest : w.Honest aead hs (.serve e)) :
    Fleet.Allows (.requests hs) Fleet.unrestricted ⟨ttl, maxLife, InMemory.store⟩ w.server e where
  creates k inst m he := by
    rcases hhonest.creates k m (by rw [he]) with ⟨hid, -, hc2s, hs2c⟩
    exact ⟨fun hoff => hoff, fun _ => ⟨hid, fun _ => ⟨hc2s, hs2c⟩⟩⟩
  seals hd d hsealing := by
    rcases Fleet.handler_of_sealing w.server e hd d hsealing with ⟨k, hk⟩
    have hkind : (w.server.session hd).OfHandshake hs :=
      (h.fleet.procs hd.inst).1.kind hd.sess (h.fleet.handlers k hd hk)
    refine ⟨hkind.evolves hs _ _ (Session.evolves_bump _), fun d' hd' => ?_⟩
    rw [← NoteKind.sealed.inj hd']
    cases d with
    | none =>
        cases hclosed : (w.server.session hd).closed with
        | true => exact Or.inr hclosed
        | false => exact Or.inl (hkind.2 hclosed).2
    | some saved =>
        rcases Fleet.saved_of_sealing w.server e hd saved hsealing with ⟨k', hk', hsaved⟩
        exact h.saved k' hd saved hk' hsaved
  stored i n hn _ := ((h.fleet.procs i).1.notes n hn).2.2.1
  sets _ _ _ _ _ _ _ _ _ _ _ hoff := hoff

-- What was put aside stays right: sessions only evolve.
theorem Agreed.saved_step (h : w.Agreed aead hs ttl maxLife) (e : Event Unit) (g : Fleet Unit)
    (hallows : Fleet.Allows (.requests hs) Fleet.unrestricted ⟨ttl, maxLife, InMemory.store⟩
      w.server e)
    (hstep : w.server.step aead ⟨ttl, maxLife, InMemory.store⟩ e = some g) (k : ℕ)
    (hd : Handler Unit) (d : DirectionKeys) (hk : g.handlers k = some hd)
    (hsaved : hd.saved = some d) :
    d = hs.s2c (g.session hd).sessionId ∨ (g.session hd).closed = true := by
  have hev : ∀ hd', w.server.handlers k = some hd' →
      (w.server.session hd').Evolves (g.session hd') := fun hd' hk' =>
    (h.fleet.grows aead _ g e hallows hstep hd'.inst).evolves hd'.sess (h.fleet.handlers k hd' hk')
  rcases Fleet.handler_of_step aead _ w.server e g hstep k hd hk with
    hold | hnone | ⟨hd', -, hold, rfl⟩
  · rcases h.saved k hd d hold hsaved with hd' | hclosed
    · exact Or.inl (by rw [(hev hd hold).sessionId, hd'])
    · exact Or.inr ((hev hd hold).closed hclosed)
  · rw [hnone] at hsaved
    exact absurd hsaved nofun
  · rw [← Option.some.inj hsaved]
    have hkind : (w.server.session hd').OfHandshake hs :=
      (h.fleet.procs hd'.inst).1.kind hd'.sess (h.fleet.handlers k hd' hold)
    cases hclosed : (w.server.session hd').closed with
    | true => exact Or.inr ((hev hd' hold).closed hclosed)
    | false =>
        refine Or.inl ?_
        show _ = hs.s2c (g.session hd').sessionId
        rw [(hev hd' hold).sessionId]
        exact (hkind.2 hclosed).2

/-- A task that runs to its end makes its session's object, or accepts a request
    that is new and that its client has sealed, or does neither. -/
theorem Agreed.run (h : w.Agreed aead hs ttl maxLife) (k : ℕ) (clock : ℕ → ℚ)
    (hhonest : w.Honest aead hs (.serve (.run k clock))) (job : Job Unit)
    (hjob : w.server.jobs k = some job) (p : Process) (clock' : ℕ → ℚ) (rest : Task Result)
    (hrun : job.rest.advance clock (w.server.proc job.inst) = (p, clock', rest)) :
    Objects p w.made (w.server.settle k job.inst job.op p rest).jobs ∧
      Acceptances aead hs w.sent (w.server.settle k job.inst job.op p rest).results p := by
  have hgrows : w.proc.Grows p := (h.fleet.advance k job hjob clock clock' p rest hrun).2.1.1.1
  have hcons : w.proc.Consistent (.requests hs) := (h.fleet.procs ()).1
  rcases h.idle.settle k job hjob clock clock' p rest hrun with ⟨-, res, hjobs, hresults, hres⟩
  have hfresh := h.idle.fresh k job hjob
  rcases job with ⟨⟨⟩, op, task⟩
  dsimp only at hrun hjobs hresults hfresh ⊢
  subst hfresh
  rw [hjobs, hresults]
  by_cases hop : ∃ m, op = .create m
  · -- A handshake.
    rcases hop with ⟨m, rfl⟩
    rcases create_advance aead ttl maxLife m clock w.proc (h.idle.free ()) with ⟨u, hcreate⟩
    have hp := (Prod.mk.inj (hrun.symm.trans hcreate)).1
    refine ⟨h.objects.create k () m _ hjob hgrows ?_ ?_, ?_⟩
    · rw [hp]
      rfl
    · rw [hp]
      show ((w.proc.alloc (.ofMaterial m ttl maxLife (clock 0)) .created).heap
        w.proc.next).sessionId = m.sessionId
      rw [Process.heap_alloc_self]
      rfl
    · exact (h.acceptances.grow hgrows w.sent (List.Subset.refl _)).other _ _
        (fun _ _ _ hop => absurd hop nofun)
  have hop' : ∀ m, op ≠ .create m := fun m hm => hop ⟨m, hm⟩
  rcases run_local _ aead ttl maxLife op hop' clock clock' w.proc p rest hcons hrun with
    ⟨-, hnext, haccepted⟩
  refine ⟨h.objects.grow hgrows hnext (fun k' i m rest' hk' => ?_), ?_⟩
  · by_cases hk : k' = k
    · rw [hk, Function.update_self] at hk'
      exact absurd hk' nofun
    · rw [Function.update_of_ne hk] at hk'
      exact hk'
  by_cases hacc : ∃ request schema r, op = .decryptRequest request schema ∧ res = .ok (.accepted r)
  · rcases hacc with ⟨request, schema, r, rfl, rfl⟩
    rcases haccepted request schema r rfl (hres _ rfl) with ⟨env, plaintext, s, hacc⟩
    have hr : r < w.proc.next := by
      rw [← hnext]
      exact hacc.exists_after
    have hbefore := hacc.before hr
    rcases h.methods k () request schema _ hjob with ⟨hmethod, hpath⟩
    have hsealed := sealed_of_acceptance hcons h.objects h.clients request schema hmethod hpath
      (fun env aad plaintext => hhonest.opens k clock request schema _ env aad plaintext rfl hjob)
      _ p r hr env plaintext s hacc
    exact h.acceptances.accept h.objects hgrows request schema r hr env hacc.unpacked hsealed
      (hbefore.sessionId.symm.trans hacc.session) (hbefore.admits env.counter hacc.admitted)
      hacc.refused
  · exact (h.acceptances.grow hgrows w.sent (List.Subset.refl _)).other op res
      (fun request schema r hop hres => hacc ⟨request, schema, r, hop, hres⟩)

-- An operation begins.
theorem Agreed.begin (h : w.Agreed aead hs ttl maxLife) (k : ℕ) (op : Op) (task : Task Result)
    (hhonest : w.Honest aead hs (.serve (.start k () op))) :
    Objects w.proc (Event.makes (.start k () op) ++ w.made)
      (Function.update w.server.jobs k (some ⟨(), op, task⟩)) := by
  by_cases hop : ∃ m, op = .create m
  · rcases hop with ⟨m, rfl⟩
    exact h.objects.start k () m task (hhonest.creates k m rfl).2.1
  · have hmakes : Event.makes (.start k () op) = [] := by
      cases op with
      | create m => exact absurd ⟨m, rfl⟩ hop
      | _ => rfl
    rw [hmakes]
    refine h.objects.grow (Process.Grows.refl _) rfl (fun k' i m rest hk' => ?_)
    by_cases hk : k' = k
    · rw [hk, Function.update_self, Option.some.injEq, Job.mk.injEq] at hk'
      exact absurd ⟨m, hk'.2.1⟩ hop
    · rw [Function.update_of_ne hk] at hk'
      exact hk'

/-- What happens at the server keeps the invariant. -/
theorem Agreed.serve (h : w.Agreed aead hs ttl maxLife) (e : Event Unit) (g : Fleet Unit)
    (hhonest : w.Honest aead hs (.serve e))
    (hstep : w.server.step aead ⟨ttl, maxLife, InMemory.store⟩ e = some g) :
    ({ w with server := g, made := e.makes ++ w.made } : World).Agreed aead hs ttl maxLife := by
  have hallows := h.allows e hhonest
  have hfleet := h.fleet.step aead _ (fun T _ => memory_lawful T) g e hallows hstep
  have hidle := h.idle.step g e hstep
  have hsaved := h.saved_step e g hallows hstep
  cases Fleet.stepped_of_step aead _ w.server e g hstep with
  | start k inst op hjob hhandler =>
      refine ⟨hfleet, hidle, hsaved, h.begin k op _ hhonest, ?_, h.clients, h.acceptances⟩
      intro k' i request schema rest hk'
      by_cases hk : k' = k
      · simp only [hk, Function.update_self, Option.some.injEq, Job.mk.injEq] at hk'
        exact hhonest.requests k request schema (by rw [hk'.2.1])
      · simp only [Function.update_of_ne hk] at hk'
        exact h.methods k' i request schema rest hk'
  | run k clock job p clock' rest hjob hrun =>
      rcases h.run k clock hhonest job hjob p clock' rest hrun with ⟨hobjects, hacceptances⟩
      rcases h.idle.settle k job hjob clock clock' p rest hrun with ⟨-, res, hjobs, -⟩
      have hproc : (w.server.settle k job.inst job.op p rest).proc () = p := by
        rw [Fleet.settle_proc]
        exact Function.update_self _ _ _
      refine ⟨hfleet, hidle, hsaved, ?_, ?_, h.clients, ?_⟩
      · rw [proc, hproc]
        exact hobjects
      · intro k' i request schema rest' hk'
        simp only [hjobs] at hk'
        by_cases hk : k' = k
        · rw [hk, Function.update_self] at hk'
          exact absurd hk' nofun
        · rw [Function.update_of_ne hk] at hk'
          exact h.methods k' i request schema rest' hk'
      · rw [proc, hproc]
        exact hacceptances
  | serve k inst op c next hjob =>
      -- Nothing in memory waits for Redis.
      have hends := Op.ends (w.server.proc inst) ttl maxLife aead op (h.idle.free inst)
      rw [← h.idle.fresh k _ hjob] at hends
      exact absurd hends id
  | expire name =>
      exact ⟨hfleet, hidle, hsaved, h.objects, h.methods, h.clients, h.acceptances⟩
  | save k hd hhandler =>
      exact ⟨hfleet, hidle, hsaved, h.objects, h.methods, h.clients, h.acceptances⟩
  | emit _ hd d p hsealing hp =>
      rcases Fleet.handler_of_sealing w.server e hd d hsealing with ⟨k, hk⟩
      have hgrows : w.proc.Grows p := (Process.emit_consistent _ _ p hd.sess (w.server.keys hd d)
        (h.fleet.procs hd.inst).1 (h.fleet.handlers k hd hk) (hallows.seals hd d hsealing) hp).2.1
      have hnext : p.next = w.proc.next := by
        rcases hp with rfl | rfl <;> rfl
      have hproc : Function.update w.server.proc hd.inst p () = p := Function.update_self _ _ _
      have hmakes : e.makes = [] := by
        cases e with
        | start k' inst op => exact absurd hsealing nofun
        | _ => rfl
      refine ⟨hfleet, hidle, hsaved, ?_, h.methods, h.clients, ?_⟩
      · simp only [proc, hproc, hmakes, List.nil_append]
        exact h.objects.grow hgrows hnext (fun _ _ _ _ hk' => hk')
      · simp only [proc, hproc]
        exact h.acceptances.grow hgrows w.sent (List.Subset.refl _)

/-- An honest step keeps the invariant. -/
theorem Agreed.step (h : w.Agreed aead hs ttl maxLife) (a : Action) (w' : World)
    (hhonest : w.Honest aead hs a)
    (hstep : w.step aead hs ⟨ttl, maxLife, InMemory.store⟩ a = some w') :
    w'.Agreed aead hs ttl maxLife := by
  cases a with
  | serve e =>
      rcases Option.map_eq_some_iff.mp hstep with ⟨g, hg, rfl⟩
      exact h.serve e g hhonest hg
  | «seal» x =>
      rw [World.step] at hstep
      cases hseal : sealEnvelope aead (hs.c2s x.sessionId) x.counter x.sessionId x.method x.path
          x.plaintext with
      | error e =>
          simp only [hseal, reduceCtorEq] at hstep
      | ok body =>
          simp only [hseal, Option.some.injEq] at hstep
          rw [← hstep]
          rcases hhonest.clients x rfl with ⟨hid, hmethod, hpath, -⟩
          refine ⟨h.fleet, h.idle, h.saved, h.objects, h.methods, ?_,
            h.acceptances.grow (Process.Grows.refl _) _ (List.subset_cons_self _ _)⟩
          intro y hy
          rcases List.mem_cons.mp hy with rfl | hy
          · exact ⟨hid, hmethod, hpath⟩
          · exact h.clients y hy

theorem agreed_of_run (hrun : Run aead hs ⟨ttl, maxLife, InMemory.store⟩ w) :
    w.Agreed aead hs ttl maxLife := by
  induction hrun with
  | start => exact agreed_start aead hs ttl maxLife
  | tail u v a _ hhonest hstep ih => exact ih.step a v hhonest hstep

end World

/-- **Injective agreement on requests.** In every honest run, no counter of a
    session is accepted twice, and every accepted request was sealed by the
    client of the session it was accepted for, under its counter, for its path
    and method and with the plaintext it opens to. -/
theorem request_agreement (aead : Aead) (hs : Handshakes) (ttl maxLife : ℤ) (w : World)
    (hrun : World.Run aead hs ⟨ttl, maxLife, InMemory.store⟩ w) :
    w.accepted.Nodup ∧ ∀ request schema r,
      ((), Op.decryptRequest request schema, .ok (Result.accepted r)) ∈ w.server.results →
        SealedByClient aead hs w.sent (w.proc.heap r).sessionId request schema := by
  have h := World.agreed_of_run hrun
  exact ⟨h.acceptances.nodup, fun request schema r hmem =>
    (h.acceptances.sealed request schema r hmem).2⟩

/-- The client of the sample session seals two requests; the second is delivered
    first, and each is delivered twice. -/
theorem request_agreement_sample :
    ∃ w, World.Run .sample .sample ⟨900, 3600, InMemory.store⟩ w ∧
      w.accepted.map Prod.snd = [1, 2] ∧ w.accepted.Nodup ∧ w.server.results.length = 5 := by
  have hsteps : ((World.start.steps .sample .sample ⟨900, 3600, InMemory.store⟩
      ([.serve (.start 0 () (.create .sample)), .serve (.run 0 (fun _ => 0)),
        .seal (.sample 1), .seal (.sample 2)] ++
        [2, 1, 2, 1].zipIdx.flatMap (fun x => [.serve (.start (x.2 + 1) () (.sample x.1)),
          .serve (.run (x.2 + 1) (fun _ => 0))]))).any (fun w =>
        decide (w.accepted.map Prod.snd = [1, 2] ∧ w.server.results.length = 5))) = true := by
    decide +kernel
  rcases (Option.any_eq_true _ _).mp hsteps with ⟨w, hw, hdecide⟩
  rcases of_decide_eq_true hdecide with ⟨haccepted, hlength⟩
  have hrun := World.run_of_steps .sample .sample _ World.start w _ World.Run.start hw
  exact ⟨w, hrun, haccepted, (request_agreement .sample .sample 900 3600 w hrun).1, hlength⟩

end SecureLlm
