import SecureLlm.Server.Upkeep

/-!
# Departed Sessions

Whether a session that has left a server's table has had its keys wiped, over
the runs of a fleet over either store. It has, in every run that never loses an
open session. A run can lose one: by reaping it, over Redis by looking it up
after it has expired, and by putting another object in its place.

Next to the operations of the routers a server may look a session up in its
cache alone.

## Main definitions

* `SessionManager.lookup`: The lookup in the cache.
* `Move`, `Fleet.move`: What may happen, with such lookups.
* `Fleet.Sparing`: A move that loses no open session.
* `Fleet.Moves`: The runs all of whose moves are sparing.
* `Fleet.Erasing`: What such runs keep.

## Theorems

* `Process.Loses.departs`: What is not sparing does lose an open session.
* `Fleet.Erasing.move`: A sparing move keeps what is kept.
* `create_spares`, `terminate_spares`: Sparing operations of the in-memory
  server.
* `departed_erased`: Departed sessions are erased.
* `reaped_keys_remain`: A reaped session keeps its keys.
-/

namespace SecureLlm

open Library

/-- `lookup`: in the cache alone. -/
def SessionManager.lookup (manager : SessionManager) (sid : Bytes) : Task (Option Ref) :=
  manager.store.lookup sid

/-- Something happens in the fleet, or a server looks an id up in its cache. -/
inductive Move (ι : Type) where
  | event (e : Event ι)
  | lookup (inst : ι) (sid : Bytes) (clock : ℕ → ℚ)

/-- A change that keeps the entries of the open sessions loses none. -/
theorem Process.spares_of_kept (time : Option ℚ) (p q : Process)
    (h : ∀ sid r, p.table.get? sid = some r → (p.heap r).closed = false →
      q.table.get? sid = some r) : Process.Spares time p q := by
  rintro ⟨sid, r, htable, hopen, ⟨t, -, -, hq⟩ | ⟨x, hx, hq⟩⟩
  · have hkept := h sid r htable hopen
    rw [hq, Process.table_drop, Dict.get?_erase, if_pos rfl] at hkept
    exact absurd hkept nofun
  · have hkept := h sid r htable hopen
    rw [hq, Process.table_assign, Dict.get?_set, if_pos rfl] at hkept
    exact hx (Option.some.inj hkept)

/-- A change of anything but the table loses no session. -/
theorem Process.spares_of_table (time : Option ℚ) (p q : Process) (h : q.table = p.table) :
    Process.Spares time p q :=
  Process.spares_of_kept time p q fun _ _ htable _ => h ▸ htable

/-- Losing a session is what it says: it is open, and the table has it no
    longer. -/
theorem Process.Loses.departs (D : Discipline) (time : Option ℚ) (p q : Process)
    (hp : p.Consistent D) (h : p.Loses time q) :
    ∃ sid r, p.table.get? sid = some r ∧ (∀ sid', q.table.get? sid' ≠ some r) ∧
      (q.heap r).closed = false := by
  rcases h with ⟨sid, r, htable, hopen, hq⟩
  -- The table has an object under its own id only.
  have hid : ∀ sid', p.table.get? sid' = some r → sid' = sid := fun sid' h' =>
    (hp.table sid' r h').2.symm.trans (hp.table sid r htable).2
  rcases hq with ⟨t, -, -, rfl⟩ | ⟨x, hx, rfl⟩
  · refine ⟨sid, r, htable, fun sid' h' => ?_, hopen⟩
    rw [Process.table_drop, Dict.get?_erase] at h'
    split at h'
    · cases h'
    · rename_i hne
      exact hne (hid sid' h')
  · refine ⟨sid, r, htable, fun sid' h' => ?_, hopen⟩
    rw [Process.table_assign, Dict.get?_set] at h'
    split at h'
    · exact hx (Option.some.inj h')
    · rename_i hne
      exact hne (hid sid' h')

namespace Fleet

variable {ι : Type} [DecidableEq ι] (aead : Aead) (manager : SessionManager)

/-- One move. -/
def move (f : Fleet ι) : Move ι → Option (Fleet ι)
  | .event e => f.step aead manager e
  | .lookup inst sid clock =>
    some { f with
      proc := Function.update f.proc inst ((manager.lookup sid).advance clock (f.proc inst)).1 }

/-- A move whose task, up to its next suspension, loses no open session: it drops
    no entry that had expired at its reading of the clock and is still open, and
    assigns no object to an id under which the table has another open one. -/
def Sparing (f : Fleet ι) : Move ι → Prop
  | .event (.run k clock) => ∀ job, f.jobs k = some job →
    job.rest.Along Process.Spares none clock (f.proc job.inst)
  | .lookup inst sid clock => (manager.lookup sid).Along Process.Spares none clock (f.proc inst)
  | _ => True

/-- The runs all of whose moves meet a condition. -/
inductive Moves (ok : Fleet ι → Move ι → Prop) (f : Fleet ι) : Fleet ι → Prop where
  | refl : Moves ok f f
  | tail (g h : Fleet ι) (m : Move ι) (hrun : Moves ok f g) (hok : ok g m)
      (hmove : g.move aead manager m = some h) : Moves ok f h

/-- What is closed is erased, and the fleet keeps its invariant. -/
structure Erasing (f : Fleet ι) : Prop where
  standing : f.Standing Session.Erased
  invariant : f.Invariant anything unrestricted

omit [DecidableEq ι] in
theorem erasing_start : (start : Fleet ι).Erasing :=
  ⟨standing_start _ nofun, invariant_start _ _⟩

variable {aead manager} {f : Fleet ι}

/-- A sparing move keeps sessions erased and every object held. -/
theorem Erasing.move (hstore : TidyStore Session.Erased manager.store)
    (hlawful : ∀ T : Terms, T.remote = true → LawfulStore T manager.store) (h : f.Erasing)
    (g : Fleet ι) (m : Move ι) (hsparing : f.Sparing manager m)
    (hmove : f.move aead manager m = some g) :
    g.Erasing ∧ ∀ i r, (f.proc i).Holds r → (g.proc i).Holds r := by
  cases m with
  | event e =>
      have hinvariant := h.invariant.step aead manager hlawful g e
        (allows_anything manager f e) hmove
      rcases h.standing.step Session.erased_lasting aead manager hstore g e
        (fun _ _ _ _ _ => nofun) hmove with ⟨hstanding, hholds⟩
      refine ⟨⟨hstanding, hinvariant⟩, hholds fun k clock job he hjob => ?_⟩
      subst he
      exact hsparing job hjob
  | lookup inst sid clock =>
      have hwithin := hstore.lookup sid none _ (h.standing.procs inst)
      have hadvance := Coop.Within.advance _ _ (fun _ _ _ => True) (fun _ => True)
        (fun _ _ _ _ _ _ => trivial) (manager.lookup sid) none clock _ (fun _ => trivial)
        (h.standing.procs inst) hwithin (Coop.along_trivial _ _ _ _) trivial
      have hsafe := Coop.Safe.advance _ _ _ clock _ (h.invariant.inv inst .reapExpired)
        ((hlawful (terms anything unrestricted inst .reapExpired) rfl).lookup sid _
          (h.invariant.inv inst .reapExpired))
      rw [← Option.some.inj hmove]
      refine ⟨⟨⟨h.standing.updateProc inst _ hadvance.1, h.standing.redis, h.standing.jobs⟩,
        h.invariant.update inst _ hsafe.1.1 hsafe.1.2 hsafe.2.1.1.1⟩, fun i r hr => ?_⟩
      exact holds_update inst i _ r
        (holds_advance (manager.lookup sid) _ clock _ (h.standing.procs inst) hwithin hsparing r) hr

end Fleet

section Sparing

variable (ttl maxLife : ℤ) (time : Option ℚ) (clock : ℕ → ℚ) (p : Process)

/-- Making a session under a free id loses none. -/
theorem create_spares (aead : Aead) (m : SessionMaterial)
    (hfree : p.table.get? m.sessionId = none) :
    ((Op.create m).task aead ⟨ttl, maxLife, InMemory.store⟩).Along Process.Spares time clock p := by
  refine ⟨Process.spares_of_table _ _ _ rfl, fun _ => ⟨Process.spares_of_table _ _ _ rfl,
    Process.spares_of_table _ _ _ rfl, Process.spares_of_kept _ _ _ fun sid r htable _ => ?_,
    Process.spares_of_table _ _ _ rfl, trivial⟩⟩
  simp only [Process.setLocked, Process.heap_alloc_self, Process.table_assign, id_eq,
    Process.table_alloc] at htable ⊢
  rw [Dict.get?_set, if_neg]
  · exact htable
  · rintro rfl
    cases hfree.symm.trans htable

/-- Terminating a session loses none. -/
theorem terminate_spares (aead : Aead) (sid : Bytes) (r : Ref) (htable : p.table.get? sid = some r)
    (hfresh : (p.heap r).isExpired (clock 0) = false) :
    ((Op.terminate sid).task aead ⟨ttl, maxLife, InMemory.store⟩).Along Process.Spares time clock
      p := by
  simp only [Op.task, SessionManager.terminate, SessionManager.find, InMemory.store,
    InMemory.lookup, InMemory.delete, tableGet, Task.withLock, Task.isExpired, Task.read,
    Task.change, Coop.time, Coop.gets, Coop.modify, Bind.bind, Pure.pure, Coop.bind,
    Coop.tryFinally, Coop.Along, Process.setLocked, htable, hfresh, id, Bool.not_eq_true']
  refine fun _ => ⟨Process.spares_of_table _ _ _ rfl, Process.spares_of_table _ _ _ rfl,
    Process.spares_of_table _ _ _ rfl, Process.spares_of_table _ _ _ rfl,
    Process.spares_of_table _ _ _ rfl, Process.spares_of_kept _ _ _ fun sid' x hx hopen => ?_,
    Process.spares_of_table _ _ _ rfl, trivial⟩
  simp only [id_eq, Process.table_drop] at hx hopen ⊢
  rw [Dict.get?_erase, if_neg]
  · exact hx
  · rintro rfl
    rw [Option.some.inj (hx.symm.trans htable), Process.heap_change_self] at hopen
    cases hopen

end Sparing

/-- **Departed sessions are erased.** In a run of sparing moves over either
    store, an object that has been in a server's table and no longer is there is
    closed, with both keys wiped. -/
theorem departed_erased {ι : Type} [DecidableEq ι] (aead : Aead) (ttl maxLife : ℤ)
    (backend : Backend) (f g : Fleet ι)
    (hf : Fleet.Moves aead ⟨ttl, maxLife, backend.store⟩
      (Fleet.Sparing ⟨ttl, maxLife, backend.store⟩) Fleet.start f)
    (hg : Fleet.Moves aead ⟨ttl, maxLife, backend.store⟩
      (Fleet.Sparing ⟨ttl, maxLife, backend.store⟩) f g)
    (inst : ι) (sid : Bytes) (r : Ref) (hbefore : (f.proc inst).table.get? sid = some r)
    (hgone : ∀ sid', (g.proc inst).table.get? sid' ≠ some r) :
    ((g.proc inst).heap r).closed = true ∧ ((g.proc inst).heap r).c2s.key = zeroKey ∧
      ((g.proc inst).heap r).s2c.key = zeroKey := by
  have hkeep : ∀ f g : Fleet ι, f.Erasing → Fleet.Moves aead ⟨ttl, maxLife, backend.store⟩
      (Fleet.Sparing ⟨ttl, maxLife, backend.store⟩) f g →
      g.Erasing ∧ ∀ i r, (f.proc i).Holds r → (g.proc i).Holds r := by
    intro f g h hrun
    induction hrun with
    | refl => exact ⟨h, fun _ _ hr => hr⟩
    | tail u v m _ hok hmove ih =>
        rcases ih.1.move (backend.tidy Session.erased_lasting) (fun T hT => backend.lawful T hT)
          v m hok hmove with ⟨hv, hholds⟩
        exact ⟨hv, fun i r hr => hholds i r (ih.2 i r hr)⟩
  have herasing := (hkeep _ f Fleet.erasing_start hf).1
  rcases hkeep f g herasing hg with ⟨herasing', hholds⟩
  have hlt := ((herasing.invariant.procs inst).1.table sid r hbefore).1
  rcases (hholds inst r ⟨hlt, Or.inl ⟨sid, hbefore⟩⟩).2 with ⟨sid', hstill⟩ | hclosed
  · exact absurd hstill (hgone sid')
  · exact ⟨hclosed, herasing'.standing.procs inst r hclosed⟩

/-- One that is made and terminated is. -/
theorem departed_erased_sample :
    ∃ f g : Fleet Unit, (f.proc ()).table.get? SessionMaterial.sample.sessionId = some 0 ∧
      (∀ sid', (g.proc ()).table.get? sid' ≠ some 0) ∧ ((g.proc ()).heap 0).closed = true ∧
      ((g.proc ()).heap 0).c2s.key = zeroKey ∧ ((g.proc ()).heap 0).s2c.key = zeroKey := by
  have hruns : ∃ f g : Fleet Unit,
      Fleet.Moves .sample ⟨900, 3600, Backend.memory.store⟩
        (Fleet.Sparing ⟨900, 3600, Backend.memory.store⟩) Fleet.start f ∧
      Fleet.Moves .sample ⟨900, 3600, Backend.memory.store⟩
        (Fleet.Sparing ⟨900, 3600, Backend.memory.store⟩) f g ∧
      (f.proc ()).table.get? SessionMaterial.sample.sessionId = some 0 ∧
      (g.proc ()).table.entries = [] := by
    refine ⟨_, _,
      .tail _ _ (.event (.run 0 fun _ => 0))
        (.tail _ _ (.event (.start 0 () (.create .sample))) .refl trivial rfl) ?_ rfl,
      .tail _ _ (.event (.run 1 fun _ => 0))
        (.tail _ _ (.event (.start 1 () (.terminate SessionMaterial.sample.sessionId))) .refl
          trivial rfl) ?_ rfl, ?_, ?_⟩
    · intro job hjob
      rw [← Option.some.inj hjob]
      exact create_spares 900 3600 none _ _ .sample .sample rfl
    · intro job hjob
      rw [← Option.some.inj hjob]
      refine terminate_spares 900 3600 none _ _ .sample _ 0 ?_ ?_
      · decide +kernel
      · decide +kernel
    · decide +kernel
    · decide +kernel
  rcases hruns with ⟨f, g, hf, hg, hbefore, hempty⟩
  have hgone : ∀ sid', (g.proc ()).table.get? sid' ≠ some 0 := by
    intro sid' h
    rw [Dict.get?, hempty] at h
    cases h
  exact ⟨f, g, hbefore, hgone,
    departed_erased .sample 900 3600 .memory f g hf hg () _ 0 hbefore hgone⟩

/-- A session that is made and reaped when it has expired has left the table
    with its keys as they were. -/
theorem reaped_keys_remain :
    ∃ f g : Fleet Unit,
      Fleet.Run .sample ⟨900, 3600, InMemory.store⟩ (fun _ _ => true = true) Fleet.start f ∧
      Fleet.Run .sample ⟨900, 3600, InMemory.store⟩ (fun _ _ => true = true) f g ∧
      (f.proc ()).table.get? SessionMaterial.sample.sessionId = some 0 ∧
      (∀ sid', (g.proc ()).table.get? sid' ≠ some 0) ∧
      ((g.proc ()).heap 0).closed = false ∧
      ((g.proc ()).heap 0).c2s = SessionMaterial.sample.c2s := by
  have hsteps : ((Fleet.start : Fleet Unit).steps .sample ⟨900, 3600, InMemory.store⟩
      (fun _ _ => true) [.start 0 () (.create .sample), .run 0 (fun _ => 0)]).any (fun f =>
        decide ((f.proc ()).table.get? SessionMaterial.sample.sessionId = some 0) &&
        (f.steps .sample ⟨900, 3600, InMemory.store⟩ (fun _ _ => true)
          [.start 1 () .reapExpired, .run 1 (fun _ => 5000)]).any fun g =>
            decide ((g.proc ()).table.entries = [] ∧ ((g.proc ()).heap 0).closed = false ∧
              ((g.proc ()).heap 0).c2s = SessionMaterial.sample.c2s)) = true := by
    decide +kernel
  rcases (Option.any_eq_true _ _).mp hsteps with ⟨f, hf, hrest⟩
  rw [Bool.and_eq_true] at hrest
  rcases (Option.any_eq_true _ _).mp hrest.2 with ⟨g, hg, hend⟩
  rcases of_decide_eq_true hend with ⟨hempty, hopen, hkeys⟩
  refine ⟨f, g, Fleet.run_of_steps _ _ _ _ f _ hf, Fleet.run_of_steps _ _ _ f g _ hg,
    of_decide_eq_true hrest.1, fun sid' hsid' => ?_, hopen, hkeys⟩
  rw [Dict.get?, hempty] at hsid'
  cases hsid'

end SecureLlm
