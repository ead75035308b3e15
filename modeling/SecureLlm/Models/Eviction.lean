import SecureLlm.Library.Recency
import SecureLlm.Models.Lookups

/-!
# Which Slot Is Evicted

To make room `ensure_loaded` evicts the slot at the head of the table. The table is
meant to have its slots in the order in which they were last returned: a slot that
is found is put last, and a slot that is loaded is assigned to its key, which puts
it last where the key is free.

Where the key has a slot already, one that is too small for the request, the new
slot takes the place of the old one, which may be the head. Then the slot that was
returned last is the next to be evicted.

Calls come one after another here, and idle timers fire in between.

## Main definitions

* `Traced`: The manager with the slots that were returned.
* `Traced.Alone`: Nobody is at work when a task begins.
* `Traced.Appends`: A slot that is loaded gets the last place.
* `Traced.Ordered`: The table is in the order of the last returns.
* `Traced.Evicts`, `Traced.LeastRecent`: An eviction, and what is right to evict.

## Theorems

* `Traced.Solo.step`: Between two looks at the table nothing changes.
* `Traced.ordered_step_iff`: Which steps keep the order.
* `Traced.head_of_evicts`: Who is evicted is at the head.
* `eviction_least_recent`: Who is evicted while loaded slots get the last place.
* `fresh_slot_evicted`: An eviction of a slot that was returned after another.
-/

namespace SecureLlm

open Library

namespace Models

/-- The manager with the slots that `ensure_loaded` has returned, newest first. -/
structure Traced where
  manager : ModelManager
  returns : List ℕ

namespace Traced

open ModelManager

variable (cfg : Config)

/-- Nothing is loaded, and nothing was returned. -/
def start : Traced := ⟨.start, []⟩

/-- One step, with what it returns. -/
def step (t : Traced) (e : Event) : Option Traced :=
  (t.manager.step cfg e).map fun u => ⟨u, (returned t.manager e u).toList ++ t.returns⟩

/-- One after another: nobody is at work when a task begins. -/
def Alone (t : Traced) : Event → Prop
  | .task _ e => e.begins = true → ∀ i, t.manager.work i = none
  | _ => True

/-- A slot that is loaded gets the last place in the table. Its key is free, or the
    last already. -/
def Appends (t : Traced) (e : Event) : Prop :=
  ∀ p ∈ loading cfg t.manager e, p.1.Trails p.2.cacheKey

/-- The table is in the order of the last returns. -/
def Ordered (t : Traced) : Prop := t.manager.loaded.InOrder t.returns

/-- The slot a task is about to evict for `ensure_loaded`. -/
def evicting : Option Work → Option ℕ
  | some (.unload v (.load _)) => if v.phase = .putting then some v.slot else none
  | _ => none

/-- In a step to `u` a call of `ensure_loaded` begins to evict a slot. -/
def Evicts (t u : Traced) (b : ℕ) : Prop :=
  ∃ k, evicting (u.manager.work k) = some b ∧ evicting (t.manager.work k) ≠ some b

/-- Every slot in the table has been returned, and all others in it were returned
    again after this one last was. -/
def LeastRecent (t : Traced) (b : ℕ) : Prop :=
  (∀ c ∈ t.manager.loaded.values, c ∈ t.returns) ∧ b ∈ t.manager.loaded.values ∧
    ∀ c ∈ t.manager.loaded.values, c ≠ b → Earlier t.returns b c

instance (t : Traced) (e : Event) : Decidable (t.Appends cfg e) :=
  inferInstanceAs (Decidable (∀ p ∈ loading cfg t.manager e, p.1.Trails p.2.cacheKey))

instance (t : Traced) (b : ℕ) : Decidable (t.LeastRecent b) :=
  inferInstanceAs (Decidable ((∀ c ∈ t.manager.loaded.values, c ∈ t.returns) ∧
    b ∈ t.manager.loaded.values ∧
    ∀ c ∈ t.manager.loaded.values, c ≠ b → t.returns.idxOf c < t.returns.idxOf b))

variable {cfg} {t t' : Traced} {e : Event}

theorem ordered_start : start.Ordered := Dict.inOrder_empty []

/-- With one task at most, what a call did not find is not there when it gets the
    lock. -/
structure Solo (m : ModelManager) : Prop where
  single : ∀ i j, m.work i ≠ none → m.work j ≠ none → i = j
  misses : ∀ k r, m.work k = some (.acquire r) → m.hit r = none

theorem solo_start : Solo .start := ⟨fun _ _ h => absurd rfl h, fun _ _ h => by cases h⟩

theorem Solo.of_same {m u : ModelManager} (h : Solo m) (hwork : u.work = m.work)
    (hloaded : u.loaded = m.loaded) (hsizes : SameSizes u m) : Solo u := by
  refine ⟨by rw [hwork]; exact h.single, ?_⟩
  intro k r hr
  rw [hwork] at hr
  rw [hit_congr hloaded hsizes]
  exact h.misses k r hr

/-- The task that makes a step is the only one after it. -/
theorem Solo.of_turn {u : ModelManager} {k : ℕ} (hothers : ∀ i, i ≠ k → u.work i = none)
    (hmisses : ∀ r, u.work k = some (.acquire r) → u.hit r = none) : Solo u := by
  have honly : ∀ i, u.work i ≠ none → i = k := by
    intro i hi
    by_contra hne
    exact hi (hothers i hne)
  refine ⟨fun i j hi hj => (honly i hi).trans (honly j hj).symm, ?_⟩
  intro i r hr
  have hi := honly i (by rw [hr]; exact Option.some_ne_none _)
  rw [hi] at hr
  exact hmisses r hr

theorem others_of_taskMove {m u : ModelManager} {k i : ℕ} {e : TaskEvent}
    (h : TaskMove cfg m k e u) (hi : i ≠ k) : u.work i = m.work i := by
  by_cases he : ∀ r, e ≠ .request r
  · exact (turns_of_taskMove h he).others i hi
  · simp only [ne_eq, not_forall, not_not] at he
    rcases he with ⟨r, rfl⟩
    cases h with
    | found r b _ _ => rw [work_submit]; rfl
    | wait r _ _ => exact Function.update_of_ne hi _ _

theorem working_of_taskMove {m u : ModelManager} {k : ℕ} {e : TaskEvent}
    (h : TaskMove cfg m k e u) (he : e.begins = false) : m.work k ≠ none := by
  cases h with
  | found r b _ _ => cases he
  | wait r _ _ => cases he
  | forceUnload tenant modelId _ => cases he
  | shutdown _ => cases he
  | fire b s _ _ => cases he
  | unwait hwork => exact hwork
  | refound r b loads hwork _ => rw [hwork]; exact Option.some_ne_none _
  | load r loads hwork _ => rw [hwork]; exact Option.some_ne_none _
  | skip b hwork => rw [hwork]; exact Option.some_ne_none _
  | offload b s hwork _ => rw [hwork]; exact Option.some_ne_none _
  | put v after hwork => rw [hwork]; exact Option.some_ne_none _
  | timeout v after hwork => rw [hwork]; exact Option.some_ne_none _
  | close v after loads s cancelled hwork _ _ => rw [hwork]; exact Option.some_ne_none _
  | abort v after hwork => rw [hwork]; exact Option.some_ne_none _
  | unput v after hwork => rw [hwork]; exact Option.some_ne_none _
  | cancel v after hwork => rw [hwork]; exact Option.some_ne_none _

/-- **Between two looks at the table nothing changes**, where calls come one after
    another. -/
theorem Solo.step {u : ModelManager} (h : Solo t.manager) (halone : t.Alone e)
    (hstep : t.manager.step cfg e = some u) : Solo u := by
  cases move_of_step hstep with
  | worker b s e _ hmove =>
      rcases roster_workerMove hmove with ⟨hroster, hwork⟩
      exact h.of_same hwork (loaded_of_roster hroster).1 (.workerMove hmove)
  | thread c e hmove =>
      cases hmove with
      | start _ _ => exact h.of_same rfl rfl fun _ => rfl
      | stop _ _ _ => exact h.of_same rfl rfl fun _ => rfl
  | client j e hmove =>
      cases hmove with
      | change f _ => exact h.of_same rfl rfl fun _ => rfl
  | task k e hmove =>
      -- The task that makes the step is at work already, or begins while nobody is.
      have hidle : ∀ i, i ≠ k → t.manager.work i = none := by
        intro i hi
        cases hbegins : e.begins with
        | true => exact halone hbegins i
        | false =>
            by_contra hwork
            exact hi (h.single i k hwork (working_of_taskMove hmove hbegins))
      refine .of_turn (fun i hi => (others_of_taskMove hmove hi).trans (hidle i hi)) ?_
      intro r hr
      by_cases he : ∀ r, e ≠ .request r
      · have hnext := next_of_taskMove hmove he
        rw [hr] at hnext
        cases hnext
      · simp only [ne_eq, not_forall, not_not] at he
        rcases he with ⟨r', rfl⟩
        cases hmove with
        | found r' b hwork _ =>
            rw [work_submit] at hr
            have hr' : t.manager.work k = some (.acquire r) := hr
            rw [hwork] at hr'
            cases hr'
        | wait r' _ hhit =>
            have hself : (t.manager.setWork k (some (.acquire r'))).work k = some (.acquire r') :=
              Function.update_self _ _ _
            rw [hself] at hr
            rw [← Work.acquire.inj (Option.some.inj hr)]
            exact hhit

theorem Ordered.shrinks {d : Dict String ℕ} (h : t.Ordered) (hd : Shrinks d t.manager.loaded) :
    d.InOrder t.returns := by
  rcases hd with rfl | ⟨key, rfl⟩
  · exact h
  · exact Dict.InOrder.erase h key

/-- A new slot is in no table. -/
theorem new_not_mem {m : ModelManager} (h : Filed cfg m) {d : Dict String ℕ}
    (hd : Shrinks d m.loaded) : m.slots.length ∉ d.values := by
  intro hmem
  rcases List.mem_map.mp hmem with ⟨⟨key, b⟩, hentry, hb⟩
  have hentry' : (key, b) ∈ m.loaded.entries := by
    rcases hd with rfl | ⟨key', rfl⟩
    · exact hentry
    · exact (List.mem_filter.mp hentry).1
  have hlt := h.keyed.lt_length ((Dict.mem_entries_iff _ _ _).mp hentry')
  rw [roster, List.length_map] at hlt
  exact absurd hb (Nat.ne_of_lt hlt)

/-- A step that makes no slot and looks for none returns none. -/
theorem returned_none {m u : ModelManager} (h : Solo m) (hlength : u.slots.length = m.slots.length)
    (he : ∀ k r, e ≠ .task k (.request r)) : returned m e u = none := by
  unfold returned
  rw [hlength, if_neg (Nat.lt_irrefl _)]
  split
  · rename_i k r
    exact absurd rfl (he k r)
  · rename_i k loads
    split
    · rename_i r hwork
      exact h.misses k r hwork
    · rfl
  · rfl

/-- **Which steps keep the order.** -/
theorem ordered_step_iff (hfiled : Filed cfg t.manager) (hsolo : Solo t.manager) (h : t.Ordered)
    (hstep : t.step cfg e = some t') : t.Appends cfg e ↔ t'.Ordered := by
  rcases Option.map_eq_some_iff.mp hstep with ⟨u, hu, rfl⟩
  -- A step that loads nothing and returns nothing may take keys out.
  have hkept : loading cfg t.manager e = none → Shrinks u.loaded t.manager.loaded →
      returned t.manager e u = none →
      (t.Appends cfg e ↔ Ordered ⟨u, (returned t.manager e u).toList ++ t.returns⟩) := by
    intro hloading hshrinks hreturned
    rw [hreturned]
    refine iff_of_true ?_ (h.shrinks hshrinks)
    intro p hp
    rw [hloading] at hp
    cases hp
  cases move_of_step hu with
  | worker b s e _ hmove =>
      rcases loaded_of_roster (roster_workerMove hmove).1 with ⟨hloaded, hlength⟩
      exact hkept rfl (Or.inl hloaded) (returned_none hsolo hlength (by simp))
  | thread c e hmove =>
      cases hmove with
      | start _ _ => exact hkept rfl (Or.inl rfl) (returned_none hsolo rfl (by simp))
      | stop _ _ _ => exact hkept rfl (Or.inl rfl) (returned_none hsolo rfl (by simp))
  | client j e hmove =>
      cases hmove with
      | change f _ => exact hkept rfl (Or.inl rfl) (returned_none hsolo rfl (by simp))
  | task k e hmove =>
      -- A request is answered from the table or waits. All else may load or unload.
      by_cases he : ∀ r, e ≠ .request r
      · rcases table_of_taskMove hmove he with
          ⟨table, r, hloading, hshrinks, hset, hlength⟩ | ⟨hloading, hshrinks, hlength⟩
        · have hreturned : returned t.manager (.task k e) u = some t.manager.slots.length := by
            unfold returned
            rw [hlength, if_pos (Nat.lt_succ_self _)]
          have hiff := Dict.inOrder_set_iff (h.shrinks hshrinks) r.cacheKey
            (new_not_mem hfiled hshrinks)
          rw [hreturned, Ordered, hset]
          refine Iff.trans ?_ hiff.symm
          rw [Appends, hloading]
          simp only [Option.mem_def, Option.some.injEq, forall_eq']
        · refine hkept hloading hshrinks (returned_none hsolo hlength ?_)
          intro k' r hc
          exact he r (Event.task.inj hc).2
      · simp only [ne_eq, not_forall, not_not] at he
        rcases he with ⟨r, rfl⟩
        cases hmove with
        | found r b _ hhit =>
            have hreturned : returned t.manager (.task k (.request r))
                (((t.manager.setLoaded (t.manager.loaded.moveToEnd r.cacheKey)).resetIdle
                  b).submit cfg b r) = some b := by
              unfold returned
              rw [(turns_of_found cfg t.manager k b r).2, if_neg (Nat.lt_irrefl _)]
              exact hhit
            have hloaded : (((t.manager.setLoaded (t.manager.loaded.moveToEnd
                r.cacheKey)).resetIdle b).submit cfg b r).loaded =
                  t.manager.loaded.moveToEnd r.cacheKey := congrArg Roster.table (roster_submit b r)
            rw [hreturned, Ordered, hloaded]
            -- What is found is returned, and is put last.
            refine iff_of_true (fun p hp => by cases hp) ?_
            exact Dict.InOrder.moveToEnd h (loaded_of_hit hhit)
        | wait r _ hhit =>
            refine hkept rfl (Or.inl rfl) ?_
            have hlength : (t.manager.setWork k (some (.acquire r))).slots.length =
                t.manager.slots.length := rfl
            unfold returned
            rw [hlength, if_neg (Nat.lt_irrefl _)]
            exact hhit

/-- An eviction is of the slot at the head. -/
theorem head_of_evicts {b : ℕ} (hstep : t.step cfg e = some t') (h : t.Evicts t' b) :
    ∃ key rest, t'.manager.loaded.entries = (key, b) :: rest := by
  rcases Option.map_eq_some_iff.mp hstep with ⟨u, hu, rfl⟩
  rcases h with ⟨i, hevicting, hbefore⟩
  have hnew : t.manager.work i ≠ u.work i := fun hc => hbefore (by rw [hc]; exact hevicting)
  have hwork : ∃ v r, u.work i = some (.unload v (.load r)) ∧ v.phase = .putting ∧ v.slot = b := by
    dsimp only at hevicting
    unfold evicting at hevicting
    split at hevicting
    · rename_i v r hwork
      split at hevicting
      · rename_i hphase
        exact ⟨v, r, hwork, hphase, Option.some.inj hevicting⟩
      · cases hevicting
    · cases hevicting
  rcases hwork with ⟨v, r, hwork, hphase, rfl⟩
  dsimp only
  cases move_of_step hu with
  | worker b s e _ hmove => exact absurd (by rw [(roster_workerMove hmove).2]) hnew
  | thread c e hmove =>
      cases hmove with
      | start _ _ => exact absurd rfl hnew
      | stop _ _ _ => exact absurd rfl hnew
  | client j e hmove =>
      cases hmove with
      | change f _ => exact absurd rfl hnew
  | task k e hmove =>
      -- The eviction is the work of the task that makes the step.
      have hik : i = k := by
        by_contra hne
        exact hnew (others_of_taskMove hmove hne).symm
      by_cases he : ∀ r, e ≠ .request r
      · have hnext := next_of_taskMove hmove he
        rw [← hik, hwork] at hnext
        cases hnext with
        | unload v after hhead =>
            rcases hhead hphase r rfl with ⟨rest, hrest⟩
            exact ⟨v.key, rest, hrest⟩
      · simp only [ne_eq, not_forall, not_not] at he
        rcases he with ⟨r', rfl⟩
        cases hmove with
        | found r' b' _ _ => exact absurd (by rw [work_submit]; rfl) hnew
        | wait r' _ _ =>
            have hself : (t.manager.setWork k (some (.acquire r'))).work k = some (.acquire r') :=
              Function.update_self _ _ _
            rw [hik, hself] at hwork
            cases hwork

/-- In order, the slot at the head is the one to evict. -/
theorem Ordered.leastRecent (h : t.Ordered) {key : String} {b : ℕ} {rest : List (String × ℕ)}
    (hhead : t.manager.loaded.entries = (key, b) :: rest) : t.LeastRecent b := by
  refine ⟨h.used, ?_, Dict.InOrder.head h hhead⟩
  rw [Dict.values, hhead]
  exact List.mem_cons_self

/-- What holds in every state of the runs. -/
theorem ordered_of_run
    (h : Transition.Run (step cfg) (fun t e _ => Alone t e ∧ Appends cfg t e) start t) :
    Filed cfg t.manager ∧ Solo t.manager ∧ t.Ordered := by
  refine h.invariant (fun t => Filed cfg t.manager ∧ Solo t.manager ∧ t.Ordered)
    ⟨filed_start, solo_start, ordered_start⟩ ?_
  rintro t e t' ⟨hfiled, hsolo, hordered⟩ ⟨halone, happends⟩ hstep
  have hordered' := (ordered_step_iff hfiled hsolo hordered hstep).mp happends
  rcases Option.map_eq_some_iff.mp hstep with ⟨u, hu, rfl⟩
  exact ⟨hfiled.step hu, hsolo.step halone hu, hordered'⟩

end Traced

open Transition Traced

/-- **Least recently used eviction.** Of calls one after another, with unloads and
    offloads in between: the runs in which every slot that is loaded gets the last
    place in the table are those in which the table stays in the order of the last
    returns. In these whoever is evicted is, of the slots in the table, the one whose
    last return is the oldest. -/
theorem eviction_least_recent (cfg : Config) :
    (∀ t, Run (Traced.step cfg) (fun t e _ => Alone t e ∧ Appends cfg t e) Traced.start t ↔
      Run (Traced.step cfg) (fun t e u => Alone t e ∧ Ordered u) Traced.start t) ∧
    ∀ t e u b, Run (Traced.step cfg) (fun t e _ => Alone t e ∧ Appends cfg t e) Traced.start t →
      Appends cfg t e → Traced.step cfg t e = some u → Evicts t u b → LeastRecent u b := by
  constructor
  · intro t
    refine run_iff_keeping (fun t => ModelManager.Filed cfg t.manager)
      (fun t => Solo t.manager ∧ Ordered t) _ _ ModelManager.filed_start
      ⟨solo_start, ordered_start⟩ ?_ ?_ ?_
    · intro t e t' hfiled hstep
      rcases Option.map_eq_some_iff.mp hstep with ⟨u, hu, rfl⟩
      exact hfiled.step hu
    · rintro t e t' ⟨hsolo, -⟩ hstep ⟨halone, hordered⟩
      rcases Option.map_eq_some_iff.mp hstep with ⟨u, hu, rfl⟩
      exact ⟨hsolo.step halone hu, hordered⟩
    · rintro t e t' hfiled ⟨hsolo, hordered⟩ hstep
      rw [ordered_step_iff hfiled hsolo hordered hstep]
  · intro t e u b hrun happends hstep hevicts
    rcases ordered_of_run hrun with ⟨hfiled, hsolo, hordered⟩
    rcases head_of_evicts hstep hevicts with ⟨key, rest, hhead⟩
    exact ((ordered_step_iff hfiled hsolo hordered hstep).mp happends).leastRecent hhead

/-- A request for a model of the default tenant. -/
def Request.model (modelId : String) (nCtx : Option ℤ) : Request :=
  ⟨"default", modelId, nCtx, "chat", "", none⟩

/-- The first task is the only one that does anything, and begins when it is through. -/
def Traced.First (t : Traced) : ModelManager.Event → Bool
  | .task k e => k == 0 && (!e.begins || (t.manager.work 0).isNone)
  | _ => false

/-- What one task does is done one after another. -/
theorem Traced.run_of_first {cfg : Config} {t : Traced}
    (ok ok' : Traced → ModelManager.Event → Traced → Prop)
    (hfirst : ∀ t e u, ok t e u → t.First e = true)
    (hok : ∀ t e u, ok t e u → Alone t e → ok' t e u)
    (h : Run (Traced.step cfg) ok Traced.start t) :
    Run (Traced.step cfg) ok' Traced.start t ∧ ∀ i, i ≠ 0 → t.manager.work i = none := by
  induction h with
  | start => exact ⟨.start, fun i _ => rfl⟩
  | tail t u e _ hstep hu ih =>
      rcases ih with ⟨hrun, hothers⟩
      have hf := hfirst t e u hstep
      cases e with
      | task k e =>
          rw [First, Bool.and_eq_true, beq_iff_eq] at hf
          rcases hf with ⟨rfl, hbegins⟩
          have halone : Alone t (.task 0 e) := by
            intro he i
            by_cases hi : i = 0
            · rw [he, Bool.not_true, Bool.false_or, Option.isNone_iff_eq_none] at hbegins
              rw [hi, hbegins]
            · exact hothers i hi
          refine ⟨.tail t u _ hrun (hok t _ u hstep halone) hu, ?_⟩
          rcases Option.map_eq_some_iff.mp hu with ⟨m, hm, rfl⟩
          intro i hi
          cases ModelManager.move_of_step hm with
          | task k e hmove => exact (others_of_taskMove hmove hi).trans (hothers i hi)
      | worker b e => cases hf
      | thread c e => cases hf
      | client j e => cases hf

/-- Two slots may be loaded. A model is loaded, then another, and the first is asked for
    again: the second is evicted for a third. -/
theorem eviction_least_recent_sample :
    ∃ t u : Traced, Run (Traced.step ⟨2, 2048, 8⟩)
        (fun t e _ => Alone t e ∧ Appends ⟨2, 2048, 8⟩ t e) Traced.start t ∧
      Traced.step ⟨2, 2048, 8⟩ t (.task 0 (.acquire true)) = some u ∧ LeastRecent u 1 := by
  have hplay : ((playIf (fun t e => t.First e && decide (Appends ⟨2, 2048, 8⟩ t e))
      (Traced.step ⟨2, 2048, 8⟩) Traced.start
      [.task 0 (.request (.model "a" none)), .task 0 (.acquire true),
        .task 0 (.request (.model "b" none)), .task 0 (.acquire true),
        .task 0 (.request (.model "a" none)), .task 0 (.request (.model "c" none))]).any
          (fun t => decide (Appends ⟨2, 2048, 8⟩ t (.task 0 (.acquire true))) &&
            (Traced.step ⟨2, 2048, 8⟩ t (.task 0 (.acquire true))).any fun u =>
              decide (evicting (u.manager.work 0) = some 1 ∧
                evicting (t.manager.work 0) ≠ some 1))) = true := by
    decide +kernel
  rcases (Option.any_eq_true _ _).mp hplay with ⟨t, ht, hend⟩
  rw [Bool.and_eq_true, Option.any_eq_true] at hend
  rcases hend with ⟨happends, u, hu, hevicts⟩
  have hrun : Run (Traced.step ⟨2, 2048, 8⟩)
      (fun t e _ => Alone t e ∧ Appends ⟨2, 2048, 8⟩ t e) Traced.start t := by
    refine (Traced.run_of_first (fun t e _ => t.First e = true ∧ Appends ⟨2, 2048, 8⟩ t e) _
      (fun t e u h => h.1) (fun t e u h halone => ⟨halone, h.2⟩)
      (run_of_playIf _ _ ?_ ht)).1
    intro t e u hcheck
    rw [Bool.and_eq_true, decide_eq_true_eq] at hcheck
    exact hcheck
  refine ⟨t, u, hrun, hu, ?_⟩
  exact (eviction_least_recent ⟨2, 2048, 8⟩).2 t (.task 0 (.acquire true)) u 1 hrun
    (of_decide_eq_true happends) hu ⟨0, of_decide_eq_true hevicts⟩

/-- Three slots may be loaded. A model is loaded, then another, and the first again for
    a larger context. Then a third is loaded, and for a fourth the slot is evicted that
    was returned after that of the second. -/
theorem fresh_slot_evicted :
    ∃ t u : Traced, Run (Traced.step ⟨3, 2048, 8⟩) (fun t e _ => Alone t e) Traced.start t ∧
      Traced.step ⟨3, 2048, 8⟩ t (.task 0 (.acquire true)) = some u ∧ Evicts t u 2 ∧
      ¬ LeastRecent u 2 := by
  have hplay : ((playIf (fun t e => t.First e) (Traced.step ⟨3, 2048, 8⟩) Traced.start
      [.task 0 (.request (.model "a" none)), .task 0 (.acquire true),
        .task 0 (.request (.model "b" none)), .task 0 (.acquire true),
        .task 0 (.request (.model "a" (some 4096))), .task 0 (.acquire true),
        .task 0 (.request (.model "c" none)), .task 0 (.acquire true),
        .task 0 (.request (.model "d" none))]).any
          (fun t => (Traced.step ⟨3, 2048, 8⟩ t (.task 0 (.acquire true))).any fun u =>
            decide ((evicting (u.manager.work 0) = some 2 ∧
              evicting (t.manager.work 0) ≠ some 2) ∧ ¬ LeastRecent u 2))) = true := by
    decide +kernel
  rcases (Option.any_eq_true _ _).mp hplay with ⟨t, ht, hend⟩
  rcases (Option.any_eq_true _ _).mp hend with ⟨u, hu, hend⟩
  rcases of_decide_eq_true hend with ⟨hevicts, hrecent⟩
  have hrun : Run (Traced.step ⟨3, 2048, 8⟩) (fun t e _ => Alone t e) Traced.start t :=
    (Traced.run_of_first (fun t e _ => t.First e = true) _ (fun t e u h => h)
      (fun t e u _ halone => halone) (run_of_playIf _ _ (fun t e u h => h) ht)).1
  exact ⟨t, u, hrun, hu, ⟨0, hevicts⟩, hrecent⟩

end Models

end SecureLlm
