import SecureLlm.Models.Turns

/-!
# What Tasks Look Up

A task of `ensure_loaded` looks into the table, at its head when there is no room and
under its key otherwise, and at the contexts of the slots. Only tasks change the
table, and nobody changes a context.

## Main definitions

* `ModelManager.loading`: What a step loads, and into which table.
* `ModelManager.returned`: The slot that is returned in a step.
* `ModelManager.SameSizes`: The contexts are as they were.
* `ModelManager.Next`: What a task is at after a step.

## Theorems

* `ModelManager.table_of_taskMove`: What a task does to the table.
* `ModelManager.hit_congr`: What is found depends on the table and the contexts.
* `ModelManager.next_of_taskMove`: What is about to be evicted is at the head.
-/

namespace SecureLlm

open Library

namespace Models

namespace ModelManager

variable (cfg : Config) (m : ModelManager)

/-- The table a step loads into, and the request it loads for. -/
def loading : Event → Option (Dict String ℕ × Request)
  | .task k (.acquire loads) =>
    match m.work k with
    | some (.acquire r) =>
      if loads ∧ m.hit r = none ∧ m.loaded.entries.length < cfg.maxLoaded then some (m.loaded, r)
      else none
    | _ => none
  | .task k (.close loads) =>
    match m.work k with
    -- The slot whose unload ends is out of the table by then.
    | some (.unload v (.load r)) =>
      if loads ∧ (m.loaded.erase v.key).entries.length < cfg.maxLoaded then
        some (m.loaded.erase v.key, r)
      else none
    | _ => none
  | _ => none

/-- The slot `ensure_loaded` returns in a step to `u`: one that is new, or one that is
    found. -/
def returned (e : Event) (u : ModelManager) : Option ℕ :=
  if m.slots.length < u.slots.length then some m.slots.length
  else match e with
    | .task _ (.request r) => m.hit r
    | .task k (.acquire _) =>
      match m.work k with
      | some (.acquire r) => m.hit r
      | _ => none
    | _ => none

/-- Does an event begin a task? -/
def TaskEvent.begins : TaskEvent → Bool
  | .request _ | .forceUnload _ _ | .shutdown | .fire _ => true
  | _ => false

variable {cfg m} {u : ModelManager} {k : ℕ}

/-- A table with fewer keys. -/
def Shrinks (d d' : Dict String ℕ) : Prop := d = d' ∨ ∃ key, d = d'.erase key

theorem loaded_of_roster {n : ModelManager} (h : u.roster = n.roster) :
    u.loaded = n.loaded ∧ u.slots.length = n.slots.length :=
  ⟨congrArg Roster.table h, length_slots_eq h⟩

/-- Making room: a slot is loaded into the table, or the table stays. -/
theorem table_of_loadOrEvict (cfg : Config) (m : ModelManager) (k : ℕ) (r : Request)
    (loads : Bool) :
    (loads = true ∧ m.loaded.entries.length < cfg.maxLoaded →
      (m.loadOrEvict cfg k r loads).loaded = m.loaded.set r.cacheKey m.slots.length ∧
        (m.loadOrEvict cfg k r loads).slots.length = m.slots.length + 1) ∧
    (¬ (loads = true ∧ m.loaded.entries.length < cfg.maxLoaded) →
      (m.loadOrEvict cfg k r loads).loaded = m.loaded ∧
        (m.loadOrEvict cfg k r loads).slots.length = m.slots.length) := by
  have hroster := @roster_loadOrEvict cfg m k r loads
  constructor
  · intro hloads
    rw [if_pos hloads] at hroster
    have htable := congrArg Roster.table hroster
    have hlength := congrArg (fun roster => roster.objects.length) hroster
    simp only [Roster.enter, roster, List.length_append, List.length_map,
      List.length_singleton] at htable hlength
    exact ⟨htable, hlength⟩
  · intro hloads
    rw [if_neg hloads] at hroster
    exact loaded_of_roster hroster

/-- **What a task does to the table.** It loads as `loading` says or takes a key out at
    most. -/
theorem table_of_taskMove {e : TaskEvent} (h : TaskMove cfg m k e u)
    (he : ∀ r, e ≠ .request r) :
    (∃ table r, loading cfg m (.task k e) = some (table, r) ∧ Shrinks table m.loaded ∧
      u.loaded = table.set r.cacheKey m.slots.length ∧ u.slots.length = m.slots.length + 1) ∨
    loading cfg m (.task k e) = none ∧ Shrinks u.loaded m.loaded ∧
      u.slots.length = m.slots.length := by
  -- Most of what tasks do leaves the table as it is.
  have hsame : ∀ n : ModelManager, n.roster = m.roster →
      Shrinks n.loaded m.loaded ∧ n.slots.length = m.slots.length :=
    fun n hn => ⟨Or.inl (loaded_of_roster hn).1, (loaded_of_roster hn).2⟩
  have hsweep : ∀ (n : ModelManager) (targets : List (String × ℕ)), n.roster = m.roster →
      (n.sweep k targets).roster = m.roster :=
    fun n targets hn => (roster_sweep k targets).trans hn
  have hfail : ∀ after, (m.fail k after).roster = m.roster := by
    intro after
    cases after <;> rfl
  cases h with
  | found r b _ _ => exact absurd rfl (he r)
  | wait r _ _ => exact absurd rfl (he r)
  | refound r b loads hwork hhit =>
      refine Or.inr ⟨?_, hsame _ ?_⟩
      · simp only [loading, hwork, hhit, reduceCtorEq, false_and, and_false, if_false]
      · rw [roster_submit]
        exact roster_change b _ fun _ => ⟨rfl, rfl⟩
  | load r loads hwork hhit =>
      rcases table_of_loadOrEvict cfg (m.setLock r.cacheKey (some k)) k r loads with
        ⟨hloads, hstays⟩
      by_cases hroom : loads = true ∧ m.loaded.entries.length < cfg.maxLoaded
      · refine Or.inl ⟨m.loaded, r, ?_, Or.inl rfl, hloads hroom⟩
        simp only [loading, hwork, hhit, hroom, and_self, if_true]
      · refine Or.inr ⟨?_, Or.inl (hstays hroom).1, (hstays hroom).2⟩
        simp only [loading, hwork, hhit, true_and, hroom, if_false]
  | forceUnload tenant modelId _ => exact Or.inr ⟨rfl, hsame _ (hsweep m _ rfl)⟩
  | shutdown _ => exact Or.inr ⟨rfl, hsame _ (hsweep _ _ rfl)⟩
  | fire b s _ _ => exact Or.inr ⟨rfl, hsame _ (roster_change b _ fun _ => ⟨rfl, rfl⟩)⟩
  | skip b _ => exact Or.inr ⟨rfl, hsame _ rfl⟩
  | offload b s _ _ => exact Or.inr ⟨rfl, hsame _ (roster_beginUnload k _ b .stop)⟩
  | put v after _ => exact Or.inr ⟨rfl, hsame _ (roster_change v.slot _ fun _ => ⟨rfl, rfl⟩)⟩
  | timeout v after _ =>
      exact Or.inr ⟨rfl, hsame _ (roster_change v.slot _ fun _ => ⟨rfl, rfl⟩)⟩
  | close v after loads s cancelled hwork _ _ =>
      have hclosed : (m.close v).loaded = m.loaded.erase v.key ∧
          (m.close v).slots.length = m.slots.length := ⟨rfl, List.length_modify _ _ _⟩
      cases after with
      | load r =>
          rcases table_of_loadOrEvict cfg (m.close v) k r loads with ⟨hloads, hstays⟩
          rw [hclosed.1, hclosed.2] at hloads hstays
          by_cases hroom : loads = true ∧ (m.loaded.erase v.key).entries.length < cfg.maxLoaded
          · refine Or.inl ⟨m.loaded.erase v.key, r, ?_, Or.inr ⟨v.key, rfl⟩, hloads hroom⟩
            simp only [loading, hwork, hroom, and_self, if_true]
          · refine Or.inr ⟨?_, Or.inr ⟨v.key, (hstays hroom).1⟩, (hstays hroom).2⟩
            simp only [loading, hwork, hroom, if_false]
      | next rest =>
          rcases loaded_of_roster (roster_sweep (m := m.close v) k rest) with ⟨hloaded, hlength⟩
          refine Or.inr ⟨?_, Or.inr ⟨v.key, hloaded⟩, hlength.trans hclosed.2⟩
          simp only [loading, hwork]
      | stop =>
          refine Or.inr ⟨?_, Or.inr ⟨v.key, rfl⟩, hclosed.2⟩
          simp only [loading, hwork]
  | abort v after _ => exact Or.inr ⟨rfl, hsame _ (hfail after)⟩
  | unwait _ => exact Or.inr ⟨rfl, hsame _ rfl⟩
  | unput v after _ => exact Or.inr ⟨rfl, hsame _ (hfail after)⟩
  | cancel v after _ => exact Or.inr ⟨rfl, hsame _ (roster_change v.slot _ fun _ => ⟨rfl, rfl⟩)⟩

/-! ## What is found -/

/-- The slots have the contexts of those of another state. -/
def SameSizes (u m : ModelManager) : Prop :=
  ∀ i : ℕ, u.slots[i]?.map Loaded.nCtx = m.slots[i]?.map Loaded.nCtx

theorem SameSizes.trans {n : ModelManager} (h : SameSizes u n) (h' : SameSizes n m) :
    SameSizes u m := fun i => (h i).trans (h' i)

theorem SameSizes.change (m : ModelManager) (b : ℕ) (f : Loaded → Loaded)
    (hf : ∀ s, (f s).nCtx = s.nCtx) : SameSizes (m.change b f) m := by
  intro i
  rw [slots_change]
  by_cases hbi : b = i
  · rw [if_pos hbi, Option.map_map]
    exact congrArg (fun g => m.slots[i]?.map g) (funext hf)
  · rw [if_neg hbi]

/-- No worker changes a context. -/
theorem SameSizes.workerMove {b : ℕ} {s : Loaded} {e : WorkerEvent}
    (hmove : m.WorkerMove b s e u) : SameSizes u m := by
  have hmove' : ∀ (n : ModelManager) (w : Worker), SameSizes (n.move b w) n :=
    fun n w => .change n b _ fun _ => rfl
  have hreset : ∀ n : ModelManager, SameSizes (n.resetIdle b) n :=
    fun n => .change n b _ fun _ => rfl
  have hclear : ∀ n : ModelManager,
      SameSizes (n.change b fun s => { s with cancelRequested := false }) n :=
    fun n => .change n b _ fun _ => rfl
  have hpump : ∀ (n : ModelManager) (j : ℕ) (cancelled : Bool),
      SameSizes (n.pump b j cancelled) n := by
    intro n j cancelled
    unfold pump
    split
    · exact hmove' n _
    · exact hmove' n _
  cases hmove with
  | leave rest _ _ => exact .change m b _ fun _ => rfl
  | begin j rest _ _ =>
      have hchange : SameSizes (m.change b fun s =>
          { s with queue := rest, worker := .calling j m.calls.length }) m :=
        .change m b _ fun _ => rfl
      exact hchange
  | answer ok j c job _ _ =>
      unfold ModelManager.answer
      split
      · split
        · exact hpump _ j job.cancelled
        · exact (hmove' _ _).trans (hreset _)
      · exact hmove' _ _
  | chunk j c slot _ _ => exact hmove' m _
  | last j c slot result _ _ => exact hmove' m _
  | put j job _ _ => exact hpump _ j job.cancelled
  | finish j cancelled _ => exact (hmove' _ _).trans (hreset _)
  | cease _ => exact (hmove' _ _).trans (hclear m)
  | unput j _ => exact (hmove' _ _).trans (hclear m)
  | drop j c slot _ _ => exact (hmove' _ _).trans (hclear m)
  | abandon j c _ _ => exact (hmove' _ _).trans (hclear m)

/-- What is found depends on the table and the contexts. -/
theorem hit_congr (hloaded : u.loaded = m.loaded) (hsizes : SameSizes u m) (r : Request) :
    u.hit r = m.hit r := by
  unfold hit
  rw [hloaded]
  cases m.loaded.get? r.cacheKey with
  | none => rfl
  | some b =>
      dsimp only
      have hb := hsizes b
      cases hm : m.slots[b]? with
      | none =>
          rw [hm, Option.map_none, Option.map_eq_none_iff] at hb
          rw [hb]
      | some s =>
          rw [hm, Option.map_some, Option.map_eq_some_iff] at hb
          rcases hb with ⟨s', hs', hctx⟩
          rw [hs']
          dsimp only
          rw [hctx]

/-- What a task is at once it has gone on. A new eviction is of the slot at the head. -/
inductive Next (u : ModelManager) : Option Work → Prop where
  | through : Next u none
  | idle (b : ℕ) : Next u (some (.idle b))
  | unload (v : Unload) (after : Then)
      (h : v.phase = .putting → ∀ r, after = .load r →
        ∃ rest, u.loaded.entries = (v.key, v.slot) :: rest) : Next u (some (.unload v after))

theorem Next.of_none (h : u.work k = none) : Next u (u.work k) := by
  rw [h]
  exact .through

theorem next_loadOrEvict (cfg : Config) (m : ModelManager) (k : ℕ) (r : Request)
    (loads : Bool) : Next (m.loadOrEvict cfg k r loads) ((m.loadOrEvict cfg k r loads).work k) := by
  unfold loadOrEvict
  split
  · split
    · exact .of_none (Function.update_self _ _ _)
    · rename_i key victim rest hentries
      have hwork : (m.beginUnload k key victim (.load r)).work k =
          some (.unload ⟨key, victim, .putting⟩ (.load r)) := Function.update_self _ _ _
      rw [hwork]
      exact .unload _ _ fun _ _ _ => ⟨rest, hentries⟩
  · split
    · refine .of_none ?_
      rw [work_submit]
      exact Function.update_self _ _ _
    · exact .of_none (Function.update_self _ _ _)

theorem next_sweep (m : ModelManager) (k : ℕ) (targets : List (String × ℕ)) :
    Next (m.sweep k targets) ((m.sweep k targets).work k) := by
  cases targets with
  | nil => exact .of_none (Function.update_self _ _ _)
  | cons e rest =>
      have hwork : (m.sweep k (e :: rest)).work k =
          some (.unload ⟨e.1, e.2, .putting⟩ (.next rest)) := Function.update_self _ _ _
      rw [hwork]
      exact .unload _ _ fun _ r hr => by cases hr

theorem next_of_taskMove {e : TaskEvent} (h : TaskMove cfg m k e u)
    (he : ∀ r, e ≠ .request r) : Next u (u.work k) := by
  have hfail : ∀ after, Next (m.fail k after) ((m.fail k after).work k) := by
    intro after
    refine .of_none ?_
    cases after <;> exact Function.update_self _ _ _
  have hphase : ∀ (n : ModelManager) (v : Unload) (after : Then), v.phase ≠ .putting →
      n.work k = some (.unload v after) → Next n (n.work k) := by
    intro n v after hv hn
    rw [hn]
    exact .unload v after fun hc => absurd hc hv
  cases h with
  | found r b _ _ => exact absurd rfl (he r)
  | wait r _ _ => exact absurd rfl (he r)
  | refound r b loads _ _ =>
      refine .of_none ?_
      rw [work_submit]
      exact Function.update_self _ _ _
  | load r loads _ _ => exact next_loadOrEvict cfg _ k r loads
  | forceUnload tenant modelId _ => exact next_sweep m k _
  | shutdown _ => exact next_sweep _ k _
  | fire b s _ _ =>
      have hwork : ((m.change b fun s => { s with timer := false }).setWork k
          (some (.idle b))).work k = some (.idle b) := Function.update_self _ _ _
      rw [hwork]
      exact .idle b
  | skip b _ => exact Next.of_none (Function.update_self _ _ _)
  | offload b s _ _ =>
      have hwork : (m.beginUnload k s.cacheKey b .stop).work k =
          some (.unload ⟨s.cacheKey, b, .putting⟩ .stop) := Function.update_self _ _ _
      rw [hwork]
      exact .unload _ _ fun _ r hr => by cases hr
  | put v after _ => exact hphase _ _ _ (by simp) (Function.update_self _ _ _)
  | timeout v after _ => exact hphase _ _ _ (by simp) (Function.update_self _ _ _)
  | close v after loads s cancelled _ _ _ =>
      cases after with
      | load r => exact next_loadOrEvict cfg _ k r loads
      | next rest => exact next_sweep _ k rest
      | stop => exact Next.of_none (Function.update_self _ _ _)
  | abort v after _ => exact hfail after
  | unwait _ => exact Next.of_none (Function.update_self _ _ _)
  | unput v after _ => exact hfail after
  | cancel v after _ => exact hphase _ _ _ (by simp) (Function.update_self _ _ _)

end ModelManager

end Models

end SecureLlm
