import SecureLlm.Models.Steps

/-!
# The Slot Table

The table of slots is what the manager knows of the models it has loaded. It
decides by the length of the table whether there is room for another, so the
bound on loaded models holds only while the table accounts for every backend
that is live.

Two things take a live backend out of the table. A request for a larger context
than the slot of its key has loads a second slot and assigns it to the same key.
And an unload that finishes pops its key, under which there may be another slot
by then. While neither happens, the table is right and the bound holds.

## Main definitions

* `ModelManager.roster`: The slots and their table, as objects filed under keys.
* `ModelManager.Accounted`: The table has the live backends, and there are not
  too many of them.
* `ModelManager.Orderly`: The steps that keep the account.
* `ModelManager.Filed`: What holds in every state.

## Theorems

* `ModelManager.accounted_loadOrEvict_iff`: Loading keeps the account when the
  key is free.
* `ModelManager.accounted_close_iff`: The end of an unload does when it pops its
  own slot.
* `slot_table_accounts`: The runs of orderly steps are the runs with the account.
* `slot_table_loses_backends`: A run that loses it.
-/

namespace SecureLlm

open Library

namespace Models

/-- The targets that are left to who awaits an `_unload`. -/
def Then.targets : Then → List (String × ℕ)
  | .next targets => targets
  | _ => []

/-- A task unloads slots under their own keys. -/
def Work.Sound (r : Roster String) : Work → Prop
  | .unload u after => r.Has u.key u.slot ∧ ∀ e ∈ after.targets, r.Has e.1 e.2
  | _ => True

theorem Work.Sound.mono {r r' : Roster String} {w : Work} (h : w.Sound r)
    (hhas : ∀ key b, r.Has key b → r'.Has key b) : w.Sound r' := by
  cases w with
  | unload v after => exact ⟨hhas _ _ h.1, fun e he => hhas _ _ (h.2 e he)⟩
  | acquire r => trivial
  | idle b => trivial

namespace ModelManager

variable {cfg : Config} {m u : ModelManager}

/-- The slots and their table, as objects filed under keys. -/
def roster (m : ModelManager) : Roster String :=
  ⟨m.slots.map (fun s => (s.cacheKey, !s.closed)), m.loaded⟩

/-- The slots in the table are those whose backends have not been closed, each
    under its own key, and there are no more of them than may be loaded. -/
structure Accounted (cfg : Config) (m : ModelManager) : Prop where
  filed : ∀ (key : String) (b : ℕ), m.loaded.get? key = some b →
    ∃ s : Loaded, m.slots[b]? = some s ∧ s.closed = false ∧ s.cacheKey = key
  live : ∀ (b : ℕ) (s : Loaded), m.slots[b]? = some s → s.closed = false →
    m.loaded.get? s.cacheKey = some b
  bounded : (m.slots.filter fun s => !s.closed).length ≤ cfg.maxLoaded

/-- Where a request loads, its key is free. -/
def Free (cfg : Config) (loaded : Dict String ℕ) (r : Request) (loads : Bool) : Prop :=
  loads = true → loaded.entries.length < cfg.maxLoaded → loaded.get? r.cacheKey = none

/-- A step that ends an unload finds its own slot under its key, or none, and a
    step that loads finds none. -/
def Orderly (cfg : Config) (m : ModelManager) : Event → Prop
  | .task k (.acquire loads) => ∀ r, m.work k = some (.acquire r) → m.hit r = none →
      Free cfg m.loaded r loads
  | .task k (.close loads) => ∀ v after, m.work k = some (.unload v after) →
      (∀ b, m.loaded.get? v.key = some b → b = v.slot) ∧
      ∀ r, after = .load r → Free cfg (m.loaded.erase v.key) r loads
  | _ => True

/-- The table files slots under their own keys and is not too long, and tasks
    unload slots under their own keys. -/
structure Filed (cfg : Config) (m : ModelManager) : Prop where
  keyed : m.roster.Keyed
  bounded : m.loaded.entries.length ≤ cfg.maxLoaded
  sound : ∀ k w, m.work k = some w → w.Sound m.roster

theorem getElem?_roster {b : ℕ} {key : String} {a : Bool} :
    m.roster.objects[b]? = some (key, a) ↔
      ∃ s : Loaded, m.slots[b]? = some s ∧ s.cacheKey = key ∧ (!s.closed) = a := by
  simp only [roster, List.getElem?_map, Option.map_eq_some_iff, Prod.mk.injEq]

theorem has_roster {b : ℕ} {s : Loaded} (hs : m.slots[b]? = some s) : m.roster.Has s.cacheKey b :=
  ⟨!s.closed, getElem?_roster.mpr ⟨s, hs, rfl, rfl⟩⟩

/-- The account of the manager is that of its roster. -/
theorem accounted_iff (hbounded : m.loaded.entries.length ≤ cfg.maxLoaded) :
    Accounted cfg m ↔ m.roster.Accounted := by
  constructor
  · intro h
    constructor
    · intro key b hb
      rcases h.filed key b hb with ⟨s, hs, hopen, hkey⟩
      exact getElem?_roster.mpr ⟨s, hs, hkey, by rw [hopen]; rfl⟩
    · intro key b hb
      rcases getElem?_roster.mp hb with ⟨s, hs, hkey, hopen⟩
      rw [← hkey]
      exact h.live b s hs (by simpa using hopen)
  · intro h
    refine ⟨fun key b hb => ?_, fun b s hs hopen => ?_, ?_⟩
    · rcases getElem?_roster.mp (h.filed key b hb) with ⟨s, hs, hkey, hopen⟩
      exact ⟨s, hs, by simpa using hopen, hkey⟩
    · exact h.alive s.cacheKey b (getElem?_roster.mpr ⟨s, hs, rfl, by rw [hopen]; rfl⟩)
    · have hle := Roster.length_alive_le h
      rw [Roster.alive, roster, List.filter_map, List.length_map] at hle
      exact Nat.le_trans hle hbounded

/-! ## What steps do to the roster -/

theorem roster_change (b : ℕ) (f : Loaded → Loaded)
    (hf : ∀ s, (f s).cacheKey = s.cacheKey ∧ (f s).closed = s.closed) :
    (m.change b f).roster = m.roster := by
  have hmap : (m.slots.modify b f).map (fun s => (s.cacheKey, !s.closed)) =
      m.slots.map (fun s => (s.cacheKey, !s.closed)) := by
    apply List.ext_getElem?
    intro i
    rw [List.getElem?_map, List.getElem?_modify, List.getElem?_map]
    by_cases hbi : b = i
    · cases m.slots[i]? with
      | none => simp [hbi]
      | some s => simp [hbi, (hf s).1, (hf s).2]
    · simp [hbi]
  simp only [roster, change, hmap]

theorem roster_submit (b : ℕ) (r : Request) : (m.submit cfg b r).roster = m.roster := by
  unfold submit
  split
  · split
    · rfl
    · exact roster_change b _ fun s => ⟨rfl, rfl⟩
  · rfl

theorem roster_load (r : Request) : (m.load cfg r).roster = m.roster.enter r.cacheKey := by
  simp [roster, load, Roster.enter]

theorem roster_close (v : Unload) : (m.close v).roster = m.roster.retire v.key v.slot := by
  have hmap : (m.slots.modify v.slot fun s => { s with closed := true }).map
      (fun s => (s.cacheKey, !s.closed)) =
        (m.slots.map fun s => (s.cacheKey, !s.closed)).modify v.slot (fun o => (o.1, false)) := by
    apply List.ext_getElem?
    intro i
    rw [List.getElem?_map, List.getElem?_modify, List.getElem?_modify, List.getElem?_map]
    by_cases hi : v.slot = i
    · cases m.slots[i]? with
      | none => simp [hi]
      | some s => simp [hi]
    · simp [hi]
  simp only [roster, close, change, note, setLoaded, Roster.retire, hmap]

theorem roster_beginUnload (k : ℕ) (key : String) (b : ℕ) (after : Then) :
    (m.beginUnload k key b after).roster = m.roster :=
  roster_change b (fun s => { s with state := .unloading, timer := false }) fun _ => ⟨rfl, rfl⟩

theorem roster_sweep (k : ℕ) (targets : List (String × ℕ)) :
    (m.sweep k targets).roster = m.roster := by
  cases targets with
  | nil => rfl
  | cons e rest => exact roster_beginUnload k e.1 e.2 (.next rest)

theorem roster_loadOrEvict (k : ℕ) (r : Request) (loads : Bool) :
    (m.loadOrEvict cfg k r loads).roster =
      if loads = true ∧ m.loaded.entries.length < cfg.maxLoaded then m.roster.enter r.cacheKey
      else m.roster := by
  unfold loadOrEvict
  by_cases hroom : cfg.maxLoaded ≤ m.loaded.entries.length
  · rw [if_pos hroom, if_neg (by omega)]
    split
    · rfl
    · exact roster_beginUnload k _ _ _
  · rw [if_neg hroom]
    cases loads with
    | true =>
        rw [if_pos rfl, if_pos ⟨rfl, by omega⟩, roster_submit, roster_load]
        rfl
    | false => rfl

/-- **Loading.** It keeps the account exactly when the key is free. -/
theorem accounted_loadOrEvict_iff (h : m.roster.Accounted) (k : ℕ) (r : Request) (loads : Bool) :
    (m.loadOrEvict cfg k r loads).roster.Accounted ↔ Free cfg m.loaded r loads := by
  rw [roster_loadOrEvict]
  by_cases hloads : loads = true ∧ m.loaded.entries.length < cfg.maxLoaded
  · rw [if_pos hloads, Roster.accounted_enter_iff h]
    exact ⟨fun hfree _ _ => hfree, fun hfree => hfree hloads.1 hloads.2⟩
  · rw [if_neg hloads]
    exact iff_of_true h fun hl hroom => absurd ⟨hl, hroom⟩ hloads

/-- **The end of an unload.** It keeps the account exactly when its slot is the
    one under its key, or none is, and what follows does. -/
theorem accounted_close_iff (h : m.roster.Accounted) (k : ℕ) (v : Unload) (after : Then)
    (loads : Bool) (hv : m.roster.Has v.key v.slot) :
    ((m.close v).proceed cfg k loads after).roster.Accounted ↔
      (∀ b, m.loaded.get? v.key = some b → b = v.slot) ∧
      ∀ r, after = .load r → Free cfg (m.loaded.erase v.key) r loads := by
  by_cases hown : ∀ b, m.loaded.get? v.key = some b → b = v.slot
  · have hclosed : (m.close v).roster.Accounted := by
      rw [roster_close]
      exact (Roster.accounted_retire_iff h hv).mpr hown
    rw [and_iff_right hown]
    cases after with
    | load r =>
        rw [proceed, accounted_loadOrEvict_iff hclosed]
        exact ⟨fun hfree r' hr' => by rw [← Then.load.inj hr']; exact hfree,
          fun hfree => hfree r rfl⟩
    | next rest =>
        rw [proceed, roster_sweep]
        exact iff_of_true hclosed fun r hr => absurd hr nofun
    | stop => exact iff_of_true hclosed fun r hr => absurd hr nofun
  · refine iff_of_false (fun hc => ?_) (fun hc => hown hc.1)
    -- The slot that is there stays live, and is not found again.
    simp only [not_forall] at hown
    rcases hown with ⟨b, hb, hne⟩
    have hastray : (m.close v).roster.Astray v.key b := by
      rw [roster_close]
      exact Roster.astray_retire h hb hne
    cases after with
    | load r =>
        rw [proceed, roster_loadOrEvict] at hc
        split at hc
        · exact (hastray.enter r.cacheKey).not_accounted hc
        · exact hastray.not_accounted hc
    | next rest =>
        rw [proceed, roster_sweep] at hc
        exact hastray.not_accounted hc
    | stop => exact hastray.not_accounted hc

/-! ## What holds in every state -/

theorem filed_start : Filed cfg start :=
  ⟨fun _ _ h => absurd h nofun, Nat.zero_le _, fun _ _ h => absurd h nofun⟩

theorem Filed.has (h : Filed cfg m) {e : String × ℕ} (he : e ∈ m.loaded.entries) :
    m.roster.Has e.1 e.2 := h.keyed e.1 e.2 ((Dict.mem_entries_iff _ _ _).mp he)

theorem Filed.of_roster (h : Filed cfg m) (hroster : u.roster = m.roster)
    (hwork : u.work = m.work) : Filed cfg u where
  keyed := by rw [hroster]; exact h.keyed
  bounded := by
    have htable : u.loaded = m.loaded := congrArg Roster.table hroster
    rw [htable]
    exact h.bounded
  sound k w hw := by
    rw [hroster]
    exact h.sound k w (by rw [← hwork]; exact hw)

theorem Filed.change (h : Filed cfg m) (b : ℕ) (f : Loaded → Loaded)
    (hf : ∀ s, (f s).cacheKey = s.cacheKey ∧ (f s).closed = s.closed) :
    Filed cfg (m.change b f) := h.of_roster (roster_change b f hf) rfl

theorem Filed.setWork (h : Filed cfg m) (k : ℕ) (x : Option Work)
    (hx : ∀ w, x = some w → w.Sound m.roster) : Filed cfg (m.setWork k x) where
  keyed := h.keyed
  bounded := h.bounded
  sound k' w hw := by
    have hw' : Function.update m.work k x k' = some w := hw
    rw [Function.update_apply] at hw'
    by_cases hk : k' = k
    · rw [if_pos hk] at hw'
      exact hx w hw'
    · rw [if_neg hk] at hw'
      exact h.sound k' w hw'

theorem Filed.leave (h : Filed cfg m) (k : ℕ) (r : Request) : Filed cfg (m.leave k r) :=
  (h.setWork k none fun _ hw => absurd hw nofun).of_roster rfl rfl

theorem Filed.beginUnload (h : Filed cfg m) (k : ℕ) {key : String} {b : ℕ} {after : Then}
    (hb : m.roster.Has key b) (hafter : ∀ e ∈ after.targets, m.roster.Has e.1 e.2) :
    Filed cfg (m.beginUnload k key b after) := by
  have hchange : Filed cfg (m.change b fun s => { s with state := .unloading, timer := false }) :=
    h.change b _ fun _ => ⟨rfl, rfl⟩
  have hroster : (m.change b fun s => { s with state := .unloading, timer := false }).roster =
      m.roster := roster_change b _ fun _ => ⟨rfl, rfl⟩
  refine hchange.setWork k _ fun w hw => ?_
  rw [← Option.some.inj hw, hroster]
  exact ⟨hb, hafter⟩

theorem Filed.sweep (h : Filed cfg m) (k : ℕ) {targets : List (String × ℕ)}
    (htargets : ∀ e ∈ targets, m.roster.Has e.1 e.2) : Filed cfg (m.sweep k targets) := by
  cases targets with
  | nil => exact h.setWork k none fun _ hw => absurd hw nofun
  | cons e rest =>
      exact h.beginUnload k (htargets e List.mem_cons_self)
        fun e' he' => htargets e' (List.mem_cons_of_mem _ he')

theorem Filed.load (h : Filed cfg m) (r : Request)
    (hroom : m.loaded.entries.length < cfg.maxLoaded) : Filed cfg (m.load cfg r) where
  keyed := by
    rw [roster_load]
    exact h.keyed.enter r.cacheKey
  bounded := Nat.le_trans (Dict.length_set_le m.loaded r.cacheKey m.slots.length) hroom
  sound k w hw := by
    rw [roster_load]
    exact (h.sound k w hw).mono fun key b hb => hb.enter r.cacheKey

theorem Filed.submit (h : Filed cfg m) (b : ℕ) (r : Request) : Filed cfg (m.submit cfg b r) := by
  refine h.of_roster (roster_submit b r) ?_
  unfold ModelManager.submit
  split
  · split
    · rfl
    · rfl
  · rfl

theorem Filed.loadOrEvict (h : Filed cfg m) (k : ℕ) (r : Request) (loads : Bool) :
    Filed cfg (m.loadOrEvict cfg k r loads) := by
  unfold ModelManager.loadOrEvict
  by_cases hroom : cfg.maxLoaded ≤ m.loaded.entries.length
  · rw [if_pos hroom]
    cases hentries : m.loaded.entries with
    | nil => exact h.leave k r
    | cons e rest =>
        have hmem : e ∈ m.loaded.entries := by
          rw [hentries]
          exact List.mem_cons_self
        exact h.beginUnload k (h.has hmem) fun e' he' => absurd he' List.not_mem_nil
  · rw [if_neg hroom]
    cases loads with
    | true => exact ((h.leave k r).load r (Nat.lt_of_not_le hroom)).submit _ r
    | false => exact h.leave k r

theorem Filed.close (h : Filed cfg m) (v : Unload) : Filed cfg (m.close v) where
  keyed := by
    rw [roster_close]
    exact h.keyed.retire v.key v.slot
  bounded := Nat.le_trans (Dict.length_erase_le m.loaded v.key) h.bounded
  sound k w hw := by
    rw [roster_close]
    exact (h.sound k w hw).mono fun key b hb => hb.retire v.key v.slot

theorem Filed.proceed (h : Filed cfg m) (k : ℕ) (loads : Bool) {after : Then}
    (hafter : ∀ e ∈ after.targets, m.roster.Has e.1 e.2) :
    Filed cfg (m.proceed cfg k loads after) := by
  cases after with
  | load r => exact h.loadOrEvict k r loads
  | next rest => exact h.sweep k hafter
  | stop => exact h.setWork k none fun _ hw => absurd hw nofun

theorem Filed.fail (h : Filed cfg m) (k : ℕ) (after : Then) : Filed cfg (m.fail k after) := by
  cases after with
  | load r => exact h.leave k r
  | next rest => exact h.setWork k none fun _ hw => absurd hw nofun
  | stop => exact h.setWork k none fun _ hw => absurd hw nofun

theorem Filed.taskMove {k : ℕ} {e : TaskEvent} (h : Filed cfg m) (hmove : TaskMove cfg m k e u) :
    Filed cfg u := by
  have hnone : Filed cfg (m.setWork k none) := h.setWork k none fun _ hw => absurd hw nofun
  -- An unload that goes on keeps its two arguments.
  have hphase : ∀ v after (f : Loaded → Loaded) phase, m.work k = some (.unload v after) →
      (∀ s, (f s).cacheKey = s.cacheKey ∧ (f s).closed = s.closed) →
      Filed cfg ((m.change v.slot f).setWork k (some (.unload { v with phase } after))) := by
    intro v after f phase hwork hf
    refine (h.change v.slot f hf).setWork k _ fun w hw => ?_
    have hsound : (Work.unload v after).Sound m.roster := h.sound k _ hwork
    rw [← Option.some.inj hw, roster_change v.slot f hf]
    exact hsound
  cases hmove with
  | found r b _ _ =>
      have hmoved : Filed cfg (m.setLoaded (m.loaded.moveToEnd r.cacheKey)) := by
        refine ⟨fun key b' hb' => h.keyed key b' ?_, ?_, h.sound⟩
        · have hb'' : (m.loaded.moveToEnd r.cacheKey).get? key = some b' := hb'
          rw [Dict.get?_moveToEnd] at hb''
          exact hb''
        · exact Nat.le_trans (Dict.length_moveToEnd_le m.loaded r.cacheKey) h.bounded
      exact (hmoved.change b (fun s => { s with timer := true }) fun _ => ⟨rfl, rfl⟩).submit b r
  | wait r _ _ =>
      refine h.setWork k _ fun w hw => ?_
      rw [← Option.some.inj hw]
      trivial
  | refound r b loads _ _ =>
      exact (hnone.change b (fun s => { s with timer := true }) fun _ => ⟨rfl, rfl⟩).submit b r
  | load r loads _ _ =>
      have hlock : Filed cfg (m.setLock r.cacheKey (some k)) := h.of_roster rfl rfl
      exact hlock.loadOrEvict k r loads
  | forceUnload tenant modelId _ =>
      exact h.sweep k fun e he => h.has (List.mem_filter.mp he).1
  | shutdown _ =>
      have hclosing : Filed cfg { m with closing := true } := h.of_roster rfl rfl
      exact hclosing.sweep k fun e he => h.has he
  | fire b s _ _ =>
      refine (h.change b (fun s => { s with timer := false }) fun _ => ⟨rfl, rfl⟩).setWork k _
        fun w hw => ?_
      rw [← Option.some.inj hw]
      trivial
  | skip b _ => exact hnone
  | offload b s _ hslot =>
      exact h.beginUnload k (has_roster hslot) fun e he => absurd he List.not_mem_nil
  | put v after hwork => exact hphase v after _ .waiting hwork fun _ => ⟨rfl, rfl⟩
  | timeout v after hwork => exact hphase v after _ .timedOut hwork fun _ => ⟨rfl, rfl⟩
  | close v after loads s cancelled hwork _ _ =>
      refine (h.close v).proceed k loads fun e he => ?_
      rw [roster_close]
      exact ((h.sound k _ hwork).2 e he).retire v.key v.slot
  | abort v after _ => exact h.fail k after
  | unwait _ => exact hnone
  | unput v after _ => exact h.fail k after
  | cancel v after hwork => exact hphase v after _ .cancelled hwork fun _ => ⟨rfl, rfl⟩

/-- Only tasks touch the table, what is closed and what tasks are at. -/
theorem roster_workerMove {b : ℕ} {s : Loaded} {e : WorkerEvent}
    (hmove : m.WorkerMove b s e u) : u.roster = m.roster ∧ u.work = m.work := by
  have hmove' : ∀ (n : ModelManager) (w : Worker), (n.move b w).roster = n.roster ∧
      (n.move b w).work = n.work := fun n w => ⟨roster_change b _ fun _ => ⟨rfl, rfl⟩, rfl⟩
  have hreset : ∀ n : ModelManager, (n.resetIdle b).roster = n.roster ∧
      (n.resetIdle b).work = n.work := fun n => ⟨roster_change b _ fun _ => ⟨rfl, rfl⟩, rfl⟩
  have hclear : ∀ n : ModelManager,
      (n.change b fun s => { s with cancelRequested := false }).roster = n.roster :=
    fun n => roster_change b _ fun _ => ⟨rfl, rfl⟩
  have hpump : ∀ (n : ModelManager) (j : ℕ) (cancelled : Bool),
      (n.pump b j cancelled).roster = n.roster ∧ (n.pump b j cancelled).work = n.work := by
    intro n j cancelled
    unfold pump
    split
    · exact hmove' n _
    · exact hmove' n _
  cases hmove with
  | leave rest _ _ => exact ⟨roster_change b _ fun _ => ⟨rfl, rfl⟩, rfl⟩
  | begin j rest _ _ =>
      have hchange : (m.change b fun s =>
          { s with queue := rest, worker := .calling j m.calls.length }).roster = m.roster :=
        roster_change b _ fun _ => ⟨rfl, rfl⟩
      exact ⟨hchange, rfl⟩
  | answer ok j c job _ _ =>
      unfold ModelManager.answer
      split
      · split
        · exact hpump _ j job.cancelled
        · exact ⟨(hmove' _ _).1.trans (hreset _).1, rfl⟩
      · exact hmove' _ _
  | chunk j c slot _ _ => exact hmove' m _
  | last j c slot result _ _ => exact hmove' m _
  | put j job _ _ => exact hpump _ j job.cancelled
  | finish j cancelled _ => exact ⟨(hmove' _ _).1.trans (hreset _).1, rfl⟩
  | cease _ => exact ⟨(hmove' _ _).1.trans (hclear m), rfl⟩
  | unput j _ => exact ⟨(hmove' _ _).1.trans (hclear m), rfl⟩
  | drop j c slot _ _ => exact ⟨(hmove' _ _).1.trans (hclear m), rfl⟩
  | abandon j c _ _ => exact ⟨(hmove' _ _).1.trans (hclear m), rfl⟩

theorem Filed.step {e : Event} (h : Filed cfg m) (hstep : m.step cfg e = some u) :
    Filed cfg u := by
  cases move_of_step hstep with
  | worker b s e _ hmove =>
      exact h.of_roster (roster_workerMove hmove).1 (roster_workerMove hmove).2
  | thread c e hmove =>
      cases hmove with
      | start _ _ => exact h.of_roster rfl rfl
      | stop _ _ _ => exact h.of_roster rfl rfl
  | client j e hmove =>
      cases hmove with
      | change f _ => exact h.of_roster rfl rfl
  | task k e hmove => exact h.taskMove hmove

/-! ## Which steps keep the account -/

/-- **The steps of tasks.** They keep the account exactly when they are
    orderly. -/
theorem accounted_taskMove_iff {k : ℕ} {e : TaskEvent} (hfiled : Filed cfg m)
    (h : m.roster.Accounted) (hmove : TaskMove cfg m k e u) :
    Orderly cfg m (.task k e) ↔ u.roster.Accounted := by
  have hchange : ∀ (b : ℕ) (f : Loaded → Loaded),
      (∀ s, (f s).cacheKey = s.cacheKey ∧ (f s).closed = s.closed) →
        (m.change b f).roster.Accounted := by
    intro b f hf
    rw [roster_change b f hf]
    exact h
  have hfail : ∀ after, (m.fail k after).roster.Accounted := by
    intro after
    cases after <;> exact h
  cases hmove with
  -- Moving a key to the end changes no lookup.
  | found r b _ _ =>
      refine iff_of_true trivial ?_
      rw [roster_submit]
      have hreset : ((m.setLoaded (m.loaded.moveToEnd r.cacheKey)).resetIdle b).roster =
          (m.setLoaded (m.loaded.moveToEnd r.cacheKey)).roster :=
        roster_change b _ fun _ => ⟨rfl, rfl⟩
      rw [hreset]
      exact h.congr fun key => Dict.get?_moveToEnd m.loaded r.cacheKey key
  | wait r _ _ => exact iff_of_true trivial h
  | refound r b loads hwork hhit =>
      refine iff_of_true (fun r' hwork' hhit' => ?_) ?_
      · rw [hwork] at hwork'
        obtain rfl : r = r' := by simpa using hwork'
        rw [hhit] at hhit'
        exact absurd hhit' nofun
      · rw [roster_submit]
        exact hchange b (fun s => { s with timer := true }) fun _ => ⟨rfl, rfl⟩
  | load r loads hwork hhit =>
      -- Only loading and closing can leave a slot out of the table.
      have hlock : (m.setLock r.cacheKey (some k)).roster.Accounted := h
      rw [accounted_loadOrEvict_iff hlock]
      constructor
      · intro hc
        exact hc r hwork hhit
      · intro hfree r' hwork' _
        rw [hwork] at hwork'
        obtain rfl : r = r' := by simpa using hwork'
        exact hfree
  | forceUnload tenant modelId _ =>
      rw [roster_sweep]
      exact iff_of_true trivial h
  | shutdown _ =>
      rw [roster_sweep]
      exact iff_of_true trivial h
  | fire b s _ _ => exact iff_of_true trivial (hchange b _ fun _ => ⟨rfl, rfl⟩)
  | skip b _ => exact iff_of_true trivial h
  | offload b s _ _ => exact iff_of_true trivial (by rw [roster_beginUnload]; exact h)
  | put v after _ => exact iff_of_true trivial (hchange v.slot _ fun _ => ⟨rfl, rfl⟩)
  | timeout v after _ => exact iff_of_true trivial (hchange v.slot _ fun _ => ⟨rfl, rfl⟩)
  | close v after loads s cancelled hwork _ _ =>
      rw [accounted_close_iff h k v after loads (hfiled.sound k _ hwork).1]
      constructor
      · intro hc
        exact hc v after hwork
      · intro hc v' after' hwork'
        rw [hwork] at hwork'
        obtain ⟨rfl, rfl⟩ : v = v' ∧ after = after' := by simpa using hwork'
        exact hc
  | abort v after _ => exact iff_of_true trivial (hfail after)
  | unwait _ => exact iff_of_true trivial h
  | unput v after _ => exact iff_of_true trivial (hfail after)
  | cancel v after _ => exact iff_of_true trivial (hchange v.slot _ fun _ => ⟨rfl, rfl⟩)

/-- **Which steps keep the account.** -/
theorem accounted_step_iff {e : Event} (hfiled : Filed cfg m) (h : Accounted cfg m)
    (hstep : m.step cfg e = some u) : Orderly cfg m e ↔ Accounted cfg u := by
  have hroster : m.roster.Accounted := (accounted_iff hfiled.bounded).mp h
  rw [accounted_iff (hfiled.step hstep).bounded]
  cases move_of_step hstep with
  | worker b s e _ hmove =>
      rw [(roster_workerMove hmove).1]
      exact iff_of_true trivial hroster
  | thread c e hmove =>
      cases hmove with
      | start _ _ => exact iff_of_true trivial hroster
      | stop _ _ _ => exact iff_of_true trivial hroster
  | client j e hmove =>
      cases hmove with
      | change f _ => exact iff_of_true trivial hroster
  | task k e hmove => exact accounted_taskMove_iff hfiled hroster hmove

end ModelManager

open Transition ModelManager

/-- **The slot table accounts for every live backend.** The runs of the manager
    each of whose steps loads under a free key, and ends an unload by popping its
    own slot or none, are those in each state of which the backends that have
    been loaded and not closed are those of the slots in the table, each under
    its own key, and are at most as many as may be loaded. -/
theorem slot_table_accounts (cfg : Config) (m : ModelManager) :
    Run (step cfg) (fun m e _ => Orderly cfg m e) start m ↔
      Run (step cfg) (fun _ _ u => Accounted cfg u) start m :=
  run_iff (Filed cfg) (Accounted cfg) (Orderly cfg) filed_start
    ⟨fun _ _ h => absurd h nofun, fun _ _ h => absurd h nofun, Nat.zero_le _⟩
    (fun _ _ _ hfiled hstep => hfiled.step hstep)
    (fun _ _ _ hfiled h hstep => accounted_step_iff hfiled h hstep)

/-- Two models may be loaded. Three requests for one model, each for more context
    than the one before, load it three times under one key: three backends are
    live, and the table has one of them. -/
theorem slot_table_loses_backends :
    ∃ m, Run (step ⟨2, 2048, 8⟩) anyStep start m ∧ ¬ Accounted ⟨2, 2048, 8⟩ m ∧
      (m.slots.filter fun s => !s.closed).length = 3 ∧ m.loaded.entries.length = 1 := by
  have hplay : ((play (step ⟨2, 2048, 8⟩) start
      [.task 0 (.request (.sample (some 512) none)), .task 0 (.acquire true),
        .task 1 (.request (.sample (some 1024) none)), .task 1 (.acquire true),
        .task 2 (.request (.sample (some 2048) none)), .task 2 (.acquire true)]).any (fun m =>
          decide ((m.slots.filter fun s => !s.closed).length = 3 ∧
            m.loaded.entries.length = 1))) = true := by
    decide +kernel
  rcases (Option.any_eq_true _ _).mp hplay with ⟨m, hm, hend⟩
  rcases of_decide_eq_true hend with ⟨hlive, hentries⟩
  refine ⟨m, run_of_play _ hm, fun haccounted => ?_, hlive, hentries⟩
  have hbounded := haccounted.bounded
  rw [hlive] at hbounded
  exact absurd hbounded (by decide)

end Models

end SecureLlm
