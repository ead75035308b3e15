import SecureLlm.Models.Slots

/-!
# What Tasks Do to the Table

A slot gets into the table in one way only: a task that a request has begun has
the lock, finds room and loads it. With that the task is through. Everything
else a task does takes slots out of the table or leaves it as it is.

## Main definitions

* `ModelManager.Wants`: A task is to load for a request.
* `ModelManager.Turns`: What a step adds to the table.

## Theorems

* `ModelManager.loaded_of_hit`: What a request finds is in the table.
* `ModelManager.turns_of_taskMove`: What a task adds to the table.
* `ModelManager.turns_of_found`: What a request that finds a slot does.
-/

namespace SecureLlm

open Library

namespace Models

namespace ModelManager

variable {cfg : Config} {m n u : ModelManager} {k : ℕ}

/-- A task is to load for a request, when it gets to it. -/
def Wants (m : ModelManager) (k : ℕ) (r : Request) : Prop :=
  m.work k = some (.acquire r) ∨ ∃ v, m.work k = some (.unload v (.load r))

/-- A task that no request begins with adds nothing to the table but a slot it
    loads. With that it is through. -/
structure Turns (k : ℕ) (m u : ModelManager) : Prop where
  table : ∀ key b, u.loaded.get? key = some b →
    m.loaded.get? key = some b ∨ b = m.slots.length
  others : ∀ i, i ≠ k → u.work i = m.work i
  wants : ∀ r, u.Wants k r → m.Wants k r
  slots : u.slots.length = m.slots.length ∨
    u.slots.length = m.slots.length + 1 ∧ u.work k = none ∧ ∃ r, m.Wants k r

/-- What is found is in the table. -/
theorem loaded_of_hit {r : Request} {b : ℕ} (h : m.hit r = some b) :
    m.loaded.get? r.cacheKey = some b := by
  unfold hit at h
  cases hloaded : m.loaded.get? r.cacheKey with
  | none =>
      rw [hloaded] at h
      cases h
  | some b' =>
      simp only [hloaded] at h
      cases hslot : m.slots[b']? with
      | none =>
          rw [hslot] at h
          cases h
      | some slot =>
          simp only [hslot] at h
          split at h
          · exact h
          · cases h

theorem not_wants {r : Request} (h : u.work k = none) : ¬ u.Wants k r := by
  rintro (hr | ⟨v, hr⟩)
  · rw [h] at hr
    exact absurd hr nofun
  · rw [h] at hr
    exact absurd hr nofun

theorem length_slots_eq (h : u.roster = m.roster) : u.slots.length = m.slots.length := by
  have hlength := congrArg (fun r => r.objects.length) h
  simpa only [roster, List.length_map] using hlength

theorem work_submit (b : ℕ) (r : Request) : (m.submit cfg b r).work = m.work := by
  unfold submit
  split
  · split
    · rfl
    · rfl
  · rfl

namespace Turns

/-- The table is as before, and the task goes on with what it was to load for or
    with nothing. -/
theorem of_roster (hroster : u.roster = m.roster) (hothers : ∀ i, i ≠ k → u.work i = m.work i)
    (hwants : ∀ r, u.Wants k r → m.Wants k r) : Turns k m u where
  table key b hb := by
    have htable : u.loaded = m.loaded := congrArg Roster.table hroster
    rw [htable] at hb
    exact Or.inl hb
  others := hothers
  wants := hwants
  slots := Or.inl (length_slots_eq hroster)

theorem through (hroster : u.roster = m.roster) (hothers : ∀ i, i ≠ k → u.work i = m.work i)
    (hnone : u.work k = none) : Turns k m u :=
  of_roster hroster hothers fun _ hr => absurd hr (not_wants hnone)

theorem leave (k : ℕ) (r : Request) : Turns k m (m.leave k r) :=
  through rfl (fun _ hi => Function.update_of_ne hi _ _) (Function.update_self _ _ _)

theorem setWork (k : ℕ) : Turns k m (m.setWork k none) :=
  through rfl (fun _ hi => Function.update_of_ne hi _ _) (Function.update_self _ _ _)

theorem beginUnload (k : ℕ) (key : String) (b : ℕ) (after : Then)
    (hafter : ∀ r, after = .load r → m.Wants k r) : Turns k m (m.beginUnload k key b after) := by
  refine of_roster (roster_beginUnload k key b after) (fun _ hi => Function.update_of_ne hi _ _) ?_
  have hwork : (m.beginUnload k key b after).work k = some (.unload ⟨key, b, .putting⟩ after) :=
    Function.update_self _ _ _
  rintro r (hr | ⟨v, hr⟩)
  · rw [hwork] at hr
    exact absurd hr nofun
  · rw [hwork] at hr
    exact hafter r (Work.unload.inj (Option.some.inj hr)).2

theorem sweep (k : ℕ) (targets : List (String × ℕ)) : Turns k m (m.sweep k targets) := by
  cases targets with
  | nil => exact setWork k
  | cons e rest => exact beginUnload k e.1 e.2 (.next rest) nofun

theorem fail (k : ℕ) (after : Then) : Turns k m (m.fail k after) := by
  cases after with
  | load r => exact leave k r
  | next rest => exact setWork k
  | stop => exact setWork k

/-- What goes before changes no slot's number and adds nothing to the table. -/
theorem after (h : Turns k n u)
    (htable : ∀ key b, n.loaded.get? key = some b → m.loaded.get? key = some b)
    (hlength : n.slots.length = m.slots.length) (hwork : n.work = m.work) : Turns k m u := by
  have hwants : ∀ r, n.Wants k r → m.Wants k r := by
    intro r hr
    unfold Wants at hr ⊢
    rwa [hwork] at hr
  refine ⟨fun key b hb => ?_, fun i hi => ?_, fun r hr => hwants r (h.wants r hr), ?_⟩
  · rw [← hlength]
    exact (h.table key b hb).imp (htable key b) id
  · rw [h.others i hi, hwork]
  · rw [← hlength]
    exact h.slots.imp id fun ⟨hl, hnone, r, hr⟩ => ⟨hl, hnone, r, hwants r hr⟩

theorem load {r : Request} (h : m.Wants k r) :
    Turns k m (((m.leave k r).load cfg r).submit cfg m.slots.length r) := by
  have hroster : (((m.leave k r).load cfg r).submit cfg m.slots.length r).roster =
      m.roster.enter r.cacheKey := by
    rw [roster_submit, roster_load]
    rfl
  have hwork : (((m.leave k r).load cfg r).submit cfg m.slots.length r).work =
      Function.update m.work k none := work_submit _ r
  have hnone : (((m.leave k r).load cfg r).submit cfg m.slots.length r).work k = none := by
    rw [hwork, Function.update_self]
  refine ⟨fun key b hb => ?_, fun i hi => ?_, fun r' hr' => absurd hr' (not_wants hnone), ?_⟩
  · have htable : (((m.leave k r).load cfg r).submit cfg m.slots.length r).loaded =
        m.loaded.set r.cacheKey m.roster.objects.length := congrArg Roster.table hroster
    rw [htable, Dict.get?_set, roster, List.length_map] at hb
    by_cases hkey : key = r.cacheKey
    · rw [if_pos hkey] at hb
      exact Or.inr (Option.some.inj hb).symm
    · rw [if_neg hkey] at hb
      exact Or.inl hb
  · rw [hwork, Function.update_of_ne hi]
  · have hlength := congrArg (fun roster => roster.objects.length) hroster
    refine Or.inr ⟨?_, hnone, r, h⟩
    simpa [Roster.enter, roster] using hlength

theorem loadOrEvict {r : Request} (h : m.Wants k r) (loads : Bool) :
    Turns k m (m.loadOrEvict cfg k r loads) := by
  unfold ModelManager.loadOrEvict
  split
  · split
    · exact leave k r
    · exact beginUnload k _ _ _ fun r' hr' => by rw [← Then.load.inj hr']; exact h
  · split
    · exact load h
    · exact leave k r

theorem proceed (loads : Bool) (after : Then) (h : ∀ r, after = .load r → m.Wants k r) :
    Turns k m (m.proceed cfg k loads after) := by
  cases after with
  | load r => exact loadOrEvict (h r rfl) loads
  | next rest => exact sweep k rest
  | stop => exact setWork k

/-- An unload goes on. -/
theorem unload {v v' : Unload} {after : Then} {f : Loaded → Loaded}
    (hwork : m.work k = some (.unload v after))
    (hf : ∀ s, (f s).cacheKey = s.cacheKey ∧ (f s).closed = s.closed) :
    Turns k m ((m.change v.slot f).setWork k (some (.unload v' after))) := by
  refine of_roster (roster_change v.slot f hf) (fun _ hi => Function.update_of_ne hi _ _) ?_
  have hnew : ((m.change v.slot f).setWork k (some (.unload v' after))).work k =
      some (.unload v' after) := Function.update_self _ _ _
  rintro r (hr | ⟨v'', hr⟩)
  · rw [hnew] at hr
    exact absurd hr nofun
  · rw [hnew] at hr
    exact Or.inr ⟨v, by rw [hwork, (Work.unload.inj (Option.some.inj hr)).2]⟩

end Turns

/-- **What a task does to the table.** -/
theorem turns_of_taskMove {e : TaskEvent} (h : TaskMove cfg m k e u)
    (he : ∀ r, e ≠ .request r) : Turns k m u := by
  cases h with
  | found r b _ _ => exact absurd rfl (he r)
  | wait r _ _ => exact absurd rfl (he r)
  | refound r b loads _ _ =>
      have hroster : (((m.setWork k none).resetIdle b).submit cfg b r).roster = m.roster :=
        (roster_submit b r).trans
          (roster_change (m := m.setWork k none) b (fun s => { s with timer := true })
            fun _ => ⟨rfl, rfl⟩)
      refine .through hroster (fun i hi => ?_) ?_
      · rw [work_submit]
        exact Function.update_of_ne hi _ _
      · rw [work_submit]
        exact Function.update_self _ _ _
  | load r loads hwork _ =>
      have hwants : (m.setLock r.cacheKey (some k)).Wants k r := Or.inl hwork
      exact (Turns.loadOrEvict hwants loads).after (fun _ _ => id) rfl rfl
  | forceUnload tenant modelId _ => exact .sweep k _
  | shutdown _ =>
      -- That the manager closes is nothing a turn looks at.
      have hclosing : Turns k { m with closing := true }
          ({ m with closing := true }.sweep k m.loaded.entries) := .sweep k _
      exact hclosing.after (fun _ _ => id) rfl rfl
  | fire b s _ _ =>
      refine .of_roster (roster_change b _ fun _ => ⟨rfl, rfl⟩)
        (fun _ hi => Function.update_of_ne hi _ _) ?_
      have hnew : ((m.change b fun s => { s with timer := false }).setWork k
          (some (.idle b))).work k = some (.idle b) := Function.update_self _ _ _
      rintro r (hr | ⟨v, hr⟩)
      · rw [hnew] at hr
        exact absurd hr nofun
      · rw [hnew] at hr
        exact absurd hr nofun
  | skip b _ => exact .setWork k
  | offload b s _ _ => exact .beginUnload k _ b .stop nofun
  | put v after hwork => exact .unload hwork fun _ => ⟨rfl, rfl⟩
  | timeout v after hwork => exact .unload hwork fun _ => ⟨rfl, rfl⟩
  | close v after loads s cancelled hwork _ _ =>
      -- Closing takes a key out of the table, and the task goes on from there.
      have hproceed : Turns k (m.close v) ((m.close v).proceed cfg k loads after) :=
        .proceed loads after fun r hr => Or.inr ⟨v, by rw [← hr]; exact hwork⟩
      refine hproceed.after (fun key b hb => ?_) (List.length_modify _ _ _) rfl
      have hb' : (m.loaded.erase v.key).get? key = some b := hb
      rw [Dict.get?_erase] at hb'
      by_cases hkey : key = v.key
      · rw [if_pos hkey] at hb'
        exact absurd hb' nofun
      · rwa [if_neg hkey] at hb'
  | abort v after _ => exact .fail k after
  | unwait _ => exact .setWork k
  | unput v after _ => exact .fail k after
  | cancel v after hwork => exact .unload hwork fun _ => ⟨rfl, rfl⟩

/-- What a request that finds a slot does to the table. -/
theorem turns_of_found (cfg : Config) (m : ModelManager) (k b : ℕ) (r : Request) :
    Turns k m (((m.setLoaded (m.loaded.moveToEnd r.cacheKey)).resetIdle b).submit cfg b r) ∧
      (((m.setLoaded (m.loaded.moveToEnd r.cacheKey)).resetIdle b).submit cfg b r).slots.length =
        m.slots.length := by
  have hroster : (((m.setLoaded (m.loaded.moveToEnd r.cacheKey)).resetIdle b).submit
      cfg b r).roster = (m.setLoaded (m.loaded.moveToEnd r.cacheKey)).roster :=
    (roster_submit b r).trans (roster_change b (fun s => { s with timer := true })
      fun _ => ⟨rfl, rfl⟩)
  have hsame : Turns k (m.setLoaded (m.loaded.moveToEnd r.cacheKey))
      (((m.setLoaded (m.loaded.moveToEnd r.cacheKey)).resetIdle b).submit cfg b r) :=
    .of_roster hroster (fun i _ => by rw [work_submit]; rfl) fun r' hr' => by
      unfold Wants at hr' ⊢
      rwa [work_submit] at hr'
  refine ⟨hsame.after (fun key b' hb' => ?_) rfl rfl, (length_slots_eq hroster).trans rfl⟩
  have hb'' : (m.loaded.moveToEnd r.cacheKey).get? key = some b' := hb'
  rwa [Dict.get?_moveToEnd] at hb''

end ModelManager

end Models

end SecureLlm
