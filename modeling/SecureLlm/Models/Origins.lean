import SecureLlm.Models.Served
import SecureLlm.Models.Turns

/-!
# Slots that Match the Registries

While nothing in use is removed, or replaced by other contents, each slot in the
table is of what the registries list for the arguments it was loaded for, and
each call that waits has an entry with the contents that are still listed. So
what a call finds, and what it loads, is what its arguments ask for.

Nothing in the server sees to it that what is removed or replaced is not in use.

## Main definitions

* `Served.Kept`: What orderly steps keep.

## Theorems

* `Served.Kept.goOn`: Who waits for a task goes on.
* `Served.Kept.step`: Orderly steps keep slots and registries together.
* `served_slot_matches`: They give right answers only.
* `removed_adapter_is_served`: An answer that is wrong.
-/

namespace SecureLlm

open Library

namespace Models

namespace Served

open ModelManager

variable {cfg : Config} {s u : Served}

/-- Slots in the table are of what is listed for what they were loaded for, calls
    that wait have listed ids and are those that tasks load for, and the answers
    have been right. -/
structure Kept (cfg : Config) (s : Served) : Prop where
  filed : s.manager.Filed cfg
  length : s.built.length = s.manager.slots.length
  slots : ∀ o, s.Serves o → o.Matches s.registries o.args
  calls : ∀ a entry, s.Awaits a entry →
    s.registries.modelSha a.tenant a.modelId = some entry.sha256Plaintext ∧
      ∀ lid ∈ a.ids, s.registries.loraSha a.tenant lid ≠ none
  wants : ∀ k r, s.manager.Wants k r → ∃ a entry nCtx job,
    s.callers k = some (.ensure a entry) ∧ r = a.request nCtx job
  answers : ∀ answer ∈ s.answers, Right s.built answer

theorem kept_start : Kept cfg start where
  filed := filed_start
  length := rfl
  slots _ := fun ⟨_, _, hb, _⟩ => absurd hb nofun
  calls _ _ := fun ⟨_, hk⟩ => absurd hk nofun
  wants _ _ hr := absurd hr (not_wants rfl)
  answers _ h := absurd h List.not_mem_nil

/-- Who goes on leaves the manager as its task has left it. -/
theorem manager_of_goOn {k : ℕ} {e : TaskEvent} {m : ModelManager} (h : s.goOn k e m = some u) :
    u.manager = m := by
  unfold goOn at h
  split at h
  · split at h
    · rcases Option.bind_eq_some_iff.mp h with ⟨_, _, h⟩
      rw [← Option.some.inj h]
      rfl
    · exact absurd h nofun
  · split at h
    · rw [← Option.some.inj h]
      rfl
    · rw [← Option.some.inj h]
      rfl
    · split at h
      · rw [← Option.some.inj h]
        rfl
      · rw [← Option.some.inj h]
        rfl
    · rw [← Option.some.inj h]
      rfl

theorem right_notFound (built : List Origin) (a : LoadArgs) (reg : Registries) :
    Right built ⟨a, reg, .notFound⟩ := ⟨fun _ hb => absurd hb nofun, fun _ => rfl⟩

theorem right_failed (built : List Origin) {a : LoadArgs} {reg : Registries}
    (h : reg.Registered a) : Right built ⟨a, reg, .failed⟩ :=
  ⟨fun _ hb => absurd hb nofun, fun hnot => absurd h hnot⟩

theorem right_slot {built : List Origin} {a : LoadArgs} {reg : Registries} {b : ℕ} {o : Origin}
    (hb : built[b]? = some o) (h : o.Matches reg a) : Right built ⟨a, reg, .slot b⟩ := by
  refine ⟨fun b' hb' => ?_, fun hnot => absurd h.registered hnot⟩
  rw [← Ensured.slot.inj hb']
  exact ⟨o, hb, h⟩

namespace Kept

theorem registered (h : Kept cfg s) {a : LoadArgs} {entry : ModelEntry} (ha : s.Awaits a entry) :
    s.registries.Registered a := by
  rcases h.calls a entry ha with ⟨hmodel, hloras⟩
  exact (Registries.registered_iff a).mpr ⟨by rw [hmodel]; exact Option.some_ne_none _, hloras⟩

/-- A slot that is found is of what is listed for the request, if it was loaded for
    the same ids. -/
theorem right_hit (h : Kept cfg s) {a : LoadArgs} {r : Request} {b : ℕ}
    (hhit : s.manager.hit r = some b) (hfinds : s.Finds a r) :
    Right s.built ⟨a, s.registries, .slot b⟩ := by
  have hloaded := loaded_of_hit hhit
  have hlt : b < s.built.length := by
    rw [h.length]
    have hroster := h.filed.keyed.lt_length hloaded
    simpa only [roster, List.length_map] using hroster
  have hb : s.built[b]? = some s.built[b] := List.getElem?_eq_getElem hlt
  exact right_slot hb ((h.slots _ ⟨_, b, hloaded, hb⟩).same (hfinds b _ hhit hb))

/-- The registries change in nothing that is in use. -/
theorem setRegistries (h : Kept cfg s) (reg : Registries)
    (hmodel : ∀ a, s.InUse a →
      reg.modelSha a.tenant a.modelId = s.registries.modelSha a.tenant a.modelId)
    (hserves : ∀ o, s.Serves o → ∀ lid ∈ o.args.ids,
      reg.loraSha o.args.tenant lid = s.registries.loraSha o.args.tenant lid)
    (hawaits : ∀ a entry, s.Awaits a entry → ∀ lid ∈ a.ids,
      s.registries.loraSha a.tenant lid ≠ none → reg.loraSha a.tenant lid ≠ none) :
    Kept cfg (s.setRegistries reg) where
  filed := h.filed
  length := h.length
  slots o ho := (h.slots o ho).congr (hmodel _ (Or.inl ⟨o, ho, rfl⟩)) (hserves o ho)
  calls a entry ha := by
    rcases h.calls a entry ha with ⟨hsha, hloras⟩
    refine ⟨(hmodel a (Or.inr ⟨entry, ha⟩)).trans hsha, fun lid hlid => ?_⟩
    exact hawaits a entry ha lid hlid (hloras lid hlid)
  wants := h.wants
  answers := h.answers

/-- Only what models list changes. -/
theorem setModels (h : Kept cfg s) (tenant : String) (models : ModelRegistry)
    (hmodel : ∀ a, s.InUse a → (s.registries.setModels tenant models).modelSha a.tenant a.modelId =
      s.registries.modelSha a.tenant a.modelId) :
    Kept cfg (s.setRegistries (s.registries.setModels tenant models)) :=
  h.setRegistries _ hmodel (fun _ _ _ _ => rfl) fun _ _ _ _ _ => id

/-- Only what adapters list changes. -/
theorem setLoras (h : Kept cfg s) (tenant : String) (loras : LoraRegistry)
    (hserves : ∀ o, s.Serves o → ∀ lid ∈ o.args.ids,
      (s.registries.setLoras tenant loras).loraSha o.args.tenant lid =
        s.registries.loraSha o.args.tenant lid)
    (hawaits : ∀ a entry, s.Awaits a entry → ∀ lid ∈ a.ids,
      s.registries.loraSha a.tenant lid ≠ none →
        (s.registries.setLoras tenant loras).loraSha a.tenant lid ≠ none) :
    Kept cfg (s.setRegistries (s.registries.setLoras tenant loras)) :=
  h.setRegistries _ (fun _ _ => rfl) hserves hawaits

theorem answer (h : Kept cfg s) {a : LoadArgs} {result : Ensured}
    (hright : Right s.built ⟨a, s.registries, result⟩) : Kept cfg (s.answer a result) where
  filed := h.filed
  length := h.length
  slots := h.slots
  calls := h.calls
  wants := h.wants
  answers answer hmem := by
    rcases List.mem_cons.mp hmem with rfl | hold
    · exact hright
    · exact h.answers answer hold

/-- No call waits for a task that is at nothing. -/
theorem release (h : Kept cfg s) {k : ℕ} (hk : s.manager.work k = none) {caller : Option Caller}
    (hcaller : ∀ a entry, caller ≠ some (.ensure a entry)) : Kept cfg (s.setCaller k caller) where
  filed := h.filed
  length := h.length
  slots := h.slots
  calls a entry ha := by
    rcases ha with ⟨i, hi⟩
    have hi' : Function.update s.callers k caller i = some (.ensure a entry) := hi
    rw [Function.update_apply] at hi'
    split at hi'
    · exact absurd hi' (hcaller a entry)
    · exact h.calls a entry ⟨i, hi'⟩
  wants i r hr := by
    have hik : i ≠ k := by
      rintro rfl
      exact not_wants hk hr
    rcases h.wants i r hr with ⟨a, entry, nCtx, job, hcaller, hreq⟩
    exact ⟨a, entry, nCtx, job, (Function.update_of_ne hik _ _).trans hcaller, hreq⟩
  answers := h.answers

/-- A task makes a step that adds no slot. -/
theorem turn (h : Kept cfg s) {k : ℕ} {m : ModelManager} (hfiled : m.Filed cfg)
    (hturns : Turns k s.manager m) (hlength : m.slots.length = s.manager.slots.length) :
    Kept cfg (s.setManager m) where
  filed := hfiled
  length := h.length.trans hlength.symm
  slots o ho := by
    rcases ho with ⟨key, b, hb, ho⟩
    rcases hturns.table key b hb with hold | hnew
    · exact h.slots o ⟨key, b, hold, ho⟩
    · -- There is no slot of that number.
      have ho' : s.built[b]? = some o := ho
      rw [hnew, ← h.length, List.getElem?_eq_none (Nat.le_refl _)] at ho'
      exact absurd ho' nofun
  calls := h.calls
  wants i r hr := by
    by_cases hik : i = k
    · rw [hik] at hr ⊢
      exact h.wants k r (hturns.wants r hr)
    · have hr' : m.Wants i r := hr
      unfold Wants at hr'
      rw [hturns.others i hik] at hr'
      exact h.wants i r hr'
  answers := h.answers

/-- A task that is through has loaded a slot, made of what is listed. -/
theorem load (h : Kept cfg s) {k : ℕ} {m : ModelManager} {o : Origin} (hfiled : m.Filed cfg)
    (hturns : Turns k s.manager m) (hgrow : m.slots.length = s.manager.slots.length + 1)
    (hnone : m.work k = none) (ho : o.Matches s.registries o.args) :
    Kept cfg (((s.setManager m).setCaller k none).build o) where
  filed := hfiled
  length := by
    have hlength : (s.built ++ [o]).length = m.slots.length := by
      rw [List.length_append, List.length_singleton, h.length, hgrow]
    exact hlength
  slots o' ho' := by
    rcases ho' with ⟨key, b, hb, hbuilt⟩
    -- A slot that is loaded was loaded before, or is the new one.
    rcases getElem?_concat_cases hbuilt with hold | ⟨_, rfl⟩
    · rcases hturns.table key b hb with hloaded | hnew
      · exact h.slots o' ⟨key, b, hloaded, hold⟩
      · have hold' : s.built[b]? = some o' := hold
        rw [hnew, ← h.length, List.getElem?_eq_none (Nat.le_refl _)] at hold'
        exact absurd hold' nofun
    · exact ho
  calls a entry ha := by
    rcases ha with ⟨i, hi⟩
    have hi' : Function.update s.callers k none i = some (.ensure a entry) := hi
    rw [Function.update_apply] at hi'
    split at hi'
    · exact absurd hi' nofun
    · exact h.calls a entry ⟨i, hi'⟩
  wants i r hr := by
    have hr' : m.Wants i r := hr
    have hik : i ≠ k := by
      rintro rfl
      exact not_wants hnone hr'
    unfold Wants at hr'
    rw [hturns.others i hik] at hr'
    rcases h.wants i r hr' with ⟨a, entry, nCtx, job, hcaller, hreq⟩
    exact ⟨a, entry, nCtx, job, (Function.update_of_ne hik _ _).trans hcaller, hreq⟩
  answers answer hmem := by
    rcases h.answers answer hmem with ⟨hslot, hnot⟩
    refine ⟨fun b hb => ?_, hnot⟩
    rcases hslot b hb with ⟨o', ho', hmatches⟩
    exact ⟨o', (List.getElem?_append_left (List.getElem?_eq_some_iff.mp ho').1).trans ho', hmatches⟩

/-- The model a tenant removes was not in use. -/
theorem removeModel (h : Kept cfg s) {tenant id : String} (hspares : s.Spares tenant id) :
    Kept cfg (s.setRegistries (s.registries.setModels tenant
      ((s.registries.models tenant).remove (modelFormat 0) id).1)) :=
  h.setModels tenant _ fun a ha =>
    (Registries.listedSha_remove _ _ _ _ _ _).trans (if_neg (hspares a ha))

/-- A slot a task finds under the lock is of what is listed. -/
theorem right_found (h : Kept cfg s) {k : ℕ} {e : TaskEvent} {a : LoadArgs} {entry : ModelEntry}
    (hcaller : s.callers k = some (.ensure a entry))
    (hfinds : ∀ loads r, e = .acquire loads → s.manager.work k = some (.acquire r) →
      s.Finds a r) : Right s.built ⟨a, s.registries, s.found k e⟩ := by
  have hfailed := right_failed s.built (h.registered ⟨k, hcaller⟩)
  unfold found
  split
  · rename_i loads
    split
    · rename_i r hwork
      cases hhit : s.manager.hit r with
      | none => exact hfailed
      | some b => exact h.right_hit hhit (hfinds loads r rfl hwork)
    · exact hfailed
  · exact hfailed

/-- **Who waits for a task goes on.** -/
theorem goOn (h : Kept cfg s) {k : ℕ} {e : TaskEvent} {m : ModelManager} (hfiled : m.Filed cfg)
    (hturns : Turns k s.manager m) (hu : s.goOn k e m = some u)
    (hspares : ∀ tenant id, s.callers k = some (.remove tenant id) → e.raises = false →
      m.work k = none → u.Spares tenant id)
    (hfinds : ∀ loads a entry r, e = .acquire loads → s.callers k = some (.ensure a entry) →
      s.manager.work k = some (.acquire r) → s.Finds a r) : Kept cfg u := by
  unfold Served.goOn at hu
  by_cases hgrow : s.manager.slots.length < m.slots.length
  · rw [if_pos hgrow] at hu
    rcases hturns.slots with hsame | ⟨hlength, hnone, r, hr⟩
    · exact absurd hsame (Nat.ne_of_gt hgrow)
    · -- The task that loads is that of a call.
      rcases h.wants k r hr with ⟨a, entry, nCtx, job, hcaller, _⟩
      simp only [hcaller] at hu
      rcases Option.bind_eq_some_iff.mp hu with ⟨⟨model, loras⟩, hcontents, hu⟩
      rw [← Option.some.inj hu]
      have hmatches : Origin.Matches ⟨a, model, loras⟩ s.registries a :=
        Registries.matches_of_contents (h.calls a entry ⟨k, hcaller⟩).1 hcontents
      refine (h.load hfiled hturns hlength hnone hmatches).answer (right_slot ?_ hmatches)
      have hnew : (s.built ++ [⟨a, model, loras⟩])[s.manager.slots.length]? =
          some ⟨a, model, loras⟩ := by
        rw [← h.length]
        exact List.getElem?_concat_length
      exact hnew
  · rw [if_neg hgrow] at hu
    have hlength : m.slots.length = s.manager.slots.length := by
      rcases hturns.slots with hsame | ⟨hmore, _⟩
      · exact hsame
      · omega
    have hturned : Kept cfg (s.setManager m) := h.turn hfiled hturns hlength
    cases hwork : m.work k with
    | some w =>
        simp only [hwork] at hu
        rw [← Option.some.inj hu]
        exact hturned
    | none =>
        have hreleased : Kept cfg ((s.setManager m).setCaller k none) := hturned.release hwork nofun
        cases hcaller : s.callers k with
        | none =>
            simp only [hwork, hcaller] at hu
            rw [← Option.some.inj hu]
            exact hreleased
        | some caller =>
            cases caller with
            | ensure a entry =>
                simp only [hwork, hcaller] at hu
                rw [← Option.some.inj hu]
                exact hreleased.answer
                  (h.right_found hcaller fun loads r he => hfinds loads a entry r he hcaller)
            | remove tenant id =>
                simp only [hwork, hcaller] at hu
                by_cases hraises : e.raises = true
                · rw [if_pos hraises] at hu
                  rw [← Option.some.inj hu]
                  exact hreleased
                · rw [if_neg hraises] at hu
                  rw [Bool.not_eq_true] at hraises
                  have hspared := hspares tenant id hcaller hraises hwork
                  rw [← Option.some.inj hu] at hspared ⊢
                  exact hreleased.removeModel hspared

/-- A request finds a slot, and puts it last in the table. -/
theorem found (h : Kept cfg s) {k b : ℕ} {r : Request} {m : ModelManager}
    (hhit : s.manager.hit r = some b) (hm : s.manager.step cfg (.task k (.request r)) = some m) :
    Kept cfg (s.setManager m) := by
  have hfiled : m.Filed cfg := h.filed.step hm
  cases move_of_step hm with
  | task _ _ hmove =>
      cases hmove with
      | wait _ _ hmiss =>
          rw [hhit] at hmiss
          exact absurd hmiss nofun
      | found _ b' hwork _ =>
          have hturns := turns_of_found cfg s.manager k b' r
          exact h.turn hfiled hturns.1 hturns.2

/-- A call has looked up its ids, and waits. -/
theorem await (h : Kept cfg s) {k : ℕ} {a : LoadArgs} {entry : ModelEntry} {nCtx : Option ℤ}
    {job : Option (Kind × Bool)} {m : ModelManager}
    (hentry : (s.registries.models a.tenant).get a.modelId = some entry)
    (hloras : ∀ lid ∈ a.ids, s.registries.loraSha a.tenant lid ≠ none)
    (hmiss : s.manager.hit (a.request nCtx job) = none)
    (hm : s.manager.step cfg (.task k (.request (a.request nCtx job))) = some m) :
    Kept cfg ((s.setManager m).setCaller k (some (.ensure a entry))) := by
  have hfiled : m.Filed cfg := h.filed.step hm
  have hm' : m = s.manager.setWork k (some (.acquire (a.request nCtx job))) := by
    cases move_of_step hm with
    | task _ _ hmove =>
        cases hmove with
        -- Nothing was found, so the task waits for the lock.
        | found _ _ _ hhit =>
            rw [hmiss] at hhit
            cases hhit
        | wait _ _ _ => rfl
  subst hm'
  refine ⟨hfiled, h.length, h.slots, fun a' entry' ha' => ?_, fun i r hr => ?_, h.answers⟩
  · rcases ha' with ⟨i, hi⟩
    have hi' : Function.update s.callers k (some (.ensure a entry)) i =
        some (.ensure a' entry') := hi
    rw [Function.update_apply] at hi'
    split at hi'
    · rcases Caller.ensure.inj (Option.some.inj hi') with ⟨rfl, rfl⟩
      refine ⟨?_, hloras⟩
      have hsha : s.registries.modelSha a.tenant a.modelId = some entry.sha256Plaintext := by
        rw [Registries.modelSha, Registries.listedSha, hentry]
        rfl
      exact hsha
    · exact h.calls a' entry' ⟨i, hi'⟩
  · by_cases hik : i = k
    -- What the task wants is the request of the caller it has been given.
    · rw [hik] at hr ⊢
      have hwork : (s.manager.setWork k (some (.acquire (a.request nCtx job)))).work k =
          some (.acquire (a.request nCtx job)) := Function.update_self _ _ _
      refine ⟨a, entry, nCtx, job, Function.update_self _ _ _, ?_⟩
      rcases hr with hr | ⟨v, hr⟩
      · have hr' := hwork.symm.trans hr
        exact (Work.acquire.inj (Option.some.inj hr')).symm
      · cases hwork.symm.trans hr
    · have hwork : (s.manager.setWork k (some (.acquire (a.request nCtx job)))).work i =
          s.manager.work i := Function.update_of_ne hik _ _
      have hr' : (s.manager.setWork k (some (.acquire (a.request nCtx job)))).Wants i r := hr
      unfold Wants at hr'
      rw [hwork] at hr'
      rcases h.wants i r hr' with ⟨a', entry', nCtx', job', hcaller, hreq⟩
      exact ⟨a', entry', nCtx', job', (Function.update_of_ne hik _ _).trans hcaller, hreq⟩

/-- A call of `ensure_loaded` begins. -/
theorem ensure (h : Kept cfg s) {k : ℕ} {a : LoadArgs} {nCtx : Option ℤ}
    {job : Option (Kind × Bool)} (hfinds : s.Finds a (a.request nCtx job))
    (hstep : s.step cfg (.ensure k a nCtx job) = some u) : Kept cfg u := by
  unfold Served.step at hstep
  cases hbusy : s.manager.busy with
  | true =>
      simp only [hbusy, if_true] at hstep
      exact absurd hstep nofun
  | false =>
      simp only [hbusy, Bool.false_eq_true, if_false] at hstep
      cases hentry : (s.registries.models a.tenant).get a.modelId with
      | none =>
          simp only [hentry] at hstep
          rw [← Option.some.inj hstep]
          exact h.answer (right_notFound _ _ _)
      | some entry =>
          simp only [hentry] at hstep
          cases hhit : s.manager.hit (a.request nCtx job) with
          | some b =>
              simp only [hhit] at hstep
              rcases Option.bind_eq_some_iff.mp hstep with ⟨m, hm, hu⟩
              rw [← Option.some.inj hu]
              exact (h.found hhit hm).answer (h.right_hit hhit hfinds)
          | none =>
              simp only [hhit] at hstep
              split at hstep
              · rename_i hall
                rcases Option.bind_eq_some_iff.mp hstep with ⟨m, hm, hu⟩
                rw [← Option.some.inj hu]
                refine h.await hentry (fun lid hlid hnone => ?_) hhit hm
                have hsome := List.all_eq_true.mp hall lid hlid
                rw [Registries.listedSha_eq_none.mp hnone] at hsome
                exact absurd hsome nofun
              · rw [← Option.some.inj hstep]
                exact h.answer (right_notFound _ _ _)

/-- A step of a worker, a thread or a caller changes nothing here. -/
theorem aside (h : Kept cfg s) {m : ModelManager} (hfiled : m.Filed cfg)
    (hroster : m.roster = s.manager.roster) (hwork : m.work = s.manager.work) :
    Kept cfg (s.setManager m) := by
  have hturns : Turns 0 s.manager m :=
    .of_roster hroster (fun i _ => by rw [hwork]) fun r hr => by
      unfold Wants at hr ⊢
      rwa [hwork] at hr
  exact h.turn hfiled hturns (length_slots_eq hroster)

/-- **What orderly steps keep.** -/
theorem step (h : Kept cfg s) {e : ServedEvent} (ho : Orderly s e u)
    (hstep : s.step cfg e = some u) : Kept cfg u := by
  cases e with
  | encryptModel tenant entry ciphertext =>
      rw [← Option.some.inj hstep]
      exact h.setModels tenant _ fun a _ => Registries.listedSha_encrypt _ _ _ _ _ _ _
  | addModel tenant entry =>
      rw [← Option.some.inj hstep]
      refine h.setModels tenant _ fun a ha => (Registries.listedSha_add _ _ _ _ _ _).trans ?_
      by_cases hid : a.tenant = tenant ∧ a.modelId = (modelFormat 0).id entry
      · rw [if_pos hid, hid.1, hid.2]
        exact (ho a ha hid.1 hid.2).symm
      · rw [if_neg hid]
        rfl
  | encryptLora tenant entry ciphertext =>
      rw [← Option.some.inj hstep]
      refine h.setLoras tenant _ (fun o _ lid _ => ?_) fun a call _ lid _ hlisted => ?_
      · exact Registries.listedSha_encrypt _ _ _ _ _ _ _
      · exact fun hnone => hlisted ((Registries.listedSha_encrypt _ _ _ _ _ _ _).symm.trans hnone)
  | addLora tenant entry =>
      rw [← Option.some.inj hstep]
      refine h.setLoras tenant _ (fun o hserves lid hlid =>
        (Registries.listedSha_add _ _ _ _ _ _).trans ?_) fun a call _ lid _ hlisted hnone => ?_
      · by_cases hid : o.args.tenant = tenant ∧ lid = (loraFormat 0).id entry
        · rw [if_pos hid, hid.1, hid.2]
          rw [hid.2] at hlid
          exact (ho o hserves hid.1 hlid).symm
        · rw [if_neg hid]
          rfl
      · have hadd := (Registries.listedSha_add (loraFormat 0) s.registries.loras tenant a.tenant lid
          entry).symm.trans hnone
        by_cases hid : a.tenant = tenant ∧ lid = (loraFormat 0).id entry
        · rw [if_pos hid] at hadd
          exact absurd hadd nofun
        · rw [if_neg hid] at hadd
          exact hlisted hadd
  | removeModel k tenant id =>
      rcases Option.bind_eq_some_iff.mp hstep with ⟨m, hm, hu⟩
      have hfiled : m.Filed cfg := h.filed.step hm
      cases move_of_step hm with
      | task _ _ hmove =>
          have hidle : s.manager.work k = none := by
            cases hmove with
            | forceUnload _ _ hwork => exact hwork
          have hturns : Turns k s.manager m := turns_of_taskMove hmove nofun
          have hcaller : (s.setCaller k (some (.remove tenant id))).callers k =
              some (.remove tenant id) := Function.update_self _ _ _
          have hremoves : Kept cfg (s.setCaller k (some (.remove tenant id))) :=
            h.release hidle nofun
          have hmanager := manager_of_goOn hu
          refine hremoves.goOn hfiled hturns hu (fun tenant' id' hk _ hnone => ?_)
            fun _ _ _ _ hacquire => absurd hacquire nofun
          rw [hcaller] at hk
          rcases Caller.remove.inj (Option.some.inj hk) with ⟨rfl, rfl⟩
          exact ho (by rw [hmanager]; exact hnone)
  | removeLora tenant id =>
      simp only [Served.step] at hstep
      split at hstep
      · exact absurd hstep nofun
      · rw [← Option.some.inj hstep]
        have hkept : ∀ a lid, s.InUse a → lid ∈ a.ids →
            (s.registries.setLoras tenant ((s.registries.loras tenant).remove
              (loraFormat 0) id).1).loraSha a.tenant lid = s.registries.loraSha a.tenant lid := by
          intro a lid ha hlid
          refine (Registries.listedSha_remove _ _ _ _ _ _).trans (if_neg fun hc => ?_)
          rw [hc.2] at hlid
          exact ho a ha ⟨hc.1, hlid⟩
        refine h.setLoras tenant _ (fun o hserves lid hlid => ?_) fun a entry ha lid hlid => ?_
        · exact hkept o.args lid (Or.inl ⟨o, hserves, rfl⟩) hlid
        · rw [hkept a lid (Or.inr ⟨entry, ha⟩) hlid]
          exact fun hlisted => hlisted
  | ensure k a nCtx job => exact h.ensure ho hstep
  | manager e =>
      cases e with
      | worker b e =>
          rcases Option.map_eq_some_iff.mp hstep with ⟨m, hm, rfl⟩
          have hfiled : m.Filed cfg := h.filed.step hm
          cases move_of_step hm with
          | worker _ _ _ _ hmove =>
              exact h.aside hfiled (roster_workerMove hmove).1 (roster_workerMove hmove).2
      | thread c e =>
          rcases Option.map_eq_some_iff.mp hstep with ⟨m, hm, rfl⟩
          have hfiled : m.Filed cfg := h.filed.step hm
          cases move_of_step hm with
          | thread _ _ hmove =>
              cases hmove with
              | start _ _ => exact h.aside hfiled rfl rfl
              | stop _ _ _ => exact h.aside hfiled rfl rfl
      | client j e =>
          rcases Option.map_eq_some_iff.mp hstep with ⟨m, hm, rfl⟩
          have hfiled : m.Filed cfg := h.filed.step hm
          cases move_of_step hm with
          | client _ _ hmove =>
              cases hmove with
              | change f _ => exact h.aside hfiled rfl rfl
      | task k e =>
          have hnot : ∀ r, e ≠ .request r := by
            rintro r rfl
            exact absurd hstep nofun
          -- Every other event of a task is the manager's, and then its caller goes on.
          have hgo : ∃ m, s.manager.step cfg (.task k e) = some m ∧ s.goOn k e m = some u := by
            cases e with
            | request r => exact absurd rfl (hnot r)
            | _ => exact Option.bind_eq_some_iff.mp hstep
          rcases hgo with ⟨m, hm, hu⟩
          have hfiled : m.Filed cfg := h.filed.step hm
          cases move_of_step hm with
          | task _ _ hmove =>
              have hmanager := manager_of_goOn hu
              refine h.goOn hfiled (turns_of_taskMove hmove hnot) hu
                (fun tenant id hk hraises hnone => ?_) ho.2
              exact ho.1 tenant id hk hraises (by rw [hmanager]; exact hnone)

end Kept

end Served

open Transition Served

/-- **A slot that is served matches the registries.** In a run of orderly steps
    every slot `ensure_loaded` returns is made of the contents that are listed
    for its arguments when it does, and where not all of them are listed it
    raises `MODEL_NOT_FOUND`. -/
theorem served_slot_matches (cfg : Config) (s : Served)
    (h : Run (step cfg) Orderly start s) : ∀ answer ∈ s.answers, Right s.built answer := by
  have hkeep : ∀ t e u, Kept cfg t → Orderly t e u → step cfg t e = some u → Kept cfg u :=
    fun _ _ _ ht ho hstep => ht.step ho hstep
  exact (h.invariant (Kept cfg) kept_start hkeep).answers

/-- A model of the default tenant with an adapter. -/
def LoadArgs.sample : LoadArgs := ⟨"default", "llama", "chat", [("style", .one)]⟩

def LoraEntry.sample (id sha256 : String) : LoraEntry where
  id := id
  sha256Plaintext := sha256
  repoId := "org/adapter"
  filename := id ++ ".gguf"
  bytesPlaintext := 1
  bytesCiphertext := 1
  downloadedAt := 0

/-- The model and the adapter are downloaded and a slot is loaded for them. -/
def loadSample : List ServedEvent :=
  [.encryptModel "default" (.sample "llama" "1") [0], .addModel "default" (.sample "llama" "1"),
    .encryptLora "default" (.sample "style" "2") [0], .addLora "default" (.sample "style" "2"),
    .ensure 0 .sample none none, .manager (.task 0 (.acquire true))]

/-- A call that loads, not one that removes. -/
def Caller.isEnsure : Caller → Bool
  | .ensure _ _ => true
  | .remove _ _ => false

/-- The slot is right for the request it is loaded for. -/
theorem loaded_sample_matches :
    ∃ s, Run (step ⟨1, 2048, 8⟩) Orderly start s ∧ s.answers.map Answer.result = [.slot 0] ∧
      ∀ answer ∈ s.answers, Right s.built answer := by
  -- An empty table has nothing to match.
  have hempty : ∀ (s : Served) (a : LoadArgs) (r : Request), s.manager.loaded.entries = [] →
      s.Finds a r := by
    intro s a r hentries b o hhit _
    have hmem := (Dict.mem_entries_iff _ _ _).mpr (ModelManager.loaded_of_hit hhit)
    rw [hentries] at hmem
    exact absurd hmem List.not_mem_nil
  -- Nothing is in use while the two are downloaded.
  have hdownload : ∃ s, Run (step ⟨1, 2048, 8⟩) Orderly start s ∧
      play (step ⟨1, 2048, 8⟩) start (loadSample.take 4) = some s := by
    refine ⟨_, .tail _ _ (.addLora "default" (.sample "style" "2"))
      (.tail _ _ (.encryptLora "default" (.sample "style" "2") [0])
        (.tail _ _ (.addModel "default" (.sample "llama" "1"))
          (.tail _ _ (.encryptModel "default" (.sample "llama" "1") [0]) .start trivial rfl)
          ?_ rfl) trivial rfl) ?_ rfl, rfl⟩
    · rintro a (⟨o, ⟨_, _, hb, _⟩, _⟩ | ⟨_, _, hk⟩)
      · cases hb
      · cases hk
    · rintro o ⟨_, _, hb, _⟩
      cases hb
  have hplay : ((play (step ⟨1, 2048, 8⟩) start (loadSample.take 4)).any fun s4 =>
      decide (s4.manager.loaded.entries = []) &&
        (step ⟨1, 2048, 8⟩ s4 (.ensure 0 .sample none none)).any fun s5 =>
          decide (s5.manager.loaded.entries = []) &&
            (s5.callers 0).all Caller.isEnsure &&
              (step ⟨1, 2048, 8⟩ s5 (.manager (.task 0 (.acquire true)))).any fun s6 =>
                decide (s6.answers.map Answer.result = [.slot 0])) = true := by
    decide +kernel
  rcases hdownload with ⟨s4, hrun, hs4⟩
  rw [hs4, Option.any_some, Bool.and_eq_true] at hplay
  rcases (Option.any_eq_true _ _).mp hplay.2 with ⟨s5, hs5, hplay'⟩
  rw [Bool.and_eq_true, Bool.and_eq_true] at hplay'
  rcases (Option.any_eq_true _ _).mp hplay'.2 with ⟨s6, hs6, hend⟩
  have hloaded : Run (step ⟨1, 2048, 8⟩) Orderly start s6 := by
    refine .tail s5 s6 (.manager (.task 0 (.acquire true)))
      (.tail s4 s5 (.ensure 0 .sample none none) hrun ?_ hs5) ⟨fun tenant id hk => ?_, ?_⟩ hs6
    · exact hempty s4 _ _ (of_decide_eq_true hplay.1)
    · have hcaller := hplay'.1.2
      rw [hk] at hcaller
      cases hcaller
    · exact fun _ a _ r _ _ _ => hempty s5 a r (of_decide_eq_true hplay'.1.1)
  exact ⟨s6, hloaded, of_decide_eq_true hend, served_slot_matches ⟨1, 2048, 8⟩ s6 hloaded⟩

/-- The adapter is removed, and the request that asks for it still gets the slot. -/
theorem removed_adapter_is_served :
    ∃ s, Run (step ⟨1, 2048, 8⟩) anyStep start s ∧ ∃ answer ∈ s.answers,
      answer.args.ids = ["style"] ∧ answer.result = .slot 0 ∧
        answer.registries.loraSha answer.args.tenant "style" = none ∧ ¬ Right s.built answer := by
  have hplay : ((play (step ⟨1, 2048, 8⟩) start
      (loadSample ++ [.removeLora "default" "style", .ensure 1 .sample none none])).any fun s =>
        (s.answers.any fun answer => decide (answer.args.ids = ["style"] ∧
          answer.result = .slot 0 ∧
            answer.registries.loraSha answer.args.tenant "style" = none))) = true := by
    decide +kernel
  rcases (Option.any_eq_true _ _).mp hplay with ⟨s, hs, hend⟩
  rcases List.any_eq_true.mp hend with ⟨answer, hmem, hanswer⟩
  rcases of_decide_eq_true hanswer with ⟨hids, hresult, hnone⟩
  refine ⟨s, run_of_play _ hs, answer, hmem, hids, hresult, hnone, fun hright => ?_⟩
  -- A slot was returned where the adapter is listed no more.
  have hnot : ¬ answer.registries.Registered answer.args := by
    intro hregistered
    have hlisted := ((Registries.registered_iff _).mp hregistered).2 "style"
    rw [hids] at hlisted
    exact hlisted (List.mem_singleton.mpr rfl) hnone
  rw [hright.2 hnot] at hresult
  exact absurd hresult nofun

end Models

end SecureLlm
