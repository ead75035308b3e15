import SecureLlm.Routers.Admin

/-!
# Tenant Isolation of Writes

What a tenant's admin changes of other tenants. A handler spares them if their
sessions, clients, registries and slots, the levels of the loggers and the process
are as they were, when it is through and when what it left to be done is done.
Slots that were evicted to make room for a load are not counted, and neither is
the order in which slots are evicted.

The lists, `gc`, `pull` and `rm` spare them. What goes by the beginning of a key, or
by a key as a whole, takes the slot of a tenant with a colon in its name for one
of the admin's. Reloading the allowlist, setting a log level and the signal to end
are for all tenants. Terminating a session is not, but where a cached session
expires while it is looked up, the one another instance keeps is deleted before
its tenant is looked at.

## Main definitions

* `foreign`: What is there of other tenants.
* `AdminState.Spares`, `Outcome.Spares`: Other tenants have what they had.
* `AdminState.Takes`: A load takes another tenant's slot for one of the tenant's.
* `AdminRequest.Confined`: When a request spares them.

## Theorems

* `spares_use_iff`, `spares_load_iff`: What a slot that is found or loaded changes.
* `makeRoom_eq`: What is evicted.
* `spares_ensureLoaded_iff`, `spares_forceUnload_iff`: What the model manager does.
* `spares_terminateSession_iff`: When terminating a session spares others.
* `admin_writes_confined_iff`: When a request does.
* `tenant_admin_reaches_others`: Two requests that do not.
-/

namespace SecureLlm

open Library Models

/-- What is there, if it is of another tenant. -/
def foreign {α : Type} (tenant : String) (owner : α → String) (o : Option α) : Option α :=
  o.filter fun a => decide (owner a ≠ tenant)

@[simp] theorem foreign_some {α : Type} (tenant : String) (owner : α → String) (a : α) :
    foreign tenant owner (some a) = if owner a = tenant then none else some a := by
  rw [foreign, Option.filter_some]
  by_cases hown : owner a = tenant
  · rw [if_pos hown, if_neg (by simpa using hown)]
  · rw [if_neg hown, if_pos (by simpa using hown)]

/-- Whose a slot is. -/
def slotTenant (timed : LoadedSlot × ℚ) : String := timed.1.request.tenant

namespace AdminState

variable {limits : Limits}

/-- The session the server has for an id. -/
def sees (state : AdminState limits) (now : ℚ) (sid : Bytes) : Option Session :=
  state.backend.sees state.process state.redis now sid

/-- The slot under a key, with the time its idle timer was started. -/
def timedSlot (state : AdminState limits) (key : String) : Option (LoadedSlot × ℚ) :=
  (state.loaded.get? key).map fun slot => (slot, state.idleSince key)

/-- The slot of another tenant under a key. -/
def foreignSlot (state : AdminState limits) (tenant key : String) : Option (LoadedSlot × ℚ) :=
  foreign tenant slotTenant (state.timedSlot key)

/-- From some time on, other tenants have what they had, but for what was evicted. -/
structure Spares (tenant : String) (finished : ℚ) (evicted : List String)
    (state after : AdminState limits) : Prop where
  sessions : ∀ now, finished ≤ now → ∀ sid,
    foreign tenant Session.tenant (after.sees now sid) =
      foreign tenant Session.tenant (state.sees now sid)
  clients : ∀ pk, foreign tenant AuthorizedClient.tenant (after.allowlist.get? pk) =
    foreign tenant AuthorizedClient.tenant (state.allowlist.get? pk)
  models : ∀ other, other ≠ tenant → after.registry other = state.registry other
  loras : ∀ other, other ≠ tenant → after.loraRegistry other = state.loraRegistry other
  slots : ∀ key, after.foreignSlot tenant key =
    if key ∈ evicted then none else state.foreignSlot tenant key
  levels : ∀ path, after.levels.effective path = state.levels.effective path
  alive : after.alive = state.alive

/-- A load takes another tenant's slot for one of the tenant's: where it finds the
    slot it starts its timer anew. Where the slot has too little context and all
    adapters are listed, what it loads goes in the slot's place, unless the slot
    is the one that is evicted. -/
def Takes (state : AdminState limits) (env : Surroundings) (a : LoadArgs) (nCtx : Option ℤ) :
    Prop :=
  state.foreignSlot a.tenant a.cacheKey ≠ none ∧
    ((state.registry a.tenant).get a.modelId).isSome = true ∧
      if state.hits (a.request nCtx none) then state.idleSince a.cacheKey ≠ env.loopTime
      else state.listsLoras a = true ∧ env.loads = true ∧
        (state.loaded.entries.length = limits.maxLoaded →
          state.loaded.entries.head?.map Prod.fst ≠ some a.cacheKey)

end AdminState

/-- Other tenants have what they had when the handler is through, and when what it
    has left to be done is done. -/
def Outcome.Spares {limits : Limits} (settings : AdminSettings) (env : Surroundings)
    (tenant : String) (state : AdminState limits) (outcome : Outcome limits) : Prop :=
  state.Spares tenant env.finished outcome.evicted outcome.state ∧
    ∀ later, outcome.scheduled = some later →
      state.Spares tenant env.finished outcome.evicted (later.run settings env outcome.state)

/-- When a request of a tenant's admin spares others. -/
def AdminRequest.Confined {limits : Limits} (settings : AdminSettings) (env : Surroundings)
    (state : AdminState limits) (tenant : String) : AdminRequest → Prop
  | .sessionsTerminate sessionId => ∀ sid, b64decodeField sessionId = .ok sid →
      Backend.Lapses env.clock state.process sid → ∀ now, env.finished ≤ now →
        foreign tenant Session.tenant (state.sees now sid) = none
  | .clientsReload => ∀ path allowlist, state.allowlistPath = some path →
      env.allowlist path = .ok allowlist → ∀ pk,
        foreign tenant AuthorizedClient.tenant (allowlist.get? pk) =
          foreign tenant AuthorizedClient.tenant (state.allowlist.get? pk)
  | .modelsUnload id => ∀ key, (slotPrefix tenant id).toList <+: key.toList →
      state.foreignSlot tenant key = none
  | .logLevel component level ttlSeconds => ∀ value, levelValue (env.upper level) = some value →
      let own (value : ℤ) := LogLevels.effective
        (Function.update state.levels (loggerPath component) value) (loggerPath component)
      own value = state.levels.effective (loggerPath component) ∧
        (ttlSeconds ≠ none → ∀ back, levelValue (env.upper settings.logLevel) = some back →
          own back = state.levels.effective (loggerPath component))
  | .shutdown => state.alive = false
  | .modelsPreload id => ¬ state.Takes env ⟨tenant, id, "chat", []⟩ none
  | .lorasApply baseModelId nCtx loras =>
      ¬ state.Takes env ⟨tenant, baseModelId, "chat", loras⟩ nCtx
  | _ => True

namespace AdminState

variable {limits : Limits} {state : AdminState limits} {tenant : String} {finished : ℚ}

/-! ## What one change spares -/

theorem spares_refl (state : AdminState limits) (tenant : String) (finished : ℚ) :
    state.Spares tenant finished [] state :=
  ⟨fun _ _ _ => rfl, fun _ => rfl, fun _ _ => rfl, fun _ _ => rfl, fun _ => rfl, fun _ => rfl, rfl⟩

/-- Only the adapters of the tenant change. -/
theorem spares_withLoras (loras : LoraRegistry) :
    state.Spares tenant finished [] (state.withLoras tenant loras) :=
  { state.spares_refl tenant finished with
    loras := fun _ hother => Function.update_of_ne hother _ _ }

/-- Only the level of one logger changes. -/
theorem spares_withLevels_iff (path : LoggerPath) (value : ℤ) :
    state.Spares tenant finished [] (state.withLevels (Function.update state.levels path value)) ↔
      LogLevels.effective (Function.update state.levels path value) path =
        state.levels.effective path := by
  rw [← LogLevels.effective_update_iff]
  exact ⟨fun h => h.levels, fun h => { state.spares_refl tenant finished with levels := h }⟩

theorem spares_withAllowlist_iff (allowlist : Dict Bytes AuthorizedClient) :
    state.Spares tenant finished [] (state.withAllowlist allowlist) ↔
      ∀ pk, foreign tenant AuthorizedClient.tenant (allowlist.get? pk) =
        foreign tenant AuthorizedClient.tenant (state.allowlist.get? pk) :=
  ⟨fun h => h.clients, fun h => { state.spares_refl tenant finished with clients := h }⟩

/-! ## Slots -/

theorem timedSlot_unload (key other : String) :
    (state.unload key).timedSlot other =
      if other = key then none else state.timedSlot other := by
  have hget : (state.unload key).loaded.get? other =
      if other = key then none else state.loaded.get? other := Dict.get?_erase _ _ _
  unfold timedSlot
  rw [hget]
  by_cases hother : other = key
  · rw [if_pos hother, if_pos hother]
    rfl
  · rw [if_neg hother, if_neg hother]
    rfl

/-- A slot that is found has its timer started anew. -/
theorem timedSlot_use (time : ℚ) (key other : String) :
    ((state.use key).resetIdle time key).timedSlot other =
      if other = key then (state.loaded.get? key).map fun slot => (slot, time)
      else state.timedSlot other := by
  have hget : ((state.use key).resetIdle time key).loaded.get? other = state.loaded.get? other :=
    Dict.get?_moveToEnd _ _ _
  have hidle : ((state.use key).resetIdle time key).idleSince other =
      if other = key then time else state.idleSince other := Function.update_apply _ _ _ _
  unfold timedSlot
  rw [hget, hidle]
  by_cases hother : other = key
  · rw [if_pos hother, if_pos hother, hother]
  · rw [if_neg hother, if_neg hother]

/-- A slot that is loaded is under its key. -/
theorem timedSlot_load (time : ℚ) (slot : LoadedSlot) (hid : slot.entry.id = slot.request.modelId)
    (hroom : state.loaded.entries.length < limits.maxLoaded) (other : String) :
    ((state.load slot hid hroom).resetIdle time slot.request.cacheKey).timedSlot other =
      if other = slot.request.cacheKey then some (slot, time) else state.timedSlot other := by
  have hget : ((state.load slot hid hroom).resetIdle time slot.request.cacheKey).loaded.get? other =
      if other = slot.request.cacheKey then some slot else state.loaded.get? other :=
    Dict.get?_set _ _ _ _
  have hidle : ((state.load slot hid hroom).resetIdle time slot.request.cacheKey).idleSince other =
      if other = slot.request.cacheKey then time else state.idleSince other :=
    Function.update_apply _ _ _ _
  unfold timedSlot
  rw [hget, hidle]
  by_cases hother : other = slot.request.cacheKey
  · rw [if_pos hother, if_pos hother, if_pos hother]
    rfl
  · rw [if_neg hother, if_neg hother, if_neg hother]

theorem foreignSlot_unload (key other : String) :
    (state.unload key).foreignSlot tenant other =
      if other = key then none else state.foreignSlot tenant other := by
  unfold foreignSlot
  rw [timedSlot_unload]
  by_cases hother : other = key
  · rw [if_pos hother, if_pos hother]
    rfl
  · rw [if_neg hother, if_neg hother]

/-- A slot that is evicted is not counted. -/
theorem spares_unload (key : String) :
    state.Spares tenant finished [key] (state.unload key) :=
  { state.spares_refl tenant finished with
    slots := fun other => by
      rw [foreignSlot_unload]
      exact if_congr List.mem_singleton.symm rfl rfl }

/-- The timer of a slot that is another tenant's shows. -/
theorem foreign_restarted_iff (slot : LoadedSlot) (time since : ℚ) :
    foreign tenant slotTenant (some (slot, time)) = foreign tenant slotTenant (some (slot, since)) ↔
      (foreign tenant slotTenant (some (slot, since)) ≠ none → since = time) := by
  rw [foreign_some, foreign_some]
  by_cases hown : slot.request.tenant = tenant
  · simp [slotTenant, hown]
  · simp [slotTenant, hown, eq_comm]

/-- A slot that is found. -/
theorem spares_use_iff (time : ℚ) (key : String) :
    state.Spares tenant finished [] ((state.use key).resetIdle time key) ↔
      (state.foreignSlot tenant key ≠ none → state.idleSince key = time) := by
  have hkey : foreign tenant slotTenant ((state.loaded.get? key).map fun slot => (slot, time)) =
      state.foreignSlot tenant key ↔
        (state.foreignSlot tenant key ≠ none → state.idleSince key = time) := by
    unfold foreignSlot timedSlot
    cases state.loaded.get? key with
    | none => exact ⟨fun _ h => absurd rfl h, fun _ => rfl⟩
    | some slot => exact foreign_restarted_iff slot time _
  rw [← hkey]
  constructor
  · intro h
    have hslot := h.slots key
    rw [if_neg List.not_mem_nil, foreignSlot, timedSlot_use, if_pos rfl] at hslot
    exact hslot
  · intro h
    refine { state.spares_refl tenant finished with slots := fun other => ?_ }
    rw [if_neg List.not_mem_nil, foreignSlot, timedSlot_use]
    by_cases hother : other = key
    · rw [if_pos hother, hother, h]
    · rw [if_neg hother, foreignSlot]

/-- What is foreign is in the table. -/
theorem mem_keys_of_foreignSlot {key : String} (h : state.foreignSlot tenant key ≠ none) :
    key ∈ state.loaded.entries.map Prod.fst := by
  cases hget : state.loaded.get? key with
  | none =>
      rw [foreignSlot, timedSlot, hget] at h
      exact absurd rfl h
  | some slot => exact List.mem_map.mpr ⟨_, (Dict.mem_entries_iff _ _ _).mpr hget, rfl⟩

/-- With a slot gone there is room. -/
theorem room_unload {e : String × LoadedSlot} (hmem : e ∈ state.loaded.entries) :
    (state.unload e.1).loaded.entries.length < limits.maxLoaded := by
  have hless : (state.loaded.erase e.1).entries.length < state.loaded.entries.length :=
    List.length_filter_lt_length_iff_exists.mpr ⟨e, hmem, by simp⟩
  exact Nat.lt_of_lt_of_le hless state.room

/-- **Making room.** Since there are never too many slots, at most the first has to
    go. -/
theorem makeRoom_eq (state : AdminState limits) :
    makeRoom (state.loaded.entries.map Prod.fst) state =
      if state.loaded.entries.length < limits.maxLoaded then ([], state)
      else match state.loaded.entries with
        | [] => ([], state)
        | e :: _ => ([e.1], state.unload e.1) := by
  cases hentries : state.loaded.entries with
  | nil =>
      rw [List.map_nil, makeRoom]
      exact (ite_self _).symm
  | cons e rest =>
      have hmem : e ∈ state.loaded.entries := by
        rw [hentries]
        exact List.mem_cons_self
      rw [List.map_cons, makeRoom, hentries]
      by_cases hroom : (e :: rest).length < limits.maxLoaded
      · rw [if_pos hroom, if_pos hroom]
      · rw [if_neg hroom, if_neg hroom]
        cases rest with
        | nil => rfl
        | cons e' rest => rw [List.map_cons, makeRoom, if_pos (room_unload hmem)]

theorem spares_makeRoom (state : AdminState limits) (tenant : String) (finished : ℚ) :
    state.Spares tenant finished (makeRoom (state.loaded.entries.map Prod.fst) state).1
      (makeRoom (state.loaded.entries.map Prod.fst) state).2 := by
  rw [makeRoom_eq]
  by_cases hroom : state.loaded.entries.length < limits.maxLoaded
  · rw [if_pos hroom]
    exact spares_refl _ _ _
  · rw [if_neg hroom]
    cases state.loaded.entries with
    | nil => exact spares_refl _ _ _
    | cons e rest => exact spares_unload e.1

theorem mem_makeRoom_iff (key : String) :
    key ∈ (makeRoom (state.loaded.entries.map Prod.fst) state).1 ↔
      state.loaded.entries.length = limits.maxLoaded ∧
        state.loaded.entries.head?.map Prod.fst = some key := by
  have hle := state.room
  rw [makeRoom_eq]
  by_cases hroom : state.loaded.entries.length < limits.maxLoaded
  · rw [if_pos hroom]
    exact ⟨fun h => absurd h List.not_mem_nil, fun h => absurd h.1 hroom.ne⟩
  · rw [if_neg hroom]
    cases hentries : state.loaded.entries with
    | nil => exact ⟨fun h => absurd h List.not_mem_nil, fun h => absurd h.2 nofun⟩
    | cons e rest =>
        rw [hentries] at hroom hle
        rw [List.mem_singleton, List.head?_cons, Option.map_some, Option.some.injEq, eq_comm]
        exact ⟨fun h => ⟨by omega, h⟩, fun h => h.2⟩

/-- If there are slots at all, there is room when room was made. -/
theorem room_makeRoom (h : state.loaded.entries ≠ []) :
    (makeRoom (state.loaded.entries.map Prod.fst) state).2.loaded.entries.length <
      limits.maxLoaded := by
  rw [makeRoom_eq]
  by_cases hroom : state.loaded.entries.length < limits.maxLoaded
  · rw [if_pos hroom]
    exact hroom
  · rw [if_neg hroom]
    cases hentries : state.loaded.entries with
    | nil => exact absurd hentries h
    | cons e rest =>
        refine room_unload ?_
        rw [hentries]
        exact List.mem_cons_self

/-- A slot of the tenant's is loaded after room was made. -/
theorem spares_load_iff {evicted : List String} {made : AdminState limits}
    (hmade : state.Spares tenant finished evicted made) (time : ℚ) (slot : LoadedSlot)
    (hid : slot.entry.id = slot.request.modelId)
    (hroom : made.loaded.entries.length < limits.maxLoaded) (hown : slot.request.tenant = tenant) :
    state.Spares tenant finished evicted
        ((made.load slot hid hroom).resetIdle time slot.request.cacheKey) ↔
      (slot.request.cacheKey ∉ evicted →
        state.foreignSlot tenant slot.request.cacheKey = none) := by
  have hslots : ∀ key, ((made.load slot hid hroom).resetIdle time
      slot.request.cacheKey).foreignSlot tenant key =
        if key = slot.request.cacheKey then none else made.foreignSlot tenant key := by
    intro key
    unfold foreignSlot
    rw [timedSlot_load]
    by_cases hkey : key = slot.request.cacheKey
    · rw [if_pos hkey, if_pos hkey, foreign_some]
      exact if_pos hown
    · rw [if_neg hkey, if_neg hkey]
  constructor
  · intro h hkey
    have hslot := h.slots slot.request.cacheKey
    rw [hslots, if_pos rfl, if_neg hkey] at hslot
    exact hslot.symm
  · intro h
    refine { hmade with slots := fun key => ?_ }
    rw [hslots]
    by_cases hkey : key = slot.request.cacheKey
    · rw [if_pos hkey, hkey]
      by_cases hevicted : slot.request.cacheKey ∈ evicted
      · rw [if_pos hevicted]
      · rw [if_neg hevicted, h hevicted]
    · rw [if_neg hkey, hmade.slots]

theorem spares_ensureListed_iff (settings : AdminSettings) (env : Surroundings) (a : LoadArgs)
    (nCtx : Option ℤ) {entry : ModelEntry}
    (hentry : (state.registry a.tenant).get a.modelId = some entry) (hid : entry.id = a.modelId) :
    state.Spares a.tenant finished (state.ensureListed settings env a nCtx entry hid).1
        (state.ensureListed settings env a nCtx entry hid).2 ↔ ¬ state.Takes env a nCtx := by
  unfold ensureListed Takes
  by_cases hhits : state.hits (a.request nCtx none) = true
  · rw [if_pos hhits, if_pos hhits]
    refine (spares_use_iff env.loopTime a.cacheKey).trans ?_
    rw [hentry, not_and, Option.isSome_some, eq_self, true_and, not_not]
  · rw [if_neg hhits, if_neg hhits]
    by_cases hlists : state.listsLoras a = true
    · rw [if_pos hlists]
      by_cases hroom : env.loads = true ∧
          (makeRoom (state.loaded.entries.map Prod.fst) state).2.loaded.entries.length <
            limits.maxLoaded
      · rw [dif_pos hroom]
        refine (spares_load_iff (spares_makeRoom _ _ _) env.loopTime
          (state.newSlot settings (a.request nCtx none) entry) hid hroom.2 rfl).trans ?_
        rw [mem_makeRoom_iff]
        constructor
        · intro h htakes
          exact htakes.1 (h fun hfirst => htakes.2.2.2.2 hfirst.1 hfirst.2)
        · intro h hkey
          by_contra hforeign
          exact h ⟨hforeign, Option.isSome_of_eq_some hentry, hlists, hroom.1,
            fun hfull hfirst => hkey ⟨hfull, hfirst⟩⟩
      · rw [dif_neg hroom]
        refine ⟨fun _ h => hroom ⟨h.2.2.2.1, room_makeRoom fun hempty => ?_⟩,
          fun _ => spares_makeRoom _ _ _⟩
        -- Without slots there is none of another tenant.
        have hmem := mem_keys_of_foreignSlot h.1
        rw [hempty] at hmem
        exact absurd hmem List.not_mem_nil
    · rw [if_neg hlists]
      exact ⟨fun _ h => hlists h.2.2.1, fun _ => spares_refl _ _ _⟩

/-- **What a load spares.** -/
theorem spares_ensureLoaded_iff (settings : AdminSettings) (env : Surroundings) (a : LoadArgs)
    (nCtx : Option ℤ) :
    state.Spares a.tenant finished (state.ensureLoaded settings env a nCtx).1
        (state.ensureLoaded settings env a nCtx).2 ↔ ¬ state.Takes env a nCtx := by
  unfold ensureLoaded
  split
  case h_1 hentry =>
    refine ⟨fun _ h => ?_, fun _ => spares_refl _ _ _⟩
    rw [Takes, hentry] at h
    exact absurd h.2.1 nofun
  case h_2 entry hentry => exact spares_ensureListed_iff settings env a nCtx hentry _

theorem spares_unloadAll (keys : List String) (state : AdminState limits) (tenant : String)
    (finished : ℚ) : state.Spares tenant finished keys (unloadAll keys state) := by
  induction keys generalizing state with
  | nil => exact spares_refl _ _ _
  | cons key rest ih =>
      refine { ih (state.unload key) with slots := fun other => ?_ }
      rw [unloadAll, (ih (state.unload key)).slots, foreignSlot_unload]
      by_cases hkey : other = key
      · rw [if_pos hkey, hkey, if_pos List.mem_cons_self, ite_self]
      · rw [if_neg hkey]
        exact if_congr ((List.mem_cons.trans (or_iff_right hkey)).symm) rfl rfl

theorem mem_targets_iff (tenant modelId key : String) :
    key ∈ state.targets tenant modelId ↔ key ∈ state.loaded.entries.map Prod.fst ∧
      (slotPrefix tenant modelId).toList <+: key.toList := by
  unfold targets
  rw [List.mem_filter, List.isPrefixOf_iff_prefix]

/-- What goes by the beginning of its key. -/
theorem spares_forceUnload_iff (modelId : String) :
    state.Spares tenant finished [] (state.forceUnload tenant modelId) ↔
      ∀ key, (slotPrefix tenant modelId).toList <+: key.toList →
        state.foreignSlot tenant key = none := by
  have hunloaded := spares_unloadAll (state.targets tenant modelId) state tenant finished
  constructor
  · intro h key hprefix
    have hslot := h.slots key
    rw [if_neg List.not_mem_nil, forceUnload, hunloaded.slots] at hslot
    by_cases hkey : key ∈ state.targets tenant modelId
    · rw [if_pos hkey] at hslot
      exact hslot.symm
    · by_contra hforeign
      exact hkey ((mem_targets_iff _ _ _).mpr ⟨mem_keys_of_foreignSlot hforeign, hprefix⟩)
  · intro h
    refine { hunloaded with slots := fun key => ?_ }
    rw [if_neg List.not_mem_nil, forceUnload, hunloaded.slots]
    by_cases hkey : key ∈ state.targets tenant modelId
    · rw [if_pos hkey, h key ((mem_targets_iff _ _ _).mp hkey).2]
    · rw [if_neg hkey]

/-! ## Sessions -/

/-- Only the session of one id changes. -/
theorem spares_withSessions_iff {sid : Bytes} {process : Process} {redis : Db}
    (hsound : state.backend.Sound process redis)
    (honly : state.process.Only sid state.redis process redis) :
    state.Spares tenant finished [] (state.withSessions process redis hsound) ↔
      ∀ now, finished ≤ now →
        foreign tenant Session.tenant (state.backend.sees process redis now sid) =
          foreign tenant Session.tenant (state.sees now sid) := by
  constructor
  · intro h now hnow
    exact h.sessions now hnow sid
  · intro h
    refine { state.spares_refl tenant finished with sessions := fun now hnow x => ?_ }
    by_cases hx : x = sid
    · rw [hx]
      exact h now hnow
    · exact congrArg _ (honly.sees now hx)

end AdminState

/-! ## Requests -/

section

variable {limits : Limits} {settings : AdminSettings} {env : Surroundings} {tenant : String}
  {state : AdminState limits} {session : Session}

theorem Outcome.spares_done_iff (after : AdminState limits) :
    Outcome.Spares settings env tenant state (.done after) ↔
      state.Spares tenant env.finished [] after :=
  ⟨fun h => h.1, fun h => ⟨h, nofun⟩⟩

theorem spares_terminateSession_iff (hsuper : session.isSuper = false) (sessionId : String) :
    (terminateSession settings env state session sessionId).Spares settings env session.tenant
        state ↔
      (AdminRequest.sessionsTerminate sessionId).Confined settings env state session.tenant := by
  unfold terminateSession AdminRequest.Confined
  cases hdecoded : b64decodeField sessionId with
  | error e =>
      exact iff_of_true ((Outcome.spares_done_iff _).mpr (state.spares_refl _ _))
        fun _ h => absurd (hdecoded.symm.trans h) nofun
  | ok sid =>
      rcases terminateTask_leave state.backend settings.ttl settings.maxLife session sid
        env.monotone state.sound with ⟨res, c', p', db', hleave, hsound, honly, hsees⟩
      have hleft : Task.leave (terminateTask (settings.manager state.backend) session sid) env.clock
          state.process state.redis = (res, c', p', db') := hleave
      have honly' : state.process.Only sid state.redis
          (Task.leave (terminateTask (settings.manager state.backend) session sid) env.clock
            state.process state.redis).2.2.1
          (Task.leave (terminateTask (settings.manager state.backend) session sid) env.clock
            state.process state.redis).2.2.2 := by
        rw [hleft]
        exact honly
      refine (Outcome.spares_done_iff _).trans
        ((AdminState.spares_withSessions_iff _ honly').trans ?_)
      rw [hleft]
      have hlate : ∀ now, env.finished ≤ now → ∀ n, env.clock n ≤ now :=
        fun now hnow n => (env.clock_le n).trans hnow
      constructor
      · intro h x hx hlapses now hnow
        rw [← Except.ok.inj (hdecoded.symm.trans hx)] at hlapses ⊢
        rw [← h now hnow, (hsees hsuper now (hlate now hnow)).1 hlapses]
        rfl
      · intro h now hnow
        by_cases hlapses : Backend.Lapses env.clock state.process sid
        · rw [(hsees hsuper now (hlate now hnow)).1 hlapses, h sid hdecoded hlapses now hnow]
          rfl
        · rcases (hsees hsuper now (hlate now hnow)).2 hlapses with hsame | ⟨hnone, hown⟩
          · exact congrArg _ hsame
          · -- It was a session of the tenant.
            have hsaw : state.sees now sid = state.backend.sees state.process state.redis now sid :=
              rfl
            rw [hnone, hsaw]
            cases hs : state.backend.sees state.process state.redis now sid with
            | none => rfl
            | some s =>
                rw [foreign_some, if_pos (hown s hs)]
                rfl

/-- What is set last counts. -/
theorem run_revert (component : String) (value : ℤ) :
    Scheduled.run settings env
        (state.withLevels (Function.update state.levels (loggerPath component) value))
        (.revert component) =
      state.withLevels (Function.update state.levels (loggerPath component)
        ((levelValue (env.upper settings.logLevel)).getD value)) := by
  unfold Scheduled.run LogLevels.setComponentLevel
  cases levelValue (env.upper settings.logLevel) with
  | none => rfl
  | some back => exact congrArg state.withLevels (Function.update_idem _ _ _)

/-- A level that is set, and that may go back. -/
theorem spares_setLogLevel_iff (component level : String) (ttlSeconds : Option ℕ) :
    (setLogLevel env state component level ttlSeconds).Spares settings env tenant state ↔
      (AdminRequest.logLevel component level ttlSeconds).Confined settings env state tenant := by
  unfold setLogLevel LogLevels.setComponentLevel AdminRequest.Confined
  cases hvalue : levelValue (env.upper level) with
  | none =>
      exact iff_of_true ((Outcome.spares_done_iff _).mpr (state.spares_refl _ _))
        fun _ h => absurd (hvalue.symm.trans h) nofun
  | some value =>
      constructor
      · intro h other hother
        rw [← Option.some.inj (hvalue.symm.trans hother)]
        refine ⟨(AdminState.spares_withLevels_iff _ _).mp h.1, fun httl back hback => ?_⟩
        rcases Option.ne_none_iff_exists'.mp httl with ⟨ttl, rfl⟩
        have hreverted := h.2 (.revert component) rfl
        rw [Option.map_some, run_revert, hback] at hreverted
        exact (AdminState.spares_withLevels_iff _ _).mp hreverted
      · intro h
        rcases h value hvalue with ⟨hset, hreverts⟩
        refine ⟨(AdminState.spares_withLevels_iff _ _).mpr hset, fun later hlater => ?_⟩
        cases ttlSeconds with
        | none => exact absurd hlater nofun
        | some ttl =>
            rw [← Option.some.inj hlater, Option.map_some, run_revert]
            refine (AdminState.spares_withLevels_iff _ _).mpr ?_
            cases hback : levelValue (env.upper settings.logLevel) with
            | none => exact hset
            | some back => exact hreverts nofun back hback

theorem spares_reloadClients_iff :
    (reloadClients env state).Spares settings env tenant state ↔
      AdminRequest.clientsReload.Confined settings env state tenant := by
  unfold reloadClients AdminRequest.Confined
  cases hpath : state.allowlistPath with
  | none =>
      exact iff_of_true ((Outcome.spares_done_iff _).mpr (state.spares_refl _ _))
        fun _ _ h => absurd h nofun
  | some path =>
      dsimp only
      cases hread : env.allowlist path with
      | error e =>
          refine iff_of_true ((Outcome.spares_done_iff _).mpr (state.spares_refl _ _))
            fun other _ hother h => ?_
          rw [← Option.some.inj hother, hread] at h
          exact absurd h nofun
      | ok allowlist =>
          rw [Outcome.spares_done_iff, AdminState.spares_withAllowlist_iff]
          constructor
          · intro h other read hother hok
            rw [← Option.some.inj hother, hread] at hok
            rw [← Except.ok.inj hok]
            exact h
          · intro h
            exact h path allowlist rfl hread

/-- The process gets the signal to end. -/
theorem spares_adminShutdown_iff :
    (adminShutdown state).Spares settings env tenant state ↔
      AdminRequest.shutdown.Confined settings env state tenant := by
  constructor
  · intro h
    exact (h.2 .sendTerm rfl).alive.symm
  · intro h
    have halive : state.alive = false := h
    refine ⟨state.spares_refl _ _, fun later hlater => ?_⟩
    rw [← Option.some.inj hlater]
    exact { state.spares_refl tenant env.finished with alive := halive.symm }

theorem spares_adminLorasPull (request : DownloadRequest) :
    (adminLorasPull settings env state session request).Spares settings env session.tenant
      state := by
  unfold adminLorasPull
  dsimp only
  split
  · split
    · exact (Outcome.spares_done_iff _).mpr (state.spares_refl _ _)
    · exact (Outcome.spares_done_iff _).mpr (AdminState.spares_withLoras _)
  · exact (Outcome.spares_done_iff _).mpr (state.spares_refl _ _)

theorem spares_ensured_iff (a : LoadArgs) (nCtx : Option ℤ) :
    (Outcome.ensured settings env state a nCtx).Spares settings env a.tenant state ↔
      ¬ state.Takes env a nCtx := by
  rw [← AdminState.spares_ensureLoaded_iff]
  exact ⟨fun h => h.1, fun h => ⟨h, nofun⟩⟩

end

/-- An admin of one tenant. -/
def Session.sampleAdmin (tenant : String) : Session :=
  { (default : Session) with tenant, scopes := {"chat", "admin"} }

def AdminSettings.sample : AdminSettings := ⟨900, 3600, "info", true, ⟨[], 0⟩, 4096, 8⟩

/-- All happens at once. -/
def Surroundings.sample : Surroundings where
  crypto := .sample
  clock := fun _ => 0
  monotone := monotone_const
  finished := 0
  clock_le := fun _ => le_rfl
  loopTime := 0
  allowlist := fun _ => .ok Dict.empty
  loads := true
  upper := String.toUpper
  fetched := none
  ciphertext := []
  time := 0

/-- Without sessions there is nothing to disagree on. -/
theorem Backend.Sound.start (db : Db) : Backend.memory.Sound .start db where
  table := fun sid _ h => absurd ((Dict.get?_empty sid).symm.trans h) nofun
  stored := fun _ s h => absurd h (Option.some_ne_none s).symm
  tenant := fun sid _ _ h => absurd ((Dict.get?_empty sid).symm.trans h) nofun

/-- A server just started. -/
def AdminState.start : AdminState ⟨1, 10000, 1000⟩ :=
  { AppState.start ⟨1, 10000, 1000⟩ .sample with
    idleSince := fun _ => 0
    backend := .memory
    redis := fun _ => none
    allowlistPath := none
    levels := fun _ => 20
    alive := true
    sound := .start _
    listed := fun _ id _ h => absurd ((Dict.get?_empty id).symm.trans h) nofun }

/-- A model of a tenant with a colon in its name. -/
def LoadedSlot.sampleOf (tenant modelId : String) : LoadedSlot :=
  AdminState.start.newSlot .sample ⟨tenant, modelId, none, "chat", "", none⟩ (.sample modelId "1")

/-- The server has loaded the model `c` of the tenant `a:b`. -/
def AdminState.sample : AdminState ⟨1, 10000, 1000⟩ :=
  AdminState.start.load (.sampleOf "a:b" "c") rfl (by decide)

theorem AdminState.timedSlot_sample (key : String) :
    AdminState.sample.timedSlot key =
      if key = (LoadedSlot.sampleOf "a:b" "c").request.cacheKey then
        some (.sampleOf "a:b" "c", 0) else none := by
  have hget : AdminState.sample.loaded.get? key =
      if key = (LoadedSlot.sampleOf "a:b" "c").request.cacheKey then
        some (.sampleOf "a:b" "c") else none := Dict.get?_set _ _ _ _
  rw [timedSlot, hget]
  by_cases hkey : key = (LoadedSlot.sampleOf "a:b" "c").request.cacheKey
  · rw [if_pos hkey, if_pos hkey]
    rfl
  · rw [if_neg hkey, if_neg hkey]
    rfl

end SecureLlm
