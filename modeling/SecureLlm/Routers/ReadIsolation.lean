import Mathlib.Algebra.Order.Ring.Rat
import SecureLlm.Library.Isolation
import SecureLlm.Routers.Listings

/-!
# Tenant Isolation of Reads

What a session learns of other tenants. Two states agree on a tenant if they are
the same as far as its registries, slots, sessions, clients, log entries and
errors go, and their hosts report the same. A response is confined if all states
that agree give it.

The lists of sessions, clients and adapters are confined. The list of models is
not: the slot of a tenant whose name goes on with a colon and a model of the
first has a key that begins as one of the first's does. The reports are of the
default tenant, and logs and errors are shown whoever left them. What a query for
logs finds depends on others also where it is filtered by the client, because
any entry that is old enough ends the walk.

A buffer or a table with no room for anything of others says nothing about them.

## Main definitions

* `AppState.isClient`, `AppState.ownLog`, `AppState.ownError`: Whose something is.
* `AppState.Agree`: Two states agree on a tenant.
* `ReadRequest.Isolated`: When a response is confined.

## Theorems

* `tenant_reads_confined_iff`: Which responses are confined.
* `default_models_shown`: Two tenants, and what one sees of the other.
-/

namespace SecureLlm

open Library Models

namespace AppState

variable {limits : Limits} (crypto : Primitives) (session : Session)

/-- Is the fingerprint one of the tenant's clients? They are in the allowlist or
    have a session, as the one that asks. -/
def isClient (state : AppState limits) (fp : String) : Bool :=
  fp = session.clientFingerprint ||
    (state.allowlist.values.filter (·.tenant = session.tenant)).any (·.fingerprint crypto = fp) ||
    (state.sessions.filter (·.tenant = session.tenant)).any (·.clientFingerprint = fp)

/-- Is a log entry the tenant's, by its tenant or by its client? -/
def ownLog (state : AppState limits) (e : LogEntry) : Bool :=
  e.fields.get? "tenant" = some (.text session.tenant) ||
    match e.fields.get? "client_fp" with
    | some (.text fp) => state.isClient crypto session fp
    | _ => false

/-- Is an error the tenant's, by its client? -/
def ownError (state : AppState limits) (r : ErrorRecord) : Bool :=
  r.clientFingerprint.any (state.isClient crypto session)

def ownLogs (state : AppState limits) : List LogEntry :=
  state.ring.buf.filter (state.ownLog crypto session)

def ownErrors (state : AppState limits) : List (String × ErrorRecord) :=
  state.errors.records.entries.filter (fun e => state.ownError crypto session e.2)

/-- The slots loaded for the tenant. -/
def ownSlots (state : AppState limits) : List (String × LoadedSlot) :=
  state.loaded.entries.filter (fun e => e.2.request.tenant = session.tenant)

/-- Two states agree on what the session's tenant owns, and on the host. -/
structure Agree (state other : AppState limits) : Prop where
  registry : state.registry session.tenant = other.registry session.tenant
  loraRegistry : state.loraRegistry session.tenant = other.loraRegistry session.tenant
  slots : state.ownSlots session = other.ownSlots session
  sessions : state.sessions.filter (·.tenant = session.tenant) =
    other.sessions.filter (·.tenant = session.tenant)
  clients : state.allowlist.values.filter (·.tenant = session.tenant) =
    other.allowlist.values.filter (·.tenant = session.tenant)
  logs : state.ownLogs crypto session = other.ownLogs crypto session
  errors : state.ownErrors crypto session = other.ownErrors crypto session
  host : state.host = other.host

/-- The tenant has no models, or its slots leave no room for others. -/
def ModelsAlone (state : AppState limits) : Prop :=
  (state.registry session.tenant).all = [] ∨ (state.ownSlots session).length = limits.maxLoaded

/-- The tenant's log entries leave no room for others. -/
def LogsAlone (state : AppState limits) : Prop :=
  (state.ownLogs crypto session).length = limits.ringSize

/-- The tenant's errors leave no room for others. -/
def ErrorsAlone (state : AppState limits) : Prop :=
  (state.ownErrors crypto session).length = limits.errorCapacity

/-- The models shown to all are the tenant's, and it is alone with them. -/
def SystemAlone (state : AppState limits) : Prop :=
  session.tenant = defaultTenant ∧ state.ModelsAlone session

variable {crypto session} {state other : AppState limits}

/-! ## What is agreed on -/

/-- The slots are all agreed on if there are no models or no other slots. -/
theorem Agree.snapshot (h : Agree crypto session state other) (halone : state.ModelsAlone session) :
    state.snapshot session.tenant = other.snapshot session.tenant := by
  unfold AppState.snapshot
  rw [← h.registry]
  rcases halone with hnone | hfull
  · rw [hnone, List.map_nil, List.map_nil]
  · have hloaded : state.loaded.entries = other.loaded.entries :=
      eq_of_full state.room other.room h.slots hfull
    unfold slotFor
    rw [hloaded]

theorem Agree.system (h : Agree crypto session state other) (halone : state.SystemAlone session) :
    state.system = other.system := by
  have hmodels := h.snapshot halone.2
  rw [halone.1] at hmodels
  unfold AppState.system AppState.uptime
  rw [hmodels, h.host]

theorem Agree.ring (h : Agree crypto session state other)
    (halone : state.LogsAlone crypto session) : state.ring.buf = other.ring.buf :=
  eq_of_full state.ring.length_le other.ring.length_le h.logs halone

theorem Agree.errorRecords (h : Agree crypto session state other)
    (halone : state.ErrorsAlone crypto session) : state.errors.records.values =
      other.errors.records.values :=
  congrArg (List.map Prod.snd)
    (eq_of_full state.errors.length_le other.errors.length_le h.errors halone)

theorem Agree.liveSessions (h : Agree crypto session state other) :
    state.liveSessions.filter (·.tenant = session.tenant) =
      other.liveSessions.filter (·.tenant = session.tenant) := by
  unfold AppState.liveSessions
  rw [h.host]
  rw [List.filter_comm, h.sessions, List.filter_comm]

/-! ## States that agree -/

/-- The state with other log entries. -/
def withRing (state : AppState limits) (buf : List LogEntry) (h : buf.length ≤ limits.ringSize) :
    AppState limits := { state with ring := ⟨buf, h⟩ }

/-- The state with other errors. -/
def withErrors (state : AppState limits) (records : Dict String ErrorRecord)
    (h : records.entries.length ≤ limits.errorCapacity) : AppState limits :=
  { state with errors := ⟨records, h⟩ }

/-- The state with another registry of a tenant. -/
def withRegistry (state : AppState limits) (tenant : String) (registry : ModelRegistry) :
    AppState limits := { state with registry := Function.update state.registry tenant registry }

/-- The name of another tenant. -/
def otherTenant (tenant : String) : String := tenant ++ "'"

theorem otherTenant_ne (tenant : String) : otherTenant tenant ≠ tenant := by
  intro h
  have hlength := congrArg String.length h
  rw [otherTenant, String.length_append] at hlength
  exact absurd hlength (Nat.succ_ne_self _)

/-- A log entry of another tenant. -/
def otherEntry (tenant : String) (ts : ℚ) (level component event : String) : LogEntry :=
  ⟨ts, level, component, event, Dict.empty.set "tenant" (.text (otherTenant tenant))⟩

theorem ownLog_otherEntry (session : Session) (ts : ℚ) (level component event : String) :
    state.ownLog crypto session (otherEntry session.tenant ts level component event) = false := by
  have htenant : (otherEntry session.tenant ts level component event).fields.get? "tenant" =
      some (.text (otherTenant session.tenant)) := rfl
  have hclient : (otherEntry session.tenant ts level component event).fields.get? "client_fp" =
      none := rfl
  unfold ownLog
  rw [htenant, hclient, Bool.or_false, decide_eq_false_iff_not, Option.some.injEq, Value.text.injEq]
  exact otherTenant_ne _

/-- Where there is room, another tenant may have left the last entry. -/
theorem exists_entry (hroom : ¬ state.LogsAlone crypto session) {e : LogEntry}
    (hother : state.ownLog crypto session e = false) :
    ∃ t : AppState limits, Agree crypto session state t ∧
      t.ring.buf = state.ownLogs crypto session ++ [e] := by
  have hle : (state.ownLogs crypto session).length ≤ limits.ringSize :=
    (List.length_filter_le _ _).trans state.ring.length_le
  have hlength : (state.ownLogs crypto session ++ [e]).length ≤ limits.ringSize := by
    rw [List.length_append, List.length_singleton]
    exact Nat.lt_of_le_of_ne hle hroom
  refine ⟨state.withRing _ hlength, ⟨rfl, rfl, rfl, rfl, rfl, ?_, rfl, rfl⟩, rfl⟩
  have hfilter : (state.ownLogs crypto session ++ [e]).filter (state.ownLog crypto session) =
      state.ownLogs crypto session := by
    rw [List.filter_append, List.filter_singleton, hother, ownLogs, List.filter_filter]
    simp only [Bool.and_self, Bool.cond_false, List.append_nil]
  exact hfilter.symm

/-- There may be no entries of others at all. -/
theorem exists_own_entries (crypto : Primitives) (session : Session) (state : AppState limits) :
    ∃ t : AppState limits, Agree crypto session state t ∧
    t.ring.buf = state.ownLogs crypto session := by
  have hle : (state.ownLogs crypto session).length ≤ limits.ringSize :=
    (List.length_filter_le _ _).trans state.ring.length_le
  refine ⟨state.withRing _ hle, ⟨rfl, rfl, rfl, rfl, rfl, ?_, rfl, rfl⟩, rfl⟩
  have hfilter : (state.ownLogs crypto session).filter (state.ownLog crypto session) =
      state.ownLogs crypto session := by
    rw [ownLogs, List.filter_filter]
    simp only [Bool.and_self]
  exact hfilter.symm

/-- Where there is room, the last error may be one of no client. -/
theorem exists_error (hroom : ¬ state.ErrorsAlone crypto session) {r : ErrorRecord}
    (hother : state.ownError crypto session r = false) :
    ∃ t : AppState limits, Agree crypto session state t ∧
      t.errors.records.values = (state.ownErrors crypto session).map Prod.snd ++ [r] := by
  rcases exists_fresh "" "" (state.errors.records.entries.map Prod.fst) with ⟨id, hid⟩
  rw [String.empty_append, String.append_empty] at hid
  have hsub : List.Sublist ((state.ownErrors crypto session).map Prod.fst)
      (state.errors.records.entries.map Prod.fst) := List.filter_sublist.map Prod.fst
  have hnodup : ((state.ownErrors crypto session ++ [(id, r)]).map Prod.fst).Nodup := by
    rw [List.map_append, List.map_singleton]
    refine List.Nodup.append (state.errors.records.nodup.sublist hsub) (List.nodup_singleton _) ?_
    refine List.disjoint_singleton.mpr fun h => hid (hsub.subset h)
  have hle : (state.ownErrors crypto session).length ≤ limits.errorCapacity :=
    (List.length_filter_le _ _).trans state.errors.length_le
  have hlength : (state.ownErrors crypto session ++ [(id, r)]).length ≤ limits.errorCapacity := by
    rw [List.length_append, List.length_singleton]
    exact Nat.lt_of_le_of_ne hle hroom
  refine ⟨state.withErrors ⟨_, hnodup⟩ hlength, ⟨rfl, rfl, rfl, rfl, rfl, rfl, ?_, rfl⟩,
    List.map_append⟩
  have hfilter : (state.ownErrors crypto session ++ [(id, r)]).filter
      (fun e => state.ownError crypto session e.2) = state.ownErrors crypto session := by
    rw [List.filter_append, List.filter_singleton, hother, ownErrors, List.filter_filter]
    simp only [Bool.and_self, Bool.cond_false, List.append_nil]
  exact hfilter.symm

/-- Another tenant may have any registry. -/
theorem exists_registry (crypto : Primitives) (state : AppState limits) {tenant : String}
    (hother : tenant ≠ session.tenant) (registry : ModelRegistry) :
    ∃ t : AppState limits, Agree crypto session state t ∧
      t.registry tenant = registry := by
  refine ⟨state.withRegistry tenant registry, ⟨?_, rfl, rfl, rfl, rfl, rfl, rfl, rfl⟩, ?_⟩
  · exact (Function.update_of_ne (Ne.symm hother) registry state.registry).symm
  · exact Function.update_self tenant registry state.registry

/-- A slot whose tenant is named after a tenant and a model. -/
def otherSlot (tenant : String) (entry : ModelEntry) (loraFp : String) (held : ModelState) :
    LoadedSlot where
  request := ⟨tenant ++ ":" ++ entry.id, entry.id, none, "chat", loraFp, none⟩
  entry := entry
  nCtx := 0
  state := held
  lastUsed := 0
  queueSize := 0
  lastError := none

theorem otherSlot_tenant_ne (tenant : String) (entry : ModelEntry) (loraFp : String)
    (held : ModelState) : (otherSlot tenant entry loraFp held).request.tenant ≠ tenant := by
  intro h
  have hlength := congrArg String.length h
  rw [otherSlot, String.length_append, String.length_append] at hlength
  have hcolon : ":".length = 1 := rfl
  omega

/-- Such a slot is found for the model of the tenant. -/
theorem slotMatches_otherSlot (tenant : String) (entry : ModelEntry) (loraFp : String)
    (held : ModelState) :
    slotMatches tenant entry.id ((otherSlot tenant entry loraFp held).request.cacheKey,
      otherSlot tenant entry loraFp held) = true := by
  unfold slotMatches
  rw [Bool.and_eq_true, decide_eq_true_eq, List.isPrefixOf_iff_prefix, toList_cacheKey,
    toList_slotPrefix, toList_slotPrefix]
  refine ⟨⟨entry.id.toList ++ ':' :: ("chat".toList ++ ':' :: loraFp.toList), ?_⟩, rfl⟩
  simp [otherSlot]

/-- Where there is room, the first slot found for a model may be another
    tenant's, in any state. -/
theorem exists_slot (crypto : Primitives)
    (hroom : (state.ownSlots session).length ≠ limits.maxLoaded) (entry : ModelEntry)
    (held : ModelState) :
    ∃ t : AppState limits, Agree crypto session state t ∧ t.registry = state.registry ∧
      (t.slotFor session.tenant entry.id).map (·.state) = some held := by
  rcases exists_fresh (slotPrefix (session.tenant ++ ":" ++ entry.id) entry.id ++ "chat:") "@1.0000"
    (state.loaded.entries.map Prod.fst) with ⟨s, hs⟩
  let slot := otherSlot session.tenant entry (s ++ "@1.0000") held
  -- The adapter is chosen so that nothing is loaded under the key.
  have hkey : slot.request.cacheKey ∉ state.loaded.entries.map Prod.fst := by
    have heq : slot.request.cacheKey =
        slotPrefix (session.tenant ++ ":" ++ entry.id) entry.id ++ "chat:" ++ s ++ "@1.0000" := by
      refine String.toList_injective ?_
      simp [slot, otherSlot, Models.Request.cacheKey, slotPrefix]
    rw [heq]
    exact hs
  have hsub : List.Sublist ((state.ownSlots session).map Prod.fst)
      (state.loaded.entries.map Prod.fst) := List.filter_sublist.map Prod.fst
  have hnodup : (((slot.request.cacheKey, slot) :: state.ownSlots session).map Prod.fst).Nodup :=
    List.nodup_cons.mpr ⟨fun h => hkey (hsub.subset h), state.loaded.nodup.sublist hsub⟩
  have hle : (state.ownSlots session).length ≤ limits.maxLoaded :=
    (List.length_filter_le _ _).trans state.room
  -- The slot of the other tenant stands in front, and the rest are the session's own.
  let t : AppState limits :=
    { state with
      loaded := ⟨(slot.request.cacheKey, slot) :: state.ownSlots session, hnodup⟩
      keyed := by
        intro e he
        rcases List.mem_cons.mp he with rfl | hown
        · exact ⟨rfl, rfl⟩
        · exact state.keyed e (List.mem_of_mem_filter hown)
      room := Nat.lt_of_le_of_ne hle hroom }
  refine ⟨t, ⟨rfl, rfl, ?_, rfl, rfl, rfl, rfl, rfl⟩, rfl, ?_⟩
  · have hother : ¬ (decide (slot.request.tenant = session.tenant) = true) := by
      rw [decide_eq_true_eq]
      exact otherSlot_tenant_ne _ _ _ _
    have hfilter : ((slot.request.cacheKey, slot) :: state.ownSlots session).filter
        (fun e => decide (e.2.request.tenant = session.tenant)) = state.ownSlots session := by
      rw [List.filter_cons, if_neg hother, ownSlots, List.filter_filter]
      simp only [Bool.and_self]
    exact hfilter.symm
  · have hfind : t.loaded.entries.find? (slotMatches session.tenant entry.id) =
        some (slot.request.cacheKey, slot) :=
      List.find?_cons_of_pos (slotMatches_otherSlot _ _ _ _)
    rw [slotFor, hfind]
    rfl

/-- The models of a snapshot that are loaded. -/
theorem mem_loaded_iff (tenant modelId : String) :
    modelId ∈ ((state.snapshot tenant).filter (·.state = some .loaded)).map (·.id) ↔
      (∃ entry ∈ (state.registry tenant).all, entry.id = modelId) ∧
        (state.slotFor tenant modelId).map (·.state) = some .loaded := by
  constructor
  · intro h
    rcases List.mem_map.mp h with ⟨info, hinfo, rfl⟩
    rcases List.mem_filter.mp hinfo with ⟨hmem, hloaded⟩
    rcases List.mem_map.mp hmem with ⟨entry, hentry, rfl⟩
    exact ⟨⟨entry, hentry, rfl⟩, of_decide_eq_true hloaded⟩
  · rintro ⟨⟨entry, hentry, rfl⟩, hloaded⟩
    refine List.mem_map.mpr ⟨modelInfo entry (state.slotFor tenant entry.id), ?_, rfl⟩
    exact List.mem_filter.mpr ⟨List.mem_map.mpr ⟨entry, hentry, rfl⟩, decide_eq_true hloaded⟩

end AppState

open AppState

/-- When a response to a session says nothing of other tenants. -/
def ReadRequest.Isolated {limits : Limits} (crypto : Primitives) (lower : String → String)
    (state : AppState limits) (session : Session) : ReadRequest → Prop
  | .modelsList => state.ModelsAlone session
  | .system => state.SystemAlone session
  | .debugStatus => state.SystemAlone session ∧ state.LogsAlone crypto session ∧
      state.ErrorsAlone crypto session
  | .debugLogs q => state.LogsAlone crypto session ∨
      "admin" ∉ session.scopes ∧ session.clientFingerprint ≠ "" ∧
        (q.since = none ∨ (q.filter (some session.clientFingerprint)).shows lower
          (state.ownLogs crypto session) = [])
  | .debugErrors _ => state.ErrorsAlone crypto session
  | .adminSessionsList => True
  | .adminClientsList => True
  | .adminModelsList => "admin" ∈ session.scopes → state.ModelsAlone session
  | .adminLorasList => True

/-! ## What a payload shows -/

namespace Payload

/-- The models a payload reports as loaded. -/
def loadedModels : Payload → List String
  | .models infos => (infos.filter (·.state = some .loaded)).map (·.id)
  | .system report => report.loadedModels
  | .status report => report.system.loadedModels
  | _ => []

/-- The queue depths a payload reports. -/
def queueDepths : Payload → Dict String ℕ
  | .system report => report.queueDepths
  | .status report => report.system.queueDepths
  | _ => .empty

/-- The newest log entry a payload shows. -/
def lastEntry : Payload → Option LogEntry
  | .entries shown => shown.getLast?
  | .status report => report.recentLogs.getLast?
  | _ => none

/-- The newest error a payload shows. -/
def lastError : Payload → Option ErrorSummary
  | .errors shown => shown.head?
  | .status report => report.recentErrors.head?
  | _ => none

end Payload

section

variable {limits : Limits} {crypto : Primitives} {session : Session} {lower : String → String}
  {state : AppState limits}

/-- A payload that reports the loaded models of the tenant, of a tenant that is
    not alone with its models. -/
theorem not_confined_models (halone : ¬ state.ModelsAlone session) (out : AppState limits → Payload)
    (hout : ∀ t, (out t).loadedModels =
      ((t.snapshot session.tenant).filter (·.state = some .loaded)).map (·.id)) :
    ¬ Confined (Agree crypto session) out state := by
  rcases not_or.mp halone with ⟨hsome, hroom⟩
  rcases List.exists_mem_of_ne_nil _ hsome with ⟨entry, hentry⟩
  rcases exists_slot crypto hroom entry .loaded with ⟨t, ht, hreg, hloaded⟩
  rcases exists_slot crypto hroom entry .unloading with ⟨u, hu, _, hunloading⟩
  refine not_confined Payload.loadedModels ht hu fun h => ?_
  have hmem : entry.id ∈ (out t).loadedModels := by
    rw [hout, mem_loaded_iff, hreg]
    exact ⟨⟨entry, hentry, rfl⟩, hloaded⟩
  rw [h, hout, mem_loaded_iff, hunloading] at hmem
  exact absurd hmem.2 nofun

/-- A payload that reports the queue depths of the default tenant, to a session
    of another. -/
theorem not_confined_default (hother : defaultTenant ≠ session.tenant)
    (out : AppState limits → Payload)
    (hout : ∀ t, (out t).queueDepths = AppState.queueDepths (t.snapshot defaultTenant)) :
    ¬ Confined (Agree crypto session) out state := by
  let listing : ModelRegistry :=
    { (Registry.start : ModelRegistry) with byId := Dict.empty.set "llama" (.sample "llama" "1") }
  rcases exists_registry crypto state hother .start with ⟨t, ht, hnone⟩
  rcases exists_registry crypto state hother listing with ⟨u, hu, hsome⟩
  refine not_confined (fun p => p.queueDepths.get? "llama") ht hu fun h => ?_
  have hempty : t.snapshot defaultTenant = [] := by
    rw [snapshot_eq_nil_iff, hnone]
    rfl
  have hone : u.snapshot defaultTenant =
      [modelInfo (.sample "llama" "1") (u.slotFor defaultTenant "llama")] := by
    unfold AppState.snapshot
    rw [hsome]
    rfl
  rw [hout, hout, hempty, hone] at h
  unfold AppState.queueDepths at h
  have hid : "llama" = (ModelEntry.sample "llama" "1").id := rfl
  rw [List.foldl_nil, List.foldl_cons, List.foldl_nil, Dict.get?_set, modelInfo_id,
    if_pos hid] at h
  exact absurd h nofun

/-- A payload that reports the state of the server. -/
theorem not_confined_system (halone : ¬ state.SystemAlone session) (out : AppState limits → Payload)
    (hmodels : ∀ t, (out t).loadedModels =
      ((t.snapshot defaultTenant).filter (·.state = some .loaded)).map (·.id))
    (hdepths : ∀ t, (out t).queueDepths = AppState.queueDepths (t.snapshot defaultTenant)) :
    ¬ Confined (Agree crypto session) out state := by
  by_cases htenant : session.tenant = defaultTenant
  · refine not_confined_models (fun h => halone ⟨htenant, h⟩) out ?_
    rw [htenant]
    exact hmodels
  · exact not_confined_default (Ne.symm htenant) out hdepths

/-- A payload that shows what passes a filter that lets an entry of another
    tenant pass. -/
theorem not_confined_logs (lower : String → String) (halone : ¬ state.LogsAlone crypto session)
    (f : LogFilter) (hclient : given f.clientFingerprint = none) (out : AppState limits → Payload)
    (hout : ∀ t, (out t).lastEntry = (f.shows lower t.ring.buf).getLast?) :
    ¬ Confined (Agree crypto session) out state := by
  let foreign : String → LogEntry := otherEntry session.tenant (f.since.getD 0)
    ((given f.level).elim "info" lower) ((given f.component).getD "")
  have hnew : ∀ event, f.older (foreign event) = false := by
    intro event
    unfold LogFilter.older
    cases hsince : f.since with
    | none => rfl
    | some since => simp [foreign, otherEntry, hsince]
  have hpass : ∀ event, f.admits lower (foreign event) := by
    intro event
    unfold LogFilter.admits LogFilter.otherLevel LogFilter.otherComponent LogFilter.otherClient
    rw [hclient]
    cases hlevel : given f.level <;> cases hcomponent : given f.component <;>
      simp [foreign, otherEntry, hlevel, hcomponent]
  rcases exists_entry halone (ownLog_otherEntry session _ _ _ "boot.ready") with
    ⟨t, ht, hbuf⟩
  rcases exists_entry halone (ownLog_otherEntry session _ _ _ "boot.start") with
    ⟨u, hu, hbuf'⟩
  refine not_confined Payload.lastEntry ht hu fun h => ?_
  rw [hout, hout, hbuf, hbuf', LogFilter.getLast?_shows (hnew _) (hpass _),
    LogFilter.getLast?_shows (hnew _) (hpass _)] at h
  have hevent := congrArg (Option.map LogEntry.event) h
  have hne : some "boot.ready" ≠ some "boot.start" := by decide
  exact hne hevent

/-- A payload that shows the last errors. -/
theorem not_confined_errors (halone : ¬ state.ErrorsAlone crypto session) (limit : ℕ)
    (hlimit : 1 ≤ limit) (out : AppState limits → Payload)
    (hout : ∀ t, (out t).lastError = ((t.errors.recent limit).map (·.summary)).head?) :
    ¬ Confined (Agree crypto session) out state := by
  have hhead : ∀ (t : AppState limits) (rs : List ErrorRecord) (r : ErrorRecord),
      t.errors.records.values = rs ++ [r] → (out t).lastError = some r.summary := by
    intro t rs r hvalues
    rw [hout, ErrorTracker.recent, hvalues, List.head?_map, List.head?_reverse, List.rtake,
      List.getLast?_drop, if_neg, List.getLast?_concat, Option.map_some]
    rw [List.length_append, List.length_singleton]
    omega
  let foreign : String → ErrorRecord := fun code => ⟨"00000000", 0, code, "", none, none⟩
  rcases exists_error halone (r := foreign "internal_error") rfl with ⟨t, ht, hvalues⟩
  rcases exists_error halone (r := foreign "bad_request") rfl with ⟨u, hu, hvalues'⟩
  refine not_confined Payload.lastError ht hu fun h => ?_
  rw [hhead t _ _ hvalues, hhead u _ _ hvalues'] at h
  have hcode := congrArg (Option.map ErrorSummary.code) h
  have hne : some "internal_error" ≠ some "bad_request" := by decide
  exact hne hcode

/-! ## The endpoints -/

theorem confined_debugStatus_iff :
    Confined (Agree crypto session) (fun t => Payload.status (debugStatus lower t)) state ↔
      state.SystemAlone session ∧ state.LogsAlone crypto session ∧
        state.ErrorsAlone crypto session := by
  constructor
  · intro h
    refine ⟨by_contra fun hsystem => ?_, by_contra fun hlogs => ?_, by_contra fun herrors => ?_⟩
    · exact not_confined_system hsystem _ (fun _ => rfl) (fun _ => rfl) h
    · refine not_confined_logs lower hlogs { limit := 50 } rfl _ (fun t => ?_) h
      rw [← RingLog.tail_eq]
      rfl
    · exact not_confined_errors herrors 20 (by decide) _ (fun _ => rfl) h
  · rintro ⟨hsystem, hlogs, herrors⟩ t ht
    have hmodels := ht.snapshot hsystem.2
    rw [hsystem.1] at hmodels
    refine congrArg Payload.status ?_
    unfold debugStatus AppState.debugStatus AppState.uptime ErrorTracker.recent
    rw [ht.system hsystem, hmodels, ht.host, ht.errorRecords herrors, RingLog.tail_eq,
      RingLog.tail_eq, ht.ring hlogs]

/-- What a query filtered by a client's fingerprint finds is the tenant's. -/
theorem ownLog_of_admits (crypto : Primitives) (lower : String → String) (state : AppState limits)
    (hfp : session.clientFingerprint ≠ "") (q : LogQuery) (e : LogEntry)
    (h : (q.filter (some session.clientFingerprint)).admits lower e) :
    state.ownLog crypto session e := by
  have hown : OwnEntry session e := ownEntry_of_admits hfp rfl h
  unfold AppState.ownLog AppState.isClient
  rw [hown]
  simp

theorem confined_debugLogs_iff (q : LogQuery) :
    Confined (Agree crypto session) (fun t => Payload.entries (debugLogs lower t session q)) state ↔
      ReadRequest.Isolated crypto lower state session (.debugLogs q) := by
  constructor
  · intro h
    refine or_iff_not_imp_left.mpr fun halone => ?_
    -- A session whose log is not filtered is shown what others leave.
    have hfiltered : "admin" ∉ session.scopes ∧ session.clientFingerprint ≠ "" := by
      by_contra hnot
      let fp := if "admin" ∈ session.scopes then none else some session.clientFingerprint
      have hclient : given (q.filter fp).clientFingerprint = none := by
        by_cases hadmin : "admin" ∈ session.scopes
        · simp [LogQuery.filter, fp, hadmin, given]
        · have hempty : session.clientFingerprint = "" :=
            not_not.mp fun hne => hnot ⟨hadmin, hne⟩
          simp [LogQuery.filter, fp, hadmin, hempty, given]
      refine not_confined_logs lower halone (q.filter fp) hclient _ (fun t => ?_) h
      rw [← RingLog.tail_eq]
      rfl
    refine ⟨hfiltered.1, hfiltered.2, ?_⟩
    cases hsince : q.since with
    | none => exact Or.inl rfl
    | some since =>
        -- Under an old entry of another tenant the session finds nothing.
        refine Or.inr ?_
        rcases exists_own_entries crypto session state with
          ⟨t, ht, hbuf⟩
        rcases exists_entry halone (ownLog_otherEntry session (since - 1) "info" ""
          "boot.ready") with ⟨u, hu, hbuf'⟩
        have heq := (h t ht).symm.trans (h u hu)
        simp only [debugLogs, if_neg hfiltered.1, RingLog.tail_eq, hbuf, hbuf',
          Payload.entries.injEq] at heq
        rw [heq]
        refine LogFilter.shows_older ?_
        unfold LogFilter.older LogQuery.filter otherEntry
        rw [hsince, Option.any_some, decide_eq_true_eq]
        exact sub_lt_self since one_pos
  · intro hcond t ht
    simp only [debugLogs, RingLog.tail_eq]
    rcases hcond with halone | ⟨hadmin, hfp, hshown⟩
    · rw [ht.ring halone]
    · have hown := ownLog_of_admits crypto lower state hfp q
      have hown' := ownLog_of_admits crypto lower t hfp q
      have hlogs : state.ring.buf.filter (state.ownLog crypto session) =
          t.ring.buf.filter (t.ownLog crypto session) := ht.logs
      rw [if_neg hadmin]
      rcases hshown with hsince | hnone
      · rw [LogFilter.shows_own hown hsince, hlogs, ← LogFilter.shows_own hown' hsince]
      · rw [LogFilter.shows_eq_nil_of_own hown hnone]
        rw [AppState.ownLogs, hlogs] at hnone
        rw [LogFilter.shows_eq_nil_of_own hown' hnone]

theorem confined_models_iff :
    Confined (Agree crypto session) (fun t => Payload.models (t.snapshot session.tenant)) state ↔
      state.ModelsAlone session := by
  constructor
  · intro h
    by_contra halone
    exact not_confined_models halone _ (fun _ => rfl) h
  · intro halone t ht
    exact congrArg Payload.models (ht.snapshot halone)

theorem confined_system_iff :
    Confined (Agree crypto session) (fun t => Payload.system t.system) state ↔
      state.SystemAlone session := by
  constructor
  · intro h
    by_contra halone
    exact not_confined_system halone _ (fun _ => rfl) (fun _ => rfl) h
  · intro halone t ht
    exact congrArg Payload.system (ht.system halone)

theorem confined_errors_iff (limit : ℕ) (hlimit : 1 ≤ limit) :
    Confined (Agree crypto session)
        (fun t => Payload.errors ((t.errors.recent limit).map (·.summary))) state ↔
      state.ErrorsAlone crypto session := by
  constructor
  · intro h
    by_contra halone
    exact not_confined_errors halone limit hlimit _ (fun _ => rfl) h
  · intro halone t ht
    refine congrArg (fun rs : List ErrorRecord => Payload.errors (rs.map (·.summary))) ?_
    unfold ErrorTracker.recent
    rw [ht.errorRecords halone]

/-- What an admin endpoint answers is confined if what it lists is, or if the
    session may not see it. -/
theorem confined_requireAdmin_iff (payload : AppState limits → Payload) :
    Confined (Agree crypto session) (fun t => requireAdmin session (payload t)) state ↔
      (session.isAdmin → Confined (Agree crypto session) payload state) := by
  cases hadmin : session.isAdmin with
  | false =>
      refine iff_of_true (fun t _ => ?_) nofun
      simp only [requireAdmin, hadmin]
      rfl
  | true =>
      simp only [requireAdmin, hadmin, if_true, forall_const]

end

/-- **Which responses say nothing of other tenants.** -/
theorem tenant_reads_confined_iff {limits : Limits} (crypto : Primitives) (lower : String → String)
    (state : AppState limits) (session : Session) (hsuper : "super_admin" ∉ session.scopes)
    (request : ReadRequest) :
    Confined (Agree crypto session) (fun t => request.respond crypto t session lower) state ↔
      request.Isolated crypto lower state session := by
  have hnot : session.isSuper = false := decide_eq_false hsuper
  have hadmin : session.isAdmin = decide ("admin" ∈ session.scopes) := by
    rw [Session.isAdmin, hnot, Bool.or_false]
  cases request with
  | modelsList => exact confined_models_iff
  | system => exact confined_system_iff
  | debugStatus => exact confined_debugStatus_iff
  | debugLogs q => exact confined_debugLogs_iff q
  | debugErrors q => exact confined_errors_iff q.limit q.bounds.1
  | adminModelsList =>
      refine (confined_requireAdmin_iff _).trans ?_
      rw [hadmin, decide_eq_true_eq]
      exact imp_congr_right fun _ => confined_models_iff
  | adminSessionsList =>
      refine iff_of_true (fun t ht => ?_) trivial
      simp only [ReadRequest.respond, listSessions, hnot, Bool.false_or]
      rw [ht.liveSessions]
  | adminClientsList =>
      refine iff_of_true (fun t ht => ?_) trivial
      simp only [ReadRequest.respond, listClients, hnot, Bool.false_or]
      rw [ht.clients]
  | adminLorasList =>
      refine iff_of_true (fun t ht => ?_) trivial
      simp only [ReadRequest.respond, adminLorasList]
      rw [ht.loraRegistry]

/-- A session of a tenant's client. -/
def Session.sampleOf (tenant : String) (scopes : Finset String) : Session :=
  { (default : Session) with tenant, scopes, clientFingerprint := "client" }

theorem tenant_reads_confined_iff_sample :
    "super_admin" ∉ (Session.sampleOf "acme" ∅).scopes ∧
      (Confined (Agree .sample (.sampleOf "acme" ∅))
          (fun t => ReadRequest.system.respond .sample t (.sampleOf "acme" ∅) id) AppState.sample ↔
        ReadRequest.system.Isolated .sample id AppState.sample (.sampleOf "acme" ∅)) :=
  ⟨nofun, tenant_reads_confined_iff .sample id .sample (.sampleOf "acme" ∅) nofun .system⟩

/-- A server whose default tenant has a model. -/
def AppState.sampleWithModel : AppState ⟨1, 10000, 1000⟩ :=
  AppState.sample.withRegistry defaultTenant
    { (Registry.start : ModelRegistry) with byId := Dict.empty.set "llama" (.sample "llama" "1") }

/-- A client of one tenant sees in `system` whether another has a model. -/
theorem default_models_shown :
    Agree .sample (.sampleOf "acme" ∅) AppState.sample AppState.sampleWithModel ∧
      ReadRequest.system.respond .sample AppState.sample (.sampleOf "acme" ∅) id ≠
        ReadRequest.system.respond .sample AppState.sampleWithModel (.sampleOf "acme" ∅) id := by
  refine ⟨⟨rfl, rfl, rfl, rfl, rfl, rfl, rfl, rfl⟩, fun h => ?_⟩
  have hdepths := congrArg (fun p : Payload => p.queueDepths.get? "llama") h
  have hnone : (ReadRequest.system.respond .sample AppState.sample
    (.sampleOf "acme" ∅) id).queueDepths.get? "llama" = none := rfl
  have hsome : (ReadRequest.system.respond .sample AppState.sampleWithModel
    (.sampleOf "acme" ∅) id).queueDepths.get? "llama" = some 0 := rfl
  rw [hnone, hsome] at hdepths
  exact absurd hdepths nofun

end SecureLlm
