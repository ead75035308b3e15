import SecureLlm.Models.Downloads
import SecureLlm.Models.Reuse
import SecureLlm.Observability.LogLevels
import SecureLlm.Routers.Listings
import SecureLlm.Session.Bystanders

/-!
# Admin Endpoints

What the endpoints under `/v1/admin` do to the server, once the request is opened
and before the response is sealed. A handler runs alone here: what other tasks do
while it waits is not its doing.

Some handlers leave something to be done later: the log level goes back, or the
process gets the signal to end.

The scope `admin` is asked for everywhere, and `super_admin` for the list of
tenants and to terminate a session of another tenant.

## Main definitions

* `AdminState`: What the handlers change.
* `AdminSettings`, `Surroundings`: The settings, and what is not the server's.
* `AdminState.makeRoom`, `AdminState.ensureLoaded`, `AdminState.forceUnload`:
  What the model manager does for them.
* `terminateSession`, `reloadClients`, `unloadModel`, `setLogLevel`,
  `adminShutdown`, `adminLorasPull`, `adminLorasRm`, `adminLorasApply`: The
  handlers.
* `AdminRequest.handle`: What a request leads to.
-/

namespace SecureLlm

open Library Models

/-- What the handlers change. The idle timer of a slot was last started at some
    time, sessions are in a store and perhaps in Redis, and models are listed by
    their ids. -/
structure AdminState (limits : Limits) extends AppState limits where
  idleSince : String → ℚ
  backend : Backend
  redis : Db
  allowlistPath : Option String
  levels : LogLevels
  alive : Bool
  sound : backend.Sound process redis
  listed : ∀ tenant id entry, (registry tenant).get id = some entry → entry.id = id

structure AdminSettings where
  ttl : ℤ
  maxLife : ℤ
  logLevel : String
  allowDownload : Bool
  download : DownloadSettings
  nCtxDefault : ℤ
  queueDepth : ℤ

/-- What is not the server's: the readings of the clock while a handler runs and
    when it is through, the time of the loop, the allowlist's files, whether a
    backend loads, `str.upper`, and of a download what is fetched, the ciphertext
    and the time. -/
structure Surroundings where
  crypto : Primitives
  clock : ℕ → ℚ
  monotone : Monotone clock
  finished : ℚ
  clock_le : ∀ n, clock n ≤ finished
  loopTime : ℚ
  allowlist : String → Except Exc (Dict Bytes AuthorizedClient)
  loads : Bool
  upper : String → String
  fetched : Option Bytes
  ciphertext : Bytes
  time : ℚ

namespace AdminState

variable {limits : Limits} (state : AdminState limits)

/-! ## Slots -/

/-- The same server with other slots. -/
def withLoaded (loaded : Dict String LoadedSlot)
    (hkeyed : ∀ e ∈ loaded.entries, e.1 = e.2.request.cacheKey ∧ e.2.entry.id = e.2.request.modelId)
    (hroom : loaded.entries.length ≤ limits.maxLoaded) : AdminState limits :=
  { state with loaded := loaded, keyed := hkeyed, room := hroom }

/-- `_reset_idle`: the timer of a slot starts anew. -/
def resetIdle (time : ℚ) (key : String) : AdminState limits :=
  { state with idleSince := Function.update state.idleSince key time }

/-- `_unload`. -/
def unload (key : String) : AdminState limits :=
  state.withLoaded (state.loaded.erase key) (fun e he => state.keyed e (List.mem_filter.mp he).1)
    ((state.loaded.length_erase_le key).trans state.room)

/-- A slot is found and becomes the one used last. -/
def use (key : String) : AdminState limits :=
  state.withLoaded (state.loaded.moveToEnd key)
    (fun e he => state.keyed e (by
      rw [Dict.mem_entries_iff, Dict.get?_moveToEnd] at he
      exact (Dict.mem_entries_iff _ _ _).mpr he))
    ((state.loaded.length_moveToEnd_le key).trans state.room)

/-- A slot is loaded and put under its key. -/
def load (slot : LoadedSlot) (hid : slot.entry.id = slot.request.modelId)
    (hroom : state.loaded.entries.length < limits.maxLoaded) : AdminState limits :=
  state.withLoaded (state.loaded.set slot.request.cacheKey slot)
    (fun e he => by
      rw [Dict.mem_entries_iff, Dict.get?_set] at he
      by_cases hkey : e.1 = slot.request.cacheKey
      · rw [if_pos hkey] at he
        rw [← Option.some.inj he]
        exact ⟨hkey, hid⟩
      · rw [if_neg hkey] at he
        exact state.keyed e ((Dict.mem_entries_iff _ _ _).mpr he))
    ((state.loaded.length_set_le _ slot).trans hroom)

/-- While there is no room, unload the slot used least recently: the keys that go,
    and what is left. The keys to go through are those of all slots. -/
def makeRoom : List String → AdminState limits → List String × AdminState limits
  | [], state => ([], state)
  | key :: rest, state =>
    if state.loaded.entries.length < limits.maxLoaded then ([], state)
    else
      let (evicted, state) := makeRoom rest (state.unload key)
      (key :: evicted, state)

/-- A slot is loaded for the request with enough context. -/
def hits (request : Models.Request) : Bool :=
  (state.loaded.get? request.cacheKey).any fun slot =>
    request.nCtx.all fun n => decide (n ≤ slot.nCtx)

/-- What `_load` makes. -/
def newSlot (settings : AdminSettings) (request : Models.Request) (entry : ModelEntry) :
    LoadedSlot where
  request := request
  entry := entry
  nCtx := Config.nCtx ⟨limits.maxLoaded, settings.nCtxDefault, settings.queueDepth⟩ request
  state := .loaded
  lastUsed := state.host.time
  queueSize := 0
  lastError := none

/-- All adapters are listed. -/
def listsLoras (a : LoadArgs) : Bool :=
  a.loras.all fun l => ((state.loraRegistry a.tenant).get l.1).isSome

/-- `ensure_loaded` of a model that is listed: the keys of the slots it evicts, and
    what it leaves. -/
def ensureListed (settings : AdminSettings) (env : Surroundings) (a : LoadArgs) (nCtx : Option ℤ)
    (entry : ModelEntry) (hid : entry.id = a.modelId) : List String × AdminState limits :=
  let request := a.request nCtx none
  if state.hits request then
    ([], (state.use request.cacheKey).resetIdle env.loopTime request.cacheKey)
  else if state.listsLoras a then
    let made := makeRoom (state.loaded.entries.map Prod.fst) state
    if hroom : env.loads = true ∧ made.2.loaded.entries.length < limits.maxLoaded then
      (made.1, (made.2.load (state.newSlot settings request entry) hid hroom.2).resetIdle
        env.loopTime request.cacheKey)
    else made
  else ([], state)

/-- `ensure_loaded`. -/
def ensureLoaded (settings : AdminSettings) (env : Surroundings) (a : LoadArgs) (nCtx : Option ℤ) :
    List String × AdminState limits :=
  match hentry : (state.registry a.tenant).get a.modelId with
  | none => ([], state)
  | some entry => state.ensureListed settings env a nCtx entry (state.listed _ _ _ hentry)

/-- The keys `force_unload` unloads. -/
def targets (tenant modelId : String) : List String :=
  (state.loaded.entries.map Prod.fst).filter fun key =>
    (slotPrefix tenant modelId).toList.isPrefixOf key.toList

/-- Unload one after the other. -/
def unloadAll : List String → AdminState limits → AdminState limits
  | [], state => state
  | key :: rest, state => unloadAll rest (state.unload key)

def forceUnload (tenant modelId : String) : AdminState limits :=
  unloadAll (state.targets tenant modelId) state

/-- The same server with other adapters of a tenant. -/
def withLoras (tenant : String) (loras : LoraRegistry) : AdminState limits :=
  { state with loraRegistry := Function.update state.loraRegistry tenant loras }

def withLevels (levels : LogLevels) : AdminState limits := { state with levels }

def withAllowlist (allowlist : Dict Bytes AuthorizedClient) : AdminState limits :=
  { state with allowlist := allowlist }

/-- The same server with other sessions. -/
def withSessions (process : Process) (redis : Db) (hsound : state.backend.Sound process redis) :
    AdminState limits := { state with process := process, redis := redis, sound := hsound }

end AdminState

/-! ## Handlers -/

/-- What a handler leaves to be done. -/
inductive Scheduled where
  | revert (component : String)
  | sendTerm

/-- What a handler comes to: the server as it leaves it, the keys of the slots that
    were evicted, and what is still to be done. -/
structure Outcome (limits : Limits) where
  state : AdminState limits
  evicted : List String
  scheduled : Option Scheduled

/-- A handler that is through. -/
def Outcome.done {limits : Limits} (state : AdminState limits) : Outcome limits := ⟨state, [], none⟩

/-- The session-terminating task: it looks the session up, and unless it is of
    another tenant terminates it. -/
def terminateTask (manager : SessionManager) (session : Session) (sid : Bytes) : Task Bool := do
  match ← manager.lookupAsync sid with
  | none => manager.terminate sid
  | some target =>
    let s ← Task.read target
    if !session.isSuper && s.tenant ≠ session.tenant then return false
    else manager.terminate sid

/-- The manager of the sessions. -/
def AdminSettings.manager (settings : AdminSettings) (backend : Backend) : SessionManager :=
  ⟨settings.ttl, settings.maxLife, backend.store⟩

/-- **What the task does.** Where the session lapses there is none afterwards.
    Otherwise the server has the session it had, or it had one of the tenant and
    has none. -/
theorem terminateTask_leave (backend : Backend) (ttl maxLife : ℤ) (session : Session) (sid : Bytes)
    {c : ℕ → ℚ} {p : Process} {db : Db} (hc : Monotone c) (h : backend.Sound p db) :
    ∃ res c' p' db',
      Task.leave (terminateTask ⟨ttl, maxLife, backend.store⟩ session sid) c p db =
        (res, c', p', db') ∧ backend.Sound p' db' ∧ p.Only sid db p' db' ∧
      (session.isSuper = false → ∀ u, (∀ n, c n ≤ u) →
        (Backend.Lapses c p sid → backend.sees p' db' u sid = none) ∧
        (¬ Backend.Lapses c p sid → backend.sees p' db' u sid = backend.sees p db u sid ∨
          backend.sees p' db' u sid = none ∧
            ∀ s, backend.sees p db u sid = some s → s.tenant = session.tenant)) := by
  rcases lookupAsync_leave backend ttl maxLife sid hc h with
    ⟨res, c', p', db', hlookup, hsound, honly, ⟨k, hk⟩, hfound, hmissing, hkept, hlapses⟩
  have hc' : Monotone c' := by
    rw [hk]
    exact fun i j hij => hc (Nat.add_le_add_right hij k)
  have hlate : ∀ u, (∀ n, c n ≤ u) → ∀ n, c' n ≤ u := by
    intro u hu n
    rw [hk]
    exact hu (n + k)
  -- Terminating what was looked up.
  rcases terminate_leave backend ttl maxLife sid hc' hsound with
    ⟨res'', c'', p'', db'', hterminate, hsound'', honly'', hsees''⟩
  cases res with
  | error e =>
      refine ⟨_, c', p', db', Task.leave_bind_error hlookup, hsound, honly, fun _ u hu => ⟨?_, ?_⟩⟩
      · exact fun hl => absurd (hlapses hl) nofun
      · exact fun hl => Or.inl (hkept hl u hu)
  | ok found =>
      cases found with
      | none =>
          refine ⟨res'', c'', p'', db'', (Task.leave_bind_ok hlookup).trans hterminate, hsound'',
            honly.trans honly'', fun _ u hu => ?_⟩
          have hnone := hmissing rfl u hu
          have hgone : backend.sees p'' db'' u sid = none :=
            (hsees'' u (hlate u hu)).elim (fun hsame => hsame.trans hnone) id
          refine ⟨fun _ => hgone, fun hl => Or.inl ?_⟩
          rw [hgone, ← hkept hl u hu, hnone]
      | some r =>
          have hchecked : Task.leave (terminateTask ⟨ttl, maxLife, backend.store⟩ session sid) c p
              db = Task.leave (if !session.isSuper && (p'.heap r).tenant ≠ session.tenant then
                Coop.done false else SessionManager.terminate ⟨ttl, maxLife, backend.store⟩ sid)
                  c' p' db' := Task.leave_bind_ok hlookup
          have hstays : ¬ Backend.Lapses c p sid := fun hl => absurd (hlapses hl) (by simp)
          by_cases hother : (!session.isSuper && (p'.heap r).tenant ≠ session.tenant) = true
          · rw [if_pos hother] at hchecked
            exact ⟨_, c', p', db', hchecked, hsound, honly, fun _ u hu =>
              ⟨fun hl => absurd hl hstays, fun hl => Or.inl (hkept hl u hu)⟩⟩
          · rw [if_neg hother] at hchecked
            refine ⟨res'', c'', p'', db'', hchecked.trans hterminate, hsound'',
              honly.trans honly'', fun hsuper u hu => ⟨fun hl => absurd hl hstays, fun hl => ?_⟩⟩
            rcases hsees'' u (hlate u hu) with hsame | hgone
            · exact Or.inl (hsame.trans (hkept hl u hu))
            · refine Or.inr ⟨hgone, fun s hs => ?_⟩
              rw [← hkept hl u hu] at hs
              rw [hsound.tenant_of_sees (hfound r rfl) hs]
              simpa [hsuper] using hother

section

variable {limits : Limits} (settings : AdminSettings) (env : Surroundings)
  (state : AdminState limits) (session : Session)

/-- The task keeps table and store about the same sessions. -/
theorem sound_terminateTask (sid : Bytes) :
    state.backend.Sound
      (Task.leave (terminateTask (settings.manager state.backend) session sid) env.clock
        state.process state.redis).2.2.1
      (Task.leave (terminateTask (settings.manager state.backend) session sid) env.clock
        state.process state.redis).2.2.2 := by
  rcases terminateTask_leave state.backend settings.ttl settings.maxLife session sid
    env.monotone state.sound with ⟨_, _, _, _, hleave, hsound, _⟩
  have hleft : Task.leave (terminateTask (settings.manager state.backend) session sid) env.clock
      state.process state.redis = _ := hleave
  rw [hleft]
  exact hsound

/-- `/v1/admin/sessions/terminate`. -/
def terminateSession (sessionId : String) : Outcome limits :=
  match b64decodeField sessionId with
  | .error _ => .done state
  | .ok sid =>
    let left := Task.leave (terminateTask (settings.manager state.backend) session sid) env.clock
      state.process state.redis
    .done (state.withSessions left.2.2.1 left.2.2.2
      (sound_terminateTask settings env state session sid))

/-- `/v1/admin/clients/reload`. -/
def reloadClients : Outcome limits :=
  match state.allowlistPath with
  | none => .done state
  | some path =>
    match env.allowlist path with
    | .error _ => .done state
    | .ok allowlist => .done (state.withAllowlist allowlist)

/-- What a handler that loads comes to. -/
def Outcome.ensured (a : LoadArgs) (nCtx : Option ℤ) : Outcome limits :=
  let left := state.ensureLoaded settings env a nCtx
  ⟨left.2, left.1, none⟩

/-- `/v1/admin/models/preload`. -/
def preloadModel (id : String) : Outcome limits :=
  .ensured settings env state ⟨session.tenant, id, "chat", []⟩ none

/-- `/v1/admin/models/unload`. -/
def unloadModel (id : String) : Outcome limits := .done (state.forceUnload session.tenant id)

/-- `/v1/admin/log-level`. -/
def setLogLevel (component level : String) (ttlSeconds : Option ℕ) : Outcome limits :=
  match state.levels.setComponentLevel env.upper component level with
  | none => .done state
  | some levels => ⟨state.withLevels levels, [], ttlSeconds.map fun _ => .revert component⟩

/-- `/v1/admin/shutdown`. -/
def adminShutdown : Outcome limits := ⟨state, [], some .sendTerm⟩

/-- `/v1/admin/loras/pull`. -/
def adminLorasPull (request : DownloadRequest) : Outcome limits :=
  let registry := state.loraRegistry session.tenant
  if settings.allowDownload then
    match vet env.crypto settings.download registry.ciphertexts request env.fetched with
    | .error _ => .done state
    | .ok plaintext =>
      let entry := LoraEntry.ofDownload request (sha256File env.crypto plaintext)
        plaintext.length env.ciphertext.length env.time
      .done (state.withLoras session.tenant
        ((registry.encrypt (loraFormat 0) entry env.ciphertext).add (loraFormat 0) entry))
  else .done state

/-- `/v1/admin/loras/rm`. -/
def adminLorasRm (id : String) : Outcome limits :=
  .done (state.withLoras session.tenant
    ((state.loraRegistry session.tenant).remove (loraFormat 0) id).1)

/-- `/v1/admin/loras/apply`. -/
def adminLorasApply (baseModelId : String) (nCtx : Option ℤ) (loras : List (String × Scale)) :
    Outcome limits :=
  .ensured settings env state ⟨session.tenant, baseModelId, "chat", loras⟩ nCtx

/-- A request to an admin endpoint. -/
inductive AdminRequest where
  | sessionsList
  | sessionsTerminate (sessionId : String)
  | clientsList
  | clientsReload
  | modelsList
  | modelsPreload (id : String)
  | modelsUnload (id : String)
  | logLevel (component level : String) (ttlSeconds : Option ℕ)
  | gc
  | shutdown
  | lorasList
  | lorasPull (request : DownloadRequest)
  | lorasRm (id : String)
  | lorasApply (baseModelId : String) (nCtx : Option ℤ) (loras : List (String × Scale))
  | tenantsList

/-- What a request leads to. The lists and `gc` change nothing, also where they are
    refused. -/
def AdminRequest.handle (request : AdminRequest) : Outcome limits :=
  if session.isAdmin then
    match request with
    | .sessionsTerminate sessionId => terminateSession settings env state session sessionId
    | .clientsReload => reloadClients env state
    | .modelsPreload id => preloadModel settings env state session id
    | .modelsUnload id => unloadModel state session id
    | .logLevel component level ttlSeconds => setLogLevel env state component level ttlSeconds
    | .shutdown => adminShutdown state
    | .lorasPull request => adminLorasPull settings env state session request
    | .lorasRm id => adminLorasRm state session id
    | .lorasApply baseModelId nCtx loras =>
      adminLorasApply settings env state session baseModelId nCtx loras
    | .sessionsList | .clientsList | .modelsList | .gc | .lorasList | .tenantsList => .done state
  else .done state

/-- What was left to be done is done. -/
def Scheduled.run (state : AdminState limits) : Scheduled → AdminState limits
  | .revert component =>
    match state.levels.setComponentLevel env.upper component settings.logLevel with
    | none => state
    | some levels => state.withLevels levels
  | .sendTerm => { state with alive := false }

end

end SecureLlm
