import SecureLlm.Models.Manager
import SecureLlm.Models.Registry
import SecureLlm.Observability.RingLog
import SecureLlm.Session.Process

/-!
# Status Snapshots

What the server shows of itself: the models of a tenant with the slots that are
loaded for them, the errors it recorded and the host it runs on.

`snapshot` looks for a model's slot by the beginning of the slot's key. The key
begins with the tenant and the model, with colons in between, and either may
have colons of its own.

## Main definitions

* `LoadedSlot`: What `snapshot` reads of a slot.
* `ErrorRecord`, `ErrorTracker`: The last errors.
* `Host`: What the host reports.
* `AppState`: What the handlers read.
* `AppState.snapshot`: The models of a tenant.
* `AppState.system`, `AppState.debugStatus`: The two reports of `StatusBuilder`.

## Theorems

* `AppState.snapshot_eq_nil_iff`: A tenant without models has an empty snapshot.
-/

namespace SecureLlm

open Library Models

/-- A slot, as far as the routers see it: what it was loaded for and from, its
    context, its state, when it was last used, how many jobs its queue has and
    its last error. -/
structure LoadedSlot where
  request : Models.Request
  entry : ModelEntry
  nCtx : ℤ
  state : ModelState
  lastUsed : ℚ
  queueSize : ℕ
  lastError : Option String

structure ErrorRecord where
  errorId : String
  ts : ℚ
  code : String
  message : String
  requestId : Option String
  clientFingerprint : Option String

/-- What a client sees of a record. -/
structure ErrorSummary where
  errorId : String
  ts : ℚ
  code : String
  message : String
  requestId : Option String
  deriving DecidableEq

def ErrorRecord.summary (r : ErrorRecord) : ErrorSummary :=
  ⟨r.errorId, r.ts, r.code, r.message, r.requestId⟩

/-- The records by their ids, oldest first. -/
structure ErrorTracker (capacity : ℕ) where
  records : Dict String ErrorRecord
  length_le : records.entries.length ≤ capacity

/-- The last records, newest first. -/
def ErrorTracker.recent {capacity : ℕ} (errors : ErrorTracker capacity) (limit : ℕ) :
    List ErrorRecord :=
  (errors.records.values.rtake limit).reverse

/-- What `sysinfo` and the clock report. -/
structure Host where
  cpuPercent : ℚ
  ramTotalBytes : ℕ
  ramAvailableBytes : ℕ
  diskTotalBytes : ℕ
  diskFreeBytes : ℕ
  gpu : List (Dict String Value)
  time : ℚ
  startedAt : ℚ

/-- A host just started. -/
def Host.sample : Host where
  cpuPercent := 0
  ramTotalBytes := 2
  ramAvailableBytes := 1
  diskTotalBytes := 2
  diskFreeBytes := 1
  gpu := []
  time := 0
  startedAt := 0

/-- How much a server holds at most. -/
structure Limits where
  maxLoaded : ℕ
  ringSize : ℕ
  errorCapacity : ℕ

/-- What the handlers read. A slot is in the table under its key, and its entry
    is one of the model it was loaded for. -/
structure AppState (limits : Limits) where
  registry : String → ModelRegistry
  loraRegistry : String → LoraRegistry
  loaded : Dict String LoadedSlot
  process : Process
  allowlist : Dict Bytes AuthorizedClient
  ring : RingLog limits.ringSize
  errors : ErrorTracker limits.errorCapacity
  host : Host
  keyed : ∀ e ∈ loaded.entries, e.1 = e.2.request.cacheKey ∧ e.2.entry.id = e.2.request.modelId
  room : loaded.entries.length ≤ limits.maxLoaded

/-- A model in a snapshot. Without a slot its state is `present`. -/
structure ModelInfo where
  id : String
  repoId : String
  filename : String
  state : Option ModelState
  bytesOnDisk : ℕ
  sha256 : String
  nCtxMax : Option ℤ
  lastUsedAt : Option ℚ
  queueDepth : ℕ
  lastError : Option String
  deriving DecidableEq

structure SystemStatus where
  cpuPercent : ℚ
  ramTotalBytes : ℕ
  ramAvailableBytes : ℕ
  diskTotalBytes : ℕ
  diskFreeBytes : ℕ
  gpu : List (Dict String Value)
  loadedModels : List String
  queueDepths : Dict String ℕ
  uptimeSeconds : ℚ

structure DebugStatus where
  serverVersion : String
  uptimeSeconds : ℚ
  system : SystemStatus
  loadedModels : List ModelInfo
  recentErrors : List ErrorSummary
  recentLogs : List LogEntry

/-- What a snapshot says of an entry and the slot found for it. -/
def modelInfo (entry : ModelEntry) (loaded : Option LoadedSlot) : ModelInfo where
  id := entry.id
  repoId := entry.repoId
  filename := entry.filename
  state := loaded.map (·.state)
  bytesOnDisk := entry.bytesCiphertext
  sha256 := entry.sha256Plaintext
  nCtxMax := entry.nCtxMax
  lastUsedAt := loaded.map (·.lastUsed)
  queueDepth := (loaded.map (·.queueSize)).getD 0
  lastError := loaded.bind (·.lastError)

/-- What the keys of a model's slots begin with. -/
def slotPrefix (tenant modelId : String) : String := tenant ++ ":" ++ modelId ++ ":"

/-- `f"{prefix}{entry.id}:"` starts the key, and the slot is of the model. -/
def slotMatches (tenant modelId : String) (e : String × LoadedSlot) : Bool :=
  (slotPrefix tenant modelId).toList.isPrefixOf e.1.toList && e.2.entry.id = modelId

/-- The version the server reports. -/
def serverVersion : String := "0.1.0"

namespace AppState

/-- Nothing is there yet. -/
def start (limits : Limits) (host : Host) : AppState limits where
  registry _ := .start
  loraRegistry _ := .start
  loaded := .empty
  process := .start
  allowlist := .empty
  ring := ⟨[], Nat.zero_le _⟩
  errors := ⟨.empty, Nat.zero_le _⟩
  host := host
  keyed _ he := absurd he List.not_mem_nil
  room := Nat.zero_le _

variable {limits : Limits} (state : AppState limits)

/-- The sessions in the store's table. -/
def sessions : List Session := state.process.table.values.map state.process.heap

/-- The slot a snapshot reports for a model: the first that matches. -/
def slotFor (tenant modelId : String) : Option LoadedSlot :=
  (state.loaded.entries.find? (slotMatches tenant modelId)).map Prod.snd

def snapshot (tenant : String) : List ModelInfo :=
  (state.registry tenant).all.map fun entry => modelInfo entry (state.slotFor tenant entry.id)

/-- The queue depths by model, of a snapshot. -/
def queueDepths (infos : List ModelInfo) : Dict String ℕ :=
  infos.foldl (fun depths m => depths.set m.id m.queueDepth) .empty

def uptime : ℚ := state.host.time - state.host.startedAt

/-- `StatusBuilder.system`, which takes the snapshots of the default tenant. -/
def system : SystemStatus where
  cpuPercent := state.host.cpuPercent
  ramTotalBytes := state.host.ramTotalBytes
  ramAvailableBytes := state.host.ramAvailableBytes
  diskTotalBytes := state.host.diskTotalBytes
  diskFreeBytes := state.host.diskFreeBytes
  gpu := state.host.gpu
  loadedModels := ((state.snapshot defaultTenant).filter (·.state = some .loaded)).map (·.id)
  queueDepths := queueDepths (state.snapshot defaultTenant)
  uptimeSeconds := state.uptime

/-- `StatusBuilder.debug_status`. -/
def debugStatus (lower : String → String) : DebugStatus where
  serverVersion := serverVersion
  uptimeSeconds := state.uptime
  system := state.system
  loadedModels := state.snapshot defaultTenant
  recentErrors := (state.errors.recent 20).map (·.summary)
  recentLogs := state.ring.tail lower { limit := 50 }

variable {state}

@[simp]
theorem modelInfo_id (entry : ModelEntry) (loaded : Option LoadedSlot) :
    (modelInfo entry loaded).id = entry.id := rfl

theorem snapshot_eq_nil_iff {tenant : String} :
    state.snapshot tenant = [] ↔ (state.registry tenant).all = [] := List.map_eq_nil_iff

theorem toList_slotPrefix (tenant modelId : String) :
    (slotPrefix tenant modelId).toList = tenant.toList ++ ':' :: (modelId.toList ++ [':']) := by
  simp [slotPrefix]

theorem toList_cacheKey (r : Models.Request) :
    r.cacheKey.toList = (slotPrefix r.tenant r.modelId).toList ++
      (r.mode.toList ++ ':' :: r.loraFp.toList) := by
  simp [slotPrefix, Models.Request.cacheKey]

end AppState

end SecureLlm
