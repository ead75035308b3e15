import SecureLlm.Library.Base64
import SecureLlm.Routers.Debug

/-!
# Read-Only Endpoints

What the endpoints that only read answer to a session, before it is sealed: the
models of its tenant, the state of the server, what was logged and recorded, and
for admins the sessions, clients and adapters.

The lists of the admin endpoints are filtered by the session's tenant, unless the
session is a super admin's. The state of the server is of the default tenant,
and what was logged and recorded is of all.

## Main definitions

* `listModels`, `systemStatus`, `listSessions`, `listClients`,
  `adminModelsList`, `adminLorasList`: The handlers.
* `ReadRequest.respond`: The payload of a response.
-/

namespace SecureLlm

open Library Models

structure AdminSessionInfo where
  sessionId : String
  clientFingerprint : String
  scopes : List String
  createdAt : ℚ
  lastUsedAt : ℚ
  ttlSeconds : ℤ

structure AdminClientInfo where
  name : String
  fingerprint : String
  scopes : List String
  revoked : Bool
  notBefore : Option ℤ
  notAfter : Option ℤ

structure LoraInfo where
  id : String
  repoId : String
  filename : String
  sha256 : String
  bytesOnDisk : ℕ
  baseModelId : Option String

def Session.info (s : Session) : AdminSessionInfo where
  sessionId := b64encode s.sessionId
  clientFingerprint := s.clientFingerprint
  scopes := sorted s.scopes
  createdAt := s.createdAt
  lastUsedAt := s.lastUsedAt
  ttlSeconds := s.ttlSeconds

def AuthorizedClient.info (crypto : Primitives) (c : AuthorizedClient) : AdminClientInfo where
  name := c.name
  fingerprint := c.fingerprint crypto
  scopes := c.scopes.mergeSort
  revoked := c.revoked
  notBefore := c.notBefore
  notAfter := c.notAfter

def Models.LoraEntry.info (e : LoraEntry) : LoraInfo where
  id := e.id
  repoId := e.repoId
  filename := e.filename
  sha256 := e.sha256Plaintext
  bytesOnDisk := e.bytesCiphertext
  baseModelId := e.baseModelId

/-- `_is_super`. -/
def Session.isSuper (s : Session) : Bool := "super_admin" ∈ s.scopes

/-- Does `_require_admin` let the session pass? -/
def Session.isAdmin (s : Session) : Bool := "admin" ∈ s.scopes || s.isSuper

/-- What a response says. -/
inductive Payload where
  | denied
  | models (models : List ModelInfo)
  | system (status : SystemStatus)
  | status (status : DebugStatus)
  | entries (entries : List LogEntry)
  | errors (errors : List ErrorSummary)
  | sessions (sessions : List AdminSessionInfo)
  | clients (clients : List AdminClientInfo)
  | loras (loras : List LoraInfo)

section

variable {limits : Limits} (crypto : Primitives) (state : AppState limits) (session : Session)

/-- `session_manager.all()`. -/
def AppState.liveSessions : List Session :=
  state.sessions.filter (fun s => !s.isExpired state.host.time)

/-- `/v1/models/list`. -/
def listModels : Payload := .models (state.snapshot session.tenant)

/-- `/v1/system`. -/
def systemStatus : Payload := .system state.system

/-- What an admin endpoint answers. -/
def requireAdmin (payload : Payload) : Payload := if session.isAdmin then payload else .denied

/-- `/v1/admin/sessions/list`. -/
def listSessions : Payload :=
  requireAdmin session (.sessions ((state.liveSessions.filter
    (fun s => session.isSuper || s.tenant = session.tenant)).map (·.info)))

/-- `/v1/admin/clients/list`. -/
def listClients : Payload :=
  requireAdmin session (.clients ((state.allowlist.values.filter
    (fun c => session.isSuper || c.tenant = session.tenant)).map (·.info crypto)))

/-- `/v1/admin/models/list`. -/
def adminModelsList : Payload := requireAdmin session (.models (state.snapshot session.tenant))

/-- `/v1/admin/loras/list`. -/
def adminLorasList : Payload :=
  requireAdmin session (.loras ((state.loraRegistry session.tenant).all.map LoraEntry.info))

/-- A request that only reads. -/
inductive ReadRequest where
  | modelsList
  | system
  | debugStatus
  | debugLogs (q : LogQuery)
  | debugErrors (q : ErrorQuery)
  | adminSessionsList
  | adminClientsList
  | adminModelsList
  | adminLorasList

/-- The payload of the response. -/
def ReadRequest.respond (lower : String → String) : ReadRequest → Payload
  | .modelsList => listModels state session
  | .system => systemStatus state
  | .debugStatus => .status (SecureLlm.debugStatus lower state)
  | .debugLogs q => .entries (SecureLlm.debugLogs lower state session q)
  | .debugErrors q => .errors (SecureLlm.debugErrors state q)
  | .adminSessionsList => listSessions state session
  | .adminClientsList => listClients crypto state session
  | .adminModelsList => SecureLlm.adminModelsList state session
  | .adminLorasList => SecureLlm.adminLorasList state session

end

end SecureLlm
