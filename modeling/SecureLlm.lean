import SecureLlm.Library.Base64
import SecureLlm.Library.Coop
import SecureLlm.Library.Dict
import SecureLlm.Crypto.HandshakeAuth
import SecureLlm.Crypto.Replay
import SecureLlm.Protocol.Wire
import SecureLlm.Routers.EnvelopeDep
import SecureLlm.Session.Failover
import SecureLlm.Session.ManagerSafe
import SecureLlm.Server.FleetStep
import SecureLlm.Server.FleetInvariant
import SecureLlm.Server.Network
import SecureLlm.Server.Provenance
import SecureLlm.Server.RequestAgreement
import SecureLlm.Server.SealCounters
import SecureLlm.Server.SealKeys
import SecureLlm.Server.Atomic
import SecureLlm.Server.Termination
import SecureLlm.Client.Impersonation
import SecureLlm.Client.KnownHosts
import SecureLlm.Server.Forgery
import SecureLlm.Server.Rejections
import SecureLlm.Server.Lifetime
import SecureLlm.Server.Departures
import SecureLlm.Server.Revocation
import SecureLlm.Models.Calls
import SecureLlm.Models.Jobs
import SecureLlm.Models.Slots
import SecureLlm.Library.TokenBucket
import SecureLlm.Middleware.RateLimit
import SecureLlm.Library.Catalog
import SecureLlm.Models.Registry
import SecureLlm.Models.Downloads
import SecureLlm.Observability.RingLog
import SecureLlm.Observability.Status
import SecureLlm.Routers.Debug
import SecureLlm.Library.Isolation
import SecureLlm.Routers.Listings
import SecureLlm.Routers.ReadIsolation
import SecureLlm.Session.Bystanders
import SecureLlm.Library.Decimal
import SecureLlm.Models.Reuse
import SecureLlm.Models.Streams
import SecureLlm.Models.Tasks
import SecureLlm.Models.Serving
import SecureLlm.Models.Offload
import SecureLlm.Models.Served
import SecureLlm.Models.Origins
import SecureLlm.Observability.LogLevels
import SecureLlm.Routers.Admin
import SecureLlm.Routers.WriteIsolation
import SecureLlm.Client.Envelope
import SecureLlm.Crypto.ReplayHistory
import SecureLlm.Crypto.Binding
import SecureLlm.Client.Errors
import SecureLlm.Client.Replay
import SecureLlm.Client.Decode
import SecureLlm.Client.Calls
import SecureLlm.Client.Counters
import SecureLlm.Client.Verdicts
import SecureLlm.Client.Answers
import SecureLlm.Llm.Streaming
import SecureLlm.Client.Streams
import SecureLlm.Client.Integrity
import SecureLlm.Llm.Order
import SecureLlm.Llm.SyncChunks
import SecureLlm.Client.Fidelity
import SecureLlm.Client.Derivation
import SecureLlm.Client.Transcript
import SecureLlm.Client.MockAttestation
import SecureLlm.Routers.Session
import SecureLlm.Crypto.Allowlist
import SecureLlm.Middleware.RateBound
import SecureLlm.Crypto.AtRest
import SecureLlm.Models.Loading
import SecureLlm.Models.Quota
import SecureLlm.Library.Recency
import SecureLlm.Models.Lookups
import SecureLlm.Models.Eviction
import SecureLlm.Library.While
import SecureLlm.Crypto.WriteAll
import SecureLlm.Library.Scan
import SecureLlm.Observability.LogHistory
import SecureLlm.Client.Conversation
import SecureLlm.Client.Verifiers
import SecureLlm.Client.TypedErrors
import SecureLlm.Client.TypedRuns
import SecureLlm.Library.Recorded
import SecureLlm.Models.Queues
import SecureLlm.Models.Wiring
import SecureLlm.Models.Passed
import SecureLlm.Models.Answerable
import SecureLlm.Server.Standing
import SecureLlm.Server.Channel
import SecureLlm.Models.Crashes
import SecureLlm.Server.Recovery
import SecureLlm.Crypto.Identity
import SecureLlm.Server.Leases
import SecureLlm.Models.Tenants
import SecureLlm.Routers.Tenants
import SecureLlm.Server.Interchange
import SecureLlm.Client.Effort
