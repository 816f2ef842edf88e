import BlackMonolith.Library.Paths
import BlackMonolith.Library.Suffix
import BlackMonolith.Library.Lists
import BlackMonolith.Library.Substring
import BlackMonolith.Library.Utf8
import BlackMonolith.Library.InsertionMap
import BlackMonolith.Library.JavaScript
import BlackMonolith.Dashboard.Revocations
import BlackMonolith.Dashboard.Ingest
import BlackMonolith.OutboxRuns
import BlackMonolith.OutboxUniqueness
import BlackMonolith.AgentToServer
import BlackMonolith.SecretBoundary.Confidentiality
import BlackMonolith.Dashboard.CircuitBreaker
import BlackMonolith.Library.Unwinding
import BlackMonolith.Dashboard.TenantView
import BlackMonolith.Dashboard.TenantIsolation
import BlackMonolith.Baseline.Fingerprint
import BlackMonolith.Baseline.ToolsList
import BlackMonolith.Baseline.Runs
import BlackMonolith.Baseline.Soundness
import BlackMonolith.Baseline.ListingSafety
import BlackMonolith.Baseline.Decisions
import BlackMonolith.Baseline.Persistence
import BlackMonolith.Library.KeyedQueues
import BlackMonolith.ServerToAgent
import BlackMonolith.Correlation
import BlackMonolith.ResponseSafety
import BlackMonolith.Library.PrefixBlocks
import BlackMonolith.SecretBoundary.AddressSpace
import BlackMonolith.SecretBoundary.Authorisation
import BlackMonolith.SecretBoundary.Pinning
import BlackMonolith.SecretBoundary.ToolConfig
import BlackMonolith.SecretBoundary.ConfigAgreement
import BlackMonolith.VectorAnchor.FrequencyTracker
import BlackMonolith.VectorAnchor.RetrieverProxy
import BlackMonolith.VectorAnchor.QuarantineSafety
import BlackMonolith.Library.Python
import BlackMonolith.Library.Utf16
import BlackMonolith.MonolithEvents.RevokedSessions
import BlackMonolith.ShieldEvents
import BlackMonolith.SessionAgreement
import BlackMonolith.Dashboard.Storability
import BlackMonolith.TraceAudit.PiiScanner
import BlackMonolith.TraceAudit.StreamBuffer
import BlackMonolith.Library.Expansion
import BlackMonolith.TraceAudit.Redaction
import BlackMonolith.Library.BlockStream
import BlackMonolith.TraceAudit.AnthropicRelay
import BlackMonolith.TraceAudit.MessageStream
import BlackMonolith.TraceAudit.RelayOrder
import BlackMonolith.TraceAudit.RelayedMessage
import BlackMonolith.HttpTransport
import BlackMonolith.ChunkIndependence
import BlackMonolith.Dashboard.AuditTrail
import BlackMonolith.Library.Keyset
import BlackMonolith.Dashboard.IncidentQueue
import BlackMonolith.Dashboard.Pagination
import BlackMonolith.Dashboard.StoreAgreement
import BlackMonolith.VectorAnchor.DetectorInvariant
import BlackMonolith.Baseline.SharedBaseline
import BlackMonolith.Baseline.Interference
import BlackMonolith.Baseline.ServerIsolation
import BlackMonolith.Launcher.Injector
import BlackMonolith.Launcher.Confinement
import BlackMonolith.MonitorMode
import BlackMonolith.Baseline.ReloadMerge
import BlackMonolith.Library.Eviction
import BlackMonolith.MonolithEvents.EventOutbox
import BlackMonolith.MonolithEvents.OutboxBounds
import BlackMonolith.MonolithEvents.OutboxConservation
import BlackMonolith.Dashboard.LoginRateLimit
import BlackMonolith.Dashboard.SignIns
import BlackMonolith.Launcher.WorkDirectory
import BlackMonolith.Dashboard.AlertDelivery
import BlackMonolith.Dashboard.EvidenceRetention
import BlackMonolith.VectorAnchor.Snapshot
import BlackMonolith.VectorAnchor.SnapshotLoad
import BlackMonolith.VectorAnchor.SavedStates
import BlackMonolith.VectorAnchor.Restarts
import BlackMonolith.VectorAnchor.RoundTrip
import BlackMonolith.VectorAnchor.StateSize
import BlackMonolith.VectorAnchor.StateSaving
import BlackMonolith.Library.PercentEncoding
import BlackMonolith.OutboxAdmin
import BlackMonolith.JsonText
import BlackMonolith.Baseline.Canonical
import BlackMonolith.OutboxFiles
import BlackMonolith.OutboxFailures
import BlackMonolith.OutboxReplay
import BlackMonolith.Baseline.Restoration
import BlackMonolith.Baseline.Ledger
import BlackMonolith.Baseline.Revocation
import BlackMonolith.SecretBoundary.OnePasswordCli
import BlackMonolith.SecretBoundary.OperationRequests
import BlackMonolith.Library.DotSegments
import BlackMonolith.SecretBoundary.PolicySoundness
import BlackMonolith.TraceAudit.BufferConservation
import BlackMonolith.TraceAudit.RedactionCover
import BlackMonolith.TraceAudit.UpstreamErrors
import BlackMonolith.Library.PyJsonText
import BlackMonolith.Library.PyJsonRoundTrip
import BlackMonolith.TraceAudit.SseRoundTrip
import BlackMonolith.Library.PyJsonBytes
import BlackMonolith.TraceAudit.BackendStream
import BlackMonolith.TraceAudit.BackendChunks
import BlackMonolith.Library.PyJsonRead
import BlackMonolith.TraceAudit.BaselineFile
import BlackMonolith.TraceAudit.BaselineReload
import BlackMonolith.Library.Clustering
import BlackMonolith.VectorAnchor.RetrievalFill
import BlackMonolith.VectorAnchor.McpServer
import BlackMonolith.Dashboard.Migrations
import BlackMonolith.Dashboard.Credentials
import BlackMonolith.VectorAnchor.TopicCoverage
import BlackMonolith.VectorAnchor.ArrivalOrder
import BlackMonolith.TenantAttribution
import BlackMonolith.CredentialTransport
import BlackMonolith.Library.JsonData
import BlackMonolith.Library.JsonReading
import BlackMonolith.Library.JsUtf8
import BlackMonolith.Library.JsonOrder
import BlackMonolith.Dashboard.EvidenceBundle
import BlackMonolith.Dashboard.EvidenceVerification
import BlackMonolith.Launcher.PlanRedaction
import BlackMonolith.Library.Tally
import BlackMonolith.TraceAudit.DivergenceMonitor
import BlackMonolith.Dashboard.SessionReport
import BlackMonolith.OutboxBounds
import BlackMonolith.PendingQueues
import BlackMonolith.Baseline.FirstSighting
import BlackMonolith.RevocationSnapshot
import BlackMonolith.CredentialEmbedding
import BlackMonolith.Dashboard.EventStream
import BlackMonolith.TraceAudit.DocumentAgreement
import BlackMonolith.Dashboard.LiveDelivery
import BlackMonolith.Dashboard.SessionStanding
import BlackMonolith.RemoteBridge.Lines
import BlackMonolith.RemoteBridge.Requests
