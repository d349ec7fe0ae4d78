import MockAgents.Pipeline.Proofs.JoinOrder
import MockAgents.Pipeline.Proofs.Agreement
import MockAgents.Recording.Proofs.Body
import MockAgents.Registry.Proofs.ByModel
import MockAgents.Registry.Proofs.Isolation
import MockAgents.Tenancy.Proofs.BulkRotation
import MockAgents.Realtime.Proofs.IndexRun
import MockAgents.Realtime.Proofs.Rejection
import MockAgents.Realtime.Proofs.Interruption
import MockAgents.Realtime.Proofs.Voice
import MockAgents.Mcp.Proofs.Order
import MockAgents.State.Proofs.Turns
import MockAgents.State.Proofs.Store
import MockAgents.Pipeline.Sessions
import MockAgents.Engine.Proofs.Chaos
import MockAgents.Config.Proofs.StrictFields
import MockAgents.Adapter.Proofs.Schema
import MockAgents.Adapter.Proofs.ToolLoop
import MockAgents.Quota.Proofs.Rollover
import MockAgents.Quota.Proofs.RateLimit
import MockAgents.A2A.Proofs.Streaming
import MockAgents.Mcp.Proofs.Withdrawal
import MockAgents.Mcp.Proofs.Resumption
import MockAgents.Mcp.Proofs.Prompts
import MockAgents.Engine.Proofs.Strict
import MockAgents.Engine.Proofs.Validated
import MockAgents.Storage.Proofs.Secrets
import MockAgents.Storage.Proofs.Query
import MockAgents.Recording.Proofs.Sequence
import MockAgents.Recording.Proofs.Frames
import MockAgents.Recording.Proofs.ImportVCR
import MockAgents.Vector.Proofs.Isolation
import MockAgents.Mcp.Proofs.Stdio
import MockAgents.Adapter.Proofs.Paging
import MockAgents.Tenancy.ClientIP
import MockAgents.Metrics.Histogram
import MockAgents.Config.Proofs.Suggestion
import MockAgents.Engine.Proofs.AnyOrder
import MockAgents.Tenancy.Proofs.Isolation
