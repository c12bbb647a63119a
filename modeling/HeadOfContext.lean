import HeadOfContext.Framework.Prog
import HeadOfContext.Framework.FrozenSet
import HeadOfContext.Core.Decider
import HeadOfContext.Framework.Chunks
import HeadOfContext.Core.DeciderSafety
import HeadOfContext.Framework.Datalog
import HeadOfContext.Tokens.Biscuit
import HeadOfContext.Tokens.Datalog
import HeadOfContext.Tokens.Service
import HeadOfContext.Tokens.Authority
import HeadOfContext.Tokens.Loading
import HeadOfContext.Tokens.Attenuation
import HeadOfContext.Tokens.Layers
import HeadOfContext.Tokens.MandateRuns
import HeadOfContext.Framework.Pool
import HeadOfContext.Tokens.Runs
import HeadOfContext.Tokens.MandateStore
import HeadOfContext.Tokens.MandateFinality
import HeadOfContext.Tokens.MandateBounds
import HeadOfContext.Tokens.Revocation
import HeadOfContext.Actions.Approvals
import HeadOfContext.Actions.Gate
import HeadOfContext.Actions.Runs
import HeadOfContext.Actions.Spent
import HeadOfContext.Actions.Finality
import HeadOfContext.Actions.Journal
import HeadOfContext.Core.Tuples
import HeadOfContext.Framework.Dict
import HeadOfContext.Framework.DiffSync
import HeadOfContext.Framework.Rows
import HeadOfContext.Framework.Sequential
import HeadOfContext.Read.Connectors
import HeadOfContext.Read.Sync
import HeadOfContext.Actions.GateJournal
import HeadOfContext.Integrations.Session
import HeadOfContext.Integrations.SessionJournal
import HeadOfContext.Tokens.Refusals
import HeadOfContext.Integrations.Guard
import HeadOfContext.Integrations.Mcp
import HeadOfContext.Core.FixedEngine
import HeadOfContext.Read.Filter
import HeadOfContext.Integrations.Catalog
import HeadOfContext.Tokens.RoundTrip
import HeadOfContext.Framework.JsonRead
import HeadOfContext.Framework.JsonPrint
import HeadOfContext.Audit.Chain
import HeadOfContext.Audit.Payload
import HeadOfContext.Core.Batched
import HeadOfContext.Core.Delegating
import HeadOfContext.Audit.Journal
import HeadOfContext.Read.Sharing
import HeadOfContext.Framework.Interrupted
import HeadOfContext.Read.Retry
import HeadOfContext.Read.Freshness
import HeadOfContext.Memory.Model
import HeadOfContext.Memory.Service
import HeadOfContext.Memory.Stores
import HeadOfContext.Memory.Remember
import HeadOfContext.Memory.Runs
import HeadOfContext.Memory.Outcomes
import HeadOfContext.Memory.Forget
import HeadOfContext.Memory.Recall
import HeadOfContext.Actions.PostgresApprovals
import HeadOfContext.Framework.Machine
import HeadOfContext.Actions.ApprovalStores
import HeadOfContext.Core.Restrictive
import HeadOfContext.Core.BatchLimit
import HeadOfContext.Integrations.EngineLimit
import HeadOfContext.Read.FilterSafety
import HeadOfContext.Read.FilterAudit
import HeadOfContext.Actions.Expiry
import HeadOfContext.Actions.Channels
import HeadOfContext.Framework.Binary64
import HeadOfContext.Tokens.PostgresMandates
import HeadOfContext.Audit.FirstBreak
import HeadOfContext.Api.RateLimit
import HeadOfContext.Api.Metering
import HeadOfContext.Api.NewBearers
import HeadOfContext.Framework.JsonLines
import HeadOfContext.Audit.Archive
import HeadOfContext.Api.RetryAfter
import HeadOfContext.Actions.Fingerprint
import HeadOfContext.Core.Grammar
import HeadOfContext.Core.Coverage
import HeadOfContext.Framework.PosixPath
import HeadOfContext.Read.Files
import HeadOfContext.Read.FilesRoot
import HeadOfContext.Read.FilesIds
import HeadOfContext.Framework.OffsetPages
import HeadOfContext.Identity.Groups
import HeadOfContext.Identity.GroupsRead
import HeadOfContext.Identity.Oidc
import HeadOfContext.Identity.JwksTraffic
import HeadOfContext.Integrations.SingleUpstream
import HeadOfContext.Actions.Policies
import HeadOfContext.Tokens.Verifications
import HeadOfContext.Audit.Export
import HeadOfContext.Framework.Handlers
import HeadOfContext.Engines.OpenFga
import HeadOfContext.Engines.Deployed
import HeadOfContext.Framework.Roles
import HeadOfContext.Db.Migrations
import HeadOfContext.Db.Serialized
import HeadOfContext.Framework.Coalescer
import HeadOfContext.Api.Readiness
import HeadOfContext.Framework.Upsert
import HeadOfContext.Framework.JsonText
import HeadOfContext.Framework.Line
import HeadOfContext.Db.Store
import HeadOfContext.Read.PostgresConnectors
import HeadOfContext.Tokens.RevocationStores
import HeadOfContext.Memory.Ledgers
import HeadOfContext.Framework.Hosting
import HeadOfContext.Identity.Callers
import HeadOfContext.Api.Routes
import HeadOfContext.Api.Bearers
import HeadOfContext.Api.GateGuest
import HeadOfContext.Api.ApprovedCalls
import HeadOfContext.Api.DeskGuest
import HeadOfContext.Api.IssuedTokens
import HeadOfContext.Api.RevokedTokens
import HeadOfContext.Api.ReadFilter
import HeadOfContext.Memory.Admissions
import HeadOfContext.Api.MemoryRoutes
