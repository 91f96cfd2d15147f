import NodeAgent.Common.History
import NodeAgent.Common.Maps
import NodeAgent.Common.Runs
import NodeAgent.Common.Strings
import NodeAgent.Common.Base64
import NodeAgent.Common.Sha256
import NodeAgent.Common.Words
import NodeAgent.Common.Meter
import NodeAgent.Common.Stores
import NodeAgent.Common.Uuid
import NodeAgent.Common.Networks
import NodeAgent.Common.Holdings
import NodeAgent.Common.Buckets
import NodeAgent.Common.GoJson
import NodeAgent.Common.JsonEffects
import NodeAgent.Common.Masks
import NodeAgent.Common.NetworkText
import NodeAgent.Common.Gauge
import NodeAgent.Common.Batches
import NodeAgent.Common.Threads
import NodeAgent.Common.Rings
import NodeAgent.Common.Varint
import NodeAgent.Common.Protobuf
import NodeAgent.Tenant.Model.Registry
import NodeAgent.Tenant.Model.Auth
import NodeAgent.Tenant.Model.Store
import NodeAgent.Tenant.Model.Run
import NodeAgent.Tenant.Helpers.Registry
import NodeAgent.Tenant.Helpers.Index
import NodeAgent.Tenant.Helpers.Writes
import NodeAgent.Tenant.Keys
import NodeAgent.Tenant.Decisions
import NodeAgent.Tenant.Persistence
import NodeAgent.Tenant.Writes
import NodeAgent.Tenant.Limits
import NodeAgent.Tenant.Counters
import NodeAgent.Xray.Model.Account
import NodeAgent.Xray.Model.Config
import NodeAgent.Xray.Model.Stats
import NodeAgent.Xray.Model.Core
import NodeAgent.Xray.Model.Document
import NodeAgent.Xray.Model.Serialize
import NodeAgent.Xray.Model.Health
import NodeAgent.Xray.Model.Diagnostics
import NodeAgent.Xray.Helpers.Sync
import NodeAgent.Xray.Helpers.Start
import NodeAgent.Xray.Helpers.Stats
import NodeAgent.Xray.Helpers.Exact
import NodeAgent.Xray.Helpers.Batch
import NodeAgent.Xray.Batches
import NodeAgent.Xray.Startup
import NodeAgent.Xray.Restart
import NodeAgent.Xray.Shutdown
import NodeAgent.Xray.Diagnostics
import NodeAgent.Shared.Model.Manager
import NodeAgent.Shared.Model.Run
import NodeAgent.Shared.Model.Node
import NodeAgent.Shared.Model.Locks
import NodeAgent.Shared.Model.Sharable
import NodeAgent.Shared.Helpers.Poll
import NodeAgent.Shared.Helpers.Loops
import NodeAgent.Shared.Helpers.Cases
import NodeAgent.Shared.Helpers.Live
import NodeAgent.Shared.Helpers.Billing
import NodeAgent.Shared.Helpers.Directory
import NodeAgent.Shared.Helpers.Sets
import NodeAgent.Shared.Helpers.Place
import NodeAgent.Shared.Helpers.Settle
import NodeAgent.Shared.Helpers.Sharable
import NodeAgent.Shared.Namespace
import NodeAgent.Shared.Metering
import NodeAgent.Shared.Coherence
import NodeAgent.Shared.Gate
import NodeAgent.Shared.Refinement
import NodeAgent.Shared.Billing
import NodeAgent.Shared.Enforcement
import NodeAgent.Shared.Credentials
import NodeAgent.Shared.Secrets
import NodeAgent.Shared.Frame
import NodeAgent.Shared.Incremental
import NodeAgent.Shared.Reapply
import NodeAgent.Shared.ConfigRace
import NodeAgent.Shared.Revocation
import NodeAgent.Shared.Sharable
import NodeAgent.Controller.Model.Agent
import NodeAgent.Controller.Model.Grpccompat
import NodeAgent.Controller.Model.Views
import NodeAgent.Controller.Model.Chunks
import NodeAgent.Controller.Model.Sync
import NodeAgent.Controller.Model.Lifecycle
import NodeAgent.Controller.Helpers.Chunks
import NodeAgent.Controller.Helpers.Sync
import NodeAgent.Controller.Frame
import NodeAgent.Controller.Usage
import NodeAgent.Controller.Chunked
import NodeAgent.Controller.Wire
import NodeAgent.Controller.Sync
import NodeAgent.Controller.Lifecycle
import NodeAgent.Controller.Model.Requests
import NodeAgent.Controller.Requests
import NodeAgent.Wireguard.Model.Peers
import NodeAgent.Wireguard.Model.Tracker
import NodeAgent.Wireguard.Model.Device
import NodeAgent.Wireguard.Model.Diff
import NodeAgent.Wireguard.Model.Backend
import NodeAgent.Wireguard.Helpers.Store
import NodeAgent.Wireguard.Helpers.Collect
import NodeAgent.Wireguard.Helpers.Diff
import NodeAgent.Wireguard.Helpers.Cases
import NodeAgent.Wireguard.Helpers.Reconcile
import NodeAgent.Wireguard.Helpers.Run
import NodeAgent.Wireguard.Helpers.Kernel
import NodeAgent.Wireguard.Reconcile
import NodeAgent.Wireguard.Changes
import NodeAgent.Wireguard.Quarantine
import NodeAgent.Wireguard.Ordering
import NodeAgent.Wireguard.Resync
import NodeAgent.Wireguard.Exclusive
import NodeAgent.Wireguard.Kernel
import NodeAgent.Wireguard.Confined
import NodeAgent.Wireguard.Preshared
import NodeAgent.Wireguard.Helpers.Tracker
import NodeAgent.Wireguard.Conservation
import NodeAgent.Wireguard.Attribution
import NodeAgent.Wireguard.Parts
import NodeAgent.Wireguard.Concurrent
import NodeAgent.Xray.Intake
import NodeAgent.Xray.Routing
import NodeAgent.Xray.Derivation
import NodeAgent.Controller.Assembly
import NodeAgent.Xray.Model.Process
import NodeAgent.Xray.Processes
import NodeAgent.Controller.Model.Router
import NodeAgent.Controller.Router
