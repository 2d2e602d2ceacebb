import Memplex.Lib.Rows
import Memplex.Lib.Lww
import Memplex.Lib.Window
import Memplex.Lib.Grounded
import Memplex.Lib.Directory
import Memplex.Lib.Merkle
import Memplex.Lib.Decimal
import Memplex.Lib.Json.Value
import Memplex.Lib.Json.Reader
import Memplex.Lib.Json.Writer
import Memplex.Lib.Base64
import Memplex.Lib.Canonical
import Memplex.Lib.Json.Number
import Memplex.Py.Float
import Memplex.Protocol.Jcs
import Memplex.Protocol.Keys
import Memplex.Protocol.Events
import Memplex.Protocol.JcsReads
import Memplex.Protocol.Ingress
import Memplex.Models.Memory
import Memplex.Models.Graph
import Memplex.Models.Reload
import Memplex.Auth.Scope
import Memplex.Core.Engine
import Memplex.Auth.Lineage
import Memplex.Auth.Snapshot
import Memplex.Auth.Halting
import Memplex.Auth.Visible
import Memplex.Auth.Agreement
import Memplex.Auth.Derived
import Memplex.Sync.State
import Memplex.Sync.Append
import Memplex.Sync.Apply
import Memplex.Sync.Receive
import Memplex.Sync.Entries
import Memplex.Sync.Follow
import Memplex.Sync.Converge
import Memplex.Sync.Deliveries
import Memplex.Sync.FanOut
import Memplex.Sync.Snapshots
import Memplex.Sync.Stream
import Memplex.Sync.Pages
import Memplex.Sync.Compaction
import Memplex.Sync.Leases
import Memplex.Py.Dumps
import Memplex.Postgres.Deliveries
import Memplex.Postgres.Served
import Memplex.Sync.Resume
import Memplex.Sync.Skew
import Memplex.Lite.Writes
import Memplex.Lite.Principals
import Memplex.Sync.Dispatch
import Memplex.Sync.Push
import Memplex.Sync.Integrity
import Memplex.Sync.Bootstrap
import Memplex.Lite.Validation
import Memplex.Mesh.Converge
import Memplex.Mesh.Tombstones
import Memplex.Mesh.Gossip
import Memplex.Sync.Valid
import Memplex.Lite.Commits
import Memplex.Mesh.Causality
import Memplex.Lite.Documents
import Memplex.Lib.Leases
import Memplex.Lib.LengthCache
import Memplex.Lib.Tickets
import Memplex.Worker.Repository
import Memplex.Worker.TaskStore
import Memplex.Worker.Runs
import Memplex.Worker.Attempts
import Memplex.Postgres.Tasks
import Memplex.Postgres.TaskRuns
import Memplex.Lib.Sequenced
import Memplex.Postgres.Stream
import Memplex.Postgres.Transactions
import Memplex.Postgres.Visibility
import Memplex.Postgres.Inbound
import Memplex.Postgres.Agreement
import Memplex.Py.Loads
import Memplex.Backup.Manifest
import Memplex.Mesh.Divergence
import Memplex.Working.Memory
import Memplex.Working.Scopes
import Memplex.Protocol.Cursor
import Memplex.Lite.Mutation
import Memplex.Sync.Caches
import Memplex.Sync.Slots
import Memplex.Lite.Reread
import Memplex.Lite.Upgrade
import Memplex.Lib.Exits
import Memplex.Lite.Residents
import Memplex.Lite.Belongs
import Memplex.Working.Lifecycle
import Memplex.Consolidation.Cluster
import Memplex.Lib.FirstFit
import Memplex.Models.Defaults
import Memplex.Service.Cascade
import Memplex.Lite.Reads
import Memplex.Lite.Erasure
import Memplex.Facts.Temporal
import Memplex.Lib.Groups
import Memplex.Lib.Newest
import Memplex.Facts.Improve
import Memplex.Lib.UnionFind
import Memplex.Lib.Collapse
import Memplex.Lib.Leaders
import Memplex.Retrieval.Dedup
import Memplex.Retrieval.Survivors
import Memplex.Compaction.Pipeline
import Memplex.Facts.Supersede
import Memplex.Lib.Occurs
import Memplex.Lib.Peaks
import Memplex.Retrieval.Fusion
import Memplex.Lib.Breadth
import Memplex.Lite.Neighbors
import Memplex.Lite.VectorIndex
import Memplex.Context.Assembly
import Memplex.Context.Accounting
import Memplex.Context.Framing
import Memplex.Lib.Blocks
import Memplex.Lib.Splices
import Memplex.Privacy.Tags
import Memplex.Feedback.Stores
import Memplex.Feedback.Agree
import Memplex.Lite.Written
import Memplex.Premises.Resolution
import Memplex.Premises.Durable
import Memplex.Premises.Pass
import Memplex.Sync.Legacy
import Memplex.Capture.Payload
import Memplex.Capture.Identity
import Memplex.Lite.SearchIndex
import Memplex.Lite.CrashSafe
import Memplex.Backup.Publish
import Memplex.Processing.LiteRuns
import Memplex.Wiki.Frontmatter
import Memplex.Adapters.JsoncDocs
import Memplex.Lib.Runs
import Memplex.Lib.Keyset
import Memplex.Lite.SingleWriter
import Memplex.Lite.SnapshotPages
import Memplex.Lite.Instances
