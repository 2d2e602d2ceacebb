import Memplex.Models.Graph
import Memplex.Protocol.Events

/-!
# The state of the lite store

`BusinessState` is the resident collections of `LiteMemoryStore` and `SyncState` the `sync` subtree
that `LiteSyncRepository` mutates; `LiteStore` is the two together, the unit that one transaction
replaces. Instants of rows are microseconds (`Timestamp.micros`), since deliveries, leases and
retention compare and shift them. A row of the outbox holds its event whole: the columns of the
source are the fields of the event.
-/

namespace Memplex

open Lib

/-- Microseconds since the first instant of year one. -/
abbrev Instant := ℤ

/-! ## Business state -/

/-- The paragraphs of a store, by id. -/
abbrev Paragraphs := Table (Prod.fst : String × Members → String)

/-- The resident collections of the store. -/
structure BusinessState where
  functions : Functions
  facts : Table fun f : Fact => f.id
  preferences : Table fun p : Preference => p.id
  observations : List Observation
  paragraphs : Paragraphs
  edges : List GraphEdge
  /-- Normalized function names with the ids of their functions. -/
  nameIndex : Table (Prod.fst : String × String → String)
deriving DecidableEq

/-- A store without records. -/
def BusinessState.empty : BusinessState where
  functions := .empty
  facts := .empty
  preferences := .empty
  observations := []
  paragraphs := .empty
  edges := []
  nameIndex := .empty

/-! ## Sync state -/

/-- An entity: its kind and its key. -/
abbrev Entity := SyncNodeType × SyncEntityKey

/-- A row of the outbox. -/
structure OutboxRow where
  streamSeq : ℕ
  event : SyncEvent
deriving DecidableEq

/-- `created_at` of an outbox row. -/
def OutboxRow.createdAt (r : OutboxRow) : Instant := r.event.version.occurredAt.micros

/-- The latest version of an entity. -/
structure VersionRow where
  entity : Entity
  version : SyncVersion
  deleted : Bool
  eventId : String
  lastStreamSeq : ℕ
deriving DecidableEq

/-- A delivery target. -/
structure TargetRow where
  targetId : String
  remoteNodeId : String
  bootstrapSeq : ℕ
  enabled : Bool
deriving DecidableEq

/-- The life of a delivery. -/
inductive DeliveryState where
  | pending
  | leased
  | delivered
  | deadLetter
deriving DecidableEq

/-- One event on its way to one target. -/
structure DeliveryRow where
  targetId : String
  streamSeq : ℕ
  state : DeliveryState
  attemptCount : ℕ
  nextAttemptAt : Instant
  leaseOwner : Option String
  leaseUntil : Option Instant
  lastErrorCode : Option String
deriving DecidableEq

/-- The identity of a delivery. -/
def DeliveryRow.key (d : DeliveryRow) : String × ℕ := (d.targetId, d.streamSeq)

/-- A delivery that no one has claimed. -/
def DeliveryRow.fresh (targetId : String) (streamSeq : ℕ) (nextAttemptAt : Instant) :
    DeliveryRow where
  targetId := targetId
  streamSeq := streamSeq
  state := .pending
  attemptCount := 0
  nextAttemptAt := nextAttemptAt
  leaseOwner := none
  leaseUntil := none
  lastErrorCode := none

/-- What became of an event that was delivered here. -/
inductive ReceiptOutcome where
  | accepted
  | duplicate
  | rejectedConflict
deriving DecidableEq

/-- The receipt of one event. -/
structure SyncReceipt where
  eventId : String
  outcome : ReceiptOutcome
deriving DecidableEq

/-- The identity of an event that was delivered here, and its outcome. -/
structure InboxRow where
  originNodeId : String
  eventId : String
  outcome : ReceiptOutcome
  appliedStreamSeq : Option ℕ
deriving DecidableEq

/-- The identity that the inbox deduplicates by. -/
def InboxRow.identity (r : InboxRow) : String × String := (r.originNodeId, r.eventId)

/-- The result of a batch. -/
structure SyncBatchResult where
  batchId : String
  requestDigest : String
  receipts : List SyncReceipt
deriving DecidableEq

/-- A batch that was applied here, with the response that a repetition gets. -/
structure BatchRow where
  batchId : String
  requestSha256 : String
  response : SyncBatchResult
  createdAt : Instant
deriving DecidableEq

/-- The progress of a consumer through a stream. -/
structure CursorRow where
  remoteId : String
  consumerId : String
  afterSeq : ℕ
  updatedAt : Instant
deriving DecidableEq

/-- A snapshot that pins the stream behind it. -/
structure SnapshotRow where
  snapshotId : String
  remoteId : String
  consumerId : String
  requestId : String
  resumeSeq : ℕ
  expiresAt : Instant
deriving DecidableEq

/-- One event of a snapshot. -/
structure SnapshotItem where
  snapshotId : String
  event : SyncEvent
deriving DecidableEq

/-- The `sync` subtree of the store. -/
structure SyncState where
  tenantBinding : Option String
  nextStreamSeq : ℕ
  retentionFloor : ℕ
  compactedThrough : ℕ
  outbox : List OutboxRow
  entityVersions : Table VersionRow.entity
  targets : Table TargetRow.targetId
  deliveries : List DeliveryRow
  inbox : List InboxRow
  batches : List BatchRow
  cursors : List CursorRow
  inboundCursors : List CursorRow
  snapshots : List SnapshotRow
  snapshotItems : List SnapshotItem
deriving DecidableEq

/-- `_empty_sync_state`. -/
def SyncState.empty : SyncState where
  tenantBinding := none
  nextStreamSeq := 1
  retentionFloor := 0
  compactedThrough := 0
  outbox := []
  entityVersions := .empty
  targets := .empty
  deliveries := []
  inbox := []
  batches := []
  cursors := []
  inboundCursors := []
  snapshots := []
  snapshotItems := []

/-- The constructor arguments of a repository. -/
structure SyncConfig where
  /-- Whether local changes are captured. -/
  captureRequired : Bool
  localNodeId : String
  maxPendingEvents : ℕ
  maxAttempts : ℕ
  snapshotTtlSeconds : ℕ
  maxSnapshotItems : ℕ
  maxActiveSnapshotsPerTenant : ℕ
  maxActiveSnapshotsPerRemote : ℕ
  consumerTtlSeconds : ℕ
  retentionMinSeconds : ℕ

/-- The records and the sync state of one store. -/
structure LiteStore where
  business : BusinessState
  sync : SyncState
deriving DecidableEq

/-- A store that nothing was written to. -/
def LiteStore.empty : LiteStore := ⟨.empty, .empty⟩

end Memplex
