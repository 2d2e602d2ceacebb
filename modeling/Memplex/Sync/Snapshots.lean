import Memplex.Sync.FanOut

/-!
# Snapshots and whole runs of a repository

A snapshot is a copy of the resident records as events, for a consumer that begins in the middle of
the stream: it pins the stream at the sequence that the consumer resumes after, until it expires.
Which events it copies is the business of the store; the repository admits it, writes its rows and
serves them in pages.

`RepoOp` is every operation that changes the state of a repository, and `runRepo` a run of them.
What an operation can do to the stream itself is one of four things (`StreamStep`): events are
appended, a target is registered, a target is switched on or off, or the stream is compacted.
-/

namespace Memplex

open Lib

/-! ## Snapshots -/

/-- `SyncSnapshotPage`: a page of the events of a snapshot. -/
structure SyncSnapshotPage where
  events : List SyncEvent
  snapshotId : String
  /-- The last event of the page, if more follow. -/
  nextAnchor : Option Entity
  resumeSeq : ℕ
  hasMore : Bool

namespace SyncState

/-- The order of the items of a snapshot: by the names of their kinds, then by their keys. -/
def snapshotOrder (a b : SyncEvent) : Bool :=
  a.entity.1.value < b.entity.1.value ∨
    (a.entity.1.value = b.entity.1.value ∧ a.entity.2.text ≤ b.entity.2.text)

/-- `_snapshot_page`. -/
def snapshotPage (snapshotId : String) (resumeSeq : ℕ) (events : List SyncEvent) (limit : ℕ) :
    SyncSnapshotPage :=
  let selected := events.take limit
  let hasMore : Bool := limit < events.length
  ⟨selected, snapshotId, if hasMore then selected.getLast?.map SyncEvent.entity else none,
    resumeSeq, hasMore⟩

/-- The events that are stored for a snapshot, in their order. -/
def snapshotEvents (s : SyncState) (snapshotId : String) : List SyncEvent :=
  ((s.snapshotItems.filter fun x => x.snapshotId = snapshotId).map SnapshotItem.event).mergeSort
    snapshotOrder

/-- The state with the tenant of the records bound, if they have one. -/
def bindRecords (s : SyncState) : Option String → Except PyError SyncState
  | none => .ok s
  | some tenantId => s.bindTenant tenantId

/-- A new snapshot of some events. -/
def admitSnapshot (s : SyncState) (cfg : SyncConfig) (now : Instant)
    (remoteId consumerId requestId : String) (tenantId : Option String) (events : List SyncEvent)
    (snapshotId : String) : Except PyError (SyncState × SnapshotRow) := do
  require (s.snapshots.countP (fun x => x.remoteId = remoteId) < cfg.maxActiveSnapshotsPerRemote)
    ⟨.syncBackpressureError, "snapshot_in_progress"⟩
  require (s.snapshots.length < cfg.maxActiveSnapshotsPerTenant)
    ⟨.syncBackpressureError, "snapshot_in_progress"⟩
  let s ← s.bindRecords tenantId
  require (events.length ≤ cfg.maxSnapshotItems) ⟨.syncBackpressureError, "snapshot_too_large"⟩
  let row : SnapshotRow := ⟨snapshotId, remoteId, consumerId, requestId, s.nextStreamSeq - 1,
    now + cfg.snapshotTtlSeconds * second⟩
  return ({ s with
    snapshots := s.snapshots ++ [row]
    snapshotItems := s.snapshotItems ++ events.map fun event => ⟨snapshotId, event⟩ }, row)

/-- The snapshot of a request: the one that it has, or a new one. -/
def openSnapshot (s : SyncState) (cfg : SyncConfig) (now : Instant)
    (remoteId consumerId requestId : String) (tenantId : Option String) (events : List SyncEvent)
    (snapshotId : String) : Except PyError (SyncState × SnapshotRow) :=
  match s.snapshots.find? fun x => x.remoteId = remoteId ∧ x.consumerId = consumerId ∧
      x.requestId = requestId with
  | some row => .ok (s, row)
  | none => s.admitSnapshot cfg now remoteId consumerId requestId tenantId events snapshotId

/-- `sync_create_snapshot`: `tenantId` and `events` are what `_current_snapshot_events` makes of the
resident records, and `snapshotId` is the fresh identifier. -/
def createSnapshot (s : SyncState) (cfg : SyncConfig) (now : Instant)
    (remoteId consumerId requestId : String) (limit : ℕ) (tenantId : Option String)
    (events : List SyncEvent) (snapshotId : String) :
    Except PyError (SyncState × SyncSnapshotPage) := do
  require (remoteId ≠ "") (valueError "remote_id must be non-empty")
  require (consumerId ≠ "") (valueError "consumer_id must be non-empty")
  require (requestId ≠ "") (valueError "request_id must be non-empty")
  require (1 ≤ limit) (valueError "limit must be >= 1")
  let (s, row) ← (s.cleanupExpiredSnapshots now).openSnapshot cfg now remoteId consumerId requestId
    tenantId events snapshotId
  return (s, snapshotPage row.snapshotId row.resumeSeq (s.snapshotEvents row.snapshotId) limit)

/-- A change outside the stream, the targets, the deliveries and the positions of consumers. -/
structure Aside (s s' : SyncState) : Prop where
  quiet : Quiet s s'
  deliveries : s'.deliveries = s.deliveries
  cursors : s'.cursors = s.cursors

theorem admitSnapshot_aside {s s' : SyncState} {cfg : SyncConfig} {now : Instant}
    {remoteId consumerId requestId snapshotId : String} {tenantId : Option String}
    {events : List SyncEvent} {row : SnapshotRow}
    (h : s.admitSnapshot cfg now remoteId consumerId requestId tenantId events snapshotId =
      .ok (s', row)) : Aside s s' := by
  obtain ⟨-, -, h⟩ := Except.bind_ok.mp h
  obtain ⟨-, -, h⟩ := Except.bind_ok.mp h
  obtain ⟨s₁, hbind, h⟩ := Except.bind_ok.mp h
  obtain ⟨-, -, heq⟩ := Except.bind_ok.mp h
  cases Except.ok.inj heq
  cases tenantId with
  | none =>
    cases Except.ok.inj hbind
    exact ⟨⟨rfl, rfl, rfl, rfl, rfl⟩, rfl, rfl⟩
  | some tenantId =>
    obtain ⟨rfl, -⟩ := bindTenant_ok hbind
    exact ⟨⟨rfl, rfl, rfl, rfl, rfl⟩, rfl, rfl⟩

/-- A snapshot leaves the stream, the deliveries and the consumers alone. -/
theorem createSnapshot_aside {s s' : SyncState} {cfg : SyncConfig} {now : Instant}
    {remoteId consumerId requestId snapshotId : String} {limit : ℕ} {tenantId : Option String}
    {events : List SyncEvent} {p : SyncSnapshotPage}
    (h : s.createSnapshot cfg now remoteId consumerId requestId limit tenantId events snapshotId =
      .ok (s', p)) : Aside s s' := by
  obtain ⟨-, -, h⟩ := Except.bind_ok.mp h
  obtain ⟨-, -, h⟩ := Except.bind_ok.mp h
  obtain ⟨-, -, h⟩ := Except.bind_ok.mp h
  obtain ⟨-, -, h⟩ := Except.bind_ok.mp h
  obtain ⟨⟨s₁, row⟩, hopen, heq⟩ := Except.bind_ok.mp h
  cases Except.ok.inj heq
  have hclean : Aside s (s.cleanupExpiredSnapshots now) := ⟨⟨rfl, rfl, rfl, rfl, rfl⟩, rfl, rfl⟩
  unfold openSnapshot at hopen
  split at hopen
  · cases Except.ok.inj hopen
    exact hclean
  · have hrest := admitSnapshot_aside hopen
    exact ⟨hclean.quiet.trans hrest.quiet, hrest.deliveries.trans hclean.deliveries,
      hrest.cursors.trans hclean.cursors⟩

end SyncState

/-! ## Operations -/

/-- An operation that changes the state of a repository. A page of a snapshot changes it by
dropping the snapshots that have expired. -/
inductive RepoOp where
  | base (op : SyncOp)
  | createSnapshot (now : Instant) (remoteId consumerId requestId : String) (limit : ℕ)
      (tenantId : Option String) (events : List SyncEvent) (snapshotId : String)
  | readSnapshot (now : Instant)

/-- Events that come into a store. -/
inductive Arrival where
  | capture (business : BusinessState) (event : SyncEvent)
  | deliver (d : Delivery)

/-- The operation of an arrival. -/
def Arrival.op : Arrival → RepoOp
  | .capture business event => .base (.capture business event)
  | .deliver d => .base (.deliver d)

section Run

variable (cfg : SyncConfig) (env : Env) (sha256 : ByteArray → String)

/-- What an operation does, or the error that it raises. -/
def RepoOp.apply (s : LiteStore) : RepoOp → Except PyError LiteStore
  | .base op => op.apply cfg env sha256 s
  | .createSnapshot now remoteId consumerId requestId limit tenantId events snapshotId =>
    (s.sync.createSnapshot cfg now remoteId consumerId requestId limit tenantId events
      snapshotId).map fun r => { s with sync := r.1 }
  | .readSnapshot now => .ok { s with sync := s.sync.cleanupExpiredSnapshots now }

/-- One operation of a run: where it raises, the transaction leaves the store as it was. -/
def RepoOp.step (s : LiteStore) (op : RepoOp) : LiteStore :=
  match op.apply cfg env sha256 s with
  | .ok s' => s'
  | .error _ => s

/-- A run from a store. -/
def runRepo (s : LiteStore) (ops : List RepoOp) : LiteStore :=
  ops.foldl (RepoOp.step cfg env sha256) s

end Run

/-- What an operation can do to the stream. -/
inductive StreamStep (cfg : SyncConfig) (s s' : SyncState) : Prop where
  | appends (h : Appends s s')
  | register {now : Instant} {targetId : String} {bootstrap : SyncState.Bootstrap}
      (h : s.registerTarget cfg now targetId bootstrap = .ok s')
  | toggle {targetId : String} {enabled : Bool} (h : s.setTargetEnabled targetId enabled = .ok s')
  | compact {now : Instant} {limit n : ℕ} (h : s.compact cfg now limit = .ok (s', n))

/-- Every operation of a repository is one of the four. -/
theorem step_streamStep (cfg : SyncConfig) (env : Env) (sha256 : ByteArray → String)
    (s : LiteStore) (op : RepoOp) : StreamStep cfg s.sync (op.step cfg env sha256 s).sync := by
  unfold RepoOp.step
  split
  next s' happly =>
    cases op with
    | createSnapshot now remoteId consumerId requestId limit tenantId events snapshotId =>
      obtain ⟨⟨sync, p⟩, hrun, rfl⟩ := Except.map_ok happly
      exact .appends (SyncState.createSnapshot_aside hrun).quiet.appends
    | readSnapshot now =>
      cases Except.ok.inj happly
      exact .appends (Quiet.appends ⟨rfl, rfl, rfl, rfl, rfl⟩)
    | base op =>
      cases op with
      | capture business event =>
        obtain ⟨sync, hrun, rfl⟩ := Except.map_ok happly
        exact .appends (captureLocalEvent_arrives hrun).appends
      | deliver d => exact .appends (deliver_arrives happly).appends
      | registerTarget now targetId bootstrap =>
        obtain ⟨sync, hrun, rfl⟩ := Except.map_ok happly
        exact .register hrun
      | setTargetEnabled targetId enabled =>
        obtain ⟨sync, hrun, rfl⟩ := Except.map_ok happly
        exact .toggle hrun
      | claim now leaseId targetId limit leaseSeconds =>
        obtain ⟨⟨sync, handed⟩, hrun, rfl⟩ := Except.map_ok happly
        exact .appends (claim_quiet hrun).appends
      | ackBatch now deliveries receipts =>
        obtain ⟨sync, hrun, rfl⟩ := Except.map_ok happly
        exact .appends (ackBatch_quiet hrun).appends
      | fail clock delivery errorCode now =>
        obtain ⟨sync, hrun, rfl⟩ := Except.map_ok happly
        exact .appends (endLease_quiet (failed_key cfg errorCode now) hrun).appends
      | deadLetter clock delivery errorCode now =>
        obtain ⟨sync, hrun, rfl⟩ := Except.map_ok happly
        exact .appends
          (endLease_quiet (f := SyncState.deadLettered errorCode now) (fun _ => rfl) hrun).appends
      | replayDeadLetter now targetId eventId =>
        obtain ⟨⟨sync, found⟩, hrun, rfl⟩ := Except.map_ok happly
        exact .appends (replayDeadLetter_quiet hrun).appends
      | page now remoteId consumerId cursor limit =>
        obtain ⟨⟨sync, p⟩, hrun, rfl⟩ := Except.map_ok happly
        exact .appends (page_quiet hrun).appends
      | compact now limit =>
        obtain ⟨⟨sync, n⟩, hrun, rfl⟩ := Except.map_ok happly
        exact .compact hrun
  · exact .appends .refl

end Memplex
