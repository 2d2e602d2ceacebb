import Memplex.Sync.Receive

/-!
# Targets, deliveries and compaction

The operations of a repository beside the arrival of events. A target is registered for the future
of the stream or for what is retained of it, and can be switched off and on. Its deliveries are
claimed under a lease, acknowledged, failed, given up and replayed; a consumer can also pull pages,
which acknowledges what lies before its cursor. Compaction drops the front of the stream that every
enabled target has received and nothing pins.

None of them makes a delivery row for an event that is in the stream already, except the
registration of a target.
-/

namespace Memplex

open Lib

/-- A second, in the unit of instants. -/
def second : Instant := 1000000

/-- What a claim hands out. -/
structure SyncDelivery where
  targetId : String
  event : SyncEvent
  attempt : ℕ
  leaseId : String
  leaseExpiresAt : Instant
deriving DecidableEq

/-- The part of a signed cursor that a page of the stream is asked for with. -/
structure SyncCursorClaims where
  tenantBinding : String
  remoteBinding : String
  consumerBinding : String
  afterSeq : ℕ
  snapshotSeq : ℕ
  snapshotId : Option String
  expiresAt : Instant
  /-- The constructor's check. -/
  ordered : afterSeq ≤ snapshotSeq
deriving DecidableEq

namespace SyncState

/-- `_outbox_by_seq`, at one stream sequence. -/
def outboxEvent (s : SyncState) (streamSeq : ℕ) : Option SyncEvent :=
  (s.outbox.find? fun r => r.streamSeq = streamSeq).map OutboxRow.event

/-! ## Targets -/

/-- Where the deliveries of a new target begin. -/
inductive Bootstrap where
  | future
  | retained
deriving DecidableEq

/-- The position that a new target begins after, or at. -/
def bootstrapSeq (s : SyncState) : Bootstrap → ℕ
  | .future => s.nextStreamSeq - 1
  | .retained => s.retentionFloor

/-- The events that a new target is offered. -/
def retainedFor (s : SyncState) (targetId : String) (bootstrap : Bootstrap) (bootstrapSeq : ℕ) :
    List OutboxRow :=
  s.outbox.filter fun r => bootstrap = .retained ∧ bootstrapSeq ≤ r.streamSeq ∧
    r.event.originNodeId ≠ targetId

/-- `sync_register_target`. -/
def registerTarget (s : SyncState) (cfg : SyncConfig) (now : Instant) (targetId : String)
    (bootstrap : Bootstrap) : Except PyError SyncState := do
  require (targetId ≠ "") (valueError "target_id must be non-empty")
  require (targetId ≠ cfg.localNodeId) (valueError "target_id must not target this node")
  match s.targets.get? targetId with
  | some _ => return s
  | none =>
    let bootstrapSeq := s.bootstrapSeq bootstrap
    let retained := s.retainedFor targetId bootstrap bootstrapSeq
    s.assertQuota cfg retained.length
    return { s with
      targets := s.targets.set ⟨targetId, targetId, bootstrapSeq, true⟩
      deliveries := s.deliveries ++ retained.map fun r => .fresh targetId r.streamSeq now }

/-- `sync_set_target_enabled`. -/
def setTargetEnabled (s : SyncState) (targetId : String) (enabled : Bool) :
    Except PyError SyncState := do
  require (targetId ≠ "") (valueError "target_id must be non-empty")
  match s.targets.get? targetId with
  | none => .error (valueError "target not found")
  | some target => return { s with targets := s.targets.set { target with enabled := enabled } }

/-! ## Leases -/

/-- A delivery whose lease has run out goes back to the queue, or is given up. -/
def expireLease (cfg : SyncConfig) (targetId : String) (now : Instant) (d : DeliveryRow) :
    DeliveryRow :=
  if d.targetId = targetId ∧ d.state = .leased ∧ (∃ t ∈ d.leaseUntil, t ≤ now) then
    { d with
      state := if cfg.maxAttempts ≤ d.attemptCount then .deadLetter else .pending
      leaseOwner := none
      leaseUntil := none
      lastErrorCode := if cfg.maxAttempts ≤ d.attemptCount then some "lease_expired" else none }
  else d

/-- Whether a delivery can be claimed: it is due, and its event comes from this node. -/
def claimable (s : SyncState) (cfg : SyncConfig) (targetId : String) (now : Instant)
    (d : DeliveryRow) : Bool :=
  d.targetId = targetId ∧ d.state = .pending ∧ d.attemptCount < cfg.maxAttempts ∧
    d.nextAttemptAt ≤ now ∧
    (s.outboxEvent d.streamSeq).map SyncEvent.originNodeId = some cfg.localNodeId

/-- The deliveries that a claim takes, in the order of the stream. -/
def claimed (s : SyncState) (cfg : SyncConfig) (targetId : String) (limit : ℕ) (now : Instant) :
    List DeliveryRow :=
  ((s.deliveries.filter (s.claimable cfg targetId now)).mergeSort
    fun a b => a.streamSeq ≤ b.streamSeq).take limit

/-- A delivery under the lease of a claim, if the claim takes it: the lease ids of a claim are given
out in its order. -/
def lease (taken : List DeliveryRow) (leaseId : ℕ → String) (leaseUntil : Instant)
    (d : DeliveryRow) : DeliveryRow :=
  match taken.findIdx? fun x => x.key = d.key with
  | none => d
  | some i => { d with
      state := .leased
      attemptCount := d.attemptCount + 1
      leaseOwner := some (leaseId i)
      leaseUntil := some leaseUntil
      lastErrorCode := none }

/-- `sync_claim`. -/
def claim (s : SyncState) (cfg : SyncConfig) (now : Instant) (leaseId : ℕ → String)
    (targetId : String) (limit leaseSeconds : ℕ) : Except PyError (SyncState × List SyncDelivery) := do
  require (targetId ≠ "") (valueError "target_id must be non-empty")
  require (1 ≤ limit) (valueError "limit must be >= 1")
  require (1 ≤ leaseSeconds) (valueError "lease_seconds must be >= 1")
  match s.targets.get? targetId with
  | none => return (s, [])
  | some target =>
    if target.enabled then
      let s := { s with deliveries := s.deliveries.map (expireLease cfg targetId now) }
      let taken := s.claimed cfg targetId limit now
      let leaseUntil := now + leaseSeconds * second
      let handed := taken.zipIdx.filterMap fun (d, i) => (s.outboxEvent d.streamSeq).map fun event =>
        ⟨targetId, event, d.attemptCount + 1, leaseId i, leaseUntil⟩
      return ({ s with deliveries := s.deliveries.map (lease taken leaseId leaseUntil) }, handed)
    else return (s, [])

/-- Whether a row is the one of a delivery that was handed out. -/
def isRowOf (s : SyncState) (delivery : SyncDelivery) (d : DeliveryRow) : Bool :=
  d.targetId = delivery.targetId ∧
    (s.outboxEvent d.streamSeq).map SyncEvent.eventId = some delivery.event.eventId

/-- `_delivery_row`. -/
def deliveryRow (s : SyncState) (delivery : SyncDelivery) : Option DeliveryRow :=
  s.deliveries.find? (s.isRowOf delivery)

/-- `_require_active_lease`. -/
def requireActiveLease (now : Instant) (d : DeliveryRow) (delivery : SyncDelivery) :
    Except PyError Unit := do
  require (d.state = .leased ∧ d.leaseOwner = some delivery.leaseId)
    ⟨.syncDeliveryBusy, "delivery lease is no longer active"⟩
  require (∃ t ∈ d.leaseUntil, now < t) ⟨.syncDeliveryBusy, "delivery lease is no longer active"⟩

/-- The deliveries with one row changed. -/
def updateDelivery (s : SyncState) (key : String × ℕ) (f : DeliveryRow → DeliveryRow) : SyncState :=
  { s with deliveries := s.deliveries.map fun d => if d.key = key then f d else d }

/-- A delivery that has arrived. -/
def delivered (d : DeliveryRow) : DeliveryRow :=
  { d with state := .delivered, leaseOwner := none, leaseUntil := none, lastErrorCode := none }

/-- The check of one acknowledged delivery. -/
def checkAck (s : SyncState) (now : Instant) (delivery : SyncDelivery) : Except PyError Unit :=
  match s.deliveryRow delivery with
  | none => .ok ()
  | some d => if d.state = .delivered then .ok () else requireActiveLease now d delivery

/-- The row of one acknowledged delivery. -/
def ackRow (s : SyncState) (delivery : SyncDelivery) : SyncState :=
  match s.deliveryRow delivery with
  | none => s
  | some d => if d.state = .delivered then s else s.updateDelivery d.key delivered

/-- `sync_ack_batch`. -/
def ackBatch (s : SyncState) (now : Instant) (deliveries : List SyncDelivery)
    (receipts : List SyncReceipt) : Except PyError SyncState := do
  require (deliveries.length = receipts.length)
    (valueError "delivery and receipt cardinality mismatch")
  require ((receipts.map SyncReceipt.eventId).Nodup ∧
    (∀ d ∈ deliveries, d.event.eventId ∈ receipts.map SyncReceipt.eventId) ∧
    ∀ r ∈ receipts, r.eventId ∈ deliveries.map fun d => d.event.eventId)
    (valueError "delivery and receipt identity mismatch")
  deliveries.forM (s.checkAck now)
  return deliveries.foldl ackRow s

/-- What a failure makes of a delivery: it is retried later, or given up. -/
def failed (cfg : SyncConfig) (errorCode : String) (now : Instant) (d : DeliveryRow) : DeliveryRow :=
  if cfg.maxAttempts ≤ d.attemptCount then
    { d with
      state := .deadLetter
      leaseOwner := none
      leaseUntil := none
      nextAttemptAt := now
      lastErrorCode := some errorCode }
  else
    { d with
      state := .pending
      leaseOwner := none
      leaseUntil := none
      nextAttemptAt := now + (min 60 (2 ^ (d.attemptCount - 1)) : ℕ) * second
      lastErrorCode := some errorCode }

/-- A delivery that is given up. -/
def deadLettered (errorCode : String) (now : Instant) (d : DeliveryRow) : DeliveryRow :=
  { d with
    state := .deadLetter
    leaseOwner := none
    leaseUntil := none
    nextAttemptAt := now
    lastErrorCode := some errorCode }

/-- The common body of `sync_fail` and `sync_dead_letter`: `clock` is the reading that the lease is
checked at, and `f` what becomes of the row. -/
def endLease (s : SyncState) (clock : Instant) (delivery : SyncDelivery) (errorCode : String)
    (f : DeliveryRow → DeliveryRow) : Except PyError SyncState := do
  require (errorCode ≠ "") (valueError "error_code must be non-empty")
  match s.deliveryRow delivery with
  | none => return s
  | some d =>
    requireActiveLease clock d delivery
    return s.updateDelivery d.key f

/-- `sync_fail`. -/
def fail (s : SyncState) (cfg : SyncConfig) (clock : Instant) (delivery : SyncDelivery)
    (errorCode : String) (now : Instant) : Except PyError SyncState :=
  s.endLease clock delivery errorCode (failed cfg errorCode now)

/-- `sync_dead_letter`. -/
def deadLetter (s : SyncState) (clock : Instant) (delivery : SyncDelivery) (errorCode : String)
    (now : Instant) : Except PyError SyncState :=
  s.endLease clock delivery errorCode (deadLettered errorCode now)

/-- A delivery that is tried again from the start. -/
def replayed (now : Instant) (d : DeliveryRow) : DeliveryRow :=
  { d with
    state := .pending
    attemptCount := 0
    leaseOwner := none
    leaseUntil := none
    nextAttemptAt := now
    lastErrorCode := none }

/-- `sync_replay_dead_letter`. -/
def replayDeadLetter (s : SyncState) (now : Instant) (targetId eventId : String) :
    Except PyError (SyncState × Bool) := do
  require (targetId ≠ "") (valueError "target_id must be non-empty")
  require (eventId ≠ "") (valueError "event_id must be non-empty")
  match s.deliveries.find? fun d => d.targetId = targetId ∧ d.state = .deadLetter ∧
      (s.outboxEvent d.streamSeq).map SyncEvent.eventId = some eventId with
  | none => return (s, false)
  | some d => return (s.updateDelivery d.key (replayed now), true)

/-! ## Pages of the stream -/

/-- The confirmed position of a consumer of the stream. -/
def served (s : SyncState) (remoteId consumerId : String) : ℕ :=
  match findRow CursorRow.key (remoteId, consumerId) s.cursors with
  | none => 0
  | some row => row.afterSeq

theorem served_eq (s : SyncState) (remoteId consumerId : String) :
    s.served remoteId consumerId =
      ((findRow CursorRow.key (remoteId, consumerId) s.cursors).map CursorRow.afterSeq).getD 0 := by
  unfold served
  cases findRow CursorRow.key (remoteId, consumerId) s.cursors with
  | none => rfl
  | some row => rfl

/-- The sequence up to which a page without a cursor, or after the end of a page, reads. -/
def streamEnd (s : SyncState) (after : ℕ) : ℕ := ((s.outbox.map OutboxRow.streamSeq).max?).getD after

/-- Whether a delivery is acknowledged by a cursor of its target that has passed it. -/
def passedBy (s : SyncState) (remoteId : String) (after : ℕ) (d : DeliveryRow) : Bool :=
  d.targetId = remoteId ∧ (d.state = .pending ∨ d.state = .leased) ∧ d.streamSeq ≤ after ∧
    ∃ e ∈ s.outboxEvent d.streamSeq, e.originNodeId ≠ remoteId

/-- The state with the deliveries before a cursor acknowledged. -/
def acknowledge (s : SyncState) (remoteId : String) (after : ℕ) : SyncState :=
  { s with deliveries := s.deliveries.map fun d =>
      if s.passedBy remoteId after d then delivered d else d }

/-- The state with a consumer's position recorded. -/
def recordCursor (s : SyncState) (now : Instant) (remoteId consumerId : String) (after : ℕ) :
    SyncState :=
  let row : CursorRow := ⟨remoteId, consumerId, max (s.served remoteId consumerId) after, now⟩
  { s with cursors := upsertRow CursorRow.key row s.cursors }

/-- The rows of the stream that a consumer is served after a position. -/
def pageRows (s : SyncState) (remoteId : String) (after snapshot : ℕ) : List OutboxRow :=
  s.outbox.filter fun r => after < r.streamSeq ∧ r.streamSeq ≤ snapshot ∧
    r.event.originNodeId ≠ remoteId

/-- The page of some rows. -/
def pageOf (rows : List OutboxRow) (snapshot limit : ℕ) : Except PyError SyncPage :=
  let selected := rows.take limit
  let hasMore : Bool := limit < rows.length
  let last := (selected.getLast?.map OutboxRow.streamSeq).getD snapshot
  SyncPage.create (selected.map fun r => ⟨r.streamSeq, r.event⟩) snapshot
    (if hasMore then last else snapshot) hasMore

/-- `sync_page`. -/
def page (s : SyncState) (now : Instant) (remoteId consumerId : String)
    (cursor : Option SyncCursorClaims) (limit : ℕ) : Except PyError (SyncState × SyncPage) := do
  require (remoteId ≠ "") (valueError "remote_id must be non-empty")
  require (consumerId ≠ "") (valueError "consumer_id must be non-empty")
  require (1 ≤ limit) (valueError "limit must be >= 1")
  let after := match cursor with
    | none => s.served remoteId consumerId
    | some c => c.afterSeq
  require (s.retentionFloor ≤ after) ⟨.syncCursorExpired, "cursor_expired"⟩
  let snapshot := match cursor with
    | none => s.streamEnd after
    | some c => if c.afterSeq = c.snapshotSeq then s.streamEnd after else c.snapshotSeq
  require (∀ c ∈ cursor, some c.tenantBinding = s.tenantBinding ∧ c.remoteBinding = remoteId ∧
    c.consumerBinding = consumerId ∧ c.snapshotId = none ∧ now < c.expiresAt)
    ⟨.syncCursorExpired, "invalid_cursor"⟩
  let s := if cursor.isSome then s.acknowledge remoteId after else s
  let s := s.recordCursor now remoteId consumerId after
  let p ← pageOf (s.pageRows remoteId after snapshot) snapshot limit
  return (s, p)

/-! ## Compaction -/

/-- `_cleanup_expired_snapshots`. -/
def cleanupExpiredSnapshots (s : SyncState) (now : Instant) : SyncState :=
  let expired := (s.snapshots.filter fun x => x.expiresAt ≤ now).map SnapshotRow.snapshotId
  { s with
    snapshots := s.snapshots.filter fun x => x.snapshotId ∉ expired
    snapshotItems := s.snapshotItems.filter fun x => x.snapshotId ∉ expired }

/-- The state without the cursors of consumers that have been silent for too long. -/
def forgetConsumers (s : SyncState) (cfg : SyncConfig) (now : Instant) : SyncState :=
  let cutoff := now - cfg.consumerTtlSeconds * second
  { s with
    cursors := s.cursors.filter fun c => cutoff < c.updatedAt
    inboundCursors := s.inboundCursors.filter fun c => cutoff < c.updatedAt }

/-- The last sequence that nothing pins. -/
def unpinned (s : SyncState) : ℕ :=
  ((s.cursors.map CursorRow.afterSeq ++ s.snapshots.map SnapshotRow.resumeSeq).min?).getD
    (s.nextStreamSeq - 1)

/-- Whether every enabled target has received an event that lies after its bootstrap. -/
def settled (s : SyncState) (r : OutboxRow) : Bool :=
  s.targets.rows.all fun t => !t.enabled || decide (r.streamSeq ≤ t.bootstrapSeq) ||
    s.deliveries.any fun d => d.key = (t.targetId, r.streamSeq) ∧ d.state = .delivered

/-- The sequences that a compaction drops: the front of the stream above the retention floor, as far
as it is unpinned, old enough and settled. -/
def compactable (s : SyncState) (cfg : SyncConfig) (now : Instant) (limit : ℕ) : List ℕ :=
  (((s.outbox.filter fun r => s.retentionFloor < r.streamSeq).takeWhile fun r =>
    r.streamSeq ≤ s.unpinned ∧ r.createdAt ≤ now - cfg.retentionMinSeconds * second ∧
      s.settled r).take limit).map OutboxRow.streamSeq

/-- The state without the events of some sequences. -/
def dropEvents (s : SyncState) (selected : List ℕ) : SyncState :=
  match selected.getLast? with
  | none => s
  | some through =>
    { s with
      outbox := s.outbox.filter fun r => r.streamSeq ∉ selected
      deliveries := s.deliveries.filter fun d => d.streamSeq ∉ selected
      retentionFloor := through
      compactedThrough := through }

/-- `sync_compact`. -/
def compact (s : SyncState) (cfg : SyncConfig) (now : Instant) (limit : ℕ) :
    Except PyError (SyncState × ℕ) := do
  require (1 ≤ limit) (valueError "limit must be >= 1")
  let s := (s.cleanupExpiredSnapshots now).forgetConsumers cfg now
  let selected := s.compactable cfg now limit
  return (s.dropEvents selected, selected.length)

end SyncState

end Memplex
