import Memplex.Sync.Receive

/-!
# The validator of the sync state

`_validate_sync_state` is what a commit and a load ask of the `sync` subtree. What the types of the
model carry already, it need not ask again: that fields have their types, that identifiers of events
and versions are canonical, that an event round-trips, that instants are written in one form. The
rest of each item validator is a check of one item, and that no item before it clashes with it.

`SyncState.Valid` says the same as a property of the state, and `validateSyncState_ok` that the two
agree.
-/

namespace Memplex

open Lib

/-- A refusal by the durability layer. -/
def invalidLite (what : String) : PyError := ⟨.liteStorageIntegrityError, "invalid Lite " ++ what⟩

/-- `_require_str`, of the durability layer. -/
def requireLiteStr (value label : String) : Except PyError Unit :=
  require (value ≠ "") (invalidLite label)

/-- `_require_uuid`, of the durability layer. -/
def requireLiteUuid (value label : String) : Except PyError Unit :=
  require (CanonicalUuid value) (invalidLite label)

/-- A SHA-256 digest: 64 lower-case hexadecimal digits. -/
def Digest (s : String) : Prop := s.length = 64 ∧ ∀ c ∈ s.toList, isLowerHex c = true

instance (s : String) : Decidable (Digest s) := by unfold Digest; infer_instance

/-! ## The loop of an item validator -/

section Items

variable {α : Type} (check : α → Except PyError Unit) (clash : α → α → Bool) (duplicate : PyError)

/-- The loop of an item validator: the check of each item, and that none that was seen clashes with
it. -/
def validateItems : List α → List α → Except PyError Unit
  | _, [] => .ok ()
  | seen, item :: items => do
    check item
    require (∀ x ∈ seen, clash x item = false) duplicate
    validateItems (item :: seen) items

variable {check clash duplicate}

theorem validateItems_ok {items seen : List α} {u : Unit} :
    validateItems check clash duplicate seen items = .ok u ↔ (∀ x ∈ items, check x = .ok ()) ∧
      items.Pairwise (fun x y => clash x y = false) ∧
      ∀ x ∈ seen, ∀ y ∈ items, clash x y = false := by
  induction items generalizing seen with
  | nil => simp [validateItems]
  | cons item items ih =>
    simp only [validateItems, Except.bind_ok, require_ok, ih, List.forall_mem_cons,
      List.pairwise_cons]
    constructor
    · rintro ⟨_, hcheck, _, hnew, hall, hpair, hitem, hseen⟩
      exact ⟨⟨hcheck, hall⟩, ⟨hitem, hpair⟩, fun x hx => ⟨hnew x hx, hseen x hx⟩⟩
    · rintro ⟨⟨hcheck, hall⟩, ⟨hitem, hpair⟩, hseen⟩
      exact ⟨(), hcheck, (), fun x hx => (hseen x hx).1, hall, hpair, hitem,
        fun x hx => (hseen x hx).2⟩

end Items

/-- Items clash that have one key. -/
def sameKey {α κ : Type} [DecidableEq κ] (key : α → κ) (x y : α) : Bool := key x = key y

theorem pairwise_sameKey {α κ : Type} [DecidableEq κ] {key : α → κ} {items : List α} :
    items.Pairwise (fun x y => sameKey key x y = false) ↔ (items.map key).Nodup := by
  rw [List.Nodup, List.pairwise_map]
  simp only [sameKey, decide_eq_false_iff_not, ne_eq]

/-! ## The item validators -/

namespace SyncState

/-- `_validate_sync_outbox_items`: the rows in the order of the stream, of the tenant that is bound,
each with an event and a sequence of its own. -/
def validateOutboxItems (tenantBinding : Option String) :
    ℕ → List OutboxRow → List OutboxRow → Except PyError Unit
  | _, _, [] => .ok ()
  | previous, seen, row :: rows => do
    require (1 ≤ row.streamSeq ∧ previous < row.streamSeq) (invalidLite "outbox item")
    require (tenantBinding = some row.event.scope.tenantId) (invalidLite "outbox tenant binding")
    require (∀ x ∈ seen, x.event.eventId ≠ row.event.eventId ∧ x.streamSeq ≠ row.streamSeq)
      (invalidLite "outbox duplicates")
    validateOutboxItems tenantBinding row.streamSeq (row :: seen) rows

/-- The check of one item of `entity_versions`. -/
def checkVersion (row : VersionRow) : Except PyError Unit := do
  require (row.entity.1 = .edge ↔ row.entity.2.isEdge = true)
    (invalidLite "entity version entity_key")
  requireLiteUuid row.eventId "entity version event_id"
  require (row.version.eventId = row.eventId) (invalidLite "entity version version_key")
  require (1 ≤ row.lastStreamSeq) (invalidLite "entity version last_stream_seq")

/-- `_validate_sync_entity_versions_items`. -/
def validateEntityVersions (rows : List VersionRow) : Except PyError Unit :=
  validateItems checkVersion (sameKey VersionRow.entity) (invalidLite "entity version duplicates") []
    rows

/-- The check of one target. -/
def checkTarget (nextStreamSeq : ℕ) (row : TargetRow) : Except PyError Unit := do
  requireLiteStr row.targetId "target target_id"
  requireLiteStr row.remoteNodeId "target remote_node_id"
  require (row.bootstrapSeq < nextStreamSeq) (invalidLite "sync target bootstrap_seq")

/-- `_validate_sync_targets_items`. -/
def validateTargets (nextStreamSeq : ℕ) (rows : List TargetRow) : Except PyError Unit :=
  validateItems (checkTarget nextStreamSeq) (sameKey TargetRow.targetId)
    (invalidLite "sync target duplicates") [] rows

/-- The check of one delivery: it is one of a known target and of an event of the outbox, and has a
lease exactly when it is leased. -/
def checkDelivery (targetIds : List String) (sequences : List ℕ) (row : DeliveryRow) :
    Except PyError Unit := do
  requireLiteStr row.targetId "delivery target_id"
  require (row.targetId ∈ targetIds) (invalidLite "delivery target")
  require (1 ≤ row.streamSeq ∧ row.streamSeq ∈ sequences) (invalidLite "delivery stream_seq")
  if row.state = .leased then
    require (row.leaseOwner ≠ none ∧ row.leaseUntil ≠ none) (invalidLite "leased delivery")
  else require (row.leaseOwner = none ∧ row.leaseUntil = none) (invalidLite "delivery lease state")

/-- `_validate_sync_deliveries_items`. -/
def validateDeliveries (targetIds : List String) (sequences : List ℕ) (rows : List DeliveryRow) :
    Except PyError Unit :=
  validateItems (checkDelivery targetIds sequences) (sameKey DeliveryRow.key)
    (invalidLite "delivery duplicates") [] rows

/-- The check of one item of the inbox. -/
def checkInbox (row : InboxRow) : Except PyError Unit := do
  requireLiteStr row.originNodeId "inbox origin_node_id"
  requireLiteUuid row.eventId "inbox event_id"

/-- `_validate_sync_inbox_items`. -/
def validateInbox (rows : List InboxRow) : Except PyError Unit :=
  validateItems checkInbox (sameKey InboxRow.identity) (invalidLite "inbox duplicates") [] rows

/-- `_require_canonical_batch_result`. -/
def requireCanonicalBatchResult (response : SyncBatchResult) (batchId : String) :
    Except PyError Unit := do
  requireLiteUuid response.batchId "batch response batch_id"
  require (response.batchId = batchId) (invalidLite "batch response batch_id")
  requireLiteStr response.requestDigest "batch response request_digest"
  require (Digest response.requestDigest) (invalidLite "batch response request_digest")
  response.receipts.forM fun receipt =>
    requireLiteUuid receipt.eventId "batch response receipt event_id"

/-- The check of one batch. -/
def checkBatch (row : BatchRow) : Except PyError Unit := do
  requireLiteUuid row.batchId "batch batch_id"
  require (Digest row.requestSha256) (invalidLite "batch request_sha256")
  requireCanonicalBatchResult row.response row.batchId
  require (row.response.requestDigest = row.requestSha256) (invalidLite "batch response digest")

/-- `_validate_sync_batches_items`. -/
def validateBatches (rows : List BatchRow) : Except PyError Unit :=
  validateItems checkBatch (sameKey BatchRow.batchId) (invalidLite "batch duplicates") [] rows

/-- The check of one outbound cursor: it is within the stream that is retained. -/
def checkCursor (retentionFloor nextStreamSeq : ℕ) (row : CursorRow) : Except PyError Unit := do
  requireLiteStr row.remoteId "cursor remote_id"
  requireLiteStr row.consumerId "cursor consumer_id"
  require (retentionFloor ≤ row.afterSeq ∧ row.afterSeq < nextStreamSeq)
    (invalidLite "cursor after_seq")

/-- `_validate_sync_cursors_items`. -/
def validateCursors (retentionFloor nextStreamSeq : ℕ) (rows : List CursorRow) :
    Except PyError Unit :=
  validateItems (checkCursor retentionFloor nextStreamSeq) (sameKey CursorRow.key)
    (invalidLite "cursor duplicates") [] rows

/-- The check of one inbound cursor: its position is one in the stream of a peer. -/
def checkInboundCursor (row : CursorRow) : Except PyError Unit := do
  requireLiteStr row.remoteId "inbound cursor remote_id"
  requireLiteStr row.consumerId "inbound cursor consumer_id"

/-- `_validate_sync_inbound_cursors_items`. -/
def validateInboundCursors (rows : List CursorRow) : Except PyError Unit :=
  validateItems checkInboundCursor (sameKey CursorRow.key) (invalidLite "inbound cursor duplicates")
    [] rows

/-- The request that a snapshot answers. -/
def requestKey (row : SnapshotRow) : String × String × String :=
  (row.remoteId, row.consumerId, row.requestId)

/-- The check of one snapshot. -/
def checkSnapshot (retentionFloor nextStreamSeq : ℕ) (row : SnapshotRow) : Except PyError Unit := do
  requireLiteUuid row.snapshotId "snapshot snapshot_id"
  requireLiteStr row.remoteId "snapshot remote_id"
  requireLiteStr row.consumerId "snapshot consumer_id"
  requireLiteStr row.requestId "snapshot request_id"
  require (retentionFloor ≤ row.resumeSeq ∧ row.resumeSeq < nextStreamSeq)
    (invalidLite "snapshot resume_seq")

/-- `_validate_sync_snapshots_items`: snapshots clash that have one id or answer one request. -/
def validateSnapshots (retentionFloor nextStreamSeq : ℕ) (rows : List SnapshotRow) :
    Except PyError Unit :=
  validateItems (checkSnapshot retentionFloor nextStreamSeq)
    (fun x y => sameKey SnapshotRow.snapshotId x y || sameKey requestKey x y)
    (invalidLite "snapshot duplicates") [] rows

/-- The check of one item of a snapshot. -/
def checkSnapshotItem (tenantBinding : Option String) (snapshotIds : List String)
    (item : SnapshotItem) : Except PyError Unit := do
  requireLiteUuid item.snapshotId "snapshot item snapshot_id"
  require (item.snapshotId ∈ snapshotIds) (invalidLite "snapshot item snapshot_id")
  require (tenantBinding = some item.event.scope.tenantId)
    (invalidLite "snapshot item tenant binding")

/-- The identity of an item of a snapshot. -/
def itemKey (item : SnapshotItem) : String × Entity := (item.snapshotId, item.event.entity)

/-- `_validate_sync_snapshot_items_items`. -/
def validateSnapshotItems (tenantBinding : Option String) (snapshotIds : List String)
    (items : List SnapshotItem) : Except PyError Unit :=
  validateItems (checkSnapshotItem tenantBinding snapshotIds) (sameKey itemKey)
    (invalidLite "snapshot item duplicates") [] items

/-- `_validate_sync_state`. -/
def validate (s : SyncState) (label : String) : Except PyError Unit := do
  require (s.tenantBinding ≠ some "") (invalidLite (label ++ " tenant_binding"))
  require (1 ≤ s.nextStreamSeq) (invalidLite (label ++ " next_stream_seq"))
  require (s.compactedThrough = s.retentionFloor) (invalidLite (label ++ " compacted_through"))
  validateOutboxItems s.tenantBinding 0 [] s.outbox
  let sequences : List ℕ := s.outbox.map OutboxRow.streamSeq
  require (∀ q ∈ sequences, q < s.nextStreamSeq) (invalidLite "next_stream_seq")
  let expected := List.range' (s.retentionFloor + 1) (s.nextStreamSeq - (s.retentionFloor + 1))
  require ((∀ q ∈ sequences, q ∈ expected) ∧ ∀ q ∈ expected, q ∈ sequences)
    (invalidLite "outbox sequence continuity")
  validateEntityVersions s.entityVersions.rows
  validateTargets s.nextStreamSeq s.targets.rows
  validateDeliveries (s.targets.rows.map TargetRow.targetId) sequences s.deliveries
  validateInbox s.inbox
  validateBatches s.batches
  validateCursors s.retentionFloor s.nextStreamSeq s.cursors
  validateInboundCursors s.inboundCursors
  validateSnapshots s.retentionFloor s.nextStreamSeq s.snapshots
  validateSnapshotItems s.tenantBinding (s.snapshots.map SnapshotRow.snapshotId) s.snapshotItems

/-! ## What the validator accepts -/

/-- A version row that is accepted. -/
structure VersionOk (row : VersionRow) : Prop where
  kind : row.entity.1 = .edge ↔ row.entity.2.isEdge = true
  uuid : CanonicalUuid row.eventId
  event : row.version.eventId = row.eventId
  seq : 1 ≤ row.lastStreamSeq

/-- A target that is accepted. -/
structure TargetOk (nextStreamSeq : ℕ) (row : TargetRow) : Prop where
  id : row.targetId ≠ ""
  remote : row.remoteNodeId ≠ ""
  bootstrap : row.bootstrapSeq < nextStreamSeq

/-- A row has a lease exactly when it is leased. -/
def LeaseOk (row : DeliveryRow) : Prop :=
  if row.state = .leased then row.leaseOwner ≠ none ∧ row.leaseUntil ≠ none
  else row.leaseOwner = none ∧ row.leaseUntil = none

/-- A batch that is accepted. -/
structure BatchOk (row : BatchRow) : Prop where
  uuid : CanonicalUuid row.batchId
  digest : Digest row.requestSha256
  response : row.response.batchId = row.batchId
  responseDigest : row.response.requestDigest = row.requestSha256
  receipts : ∀ r ∈ row.response.receipts, CanonicalUuid r.eventId

/-- A cursor that names its two sides. -/
def CursorOk (row : CursorRow) : Prop := row.remoteId ≠ "" ∧ row.consumerId ≠ ""

/-- A snapshot that names its request. -/
structure SnapshotOk (row : SnapshotRow) : Prop where
  uuid : CanonicalUuid row.snapshotId
  remote : row.remoteId ≠ ""
  consumer : row.consumerId ≠ ""
  request : row.requestId ≠ ""

/-- A position within what is retained of a stream. -/
def Within (s : SyncState) (q : ℕ) : Prop := s.retentionFloor ≤ q ∧ q < s.nextStreamSeq

/-- What the validator asks of a state. -/
structure Valid (s : SyncState) : Prop where
  tenant : s.tenantBinding ≠ some ""
  next_pos : 1 ≤ s.nextStreamSeq
  compacted : s.compactedThrough = s.retentionFloor
  /-- The outbox has every sequence above the retention floor, in order. -/
  seqs : s.outbox.map OutboxRow.streamSeq =
    List.range' (s.retentionFloor + 1) (s.nextStreamSeq - (s.retentionFloor + 1))
  outbox_tenant : ∀ r ∈ s.outbox, s.tenantBinding = some r.event.scope.tenantId
  events : (s.outbox.map fun r => r.event.eventId).Nodup
  versions : ∀ r ∈ s.entityVersions.rows, VersionOk r
  targets : ∀ t ∈ s.targets.rows, TargetOk s.nextStreamSeq t
  delivery_target : ∀ d ∈ s.deliveries, d.targetId ∈ s.targets.rows.map TargetRow.targetId
  delivery_seq : ∀ d ∈ s.deliveries, d.streamSeq ∈ s.outbox.map OutboxRow.streamSeq
  leases : ∀ d ∈ s.deliveries, LeaseOk d
  delivery_keys : (s.deliveries.map DeliveryRow.key).Nodup
  inbox : ∀ r ∈ s.inbox, r.originNodeId ≠ "" ∧ CanonicalUuid r.eventId
  identities : (s.inbox.map InboxRow.identity).Nodup
  batches : ∀ b ∈ s.batches, BatchOk b
  batch_ids : (s.batches.map BatchRow.batchId).Nodup
  cursors : ∀ c ∈ s.cursors, CursorOk c ∧ s.Within c.afterSeq
  cursor_keys : (s.cursors.map CursorRow.key).Nodup
  inbound : ∀ c ∈ s.inboundCursors, CursorOk c
  inbound_keys : (s.inboundCursors.map CursorRow.key).Nodup
  snapshots : ∀ x ∈ s.snapshots, SnapshotOk x ∧ s.Within x.resumeSeq
  snapshot_ids : (s.snapshots.map SnapshotRow.snapshotId).Nodup
  requests : (s.snapshots.map requestKey).Nodup
  items : ∀ i ∈ s.snapshotItems, i.snapshotId ∈ s.snapshots.map SnapshotRow.snapshotId ∧
    s.tenantBinding = some i.event.scope.tenantId
  item_keys : (s.snapshotItems.map itemKey).Nodup

/-- Rows in ascending order of their sequences, each above the one before. -/
theorem validateOutboxItems_ok {tenantBinding : Option String} {rows : List OutboxRow} :
    ∀ {previous : ℕ} {seen : List OutboxRow} {u : Unit},
      validateOutboxItems tenantBinding previous seen rows = .ok u ↔
        (∀ r ∈ rows, tenantBinding = some r.event.scope.tenantId) ∧
        (rows.map OutboxRow.streamSeq).Pairwise (· < ·) ∧ (∀ r ∈ rows, previous < r.streamSeq) ∧
        (rows.map fun r => r.event.eventId).Nodup ∧
        ∀ x ∈ seen, ∀ r ∈ rows, x.event.eventId ≠ r.event.eventId ∧ x.streamSeq ≠ r.streamSeq := by
  induction rows with
  | nil => simp [validateOutboxItems]
  | cons row rows ih =>
    intro previous seen u
    simp only [validateOutboxItems, Except.bind_ok, require_ok, ih, List.forall_mem_cons,
      List.map_cons, List.pairwise_cons, List.nodup_cons, List.mem_map]
    constructor
    · rintro ⟨_, ⟨hpos, hlt⟩, _, htenant, _, hnew, htenants, hasc, habove, hids, hrow, hseen⟩
      refine ⟨⟨htenant, htenants⟩, ⟨?_, hasc⟩, ⟨hlt, fun r hr => hlt.trans (habove r hr)⟩,
        ⟨?_, hids⟩, fun x hx => ⟨hnew x hx, hseen x hx⟩⟩
      · rintro q ⟨r, hr, rfl⟩
        exact habove r hr
      · rintro ⟨r, hr, hid⟩
        exact (hrow r hr).1 hid.symm
    · rintro ⟨⟨htenant, htenants⟩, ⟨habove, hasc⟩, ⟨hlt, -⟩, ⟨hid, hids⟩, hseen⟩
      refine ⟨(), ⟨by omega, hlt⟩, (), htenant, (), fun x hx => (hseen x hx).1, htenants, hasc,
        fun r hr => habove _ ⟨r, hr, rfl⟩, hids, fun r hr => ⟨fun h => hid ⟨r, hr, h.symm⟩, ?_⟩,
        fun x hx => (hseen x hx).2⟩
      exact (habove _ ⟨r, hr, rfl⟩).ne

/-- A range that is gone through in order is the range. -/
theorem seqs_eq_range_iff {qs : List ℕ} {lo hi : ℕ} :
    qs = List.range' (lo + 1) (hi - (lo + 1)) ↔ qs.Pairwise (· < ·) ∧ (∀ q ∈ qs, q < hi) ∧
      (∀ q ∈ qs, q ∈ List.range' (lo + 1) (hi - (lo + 1))) ∧
      ∀ q ∈ List.range' (lo + 1) (hi - (lo + 1)), q ∈ qs := by
  constructor
  · rintro rfl
    refine ⟨List.pairwise_lt_range' 1, fun q hq => ?_, fun q hq => hq, fun q hq => hq⟩
    rw [List.mem_range'_1] at hq
    omega
  · rintro ⟨hasc, -, hin, hall⟩
    have hnodup : ∀ {rows : List ℕ}, rows.Pairwise (· < ·) → rows.Nodup := fun h =>
      h.imp fun hlt => hlt.ne
    have hrange := List.pairwise_lt_range' (s := lo + 1) (n := hi - (lo + 1)) 1
    have hperm := (List.perm_ext_iff_of_nodup (hnodup hasc) (hnodup hrange)).mpr
      fun q => ⟨hin q, hall q⟩
    exact hperm.eq_of_pairwise (fun a b _ _ hab hba => absurd (lt_trans hab hba) (lt_irrefl a))
      hasc hrange

theorem requireLiteStr_ok {value label : String} {u : Unit} :
    requireLiteStr value label = .ok u ↔ value ≠ "" := require_ok

theorem requireLiteUuid_ok {value label : String} {u : Unit} :
    requireLiteUuid value label = .ok u ↔ CanonicalUuid value := require_ok

/-- Checked items with distinct keys. -/
theorem validateItems_key_ok {α κ : Type} [DecidableEq κ] {check : α → Except PyError Unit}
    {key : α → κ} {duplicate : PyError} {items : List α} {u : Unit} :
    validateItems check (sameKey key) duplicate [] items = .ok u ↔
      (∀ x ∈ items, check x = .ok ()) ∧ (items.map key).Nodup := by
  rw [validateItems_ok, pairwise_sameKey]
  simp

theorem checkVersion_ok {row : VersionRow} : checkVersion row = .ok () ↔ VersionOk row := by
  simp only [checkVersion, Except.bind_ok, require_ok, requireLiteUuid_ok]
  constructor
  · rintro ⟨_, hkind, _, huuid, _, hevent, hseq⟩
    exact ⟨hkind, huuid, hevent, hseq⟩
  · rintro ⟨hkind, huuid, hevent, hseq⟩
    exact ⟨(), hkind, (), huuid, (), hevent, hseq⟩

theorem checkTarget_ok {next : ℕ} {row : TargetRow} :
    checkTarget next row = .ok () ↔ TargetOk next row := by
  simp only [checkTarget, Except.bind_ok, require_ok, requireLiteStr_ok]
  constructor
  · rintro ⟨_, hid, _, hremote, hboot⟩
    exact ⟨hid, hremote, hboot⟩
  · rintro ⟨hid, hremote, hboot⟩
    exact ⟨(), hid, (), hremote, hboot⟩

theorem checkDelivery_ok {targetIds : List String} {sequences : List ℕ} {row : DeliveryRow} :
    checkDelivery targetIds sequences row = .ok () ↔ row.targetId ≠ "" ∧ row.targetId ∈ targetIds ∧
      (1 ≤ row.streamSeq ∧ row.streamSeq ∈ sequences) ∧ LeaseOk row := by
  have hlease : (if row.state = .leased then
        require (row.leaseOwner ≠ none ∧ row.leaseUntil ≠ none) (invalidLite "leased delivery")
      else require (row.leaseOwner = none ∧ row.leaseUntil = none)
        (invalidLite "delivery lease state")) = .ok () ↔ LeaseOk row := by
    unfold LeaseOk
    split_ifs
    · exact require_ok
    · exact require_ok
  simp only [checkDelivery, Except.bind_ok, require_ok, requireLiteStr_ok, hlease]
  constructor
  · rintro ⟨_, hid, _, hknown, _, hseq, hl⟩
    exact ⟨hid, hknown, hseq, hl⟩
  · rintro ⟨hid, hknown, hseq, hl⟩
    exact ⟨(), hid, (), hknown, (), hseq, hl⟩

theorem checkBatch_ok {row : BatchRow} : checkBatch row = .ok () ↔ BatchOk row := by
  simp only [checkBatch, requireCanonicalBatchResult, Except.bind_ok, require_ok, requireLiteStr_ok,
    requireLiteUuid_ok, forM_ok]
  constructor
  · rintro ⟨_, huuid, _, hdigest, _, ⟨_, -, _, hresponse, _, -, _, -, hreceipts⟩, hsame⟩
    exact ⟨huuid, hdigest, hresponse, hsame, hreceipts⟩
  · rintro ⟨huuid, hdigest, hresponse, hsame, hreceipts⟩
    have hne : row.response.requestDigest ≠ "" := by
      rw [hsame]
      intro hempty
      rw [hempty] at hdigest
      exact absurd hdigest.1 (by decide)
    exact ⟨(), huuid, (), hdigest, (), ⟨(), hresponse ▸ huuid, (), hresponse, (), hne, (),
      hsame ▸ hdigest, hreceipts⟩, hsame⟩

theorem checkSnapshot_ok {floor next : ℕ} {row : SnapshotRow} :
    checkSnapshot floor next row = .ok () ↔
      SnapshotOk row ∧ floor ≤ row.resumeSeq ∧ row.resumeSeq < next := by
  simp only [checkSnapshot, Except.bind_ok, require_ok, requireLiteStr_ok, requireLiteUuid_ok]
  constructor
  · rintro ⟨_, huuid, _, hremote, _, hconsumer, _, hrequest, hseq⟩
    exact ⟨⟨huuid, hremote, hconsumer, hrequest⟩, hseq⟩
  · rintro ⟨⟨huuid, hremote, hconsumer, hrequest⟩, hseq⟩
    exact ⟨(), huuid, (), hremote, (), hconsumer, (), hrequest, hseq⟩

theorem validateSnapshots_ok {floor next : ℕ} {rows : List SnapshotRow} {u : Unit} :
    validateSnapshots floor next rows = .ok u ↔
      (∀ x ∈ rows, SnapshotOk x ∧ floor ≤ x.resumeSeq ∧ x.resumeSeq < next) ∧
        (rows.map SnapshotRow.snapshotId).Nodup ∧ (rows.map requestKey).Nodup := by
  rw [validateSnapshots, validateItems_ok, ← pairwise_sameKey, ← pairwise_sameKey,
    ← List.pairwise_and_iff]
  simp only [Bool.or_eq_false_iff, checkSnapshot_ok, List.not_mem_nil, false_imp_iff, imp_true_iff,
    and_true]

/-- The validator accepts exactly the valid states. -/
theorem validate_ok {s : SyncState} {label : String} {u : Unit} :
    s.validate label = .ok u ↔ s.Valid := by
  simp only [validate, Except.bind_ok, require_ok, validateOutboxItems_ok, validateEntityVersions,
    validateTargets, validateDeliveries, validateInbox, validateBatches, validateCursors,
    validateInboundCursors, validateSnapshotItems, validateItems_key_ok, validateSnapshots_ok,
    checkVersion_ok, checkTarget_ok, checkDelivery_ok, checkBatch_ok, checkInbox, checkCursor,
    checkInboundCursor, checkSnapshotItem, requireLiteStr_ok, requireLiteUuid_ok]
  constructor
  · rintro ⟨_, htenant, _, hpos, _, hcompacted, _, ⟨houttenant, hasc, -, hevents, -⟩, _, hlt, _,
      ⟨hin, hall⟩, _, ⟨hversions, -⟩, _, ⟨htargets, -⟩, _, ⟨hdeliveries, hkeys⟩, _,
      ⟨hinbox, hids⟩, _, ⟨hbatches, hbatchids⟩, _, ⟨hcursors, hcursorkeys⟩, _,
      ⟨hinbound, hinboundkeys⟩, _, ⟨hsnapshots, hsnapids, hrequests⟩, hitems, hitemkeys⟩
    exact {
      tenant := htenant
      next_pos := hpos
      compacted := hcompacted
      seqs := seqs_eq_range_iff.mpr ⟨hasc, hlt, hin, hall⟩
      outbox_tenant := houttenant
      events := hevents
      versions := hversions
      targets := htargets
      delivery_target := fun d hd => (hdeliveries d hd).2.1
      delivery_seq := fun d hd => (hdeliveries d hd).2.2.1.2
      leases := fun d hd => (hdeliveries d hd).2.2.2
      delivery_keys := hkeys
      inbox := fun r hr => by
        obtain ⟨_, hrow⟩ := hinbox r hr
        exact hrow
      identities := hids
      batches := hbatches
      batch_ids := hbatchids
      cursors := fun c hc => by
        obtain ⟨_, hremote, _, hconsumer, hwithin⟩ := hcursors c hc
        exact ⟨⟨hremote, hconsumer⟩, hwithin⟩
      cursor_keys := hcursorkeys
      inbound := fun c hc => by
        obtain ⟨_, hrow⟩ := hinbound c hc
        exact hrow
      inbound_keys := hinboundkeys
      snapshots := hsnapshots
      snapshot_ids := hsnapids
      requests := hrequests
      items := fun i hi => by
        obtain ⟨_, -, _, hknown, hbound⟩ := hitems i hi
        exact ⟨hknown, hbound⟩
      item_keys := hitemkeys }
  · intro h
    have hrange := seqs_eq_range_iff.mp h.seqs
    refine ⟨(), h.tenant, (), h.next_pos, (), h.compacted, (), ⟨h.outbox_tenant, hrange.1, ?_,
      h.events, by simp⟩, (), hrange.2.1, (), hrange.2.2, (),
      ⟨h.versions, s.entityVersions.nodup⟩, (), ⟨h.targets, s.targets.nodup⟩, (),
      ⟨fun d hd => ?_, h.delivery_keys⟩, (), ⟨fun r hr => ⟨(), h.inbox r hr⟩, h.identities⟩, (),
      ⟨h.batches, h.batch_ids⟩, (), ⟨fun c hc => ?_, h.cursor_keys⟩, (),
      ⟨fun c hc => ⟨(), h.inbound c hc⟩, h.inbound_keys⟩, (),
      ⟨h.snapshots, h.snapshot_ids, h.requests⟩, fun i hi => ?_, h.item_keys⟩
    · intro r hr
      have hmem := hrange.2.2.1 _ (List.mem_map_of_mem hr)
      rw [List.mem_range'_1] at hmem
      omega
    · -- A delivery is one of a target, whose id is not empty, and of a sequence above the floor.
      have hseq := h.delivery_seq d hd
      obtain ⟨t, ht, hid⟩ := List.mem_map.mp (h.delivery_target d hd)
      have hmem := hrange.2.2.1 _ hseq
      rw [List.mem_range'_1] at hmem
      exact ⟨hid ▸ (h.targets t ht).id, h.delivery_target d hd, ⟨by omega, hseq⟩, h.leases d hd⟩
    · obtain ⟨⟨hremote, hconsumer⟩, hwithin⟩ := h.cursors c hc
      exact ⟨(), hremote, (), hconsumer, hwithin⟩
    · -- The id of an item is that of a snapshot, which is canonical.
      obtain ⟨hknown, hbound⟩ := h.items i hi
      obtain ⟨x, hx, hid⟩ := List.mem_map.mp hknown
      exact ⟨(), hid ▸ (h.snapshots x hx).1.uuid, (), hknown, hbound⟩

end SyncState

end Memplex
