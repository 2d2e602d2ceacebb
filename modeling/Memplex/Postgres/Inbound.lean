import Memplex.Postgres.Stream
import Memplex.Sync.Apply
import Memplex.Sync.Receive

/-!
# Applying events of other nodes in PostgreSQL

Events of another node arrive on two ways. A push is a batch for `memplex_sync_apply_inbound`, a
function in the database that goes through the events one by one. A pull is a page for
`sync_apply_page`, which decides about all events before it applies the first. Both are transactions
on the same tables, of one tenant here; one that raises changes nothing.

Row security and the triggers, which capture nothing while events are applied, are left out, and so
are the events of paragraphs, which have no versions in the database. How the driver and the casts
of the database make a `REAL` of a weight is not part of the source, and is the parameter `Reals`.
-/

namespace Memplex

open Lib

/-- How weights become values of the type `REAL`, where a number out of range raises. -/
structure Reals (ρ : Type) where
  /-- `text::DOUBLE PRECISION::REAL`. -/
  cast : Num → Option ρ
  /-- A float that the driver sends for a column. -/
  bind : PyFloat → Option ρ

/-- A weight that can be cast and be sent becomes the same value on both ways. -/
def Reals.Agree {ρ : Type} (reals : Reals ρ) : Prop :=
  ∀ weight, ∀ real ∈ reals.cast weight, ∀ real' ∈ reals.bind weight.toFloat, real = real'

/-- `owner_subject`, `workspace`, `visibility`, `source_agent` and `source_session`. -/
structure ScopeColumns where
  ownerSubject : String
  workspace : String
  visibility : String
  sourceAgent : String
  sourceSession : String
deriving DecidableEq

/-- The columns of a scope: what it leaves open is the empty text. -/
def SyncScope.columns (s : SyncScope) : ScopeColumns where
  ownerSubject := s.ownerSubjectId
  workspace := s.workspaceId.getD ""
  visibility := s.visibility.value
  sourceAgent := s.agentId.getD ""
  sourceSession := s.sessionId.getD ""

/-- A row of `memplex_functions`, `memplex_facts`, `memplex_preferences` or
`memplex_observations`. -/
structure NodeRow where
  id : String
  data : Members
  scope : ScopeColumns
deriving DecidableEq

/-- A row of `memplex_edges`. -/
structure EdgeRow (ρ : Type) where
  source : String
  target : String
  edgeType : String
  weight : ρ
  evidence : List String
  createdAt : Timestamp
  scope : ScopeColumns

namespace EdgeRow

variable {ρ : Type}

/-- The primary key. -/
def key (e : EdgeRow ρ) : String × String × String := (e.source, e.target, e.edgeType)

/-- `source = id OR target = id`. -/
def touches (e : EdgeRow ρ) (id : String) : Bool := e.source = id ∨ e.target = id

/-- Whether a foreign key of the edge refers to a function: the target of a `BELONGS_TO` edge is
none. -/
def refersTo (e : EdgeRow ρ) (id : String) : Bool :=
  e.source = id ∨ (e.target = id ∧ e.edgeType ≠ belongsTo)

end EdgeRow

/-- A row of `memplex_sync_batches`. -/
structure InboundBatchRow where
  originNodeId : String
  batchId : String
  requestSha256 : String
  response : List SyncReceipt

/-- The tables of one tenant that events are applied to. -/
structure InboundTables (ρ : Type) where
  nodes : SyncNodeType → Table NodeRow.id
  edges : Table (EdgeRow.key (ρ := ρ))
  versions : Table VersionRow.entity
  inbox : List InboxRow
  outbox : List OutboxRow
  nextStreamSeq : ℕ
  targets : Table TargetRow.targetId
  deliveries : List DeliveryRow
  batches : List InboundBatchRow
  cursors : List CursorRow
  /-- `memplex_edges_source_function_fk`. -/
  source_fk : ∀ e ∈ edges.rows, (nodes .function).contains e.source = true
  /-- `memplex_edges_target_function_fk`. -/
  target_fk : ∀ e ∈ edges.rows, e.edgeType ≠ belongsTo → (nodes .function).contains e.target = true

/-- A constraint that a statement violates. -/
def violates (constraint : String) : PyError := ⟨.integrityError, constraint⟩

/-- An exception that a function of the database raises. -/
def raises (message : String) : PyError := ⟨.databaseError, message⟩

namespace InboundTables

variable {ρ : Type}

/-! ## Statements -/

/-- The row that the inbox has for an event. -/
def received (t : InboundTables ρ) (event : SyncEvent) : Option InboxRow :=
  findRow InboxRow.identity event.identity t.inbox

/-- The edges at a node. -/
def incident (t : InboundTables ρ) (id : String) : List (EdgeRow ρ) :=
  t.edges.rows.filter fun e => e.touches id

/-- A function that is there stays when a node is upserted. -/
theorem contains_update_set {nodes : SyncNodeType → Table NodeRow.id} {id : String}
    (h : (nodes .function).contains id = true) (nodeType : SyncNodeType) (row : NodeRow) :
    (Function.update nodes nodeType ((nodes nodeType).set row) .function).contains id = true := by
  by_cases htype : SyncNodeType.function = nodeType
  · subst htype
    rw [Function.update_self, Table.contains, Table.get?_set]
    split_ifs
    · rfl
    · exact h
  · rw [Function.update_of_ne htype]
    exact h

/-- A function that is there stays when another node is deleted. -/
theorem contains_update_erase {nodes : SyncNodeType → Table NodeRow.id} {id id' : String}
    (h : (nodes .function).contains id = true) (nodeType : SyncNodeType)
    (hne : nodeType = .function → id ≠ id') :
    (Function.update nodes nodeType ((nodes nodeType).erase id') .function).contains id = true := by
  by_cases htype : SyncNodeType.function = nodeType
  · subst htype
    rw [Function.update_self, Table.contains, Table.get?_erase, if_neg (hne rfl)]
    exact h
  · rw [Function.update_of_ne htype]
    exact h

/-- `INSERT ... ON CONFLICT DO UPDATE` on a table of nodes. -/
def upsertNode (t : InboundTables ρ) (nodeType : SyncNodeType) (row : NodeRow) :
    Except PyError (InboundTables ρ) := do
  require (nodeType = .function → ¬ "domain_".toList.isPrefixOf row.id.toList = true)
    (violates "memplex_functions_reserved_domain_id_check")
  return { t with
    nodes := Function.update t.nodes nodeType ((t.nodes nodeType).set row)
    source_fk := fun e he => contains_update_set (t.source_fk e he) nodeType row
    target_fk := fun e he htype => contains_update_set (t.target_fk e he htype) nodeType row }

/-- The edges that are left when a node is deleted: those that refer to a function go with it. -/
def edgesWithout (t : InboundTables ρ) (nodeType : SyncNodeType) (id : String) :
    Table (EdgeRow.key (ρ := ρ)) :=
  t.edges.filter fun e => nodeType ≠ .function ∨ !e.refersTo id

theorem edgesWithout_mem {t : InboundTables ρ} {nodeType : SyncNodeType} {id : String}
    {e : EdgeRow ρ} : e ∈ (t.edgesWithout nodeType id).rows ↔
      e ∈ t.edges.rows ∧ (nodeType = .function → e.refersTo id = false) := by
  simp only [edgesWithout, Table.filter, List.mem_filter, decide_eq_true_eq, Bool.not_eq_true',
    imp_iff_not_or]

/-- `DELETE` on a table of nodes, with `ON DELETE CASCADE`. -/
def deleteNode (t : InboundTables ρ) (nodeType : SyncNodeType) (id : String) : InboundTables ρ :=
  { t with
    nodes := Function.update t.nodes nodeType ((t.nodes nodeType).erase id)
    edges := t.edgesWithout nodeType id
    source_fk := fun e he => by
      obtain ⟨hmem, hkept⟩ := edgesWithout_mem.mp he
      refine contains_update_erase (t.source_fk e hmem) nodeType fun htype heq => ?_
      exact absurd (hkept htype) (by simp [EdgeRow.refersTo, heq])
    target_fk := fun e he hbelongs => by
      obtain ⟨hmem, hkept⟩ := edgesWithout_mem.mp he
      refine contains_update_erase (t.target_fk e hmem hbelongs) nodeType fun htype heq => ?_
      exact absurd (hkept htype) (by simp [EdgeRow.refersTo, heq, hbelongs]) }

/-- `INSERT ... ON CONFLICT DO UPDATE` on the edges. -/
def upsertEdge (t : InboundTables ρ) (row : EdgeRow ρ) : Except PyError (InboundTables ρ) :=
  if h : (t.nodes .function).contains row.source = true ∧
      (row.edgeType ≠ belongsTo → (t.nodes .function).contains row.target = true) then
    .ok { t with
      edges := t.edges.set row
      source_fk := fun e he => by
        rcases mem_upsertRow.mp he with rfl | ⟨he, -⟩
        · exact h.1
        · exact t.source_fk e he
      target_fk := fun e he htype => by
        rcases mem_upsertRow.mp he with rfl | ⟨he, -⟩
        · exact h.2 htype
        · exact t.target_fk e he htype }
  else .error (violates "memplex_edges_source_function_fk, memplex_edges_target_function_fk")

/-- `DELETE` on the edges. -/
def deleteEdge (t : InboundTables ρ) (parts : String × String × String) : InboundTables ρ :=
  { t with
    edges := t.edges.erase parts
    source_fk := fun e he => t.source_fk e (List.mem_of_mem_filter he)
    target_fk := fun e he => t.target_fk e (List.mem_of_mem_filter he) }

/-- The row of the inbox for an event. -/
def insertInbox (t : InboundTables ρ) (event : SyncEvent) (outcome : ReceiptOutcome)
    (appliedStreamSeq : Option ℕ) : Except PyError (InboundTables ρ) := do
  require (t.received event = none) (violates "memplex_sync_inbox_pkey")
  return { t with inbox := t.inbox ++ [inboxRow event outcome appliedStreamSeq] }

/-- The deliveries of an event of another node. -/
def newDeliveries (t : InboundTables ρ) (now : Instant) (originNodeId : String) (streamSeq : ℕ) :
    List DeliveryRow :=
  (t.targets.rows.filter fun target => target.enabled ∧ target.remoteNodeId ≠ originNodeId).map
    fun target => DeliveryRow.fresh target.targetId streamSeq now

/-- The rows of an event that is accepted: in the outbox, of the version, in the inbox, and of the
deliveries. Both ways insert the same. -/
def record (t : InboundTables ρ) (now : Instant) (event : SyncEvent) :
    Except PyError (InboundTables ρ) := do
  require (∀ r ∈ t.outbox, r.event.identity ≠ event.identity)
    (violates "memplex_sync_outbox_tenant_id_origin_node_id_event_id_key")
  let stream := t.nextStreamSeq
  let t ← insertInbox { t with
    outbox := t.outbox ++ [⟨stream, event⟩]
    nextStreamSeq := stream + 1
    versions := t.versions.set
      ⟨event.entity, event.version, event.change.isTombstone, event.eventId, stream⟩ }
    event .accepted (some stream)
  return { t with deliveries := t.deliveries ++ t.newDeliveries now event.originNodeId stream }

/-- The deliveries that count for the quota. -/
def pendingDeliveries (t : InboundTables ρ) : ℕ :=
  t.deliveries.countP fun d => d.state ≠ .delivered ∧
    ∃ target ∈ t.targets.rows, target.targetId = d.targetId ∧ target.enabled = true

/-- `memplex_sync_assert_delivery_quota`. -/
def assertDeliveryQuota (t : InboundTables ρ) (additional : ℕ) : Except PyError Unit :=
  require (t.pendingDeliveries + additional ≤ 100000)
    (raises "memplex sync pending delivery quota exceeded")

end InboundTables

/-! ## Edge payloads -/

/-- The parts of an edge payload: exactly a weight, the evidence and a canonical creation time. -/
def edgeParts (payload : Members) : Except PyError (Num × List String × Timestamp) := do
  require ((∀ k ∈ payload.keys, k ∈ ["weight", "evidence", "created_at"]) ∧
    ∀ k ∈ ["weight", "evidence", "created_at"], k ∈ payload.keys)
    (valueError "edge payload fields are invalid")
  let .num weight := payload.getD "weight" .null
    | .error (typeError "edge weight must be a number")
  let .arr items := payload.getD "evidence" .null
    | .error (typeError "edge evidence must be a list of strings")
  let some evidence := items.mapM asString
    | .error (typeError "edge evidence must be a list of strings")
  let .str createdAt := payload.getD "created_at" .null
    | .error (typeError "edge created_at must be a string")
  let some time := timeFromWire createdAt.toList
    | .error (valueError "edge created_at must be canonical UTC microseconds")
  return (weight, evidence, time)

/-- The edge columns of a payload in the database, unless it is refused there. -/
def castEdge {ρ : Type} (reals : Reals ρ) (payload : Members) :
    Option (ρ × List String × Timestamp) := do
  let (weight, evidence, createdAt) ← (edgeParts payload).toOption
  let real ← reals.cast weight
  return (real, evidence, createdAt)

/-- `math.isfinite(weight) and abs(weight) <= 3.4028235e38`. -/
def withinReal : PyFloat → Bool
  | .finite d => d.mant * 10 ^ d.exp.toNat ≤ 34028235 * 10 ^ 31 * 10 ^ (-d.exp).toNat
  | _ => false

/-- `_validate_edge_payload`. -/
def validateEdgePayload (payload : Members) :
    Except PyError (PyFloat × List String × Timestamp) := do
  let (weight, evidence, createdAt) ← edgeParts payload
  require (withinReal weight.toFloat) (valueError "edge weight is outside PostgreSQL REAL range")
  return (weight.toFloat, evidence, createdAt)

/-- The edge columns of a payload that `sync_apply_page` inserts, unless it or the database refuses
them. -/
def bindEdge {ρ : Type} (reals : Reals ρ) (payload : Members) :
    Option (ρ × List String × Timestamp) := do
  let (weight, evidence, createdAt) ← (validateEdgePayload payload).toOption
  let real ← reals.bind weight
  return (real, evidence, createdAt)

namespace InboundTables

variable {ρ : Type} (reals : Reals ρ)

/-- Whether the stored version of an event's entity is not older. -/
def isStale (t : InboundTables ρ) (event : SyncEvent) : Bool :=
  (t.versions.get? event.entity).any fun row => event.version ≤ row.version

/-! ## A batch in the database -/

/-- What the function checks of every event before it applies the first. -/
def checkInboundEvent (event : SyncEvent) : Except PyError Unit := do
  require (PostgresStream.isEventId event.eventId ∧ event.nodeType ≠ .paragraph)
    (raises "memplex sync inbound event is invalid")
  match event.nodeType, event.change with
  | .edge, .upsert payload =>
    require ((castEdge reals payload).isSome) (raises "memplex sync inbound edge payload is invalid")
  | _, _ => return ()

/-- The row of an edge with its columns. -/
def edgeRow (source target edgeType : String) (columns : ρ × List String × Timestamp)
    (scope : SyncScope) : EdgeRow ρ :=
  ⟨source, target, edgeType, columns.1, columns.2.1, columns.2.2, scope.columns⟩

/-- The business change of an event, in the database. -/
def applyInboundBusiness (t : InboundTables ρ) (event : SyncEvent) :
    Except PyError (InboundTables ρ) :=
  match event.entityKey.shape, event.change with
  | .edge source target edgeType, .tombstone => .ok (t.deleteEdge (source, target, edgeType))
  | .edge source target edgeType, .upsert payload =>
    match castEdge reals payload with
    | none => .error (raises "memplex sync inbound edge payload is invalid")
    | some columns => t.upsertEdge (edgeRow source target edgeType columns event.scope)
  | .node id, .tombstone => do
    require (event.nodeType = .function → t.incident id = [])
      (raises "memplex function tombstone requires explicit edge tombstones")
    return t.deleteNode event.nodeType id
  | .node id, .upsert payload => t.upsertNode event.nodeType ⟨id, payload, event.scope.columns⟩

/-- One round of the loop of `memplex_sync_apply_inbound`. -/
def applyInboundEvent (t : InboundTables ρ) (now : Instant) (event : SyncEvent) :
    Except PyError (InboundTables ρ × SyncReceipt) :=
  match t.received event with
  | some _ => .ok (t, ⟨event.eventId, .duplicate⟩)
  | none =>
    if t.isStale event then do
      let t ← t.insertInbox event .rejectedConflict none
      return (t, ⟨event.eventId, .rejectedConflict⟩)
    else do
      let t ← t.applyInboundBusiness reals event
      let t ← t.record now event
      return (t, ⟨event.eventId, .accepted⟩)

/-- The loop, with the receipts. -/
def applyInboundEvents (now : Instant) : InboundTables ρ → List SyncEvent →
    Except PyError (InboundTables ρ × List SyncReceipt)
  | t, [] => .ok (t, [])
  | t, event :: events => do
    let (t, receipt) ← t.applyInboundEvent reals now event
    let (t, receipts) ← applyInboundEvents now t events
    return (t, receipt :: receipts)

/-- `memplex_sync_apply_inbound`, for a role that is an ingress principal of the batch's origin. -/
def applyInbound (t : InboundTables ρ) (now : Instant) (batch : SyncBatch) (requestSha256 : String) :
    Except PyError (InboundTables ρ × List SyncReceipt) := do
  require (PostgresStream.isEventId batch.batchId) (raises "memplex sync inbound batch is invalid")
  batch.events.forM (checkInboundEvent reals)
  match t.batches.find? fun row => row.originNodeId = batch.originNodeId ∧
      row.batchId = batch.batchId with
  | some row =>
    require (row.requestSha256 = requestSha256) (raises "memplex sync batch digest conflict")
    return (t, row.response)
  | none =>
    t.assertDeliveryQuota (t.targets.rows.countP TargetRow.enabled * batch.events.length)
    let (t, receipts) ← applyInboundEvents reals now t batch.events
    let row : InboundBatchRow := ⟨batch.originNodeId, batch.batchId, requestSha256, receipts⟩
    return ({ t with batches := t.batches ++ [row] }, receipts)

/-! ## A page in the program -/

end InboundTables

/-- What `sync_apply_page` decides about an event. -/
inductive Decision where
  | accepted
  | duplicate
  | conflict
  | conflictReplay
deriving DecidableEq

/-- What an event is counted as. -/
def Decision.outcome : Decision → ReceiptOutcome
  | accepted => .accepted
  | duplicate => .duplicate
  | conflict | conflictReplay => .rejectedConflict

namespace InboundTables

variable {ρ : Type} (reals : Reals ρ)

/-- The decision about an event that the inbox has. -/
def replayDecision (row : InboxRow) : Decision :=
  if row.outcome = .rejectedConflict then .conflictReplay else .duplicate

/-- The decisions about the events of a page, with the versions as they will be. -/
def pageDecisions (t : InboundTables ρ) : (Entity → Option SyncVersion) → List SyncEvent →
    List Decision
  | _, [] => []
  | versions, event :: events =>
    match t.received event with
    | some row => replayDecision row :: t.pageDecisions versions events
    | none =>
      if (versions event.entity).any (event.version ≤ ·) then
        .conflict :: t.pageDecisions versions events
      else
        .accepted ::
          t.pageDecisions (Function.update versions event.entity (some event.version)) events

/-- The versions that are stored. -/
def storedVersions (t : InboundTables ρ) (entity : Entity) : Option SyncVersion :=
  (t.versions.get? entity).map VersionRow.version

/-- The deliveries that the accepted events of a page add. -/
def additionalDeliveries (t : InboundTables ρ) (decided : List (SyncEvent × Decision)) : ℕ :=
  ((decided.filter fun d => d.2 = .accepted).map fun d => t.targets.rows.countP fun target =>
    target.enabled ∧ target.remoteNodeId ≠ d.1.originNodeId).sum

/-- The check of one edge before a function goes: it was tombstoned before. -/
def checkTombstoned (edgeTombstones : List SyncEntityKey) (e : EdgeRow ρ) : Except PyError Unit := do
  let key ← SyncEntityKey.edge (.str e.source) (.str e.target) (.str e.edgeType)
  require (key ∈ edgeTombstones) (valueError "function tombstone requires explicit edge tombstones")

/-- Before a function goes, every edge at it has been tombstoned. -/
def checkIncident (t : InboundTables ρ) (edgeTombstones : List SyncEntityKey)
    (nodeType : SyncNodeType) (id : String) : Except PyError Unit :=
  if nodeType = .function then (t.incident id).forM (checkTombstoned edgeTombstones) else .ok ()

/-- `_apply_inbound_business_event`. -/
def applyPageBusiness (t : InboundTables ρ) (edgeTombstones : List SyncEntityKey)
    (event : SyncEvent) : Except PyError (InboundTables ρ) :=
  match event.entityKey.shape, event.change with
  | .edge source target edgeType, .tombstone => .ok (t.deleteEdge (source, target, edgeType))
  | .edge source target edgeType, .upsert payload => do
    let (weight, evidence, createdAt) ← validateEdgePayload payload
    match reals.bind weight with
    | none => .error (raises "out of range for type real")
    | some real =>
      t.upsertEdge (edgeRow source target edgeType (real, evidence, createdAt) event.scope)
  | .node id, .tombstone => do
    t.checkIncident edgeTombstones event.nodeType id
    return t.deleteNode event.nodeType id
  | .node id, .upsert payload => t.upsertNode event.nodeType ⟨id, payload, event.scope.columns⟩

/-- The edges that are tombstoned after an accepted event. -/
def tombstonesAfter (edgeTombstones : List SyncEntityKey) (event : SyncEvent) :
    List SyncEntityKey :=
  if event.nodeType = .edge ∧ event.change.isTombstone then event.entityKey :: edgeTombstones
  else edgeTombstones

/-- The loop of `sync_apply_page` over the events and the decisions about them. -/
def applyDecided (now : Instant) : InboundTables ρ → List SyncEntityKey →
    List (SyncEvent × Decision) → Except PyError (InboundTables ρ)
  | t, _, [] => .ok t
  | t, edgeTombstones, (event, decision) :: rest =>
    match decision with
    | .duplicate | .conflictReplay => applyDecided now t edgeTombstones rest
    | .conflict => do
      let t ← t.insertInbox event .rejectedConflict none
      applyDecided now t edgeTombstones rest
    | .accepted => do
      let t ← t.applyPageBusiness reals edgeTombstones event
      let t ← t.record now event
      applyDecided now t (tombstonesAfter edgeTombstones event) rest

/-- The confirmed position in the stream of another node. -/
def confirmedAfter (t : InboundTables ρ) (remoteId localNodeId : String) : ℕ :=
  ((findRow CursorRow.key (remoteId, localNodeId) t.cursors).map CursorRow.afterSeq).getD 0

/-- `sync_apply_page`, of the repository of a tenant at a node. -/
def syncApplyPage (t : InboundTables ρ) (now : Instant) (localNodeId tenantId remoteId : String)
    (page : SyncPage) : Except PyError (InboundTables ρ × SyncApplyResult) := do
  require (remoteId ≠ "") (valueError "remote_id must be non-empty")
  require (remoteId ≠ localNodeId) (valueError "remote_id must not identify this node")
  let events ← validateIncomingPage page tenantId
  let confirmed := t.confirmedAfter remoteId localNodeId
  require (confirmed ≤ page.nextAfterSeq) (valueError "page cursor regresses confirmed progress")
  require (¬ ((∃ item ∈ page.items.head?, item.streamSeq ≤ confirmed) ∧
      confirmed < page.nextAfterSeq))
    (valueError "page partially overlaps confirmed progress")
  let decided := events.zip (t.pageDecisions t.storedVersions events)
  t.assertDeliveryQuota (t.additionalDeliveries decided)
  let t ← applyDecided reals now t [] decided
  let row : CursorRow := ⟨remoteId, localNodeId, max confirmed page.nextAfterSeq, now⟩
  return ({ t with cursors := upsertRow CursorRow.key row t.cursors },
    ⟨decided.countP fun d => d.2.outcome = .accepted, decided.countP fun d => d.2.outcome = .duplicate,
      decided.countP fun d => d.2.outcome = .rejectedConflict, max confirmed page.nextAfterSeq⟩)

end InboundTables

end Memplex
