import Memplex.Sync.Integrity
import Memplex.Sync.Snapshots
import Memplex.Lite.Writes

/-!
# The records as a snapshot

`_current_snapshot_events` copies the resident records as events: each under the version that its
entity holds, or, where nothing was captured or applied of it, under one that is made of its own
time and an id derived from its name. `syncCreateSnapshot` stores what it copies, and
`syncSnapshotPage` serves it in pages, each from the anchor of the one before.

`currentSnapshotEvents_ok` is all that the copy does, and `syncCreateSnapshot_ok` relates the two
levels: a snapshot of the records is `SyncState.createSnapshot` of what was copied.
-/

namespace Memplex

open Lib

/-! ## The constructor of an event -/

theorem SyncScope.create_tenant {tenantId ownerSubjectId workspaceId visibility agentId
    sessionId : Value} {scope : SyncScope}
    (h : create tenantId ownerSubjectId workspaceId visibility agentId sessionId = .ok scope) :
    tenantId = .str scope.tenantId := by
  obtain ⟨tenant, htenant, h⟩ := Except.bind_ok.mp h
  obtain ⟨owner, -, h⟩ := Except.bind_ok.mp h
  obtain ⟨visibilityText, -, h⟩ := Except.bind_ok.mp h
  split at h
  · exact absurd h (by simp)
  · obtain ⟨_, -, h⟩ := Except.bind_ok.mp h
    obtain ⟨_, -, h⟩ := Except.bind_ok.mp h
    obtain ⟨_, -, h⟩ := Except.bind_ok.mp h
    obtain ⟨_, -, h⟩ := Except.bind_ok.mp h
    obtain ⟨_, -, h⟩ := Except.bind_ok.mp h
    split_ifs at h
    cases Except.ok.inj h
    exact (requireExactString_ok htenant).1

/-- An event that the constructor makes has the fields that it was given. -/
theorem SyncEvent.create_ok {protocolVersionValue eventId originNodeId payload : Value}
    {nodeType : SyncNodeType} {entityKey : SyncEntityKey} {operation : SyncOperation}
    {version : SyncVersion} {scope : SyncScope} {e : SyncEvent}
    (h : create protocolVersionValue eventId originNodeId nodeType entityKey operation
      (.str version.text) scope payload = .ok e) :
    e.entity = (nodeType, entityKey) ∧ e.version = version ∧ e.scope = scope ∧
      e.change.operation = operation ∧ e.change.payload = payload := by
  obtain ⟨_, -, h⟩ := Except.bind_ok.mp h
  obtain ⟨_, -, h⟩ := Except.bind_ok.mp h
  obtain ⟨_, -, h⟩ := Except.bind_ok.mp h
  obtain ⟨v, hv, h⟩ := Except.bind_ok.mp h
  obtain ⟨_, -, h⟩ := Except.bind_ok.mp h
  obtain ⟨change, hchange, h⟩ := Except.bind_ok.mp h
  cases Except.ok.inj (version.parse_text.symm.trans hv)
  by_cases hk : (nodeType = .edge) ↔ entityKey.isEdge = true
  · rw [dif_pos hk] at h
    split at h
    · exact absurd h (by simp)
    · by_cases hw : change.payload.wellKeyed = true
      · rw [dif_pos hw] at h
        cases Except.ok.inj h
        refine ⟨rfl, rfl, rfl, ?_⟩
        cases operation <;> cases payload <;> simp [changeOf] at hchange <;> subst hchange <;>
          exact ⟨rfl, rfl⟩
      · rw [dif_neg hw] at h
        exact absurd h (by simp)
  · rw [dif_neg hk] at h
    exact absurd h (by simp)

/-! ## What a snapshot copies -/

/-- What the copy of the records uses beside the state. -/
structure SnapshotEnv extends Env where
  /-- `str(uuid.uuid5(uuid.NAMESPACE_URL, name))`. -/
  uuid5 : String → String
  /-- `str(value)`, where the value is no string. -/
  format : Value → String
  /-- The reading of the clock for an entity without a time. -/
  clock : Entity → Timestamp

/-- `str(value)`. -/
def SnapshotEnv.str (S : SnapshotEnv) : Value → String
  | .str s => s
  | v => S.format v

/-- A string that is not empty. -/
def boundText : Value → Option String
  | .str s => if s = "" then none else some s
  | _ => none

/-- `datetime.fromisoformat(value).astimezone(UTC)`. -/
def Env.isoInstant (env : Env) : Value → Except PyError Timestamp
  | .str s => match env.fromisoformat s with
    | some t => .ok t.utc
    | none => .error (valueError "Invalid isoformat string")
  | _ => .error (typeError "fromisoformat: argument must be str")

namespace BusinessState

/-- The nodes of a store, in the order in which they are gone through. -/
def nodes (b : BusinessState) : List MemoryNode :=
  b.functions.rows.map Function.toMemoryNode ++ b.facts.rows.map Fact.toMemoryNode ++
    b.preferences.rows.map Preference.toMemoryNode ++ b.observations.map Observation.toMemoryNode

/-- The rows of the paragraphs. -/
def paragraphRows (b : BusinessState) : List Members := b.paragraphs.rows.map Prod.snd

/-- `_business_tenants`. -/
def tenants (b : BusinessState) : List String :=
  (b.nodes.map MemoryNode.tenantId ++
    b.paragraphRows.map fun row => row.getD "tenant_id" .null).filterMap boundText

end BusinessState

/-- `_assert_single_tenant_business_state`. -/
def LiteStore.assertSingleTenant (st : LiteStore) : Except PyError (Option String) := do
  require (∀ t ∈ st.business.tenants, some t = st.business.tenants.head? ∧
      (st.sync.tenantBinding = none ∨ st.sync.tenantBinding = some t))
    (valueError "sync-enabled Lite supports a single tenant")
  return st.business.tenants.head?.or st.sync.tenantBinding

/-- `_scope_from_row`. -/
def scopeFromRow (row : Members) : Except PyError SyncScope :=
  let ns : Members := match row.getD "namespace" .null with
    | .obj members => members
    | _ => []
  SyncScope.create (pyOr (row.getD "tenant_id" .null) (.str ""))
    (pyOr (row.getD "owner_subject_id" .null) (.str ""))
    (.ofOptStr (boundText (row.getD "workspace_id" .null)))
    (pyOr (row.getD "visibility" .null) (.str "workspace"))
    (.ofOptStr (boundText (Members.getD ns "memplex_source_agent" .null)))
    (.ofOptStr (boundText (Members.getD ns "memplex_source_session_id" .null)))

section Copy

variable (S : SnapshotEnv) (cfg : SyncConfig) (s : SyncState)

/-- The event id and the version of the copy of an entity: those of its version row, or those that
its name and its time give. -/
def snapshotVersion (entity : Entity) (name : String) (occurredAt : Except PyError Timestamp) :
    Except PyError (String × SyncVersion) :=
  match s.entityVersions.get? entity with
  | some row => .ok (row.eventId, row.version)
  | none => do
    let occurredAt ← occurredAt
    let version ← SyncVersion.create occurredAt (.str cfg.localNodeId) (.str (S.uuid5 name))
    return (S.uuid5 name, version)

/-- The upsert that a copy is. -/
def copyEvent (eventId : String) (version : SyncVersion) (nodeType : SyncNodeType)
    (key : SyncEntityKey) (scope : SyncScope) (payload : Members) : Except PyError SyncEvent :=
  SyncEvent.create (.int 1) (.str eventId) (.str version.originNodeId) nodeType key .upsert
    (.str version.text) scope (.obj payload)

/-- `_snapshot_event_for_node`: `data` is `node.to_dict()`. -/
def snapshotEventForNode (nodeType : SyncNodeType) (node : MemoryNode) (data : Members) :
    Except PyError SyncEvent := do
  let key ← SyncEntityKey.node (.str node.id)
  let (eventId, version) ← snapshotVersion S cfg s (nodeType, key)
    ("memplex:" ++ nodeType.value ++ ":" ++ node.id) (S.isoInstant node.updatedAt)
  let scope ← scopeFromNode node
  copyEvent eventId version nodeType key scope data

/-- The time of a paragraph: the clock's, where its own cannot be read. -/
def paragraphInstant (key : SyncEntityKey) (row : Members) : Timestamp :=
  let raw := S.str (pyOr (row.getD "last_observed_at" .null) (row.getD "created_at" .null))
  ((S.fromisoformat raw).map PyDatetime.utc).getD (S.clock (.paragraph, key))

/-- The copy of a paragraph; rows without an identity stay out. -/
def snapshotEventForRow (row : Members) : Except PyError (Option SyncEvent) :=
  match boundText (row.getD "tenant_id" .null) with
  | none => .ok none
  | some _ =>
    match row.get? "id" with
    | none => .error ⟨.keyError, "id"⟩
    | some id => do
      let key ← SyncEntityKey.node (.str (S.str id))
      let (eventId, version) ← snapshotVersion S cfg s (.paragraph, key)
        ("memplex:paragraph:" ++ S.str id) (.ok (paragraphInstant S key row))
      let scope ← scopeFromRow row
      return some (← copyEvent eventId version .paragraph key scope row)

/-- The copy of an edge, under the scope of its source. -/
def snapshotEventForEdge (functions : Functions) (e : GraphEdge) : Except PyError SyncEvent :=
  match functions.get? e.source with
  | none => .error (valueError "snapshot edge source is missing")
  | some source => do
    let key ← SyncEntityKey.edge (.str e.source) (.str e.target) (.str e.edgeType)
    let (eventId, version) ← snapshotVersion S cfg s (.edge, key) ("memplex:edge:" ++ key.text)
      (.ok ((e.createdAt.map PyDatetime.utc).getD (S.clock (.edge, key))))
    let createdAt := (e.createdAt.map PyDatetime.utc).getD version.occurredAt
    let scope ← scopeFromNode source.toMemoryNode
    copyEvent eventId version .edge key scope
      [("weight", .num (.float e.weight.toFloat)), ("evidence", .arr (e.evidence.map .str)),
        ("created_at", .str (String.ofList (timeToWire createdAt)))]

end Copy

/-- The copies of the records, in the order in which they are made. -/
def copyRecords (S : SnapshotEnv) (cfg : SyncConfig) (s : SyncState) (b : BusinessState) :
    Except PyError (List SyncEvent) := do
  let functions ← b.functions.rows.mapM fun f =>
    snapshotEventForNode S cfg s .function f.toMemoryNode f.toDict
  let facts ← b.facts.rows.mapM fun f =>
    snapshotEventForNode S cfg s .fact f.toMemoryNode f.toDict
  let preferences ← b.preferences.rows.mapM fun p =>
    snapshotEventForNode S cfg s .preference p.toMemoryNode p.toDict
  let observations ← b.observations.mapM fun o =>
    snapshotEventForNode S cfg s .observation o.toMemoryNode o.toDict
  let paragraphs ← b.paragraphRows.mapM (snapshotEventForRow S cfg s)
  let edges ← b.edges.mapM (snapshotEventForEdge S cfg s b.functions)
  return functions ++ facts ++ preferences ++ observations ++ paragraphs.filterMap id ++ edges

/-- `_current_snapshot_events`: the tenant of the records, and their copies in the order of a
snapshot. -/
def currentSnapshotEvents (S : SnapshotEnv) (cfg : SyncConfig) (st : LiteStore) :
    Except PyError (SyncState × List SyncEvent) := do
  let tenantId ← st.assertSingleTenant
  let sync ← st.sync.bindRecords tenantId
  let events ← copyRecords S cfg sync st.business
  return (sync, events.mergeSort SyncState.snapshotOrder)

/-! ## Creating and reading snapshots -/

/-- The strict order of the anchors of a snapshot. -/
def anchorBefore (k k' : Entity) : Bool :=
  k.1.value < k'.1.value ∨ (k.1.value = k'.1.value ∧ k.2.text < k'.2.text)

/-- `SyncSnapshotPage(...)`: the checks of the constructor. -/
def SyncSnapshotPage.check (p : SyncSnapshotPage) : Except PyError SyncSnapshotPage := do
  require ((p.events.map SyncEvent.entity).IsChain fun k k' => anchorBefore k k' = true)
    (valueError "snapshot events must be strictly canonical ordered")
  require (p.hasMore = true → p.events ≠ [] ∧
      p.nextAnchor = p.events.getLast?.map SyncEvent.entity)
    (valueError "has_more snapshot must continue from its final anchor")
  require (p.hasMore = false → p.nextAnchor = none)
    (valueError "complete snapshot page cannot return a next anchor")
  return p

section Serve

variable (S : SnapshotEnv) (cfg : SyncConfig)

/-- A new snapshot of the records. -/
def LiteStore.newSnapshot (st : LiteStore) (now : Instant) (remoteId consumerId requestId : String)
    (snapshotId : String) : Except PyError (SyncState × SnapshotRow) := do
  require (st.sync.snapshots.countP (fun x => x.remoteId = remoteId) <
      cfg.maxActiveSnapshotsPerRemote)
    ⟨.syncBackpressureError, "snapshot_in_progress"⟩
  require (st.sync.snapshots.length < cfg.maxActiveSnapshotsPerTenant)
    ⟨.syncBackpressureError, "snapshot_in_progress"⟩
  let (sync, events) ← currentSnapshotEvents S cfg st
  require (events.length ≤ cfg.maxSnapshotItems) ⟨.syncBackpressureError, "snapshot_too_large"⟩
  let row : SnapshotRow := ⟨snapshotId, remoteId, consumerId, requestId, sync.nextStreamSeq - 1,
    now + cfg.snapshotTtlSeconds * second⟩
  return ({ sync with
    snapshots := sync.snapshots ++ [row]
    snapshotItems := sync.snapshotItems ++ events.map fun event => ⟨snapshotId, event⟩ }, row)

/-- The snapshot of a request: the one that it has, or a new one of the records. -/
def LiteStore.openSnapshot (st : LiteStore) (now : Instant)
    (remoteId consumerId requestId snapshotId : String) : Except PyError (SyncState × SnapshotRow) :=
  match st.sync.snapshots.find? fun x => x.remoteId = remoteId ∧ x.consumerId = consumerId ∧
      x.requestId = requestId with
  | some row => .ok (st.sync, row)
  | none => st.newSnapshot S cfg now remoteId consumerId requestId snapshotId

/-- `sync_create_snapshot`: `snapshotId` is the fresh identifier. -/
def syncCreateSnapshot (st : LiteStore) (now : Instant) (remoteId consumerId requestId : String)
    (limit : ℕ) (snapshotId : String) : Except PyError (LiteStore × SyncSnapshotPage) := do
  require (remoteId ≠ "") (valueError "remote_id must be non-empty")
  require (consumerId ≠ "") (valueError "consumer_id must be non-empty")
  require (requestId ≠ "") (valueError "request_id must be non-empty")
  require (1 ≤ limit) (valueError "limit must be >= 1")
  let (sync, row) ← LiteStore.openSnapshot S cfg
    { st with sync := st.sync.cleanupExpiredSnapshots now } now remoteId consumerId requestId
    snapshotId
  let page ← (SyncState.snapshotPage row.snapshotId row.resumeSeq
    (sync.snapshotEvents row.snapshotId) limit).check
  return ({ st with sync := sync }, page)

/-- The part of a signed cursor that a page of a snapshot is asked for with. The constructor of the
claims gives a cursor with a snapshot an anchor too. -/
structure SnapshotCursorClaims where
  tenantBinding : String
  remoteBinding : String
  consumerBinding : String
  snapshotSeq : ℕ
  snapshotId : String
  snapshotAfter : Entity
  expiresAt : Instant
deriving DecidableEq

/-- The events of a snapshot after an anchor. -/
def SyncState.snapshotAfter (s : SyncState) (snapshotId : String) (anchor : Entity) :
    List SyncEvent :=
  (s.snapshotEvents snapshotId).filter fun e => anchorBefore anchor e.entity

/-- `sync_snapshot_page`: the state without the snapshots that have expired, and the page or the
error that is raised after the state is committed. -/
def syncSnapshotPage (st : LiteStore) (now : Instant) (remoteId consumerId : String)
    (cursor : SnapshotCursorClaims) (limit : ℕ) :
    Except PyError (LiteStore × Except PyError SyncSnapshotPage) := do
  require (remoteId ≠ "") (valueError "remote_id must be non-empty")
  require (consumerId ≠ "") (valueError "consumer_id must be non-empty")
  require (1 ≤ limit) (valueError "limit must be >= 1")
  let sync := st.sync.cleanupExpiredSnapshots now
  require (some cursor.tenantBinding = sync.tenantBinding ∧ cursor.remoteBinding = remoteId ∧
      cursor.consumerBinding = consumerId ∧ now < cursor.expiresAt)
    ⟨.syncCursorExpired, "invalid_cursor"⟩
  match sync.snapshots.find? fun x => x.snapshotId = cursor.snapshotId with
  | none => return ({ st with sync := sync }, .error ⟨.syncCursorExpired, "snapshot_expired"⟩)
  | some row =>
    require (row.remoteId = remoteId ∧ row.consumerId = consumerId ∧
        row.resumeSeq = cursor.snapshotSeq)
      ⟨.syncCursorExpired, "invalid_cursor"⟩
    require (∃ e ∈ sync.snapshotEvents cursor.snapshotId, e.entity = cursor.snapshotAfter)
      ⟨.syncCursorExpired, "invalid_cursor"⟩
    let page ← (SyncState.snapshotPage cursor.snapshotId row.resumeSeq
      (sync.snapshotAfter cursor.snapshotId cursor.snapshotAfter) limit).check
    return ({ st with sync := sync }, .ok page)

end Serve

/-! ## What the copy holds -/

/-- Events of one address are events of one entity. -/
theorem SyncEvent.address_eq_iff {e e' : SyncEvent} :
    e.address = e'.address ↔ e.entity = e'.entity := by
  constructor
  · intro h
    obtain ⟨htype, hshape⟩ := Prod.mk.inj h
    rw [SyncEvent.entity, SyncEvent.entity, htype, SyncEntityKey.ext_shape hshape]
  · intro h
    obtain ⟨htype, hkey⟩ := Prod.mk.inj h
    rw [address, address, htype, hkey]

/-- The records that a snapshot copies, in the order in which they are gone through. -/
def BusinessState.copied (S : SnapshotEnv) (b : BusinessState) :
    List (SyncNodeType × EntityShape) :=
  b.functions.rows.map (fun f => (.function, .node f.id)) ++
    b.facts.rows.map (fun f => (.fact, .node f.id)) ++
    b.preferences.rows.map (fun p => (.preference, .node p.id)) ++
    b.observations.map (fun o => (.observation, .node o.id)) ++
    (b.paragraphRows.filter fun row => (boundText (row.getD "tenant_id" .null)).isSome).map
      (fun row => (.paragraph, .node (S.str (row.getD "id" .null)))) ++
    b.edges.map fun e => (.edge, .edge e.source e.target e.edgeType)

/-- A copy of an entity of a state: an upsert of a tenant of the records, under the version of the
entity, if it has one. -/
structure Copies (s : SyncState) (tenants : List String) (e : SyncEvent) : Prop where
  upsert : e.change.isTombstone = false
  tenant : e.scope.tenantId ∈ tenants
  version : ∀ row, s.entityVersions.get? e.entity = some row → e.version = row.version

theorem boundText_str {s : String} (hs : s ≠ "") : boundText (.str s) = some s := if_neg hs

theorem boundText_ok {v : Value} {s : String} (h : boundText v = some s) : v = .str s ∧ s ≠ "" := by
  unfold boundText at h
  split at h
  · split_ifs at h with hs
    cases Option.some.inj h
    exact ⟨rfl, hs⟩
  · exact absurd h (by simp)

section Spec

variable {S : SnapshotEnv} {cfg : SyncConfig} {s : SyncState} {tenants : List String}

theorem SyncEntityKey.ofShape_shape {shape : EntityShape} {key : SyncEntityKey}
    (h : SyncEntityKey.ofShape shape = .ok key) : key.shape = shape := by
  unfold SyncEntityKey.ofShape at h
  split_ifs at h
  cases Except.ok.inj h
  rfl

theorem SyncEntityKey.node_shape {id : String} {key : SyncEntityKey}
    (h : SyncEntityKey.node (.str id) = .ok key) : key.shape = .node id := by
  obtain ⟨text, htext, h⟩ := Except.bind_ok.mp h
  rw [ofShape_shape h, validateEntityId_eq htext]

theorem SyncEntityKey.edge_shape {source target edgeType : String} {key : SyncEntityKey}
    (h : SyncEntityKey.edge (.str source) (.str target) (.str edgeType) = .ok key) :
    key.shape = .edge source target edgeType := by
  have hparts := SyncEntityKey.edge_ok h
  unfold SyncEntityKey.edgeParts at hparts
  split at hparts
  · exact absurd hparts (by simp)
  next hshape =>
    cases Option.some.inj hparts
    exact hshape

theorem scopeFromNode_tenant {n : MemoryNode} {scope : SyncScope}
    (h : scopeFromNode n = .ok scope) : boundText n.tenantId = some scope.tenantId := by
  obtain ⟨_, htenant, h⟩ := Except.bind_ok.mp h
  obtain ⟨_, -, h⟩ := Except.bind_ok.mp h
  obtain ⟨_, -, h⟩ := Except.bind_ok.mp h
  have hne := (require_ok.mp htenant).2
  have hvalue := SyncScope.create_tenant h
  rw [hvalue] at hne ⊢
  exact boundText_str fun hempty => hne (congrArg Json.str hempty)

theorem copyEvent_ok {eventId : String} {version : SyncVersion} {nodeType : SyncNodeType}
    {key : SyncEntityKey} {scope : SyncScope} {payload : Members} {e : SyncEvent}
    (h : copyEvent eventId version nodeType key scope payload = .ok e) :
    e.entity = (nodeType, key) ∧ e.version = version ∧ e.scope = scope ∧
      e.change.isTombstone = false := by
  obtain ⟨hentity, hversion, hscope, hop, -⟩ := SyncEvent.create_ok h
  refine ⟨hentity, hversion, hscope, ?_⟩
  cases hc : e.change with
  | upsert payload => rfl
  | tombstone =>
    rw [hc] at hop
    exact absurd hop (by decide)

/-- The version of a copy is that of the entity, if it has one. -/
theorem snapshotVersion_ok {entity : Entity} {name eventId : String} {version : SyncVersion}
    {occurredAt : Except PyError Timestamp}
    (h : snapshotVersion S cfg s entity name occurredAt = .ok (eventId, version)) :
    ∀ row, s.entityVersions.get? entity = some row → version = row.version := by
  intro row hrow
  unfold snapshotVersion at h
  rw [hrow] at h
  exact (Prod.mk.inj (Except.ok.inj h)).2.symm

/-- The copy of a node. -/
theorem snapshotEventForNode_ok {nodeType : SyncNodeType} {node : MemoryNode} {data : Members}
    {e : SyncEvent} (h : snapshotEventForNode S cfg s nodeType node data = .ok e)
    (htenant : ∀ t, boundText node.tenantId = some t → t ∈ tenants) :
    e.address = (nodeType, .node node.id) ∧ Copies s tenants e := by
  obtain ⟨key, hkey, h⟩ := Except.bind_ok.mp h
  obtain ⟨⟨eventId, version⟩, hversion, h⟩ := Except.bind_ok.mp h
  obtain ⟨scope, hscope, h⟩ := Except.bind_ok.mp h
  obtain ⟨hentity, hv, hs, hup⟩ := copyEvent_ok h
  refine ⟨?_, hup, ?_, ?_⟩
  · rw [← SyncEntityKey.node_shape hkey]
    exact congrArg (fun k : Entity => (k.1, k.2.shape)) hentity
  · rw [hs]
    exact htenant _ (scopeFromNode_tenant hscope)
  · rw [hentity, hv]
    exact snapshotVersion_ok hversion

/-- The copy of a paragraph row, if it has an identity. -/
theorem snapshotEventForRow_ok {row : Members} {o : Option SyncEvent}
    (h : snapshotEventForRow S cfg s row = .ok o)
    (htenant : ∀ t, boundText (row.getD "tenant_id" .null) = some t → t ∈ tenants) :
    o.isSome = (boundText (row.getD "tenant_id" .null)).isSome ∧
      ∀ e ∈ o, e.address = (.paragraph, .node (S.str (row.getD "id" .null))) ∧
        Copies s tenants e := by
  unfold snapshotEventForRow at h
  cases hbound : boundText (row.getD "tenant_id" .null) with
  | none =>
    rw [hbound] at h
    cases Except.ok.inj h
    exact ⟨rfl, by simp⟩
  | some t =>
    rw [hbound] at h
    cases hid : row.get? "id" with
    | none =>
      rw [hid] at h
      exact absurd h (by simp)
    | some id =>
      rw [hid] at h
      obtain ⟨key, hkey, h⟩ := Except.bind_ok.mp h
      obtain ⟨⟨eventId, version⟩, hversion, h⟩ := Except.bind_ok.mp h
      obtain ⟨scope, hscope, h⟩ := Except.bind_ok.mp h
      obtain ⟨e, he, heq⟩ := Except.bind_ok.mp h
      cases Except.ok.inj heq
      obtain ⟨hentity, hv, hs, hup⟩ := copyEvent_ok he
      have hvalue : row.getD "id" .null = id := by rw [Members.getD, hid, Option.getD_some]
      refine ⟨rfl, ?_⟩
      rintro e' ⟨⟩
      refine ⟨?_, hup, ?_, ?_⟩
      · rw [hvalue, ← SyncEntityKey.node_shape hkey]
        exact congrArg (fun k : Entity => (k.1, k.2.shape)) hentity
      · rw [hs]
        refine htenant _ ?_
        -- A bound tenant is true, so it is the one that the scope is made of.
        have htext := SyncScope.create_tenant hscope
        have hvalue : row.getD "tenant_id" .null = .str t := (boundText_ok hbound).1
        have htrue : Value.truthy (.str t) = true := decide_eq_true ((boundText_ok hbound).2)
        rw [hvalue, pyOr, if_pos htrue] at htext
        rw [hbound, Json.str.inj htext]
      · rw [hentity, hv]
        exact snapshotVersion_ok hversion

/-- The copy of an edge. -/
theorem snapshotEventForEdge_ok {functions : Functions} {edge : GraphEdge} {e : SyncEvent}
    (h : snapshotEventForEdge S cfg s functions edge = .ok e)
    (htenant : ∀ f ∈ functions.rows, ∀ t, boundText f.tenantId = some t → t ∈ tenants) :
    e.address = (.edge, .edge edge.source edge.target edge.edgeType) ∧ Copies s tenants e := by
  unfold snapshotEventForEdge at h
  split at h
  · exact absurd h (by simp)
  next source hsource =>
    obtain ⟨key, hkey, h⟩ := Except.bind_ok.mp h
    obtain ⟨⟨eventId, version⟩, hversion, h⟩ := Except.bind_ok.mp h
    obtain ⟨scope, hscope, h⟩ := Except.bind_ok.mp h
    obtain ⟨hentity, hv, hs, hup⟩ := copyEvent_ok h
    refine ⟨?_, hup, ?_, ?_⟩
    · rw [← SyncEntityKey.edge_shape hkey]
      exact congrArg (fun k : Entity => (k.1, k.2.shape)) hentity
    · rw [hs]
      exact htenant source (findRow_some hsource).1 _ (scopeFromNode_tenant hscope)
    · rw [hentity, hv]
      exact snapshotVersion_ok hversion

/-- Copies that are made one by one. -/
theorem mapM_copies {α : Type} {f : α → Except PyError SyncEvent} {xs : List α}
    {events : List SyncEvent} {what : α → SyncNodeType × EntityShape} (h : xs.mapM f = .ok events)
    (hf : ∀ x ∈ xs, ∀ e, f x = .ok e → e.address = what x ∧ Copies s tenants e) :
    events.map SyncEvent.address = xs.map what ∧ ∀ e ∈ events, Copies s tenants e := by
  have hall := Except.mapM_ok h
  clear h
  induction hall with
  | nil => exact ⟨rfl, by simp⟩
  | @cons x e xs events he _ ih =>
    obtain ⟨hwhat, hcopies⟩ := hf x (List.mem_cons_self ..) e he
    obtain ⟨hmap, hrest⟩ := ih fun y hy => hf y (List.mem_cons_of_mem _ hy)
    exact ⟨by rw [List.map_cons, List.map_cons, hwhat, hmap],
      List.forall_mem_cons.mpr ⟨hcopies, hrest⟩⟩

/-- The copies of the rows that have an identity. -/
theorem mapM_rowCopies {rows : List Members} {copies : List (Option SyncEvent)}
    (h : rows.mapM (snapshotEventForRow S cfg s) = .ok copies)
    (htenant : ∀ row ∈ rows, ∀ t, boundText (row.getD "tenant_id" .null) = some t → t ∈ tenants) :
    (copies.filterMap id).map SyncEvent.address =
        (rows.filter fun row => (boundText (row.getD "tenant_id" .null)).isSome).map
          (fun row => (.paragraph, .node (S.str (row.getD "id" .null)))) ∧
      ∀ e ∈ copies.filterMap id, Copies s tenants e := by
  have hall := Except.mapM_ok h
  clear h
  induction hall with
  | nil => exact ⟨rfl, by simp⟩
  | @cons row o rows copies ho _ ih =>
    obtain ⟨hsome, hcopy⟩ := snapshotEventForRow_ok ho (htenant row (List.mem_cons_self ..))
    obtain ⟨hmap, hrest⟩ := ih fun r hr => htenant r (List.mem_cons_of_mem _ hr)
    cases o with
    | none =>
      rw [List.filter_cons_of_neg (by rw [← hsome]; simp), 
        List.filterMap_cons_none (show id (none : Option SyncEvent) = none from rfl)]
      exact ⟨hmap, hrest⟩
    | some e =>
      obtain ⟨hwhat, hcopies⟩ := hcopy e rfl
      rw [List.filter_cons_of_pos (by rw [← hsome]; rfl), 
        List.filterMap_cons_some (show id (some e) = some e from rfl)]
      exact ⟨by rw [List.map_cons, List.map_cons, hwhat, hmap],
        List.forall_mem_cons.mpr ⟨hcopies, hrest⟩⟩

/-- The copies are of the records, each in its place. -/
theorem copyRecords_ok {b : BusinessState} {events : List SyncEvent}
    (h : copyRecords S cfg s b = .ok events) :
    events.map SyncEvent.address = b.copied S ∧ ∀ e ∈ events, Copies s b.tenants e := by
  have hnode : ∀ n ∈ b.nodes, ∀ t, boundText n.tenantId = some t → t ∈ b.tenants := by
    intro n hn t ht
    exact List.mem_filterMap.mpr ⟨n.tenantId, List.mem_append_left _ (List.mem_map_of_mem hn), ht⟩
  have hrow : ∀ row ∈ b.paragraphRows, ∀ t, boundText (row.getD "tenant_id" .null) = some t →
      t ∈ b.tenants := by
    intro row hr t ht
    exact List.mem_filterMap.mpr ⟨_, List.mem_append_right _ (List.mem_map_of_mem hr), ht⟩
  obtain ⟨functions, hfunctions, h⟩ := Except.bind_ok.mp h
  obtain ⟨facts, hfacts, h⟩ := Except.bind_ok.mp h
  obtain ⟨preferences, hpreferences, h⟩ := Except.bind_ok.mp h
  obtain ⟨observations, hobservations, h⟩ := Except.bind_ok.mp h
  obtain ⟨paragraphs, hparagraphs, h⟩ := Except.bind_ok.mp h
  obtain ⟨edges, hedges, heq⟩ := Except.bind_ok.mp h
  cases Except.ok.inj heq
  have hfunction : ∀ f ∈ b.functions.rows, f.toMemoryNode ∈ b.nodes := fun f hf => by
    simp only [BusinessState.nodes, List.mem_append, List.mem_map]
    exact .inl (.inl (.inl ⟨f, hf, rfl⟩))
  have hfact : ∀ f ∈ b.facts.rows, f.toMemoryNode ∈ b.nodes := fun f hf => by
    simp only [BusinessState.nodes, List.mem_append, List.mem_map]
    exact .inl (.inl (.inr ⟨f, hf, rfl⟩))
  have hpreference : ∀ p ∈ b.preferences.rows, p.toMemoryNode ∈ b.nodes := fun p hp => by
    simp only [BusinessState.nodes, List.mem_append, List.mem_map]
    exact .inl (.inr ⟨p, hp, rfl⟩)
  have hobservation : ∀ o ∈ b.observations, o.toMemoryNode ∈ b.nodes := fun o ho => by
    simp only [BusinessState.nodes, List.mem_append, List.mem_map]
    exact .inr ⟨o, ho, rfl⟩
  obtain ⟨hm₁, hc₁⟩ := mapM_copies hfunctions fun f hf e he =>
    snapshotEventForNode_ok he (hnode _ (hfunction f hf))
  obtain ⟨hm₂, hc₂⟩ := mapM_copies hfacts fun f hf e he =>
    snapshotEventForNode_ok he (hnode _ (hfact f hf))
  obtain ⟨hm₃, hc₃⟩ := mapM_copies hpreferences fun p hp e he =>
    snapshotEventForNode_ok he (hnode _ (hpreference p hp))
  obtain ⟨hm₄, hc₄⟩ := mapM_copies hobservations fun o ho e he =>
    snapshotEventForNode_ok he (hnode _ (hobservation o ho))
  obtain ⟨hm₅, hc₅⟩ := mapM_rowCopies hparagraphs hrow
  obtain ⟨hm₆, hc₆⟩ := mapM_copies hedges fun x _ e he =>
    snapshotEventForEdge_ok he fun f hf => hnode _ (hfunction f hf)
  constructor
  · simp only [List.map_append, hm₁, hm₂, hm₃, hm₄, hm₅, hm₆, BusinessState.copied]
  · intro e he
    simp only [List.mem_append] at he
    rcases he with ((((he | he) | he) | he) | he) | he
    exacts [hc₁ e he, hc₂ e he, hc₃ e he, hc₄ e he, hc₅ e he, hc₆ e he]

/-- A state that a snapshot has bound is bound to the one tenant of its copies. -/
theorem bindRecords_copies {st : LiteStore} {tenantId : Option String} {sync : SyncState}
    (hassert : st.assertSingleTenant = .ok tenantId)
    (hbind : st.sync.bindRecords tenantId = .ok sync) {t : String} (ht : t ∈ st.business.tenants) :
    sync.tenantBinding = some t := by
  obtain ⟨_, hsingle, heq⟩ := Except.bind_ok.mp hassert
  have hhead := ((require_ok.mp hsingle) t ht).1
  cases Except.ok.inj heq
  rw [← hhead, Option.some_or] at hbind
  obtain ⟨rfl, -⟩ := SyncState.bindTenant_ok hbind
  rfl

/-- What a snapshot copies: every record once, as an upsert of the tenant that is bound from then
on, under the version of its entity. -/
theorem currentSnapshotEvents_ok {st : LiteStore} {sync : SyncState} {events : List SyncEvent}
    (h : currentSnapshotEvents S cfg st = .ok (sync, events)) :
    (∃ tenantId, st.sync.bindRecords tenantId = .ok sync) ∧
      (events.map SyncEvent.address).Perm (st.business.copied S) ∧
      (∀ e ∈ events, sync.tenantBinding = some e.scope.tenantId) ∧
      ∀ e ∈ events, Copies sync st.business.tenants e := by
  obtain ⟨tenantId, hassert, h⟩ := Except.bind_ok.mp h
  obtain ⟨bound, hbind, h⟩ := Except.bind_ok.mp h
  obtain ⟨copies, hcopies, heq⟩ := Except.bind_ok.mp h
  obtain ⟨rfl, rfl⟩ := Prod.mk.inj (Except.ok.inj heq)
  obtain ⟨hmap, hall⟩ := copyRecords_ok hcopies
  have hperm := List.mergeSort_perm copies SyncState.snapshotOrder
  refine ⟨⟨tenantId, hbind⟩, ?_, fun e he => ?_, fun e he => hall e (hperm.mem_iff.mp he)⟩
  · rw [← hmap]
    exact hperm.map _
  · exact bindRecords_copies hassert hbind (hall e (hperm.mem_iff.mp he)).tenant

/-- A snapshot of the records is a snapshot of their copies. -/
theorem newSnapshot_ok {st : LiteStore} {now : Instant} {sync : SyncState} {row : SnapshotRow}
    {remoteId consumerId requestId snapshotId : String}
    (h : st.newSnapshot S cfg now remoteId consumerId requestId snapshotId = .ok (sync, row)) :
    ∃ tenantId bound events, currentSnapshotEvents S cfg st = .ok (bound, events) ∧
      st.sync.bindRecords tenantId = .ok bound ∧
      st.sync.admitSnapshot cfg now remoteId consumerId requestId tenantId events snapshotId =
        .ok (sync, row) := by
  obtain ⟨_, hremote, h⟩ := Except.bind_ok.mp h
  obtain ⟨_, hactive, h⟩ := Except.bind_ok.mp h
  obtain ⟨⟨bound, events⟩, hcopy, h⟩ := Except.bind_ok.mp h
  obtain ⟨_, hlarge, heq⟩ := Except.bind_ok.mp h
  obtain ⟨⟨tenantId, hbind⟩, -⟩ := currentSnapshotEvents_ok hcopy
  refine ⟨tenantId, bound, events, hcopy, hbind, ?_⟩
  refine Except.bind_ok.mpr ⟨(), hremote, Except.bind_ok.mpr ⟨(), hactive, ?_⟩⟩
  exact Except.bind_ok.mpr ⟨bound, hbind, Except.bind_ok.mpr ⟨(), hlarge, heq⟩⟩

theorem SyncSnapshotPage.check_ok {p q : SyncSnapshotPage} (h : p.check = .ok q) :
    q = p ∧ (p.events.map SyncEvent.entity).IsChain fun k k' => anchorBefore k k' = true := by
  obtain ⟨_, horder, h⟩ := Except.bind_ok.mp h
  obtain ⟨_, -, h⟩ := Except.bind_ok.mp h
  obtain ⟨_, -, heq⟩ := Except.bind_ok.mp h
  exact ⟨(Except.ok.inj heq).symm, require_ok.mp horder⟩

/-- A created snapshot is one of the copies of the records, unless the request has one already. -/
theorem syncCreateSnapshot_ok {st st' : LiteStore} {now : Instant} {limit : ℕ}
    {remoteId consumerId requestId snapshotId : String} {p : SyncSnapshotPage}
    (h : syncCreateSnapshot S cfg st now remoteId consumerId requestId limit snapshotId =
      .ok (st', p)) :
    st'.business = st.business ∧ ∃ tenantId events,
      st.sync.createSnapshot cfg now remoteId consumerId requestId limit tenantId events
        snapshotId = .ok (st'.sync, p) := by
  obtain ⟨_, hremote, h⟩ := Except.bind_ok.mp h
  obtain ⟨_, hconsumer, h⟩ := Except.bind_ok.mp h
  obtain ⟨_, hrequest, h⟩ := Except.bind_ok.mp h
  obtain ⟨_, hlimit, h⟩ := Except.bind_ok.mp h
  obtain ⟨⟨sync, row⟩, hopen, h⟩ := Except.bind_ok.mp h
  obtain ⟨page, hpage, heq⟩ := Except.bind_ok.mp h
  obtain ⟨rfl, -⟩ := SyncSnapshotPage.check_ok hpage
  cases Except.ok.inj heq
  refine ⟨rfl, ?_⟩
  have hopened : ∃ tenantId events, (st.sync.cleanupExpiredSnapshots now).openSnapshot cfg now
      remoteId consumerId requestId tenantId events snapshotId = .ok (sync, row) := by
    unfold LiteStore.openSnapshot at hopen
    unfold SyncState.openSnapshot
    split at hopen
    next found hfound =>
      refine ⟨none, [], ?_⟩
      rw [hfound]
      exact hopen
    next hnone =>
      obtain ⟨tenantId, bound, events, -, -, hadmit⟩ := newSnapshot_ok hopen
      refine ⟨tenantId, events, ?_⟩
      rw [hnone]
      exact hadmit
  obtain ⟨tenantId, events, hopened⟩ := hopened
  refine ⟨tenantId, events, ?_⟩
  refine Except.bind_ok.mpr ⟨(), hremote, Except.bind_ok.mpr ⟨(), hconsumer, ?_⟩⟩
  refine Except.bind_ok.mpr ⟨(), hrequest, Except.bind_ok.mpr ⟨(), hlimit, ?_⟩⟩
  exact Except.bind_ok.mpr ⟨(sync, row), hopened, rfl⟩

end Spec

end Memplex
